import Tyche.Cpp.Theorems.Serialization
import Tyche.Python.Theorems.Message
import Tyche.Python.Theorems.Values

open Msgpack

-- A map whose keys are strings.
def strings (kvs : List (Bytes × Object)) : List (Object × Object) :=
  kvs.map fun e => (.str e.1, e.2)

-- A message as it is sent. Both it and its payload are maps whose keys are strings.
structure PackedMessage where
  fields         : List (Bytes × Object)
  payload        : List (Bytes × Object)
  fields_nodup   : (fields.map Prod.fst).Nodup
  payload_nodup  : (payload.map Prod.fst).Nodup
  lookup_payload : fields.lookup (utf8 "payload") = some (.map <| strings payload)

namespace Python

variable {n : ℕ} {kvs : List (Bytes × Object)} {k : Bytes} {o : Object}

theorem decodeEntries_cons_eq_ok {kvs : List (Object × Object)} {es : List (Key × Value)}
    (h : decodeEntries n ((.str k, o) :: kvs) = .ok es) :
    ∃ v es', decodeObject (n + 1) o = .ok v ∧
      decodeEntries (n + 1 + o.weight) kvs = .ok es' ∧ es = (.str k, v) :: es' := by
  by_cases hk : IsUtf8 k
  case pos => exact (decodeEntries_cons hk).mp h
  case neg =>
    rw [decodeEntries, decodeObject, if_neg hk] at h
    cases h

theorem map_fst_decodeEntries {es : List (Key × Value)}
    (h : decodeEntries n (strings kvs) = .ok es) :
    es.map Prod.fst = (kvs.map Prod.fst).map Key.str := by
  induction kvs generalizing n es
  case nil           => cases h; rfl
  case cons e kvs hi =>
    obtain ⟨v, es', -, he, rfl⟩ := decodeEntries_cons_eq_ok h
    rw [List.map_cons, hi he]
    rfl

-- What a key is looked up as.
theorem lookup_decodeEntries {es : List (Key × Value)}
    (h : decodeEntries n (strings kvs) = .ok es) :
    (kvs.lookup k = none ∧ es.lookup (.str k) = none) ∨
    ∃ o p v, kvs.lookup k = some o ∧ decodeObject p o = .ok v ∧ es.lookup (.str k) = some v := by
  induction kvs generalizing n es
  case nil           => cases h; exact .inl ⟨rfl, rfl⟩
  case cons e kvs hi =>
    obtain ⟨v, es', hv, he, rfl⟩ := decodeEntries_cons_eq_ok h
    rw [List.lookup_cons, List.lookup_cons]
    by_cases hk : k = e.1
    case pos =>
      subst hk
      exact .inr ⟨_, _, _, by rw [beq_self_eq_true], hv, by rw [beq_self_eq_true]⟩
    case neg =>
      have hs : Key.str k ≠ .str e.1 := fun he => hk <| Key.str.inj he
      rw [beq_false_of_ne hk, beq_false_of_ne hs]
      exact hi he

theorem decode_strings {es : List (Key × Value)} (hn : (kvs.map Prod.fst).Nodup)
    (h : decodeObject n (.map <| strings kvs) = .ok (.dict es)) :
    decodeEntries (n + 1) (strings kvs) = .ok es := by
  rw [decodeObject] at h
  obtain ⟨es', he, hd⟩ := bind_eq_ok.mp h
  have hk : (es'.map Prod.fst).Nodup := by
    rw [map_fst_decodeEntries he]
    exact hn.map fun _ _ => Key.str.inj
  rw [dictOf_eq hk, decodeDecimal_eq_dict] at hd
  rw [he, hd.right]

theorem subscript_eq_ok {key : String} {obj v : Value} (h : subscript key obj = .ok v) :
    ∃ es, obj = .dict es ∧ es.lookup (.str <| utf8 key) = some v := by
  cases obj
  case dict es =>
    refine ⟨es, rfl, ?_⟩
    unfold subscript at h
    dsimp only at h
    split at h
    case h_1 e => cases h; exact e
    case h_2   => cases h
  all_goals cases h

theorem deserializeObject_eq_ok {obj : Value} {m : FullMessage}
    (h : deserializeObject obj = .ok m) :
    ∃ v, subscript "msg_type" obj = .ok v ∧ messageType v = .ok m.msgType ∧
      subscript "payload" obj = .ok m.payload := by
  unfold deserializeObject at h
  simp only [bind_eq_ok] at h
  obtain ⟨v, hv, _, ht, _, -, _, -, payload, hp, _, -, _, -, _, -, _, -, _, -, _, -, _, -, h⟩ := h
  cases h
  exact ⟨v, hv, ht, hp⟩

section Packed

variable {r : PackedMessage} {ts : List Token} {m : FullMessage}

theorem fields_eq (hu : unpackb ts = .ok (.map <| strings r.fields))
    (h : deserialize n ts = .ok m) :
    ∃ p es, decodeEntries p (strings r.fields) = .ok es ∧ deserializeObject (.dict es) = .ok m := by
  obtain ⟨_, ⟨⟩, h⟩ := bind_eq_ok.mp <| (congrArg (· >>= _) hu).symm.trans h
  obtain ⟨obj, ho, hm⟩ := bind_eq_ok.mp h
  obtain ⟨_, hp, -, -⟩ := deserializeObject_eq_ok hm
  obtain ⟨es, rfl, -⟩ := subscript_eq_ok hp
  exact ⟨_, es, decode_strings r.fields_nodup ho, hm⟩

-- The payload of a decoded message has the entries that were sent in it.
theorem payload_eq (hu : unpackb ts = .ok (.map <| strings r.fields))
    (h : deserialize n ts = .ok m) (hd : m.payload.IsDict) :
    ∃ p es, m.payload = .dict es ∧ decodeEntries p (strings r.payload) = .ok es := by
  obtain ⟨p, es, he, hm⟩ := fields_eq hu h
  obtain ⟨_, -, -, hp⟩ := deserializeObject_eq_ok hm
  obtain ⟨_, ⟨⟩, hp⟩ := subscript_eq_ok hp
  obtain ⟨hn, -⟩ | ⟨o, p, v, hf, hv, hl⟩ := lookup_decodeEntries (k := utf8 "payload") he
  case inl => rw [r.lookup_payload] at hn; cases hn
  case inr =>
    cases hl.symm.trans hp
    cases r.lookup_payload.symm.trans hf
    cases hm : m.payload
    case dict es' =>
      rw [hm] at hv
      exact ⟨_, es', rfl, decode_strings r.payload_nodup hv⟩
    all_goals
      rw [hm] at hd
      exact hd.elim

theorem msgType_eq {t : MessageType} (hu : unpackb ts = .ok (.map <| strings r.fields))
    (h : deserialize n ts = .ok m)
    (ht : r.fields.lookup (utf8 "msg_type") = some (.str <| messageTypeValue t)) :
    m.msgType = t := by
  obtain ⟨p, es, he, hm⟩ := fields_eq hu h
  obtain ⟨v, hv, hm, -⟩ := deserializeObject_eq_ok hm
  obtain ⟨_, ⟨⟩, hv⟩ := subscript_eq_ok hv
  obtain ⟨hn, -⟩ | ⟨o, p, w, hf, hw, hl⟩ := lookup_decodeEntries (k := utf8 "msg_type") he
  case inl => rw [ht] at hn; cases hn
  case inr =>
    cases hl.symm.trans hv
    cases ht.symm.trans hf
    rw [TypedMessage.decode_str TypedMessage.isUtf8_messageTypeValue] at hw
    cases hw
    exact Except.ok.inj <| hm.symm.trans TypedMessage.messageType_value

end Packed

end Python

namespace Cpp

variable {kvs : List (Bytes × Object)} {k : Bytes} {m m' : Message}

theorem lookup_set {v : Any} {j : Bytes} {p : Payload} :
    (Payload.set k v p).lookup j = if j = k then some v else p.lookup j := by
  induction p
  case nil         => rw [Payload.set, List.lookup_cons_ite]
  case cons e p hi =>
    rw [Payload.set]
    by_cases he : e.1 = k
    case pos =>
      rw [if_pos he, List.lookup_cons_ite, ← he, List.lookup_cons_ite]
      split <;> rfl
    case neg =>
      rw [if_neg he, List.lookup_cons_ite, hi, List.lookup_cons_ite]
      by_cases h : j = k
      case pos => rw [if_pos h, if_pos h, if_neg <| h ▸ Ne.symm he]
      case neg => rw [if_neg h, if_neg h]

theorem lookup_unpackPayload {p p' : Payload} (hn : (kvs.map Prod.fst).Nodup)
    (h : unpackPayload p (strings kvs) = some p') :
    (kvs.lookup k = none ∧ p'.lookup k = p.lookup k) ∨
    ∃ o v, kvs.lookup k = some o ∧ unpackObject o = some v ∧ p'.lookup k = some v := by
  induction kvs generalizing p
  case nil           => cases h; exact .inl ⟨rfl, rfl⟩
  case cons e kvs hi =>
    obtain ⟨j, o⟩ := e
    rw [List.map_cons, List.nodup_cons] at hn
    rw [strings, List.map_cons, unpackPayload] at h
    cases hv : unpackObject o
    case none   => rw [hv] at h; cases h
    case some v =>
      rw [hv] at h
      have hi := hi hn.right h
      rw [List.lookup_cons]
      by_cases hk : k = j
      case pos =>
        subst hk
        have hl : kvs.lookup k = none := List.lookup_eq_none_iff_not_mem.mpr hn.left
        refine .inr ⟨o, v, by rw [beq_self_eq_true], hv, ?_⟩
        obtain ⟨-, hp⟩ | ⟨o', -, ho, -⟩ := hi
        case inl => rw [hp, lookup_set, if_pos rfl]
        case inr => rw [hl] at ho; cases ho
      case neg =>
        rw [beq_false_of_ne hk]
        rwa [lookup_set, if_neg hk] at hi

section Reads

variable {σ β : Type} {f : σ → Object × Object → Option σ} {key : String} {get : σ → β}
variable {read : Object → β → Option β} {s s' : σ}

-- A part of what is read from a map that depends on one entry only.
structure Reads (f : σ → Object × Object → Option σ) (key : String) (get : σ → β)
    (read : Object → β → Option β) : Prop where
  self : ∀ s o s', f s (.str <| utf8 key, o) = some s' → read o (get s) = some (get s')
  ne   : ∀ s k o s', k ≠ utf8 key → f s (.str k, o) = some s' → get s' = get s

theorem Reads.foldlM (hr : Reads f key get read) (hn : (kvs.map Prod.fst).Nodup)
    (h : (strings kvs).foldlM f s = some s') :
    (kvs.lookup (utf8 key)).elim (get s' = get s) (read · (get s) = some (get s')) := by
  induction kvs generalizing s
  case nil           => cases h; rfl
  case cons e kvs hi =>
    obtain ⟨j, o⟩ := e
    rw [List.map_cons, List.nodup_cons] at hn
    obtain ⟨s₁, h₁, h⟩ := Option.bind_eq_some_iff.mp h
    have hi := hi hn.right h
    rw [List.lookup_cons]
    by_cases hk : utf8 key = j
    case pos =>
      subst hk
      have hl : kvs.lookup (utf8 key) = none := List.lookup_eq_none_iff_not_mem.mpr hn.left
      rw [hl, Option.elim_none] at hi
      rw [beq_self_eq_true, Option.elim_some, hr.self _ _ _ h₁, hi]
    case neg =>
      rw [beq_false_of_ne hk, ← hr.ne _ _ _ _ (Ne.symm hk) h₁]
      exact hi

end Reads

theorem reads_payload : Reads readField "payload" Message.payload fun o p => match o with
    | .map kvs => unpackPayload p kvs
    | _        => some p where
  self m o m' h := by
    simp +decide only [readField, if_true, if_false] at h
    split at h
    case h_1 kvs =>
      obtain ⟨p, hp, rfl⟩ := Option.map_eq_some_iff.mp h
      exact hp
    case h_2 ho  =>
      cases h
      cases o
      case map => exact absurd rfl <| ho _
      all_goals rfl
  ne _ _ _ _ hk h := (Message.readsOnly_of_readField h).payload hk

variable {r : PackedMessage} {ts : List Token}

-- A stream that is one object begins with it.
theorem unpack_of_unpackb {o : Object} (hu : Python.unpackb ts = .ok o) : unpack ts = some o := by
  unfold Python.unpackb at hu
  split at hu
  case h_1 hp => cases hu; rw [unpack, hp]; rfl
  case h_2    => cases hu

theorem foldlM_of_deserialize (hu : Python.unpackb ts = .ok (.map <| strings r.fields))
    (h : deserialize ts = some m) : (strings r.fields).foldlM readField {} = some m := by
  unfold deserialize at h
  rwa [unpack_of_unpackb hu] at h

end Cpp
