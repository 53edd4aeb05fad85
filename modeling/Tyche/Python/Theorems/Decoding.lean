import Tyche.Python.Theorems.Message

-- What the values that are decoded have in common.
namespace Python

open Msgpack

namespace Value

mutual

-- Floats are those of their type, and the keys of a dictionary are different.
def Decoded : Value → Prop
  | .float x _ => x.toDouble = x
  | .list l    => DecodedItems l
  | .dict es   => (es.map Prod.fst).Nodup ∧ DecodedEntries es
  | _          => True

def DecodedItems : List Value → Prop
  | []     => True
  | v :: l => v.Decoded ∧ DecodedItems l

def DecodedEntries : List (Key × Value) → Prop
  | []           => True
  | (_, v) :: es => v.Decoded ∧ DecodedEntries es

end

variable {v : Value} {es es' : List (Key × Value)} {k : Key}

theorem decodedEntries_iff : DecodedEntries es ↔ ∀ e ∈ es, e.2.Decoded := by
  induction es
  case nil          => exact iff_of_true trivial nofun
  case cons e es hi => rw [List.forall_mem_cons, ← hi]; rfl

theorem DecodedEntries.subset (h : DecodedEntries es) (hs : es' ⊆ es) : DecodedEntries es' :=
  decodedEntries_iff.mpr fun e he => decodedEntries_iff.mp h e <| hs he

theorem IsDecimal.decoded (h : v.IsDecimal) : v.Decoded := by
  cases v
  case decimal      => trivial
  case signalingNaN => trivial
  all_goals cases h

end Value

open Value

variable {n : ℕ} {v : Value} {es : List (Key × Value)}

theorem mem_dictOf {e : Key × Value} (h : e ∈ dictOf es) : e ∈ es :=
  (Dict.mem_entries_foldl_set h).resolve_left nofun

theorem nodup_dictOf : ((dictOf es).map Prod.fst).Nodup :=
  Dict.nodup _

theorem decoded_decodeExt {code : UInt8} {data : Bytes} (h : decodeExt code data = .ok v) :
    v.Decoded := by
  have ht {s : ℤ} {m : ℕ} (h : (if m < 10 ^ 9 then .ok <| .timestamp s m else .error .valueError :
      Except Error Value) = .ok v) : v.Decoded := by
    split at h
    case isTrue  => cases h; trivial
    case isFalse => cases h
  unfold decodeExt at h
  dsimp only at h
  split at h
  case isTrue  => cases h; trivial
  case isFalse =>
    split at h
    case isFalse => cases h
    case isTrue  =>
      split at h
      case h_4 => cases h
      all_goals exact ht h

theorem decoded_decodeDecimal (he : DecodedEntries es) (h : decodeDecimal n (dictOf es) = .ok v) :
    v.Decoded := by
  rw [decodeDecimal] at h
  split at h
  case h_1 => exact (isDecimal_decimalOf h).decoded
  case h_2 =>
    cases h
    exact ⟨nodup_dictOf, he.subset fun _ => mem_dictOf⟩

-- Whether a float is one of the 64-bit format.
abbrev IsDouble (x : Floating) : Prop :=
  x.toDouble = x

mutual

theorem decoded_decodeObject : ∀ {n : ℕ} {o : Object} {v : Value}, o.Floats IsDouble →
    decodeObject n o = .ok v → v.Decoded
  | _, .nil, _, _, h      => by cases h; trivial
  | _, .bool _, _, _, h   => by cases h; trivial
  | _, .uint _, _, _, h   => by cases h; trivial
  | _, .int _, _, _, h    => by cases h; trivial
  | _, .float _, _, hf, h => by cases h; exact hf
  | _, .str _, _, _, h    => by
    rw [decodeObject] at h
    split at h
    case isTrue  => cases h; trivial
    case isFalse => cases h
  | _, .bin _, _, _, h    => by cases h; trivial
  | _, .ext .., _, _, h   => decoded_decodeExt h
  | n, .array l, _, hf, h => by
    rw [decodeObject, bind_eq_ok] at h
    obtain ⟨vs, hl, ⟨⟩⟩ := h
    exact decoded_decodeItems hf hl
  | n, .map kvs, _, hf, h => by
    rw [decodeObject, bind_eq_ok] at h
    obtain ⟨es, hs, h⟩ := h
    exact decoded_decodeDecimal (decoded_decodeEntries hf hs) h

theorem decoded_decodeItems : ∀ {n : ℕ} {l : List Object} {vs : List Value},
    Object.FloatsItems IsDouble l → decodeItems n l = .ok vs → DecodedItems vs
  | _, [], _, _, h      => by cases h; trivial
  | _, o :: l, _, hf, h => by
    rw [decodeItems, bind_eq_ok] at h
    obtain ⟨v, hv, h⟩ := h
    rw [bind_eq_ok] at h
    obtain ⟨vs, hl, ⟨⟩⟩ := h
    exact ⟨decoded_decodeObject hf.left hv, decoded_decodeItems hf.right hl⟩

theorem decoded_decodeEntries : ∀ {n : ℕ} {kvs : List (Object × Object)} {es : List (Key × Value)},
    Object.FloatsEntries IsDouble kvs → decodeEntries n kvs = .ok es → DecodedEntries es
  | _, [], _, _, h             => by cases h; trivial
  | _, (k, o) :: kvs, _, hf, h => by
    rw [decodeEntries, bind_eq_ok] at h
    obtain ⟨k', -, h⟩ := h
    rw [bind_eq_ok] at h
    obtain ⟨v, hv, h⟩ := h
    rw [bind_eq_ok] at h
    obtain ⟨key, -, h⟩ := h
    rw [bind_eq_ok] at h
    obtain ⟨es, hs, ⟨⟩⟩ := h
    exact ⟨decoded_decodeObject hf.right.left hv, decoded_decodeEntries hf.right.right hs⟩

end

theorem decodedEntries_lookup {key : Key} (h : DecodedEntries es) (hv : es.lookup key = some v) :
    v.Decoded :=
  decodedEntries_iff.mp h _ <| List.mem_of_lookup_eq_some hv

theorem decoded_subscript {key : String} {obj : Value} (h : obj.Decoded)
    (hv : subscript key obj = .ok v) : v.Decoded := by
  unfold subscript at hv
  split at hv
  case h_2 => cases hv
  case h_1 =>
    split at hv
    case h_1 he => cases hv; exact decodedEntries_lookup h.right he
    case h_2    => cases hv

theorem decoded_get {key : String} {obj : Value} (h : obj.Decoded) (hv : get key obj = .ok v) :
    v.Decoded := by
  unfold get Value.get at hv
  split at hv
  case h_2 => cases hv
  case h_1 d =>
    cases hv
    cases he : d.lookup (.str <| utf8 key)
    case none   => trivial
    case some w => exact decodedEntries_lookup h.right he

-- The fields of a message that can be of any type.
def FullMessage.anyFields (msg : FullMessage) : List Value :=
  [msg.sender, msg.event, msg.payload, msg.recipient, msg.timestamp, msg.correlationId,
    msg.waitTimeout, msg.runTimeout]

theorem decoded_deserializeObject {obj : Value} {msg : FullMessage} (h : obj.Decoded)
    (hm : deserializeObject obj = .ok msg) : ∀ v ∈ msg.anyFields, v.Decoded := by
  simp only [deserializeObject, bind_eq_ok] at hm
  obtain ⟨t, ht, mt, -, s, hs, e, he, p, hp, r, hr, d, hd, dl, -, ts, hts, c, hc, w, hw, ru, hru, ⟨⟩⟩ :=
    hm
  simp only [FullMessage.anyFields, List.forall_mem_cons]
  exact ⟨decoded_subscript h hs, decoded_subscript h he, decoded_subscript h hp, decoded_get h hr,
    decoded_get h hts, decoded_get h hc, decoded_get h hw, decoded_get h hru, List.forall_mem_nil _⟩

-- What can be decoded from tokens whose floats are of the 64-bit format.
def Received (msg : FullMessage) : Prop :=
  ∃ n ts, (∀ x, .float x ∈ ts → IsDouble x) ∧ deserialize n ts = .ok msg

theorem Received.decoded {msg : FullMessage} (h : Received msg) : ∀ v ∈ msg.anyFields, v.Decoded := by
  obtain ⟨n, ts, hf, h⟩ := h
  simp only [deserialize, bind_eq_ok] at h
  obtain ⟨o, ho, obj, hd, h⟩ := h
  refine decoded_deserializeObject (decoded_decodeObject ?_ hd) h
  unfold unpackb at ho
  split at ho
  case h_2 => cases ho
  case h_1 o' hp =>
    cases ho
    exact floats_parse hf _ <| hp ▸ .head _

end Python
