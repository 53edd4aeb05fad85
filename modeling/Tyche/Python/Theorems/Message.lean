import Tyche.Python.Message

namespace Python

open Msgpack

namespace Datum

mutual

-- What a datum is in the msgpack format.
def object : Datum → Object
  | .none      => .nil
  | .bool b    => .bool b
  | .int i     => if 0 ≤ i then .uint <| .ofInt 64 i else .int <| .ofInt 64 i
  | .float x   => .float <| .fin x
  | .decimal d => .map [(.str <| utf8 "__decimal__", .str d.str)]
  | .str s     => .str s
  | .list l    => .array (objects l)
  | .dict es   => .map (objectEntries es)

def objects : List Datum → List Object
  | []     => []
  | d :: l => d.object :: objects l

def objectEntries : List (Bytes × Datum) → List (Object × Object)
  | []           => []
  | (k, d) :: es => (.str k, d.object) :: objectEntries es

end

mutual

def value : Datum → Value
  | .none      => .none
  | .bool b    => .bool b
  | .int i     => .int i
  | .float x   => .float (.fin x) 0
  | .decimal d => .decimal (.fin d.value) 0
  | .str s     => .str s
  | .list l    => .list (values l)
  | .dict es   => .dict (valueEntries es)

def values : List Datum → List Value
  | []     => []
  | d :: l => d.value :: values l

def valueEntries : List (Bytes × Datum) → List (Key × Value)
  | []           => []
  | (k, d) :: es => (.str k, d.value) :: valueEntries es

end

-- A string whose length the format can hold.
def IsStr (s : Bytes) : Prop :=
  IsUtf8 s ∧ s.length < 2 ^ 32

mutual

-- The integers have 64 bits, the keys of a dictionary are distinct, and the format can hold the
-- lengths.
def WellFormed : Datum → Prop
  | .int i     => -2 ^ 63 ≤ i ∧ i < 2 ^ 64
  | .decimal d => d.str.length < 2 ^ 32
  | .str s     => IsStr s
  | .list l    => l.length < 2 ^ 32 ∧ WellFormedItems l
  | .dict es   => es.length < 2 ^ 32 ∧ (es.map Prod.fst).Nodup ∧ WellFormedEntries es
  | _          => True

def WellFormedItems : List Datum → Prop
  | []     => True
  | d :: l => d.WellFormed ∧ WellFormedItems l

def WellFormedEntries : List (Bytes × Datum) → Prop
  | []           => True
  | (k, d) :: es => IsStr k ∧ d.WellFormed ∧ WellFormedEntries es

end

mutual

-- No dictionary has a key that looks like the tag of a decimal.
def Untagged : Datum → Prop
  | .list l  => UntaggedItems l
  | .dict es => utf8 "__decimal__" ∉ es.map Prod.fst ∧ UntaggedEntries es
  | _        => True

def UntaggedItems : List Datum → Prop
  | []     => True
  | d :: l => d.Untagged ∧ UntaggedItems l

def UntaggedEntries : List (Bytes × Datum) → Prop
  | []           => True
  | (_, d) :: es => d.Untagged ∧ UntaggedEntries es

end

variable {d : Datum} {l : List Datum} {es : List (Bytes × Datum)} {s : Bytes} {i : ℤ} {n : ℕ}

theorem length_objects : (objects l).length = l.length := by
  induction l
  case nil         => rfl
  case cons d l hi => rw [objects, List.length_cons, List.length_cons, hi]

theorem length_flattened : (flattened (objectEntries es)).length = 2 * es.length := by
  induction es
  case nil          => rfl
  case cons e es hi =>
    rw [objectEntries, List.length_cons, Nat.mul_succ, ← hi]
    rfl

theorem packStr_eq (h : s.length < 2 ^ 32) : packStr s = some (.str s) :=
  if_pos h

-- The tokens that are packed are those of the object, whatever follows them.
def Packs (ts : List Token) (o : Object) : Prop :=
  ∀ us, parse (ts ++ us) = some o :: parse us

theorem packs_scalar {t : Token} (h : t.arity = 0) : Packs [t] (t.object []) :=
  fun _ => parse_scalar h

theorem packs_int (h : -2 ^ 63 ≤ i ∧ i < 2 ^ 64) :
    ∃ ts, (Datum.int i).pack = some ts ∧ Packs ts (Datum.int i).object := by
  unfold Datum.pack packInt object
  by_cases hi : 0 ≤ i
  case pos =>
    rw [if_pos ⟨hi, h.right⟩, if_pos hi]
    exact ⟨_, rfl, packs_scalar rfl⟩
  case neg =>
    rw [if_neg fun h' => hi h'.left, if_pos ⟨h.left, Int.not_le.mp hi⟩, if_neg hi]
    exact ⟨_, rfl, packs_scalar rfl⟩

mutual

theorem exists_pack : ∀ {d : Datum}, d.WellFormed → ∃ ts, d.pack = some ts ∧ Packs ts d.object
  | .none, _      => ⟨_, by rw [pack], packs_scalar rfl⟩
  | .bool _, _    => ⟨_, by rw [pack], packs_scalar rfl⟩
  | .float _, _   => ⟨_, by rw [pack], packs_scalar rfl⟩
  | .int _, h     => packs_int h
  | .str _, h     => ⟨_, by rw [pack, packStr_eq h.right]; rfl, packs_scalar rfl⟩
  | .decimal d, h => by
    refine ⟨[.map 1, .str <| utf8 "__decimal__", .str d.str], ?_, fun us => ?_⟩
    · rw [pack, packStr_eq h, Option.map_some]
    · have hs := packs_scalar (t := .str <| utf8 "__decimal__") rfl <| .str d.str :: us
      have hd := packs_scalar (t := .str d.str) rfl us
      have hp : parse (.str (utf8 "__decimal__") :: .str d.str :: us) =
          [.str <| utf8 "__decimal__", .str d.str].map some ++ parse us :=
        hs.trans <| congrArg (_ :: ·) hd
      exact parse_container hp rfl
  | .list l, h    => by
    obtain ⟨ts, ht, hp⟩ := exists_packItems h.right
    refine ⟨.array (.ofNat 32 l.length) :: ts, by rw [pack, ht]; exact if_pos h.left, fun us => ?_⟩
    refine parse_container (hp us) ?_
    rw [Token.arity, BitVec.toNat_ofNat, Nat.mod_eq_of_lt h.left, length_objects]
  | .dict es, h   => by
    obtain ⟨ts, ht, hp⟩ := exists_packEntries h.right.right
    refine ⟨.map (.ofNat 32 es.length) :: ts, by rw [pack, ht]; exact if_pos h.left, fun us => ?_⟩
    rw [List.cons_append, parse_container (hp us), Token.object, pairs_flattened, object]
    rw [Token.arity, BitVec.toNat_ofNat, Nat.mod_eq_of_lt h.left, length_flattened]

theorem exists_packItems : ∀ {l : List Datum}, WellFormedItems l → ∃ ts, packItems l = some ts ∧
    ∀ us, parse (ts ++ us) = (objects l).map some ++ parse us
  | [], _     => ⟨[], by rw [packItems], fun _ => by rw [objects]; rfl⟩
  | d :: l, h => by
    obtain ⟨ts, ht, hp⟩ := exists_pack h.left
    obtain ⟨us, hu, hq⟩ := exists_packItems h.right
    refine ⟨ts ++ us, by simp [packItems, ht, hu], fun vs => ?_⟩
    rw [List.append_assoc, hp, hq, objects, List.map_cons, List.cons_append]

theorem exists_packEntries : ∀ {es : List (Bytes × Datum)}, WellFormedEntries es →
    ∃ ts, packEntries es = some ts ∧
      ∀ us, parse (ts ++ us) = (flattened <| objectEntries es).map some ++ parse us
  | [], _           => ⟨[], by rw [packEntries], fun _ => by rw [objectEntries]; rfl⟩
  | (k, d) :: es, h => by
    obtain ⟨ts, ht, hp⟩ := exists_pack h.right.left
    obtain ⟨us, hu, hq⟩ := exists_packEntries h.right.right
    refine ⟨.str k :: (ts ++ us), by simp [packEntries, packStr_eq h.left.right, ht, hu],
      fun vs => ?_⟩
    rw [List.cons_append, parse_scalar rfl, List.append_assoc, hp, hq, objectEntries]
    rfl

end

end Datum

theorem isUtf8_iff {s : Bytes} : IsUtf8 s ↔ ∃ cs : List Char, s = cs.flatMap String.utf8EncodeChar := by
  constructor
  case mp =>
    rintro ⟨cs, hc⟩
    refine ⟨cs, ?_⟩
    have hd := congrArg (fun b : ByteArray => b.data.toList) hc
    simpa [List.utf8Encode] using hd
  case mpr =>
    rintro ⟨cs, rfl⟩
    refine ⟨cs, ?_⟩
    apply ByteArray.ext
    simp [List.utf8Encode]

theorem isUtf8_utf8 {s : String} : IsUtf8 (utf8 s) :=
  isUtf8_iff.mpr ⟨s.toList, rfl⟩

theorem utf8EncodeChar_ascii : ∀ n < 128, String.utf8EncodeChar (.ofNat n) = [UInt8.ofNat n] := by
  decide +kernel

theorem isUtf8_ascii {s : Bytes} (h : ∀ c ∈ s, c < 128) : IsUtf8 s := by
  refine isUtf8_iff.mpr ⟨s.map fun c => .ofNat c.toNat, ?_⟩
  induction s
  case nil         => rfl
  case cons c s hi =>
    have hs := hi fun c hc => h c <| List.mem_cons_of_mem _ hc
    have hc := utf8EncodeChar_ascii c.toNat <| UInt8.lt_iff_toNat_lt.mp <| h c List.mem_cons_self
    rw [List.map_cons, List.flatMap_cons, ← hs, hc, UInt8.ofNat_toNat, List.singleton_append]

theorem isUtf8_str {d : Decimal} : IsUtf8 d.str := by
  refine isUtf8_ascii fun c hc => ?_
  rcases Decimal.plain_str hc with h | rfl | rfl | rfl | rfl
  case inl =>
    unfold Digits.IsDigit at h
    simp only [UInt8.le_iff_toNat_le, UInt8.lt_iff_toNat_lt, UInt8.reduceToNat] at h ⊢
    omega
  all_goals decide

theorem bind_eq_ok {α β ε : Type} {x : Except ε α} {f : α → Except ε β} {b : β} :
    x >>= f = .ok b ↔ ∃ a, x = .ok a ∧ f a = .ok b := by
  cases x
  case error => exact ⟨nofun, by rintro ⟨_, h, _⟩; cases h⟩
  case ok a  => exact ⟨fun h => ⟨a, rfl, h⟩, by rintro ⟨_, ⟨⟩, h⟩; exact h⟩

theorem mapM_eq_ok {α β ε : Type} {f : α → Except ε β} {l : List α} {l' : List β} :
    l.mapM f = .ok l' ↔ List.Forall₂ (fun a b => f a = .ok b) l l' := by
  induction l generalizing l'
  case nil         => cases l' <;> simp [pure, Except.pure]
  case cons a l hi =>
    rw [List.mapM_cons, bind_eq_ok]
    simp only [bind_eq_ok, hi, pure, Except.pure, Except.ok.injEq, List.forall₂_cons_left_iff]
    exact ⟨by rintro ⟨b, hb, l', hl, rfl⟩; exact ⟨b, l', hb, hl, rfl⟩,
      by rintro ⟨b, l', hb, hl, rfl⟩; exact ⟨b, hb, l', hl, rfl⟩⟩

theorem decodeItems_cons {n : ℕ} {o : Object} {l : List Object} {v : Value} {vs : List Value} :
    decodeItems n (o :: l) = .ok (v :: vs) ↔
      decodeObject n o = .ok v ∧ decodeItems (n + o.weight) l = .ok vs := by
  rw [decodeItems, bind_eq_ok]
  simp only [bind_eq_ok, pure, Except.pure, Except.ok.injEq, List.cons.injEq]
  exact ⟨by rintro ⟨_, h, _, h', rfl, rfl⟩; exact ⟨h, h'⟩, fun h => ⟨_, h.left, _, h.right, rfl, rfl⟩⟩

theorem decodeEntries_cons {n : ℕ} {k : Bytes} {o : Object} {kvs : List (Object × Object)}
    {es : List (Key × Value)} (hk : IsUtf8 k) : decodeEntries n ((.str k, o) :: kvs) = .ok es ↔
      ∃ v es', decodeObject (n + 1) o = .ok v ∧
        decodeEntries (n + 1 + o.weight) kvs = .ok es' ∧ es = (.str k, v) :: es' := by
  have hw : (Object.str k).weight = 1 := rfl
  have hd : decodeObject n (.str k) = .ok (.str k) := by rw [decodeObject, if_pos hk]
  rw [decodeEntries, hd, hw]
  simp only [bind_eq_ok, pure, Except.pure, Except.ok.injEq]
  constructor
  · rintro ⟨_, rfl, v, hv, _, ⟨⟩, es', he, rfl⟩
    exact ⟨v, es', hv, he, rfl⟩
  · rintro ⟨v, es', hv, he, rfl⟩
    exact ⟨_, rfl, v, hv, _, rfl, es', he, rfl⟩

theorem dictOf_eq {es : List (Key × Value)} (h : (es.map Prod.fst).Nodup) : dictOf es = es :=
  Dict.entries_foldl_set (d := ∅) h

namespace Value

def IsDecimal : Value → Prop
  | .decimal .. | .signalingNaN => True
  | _                           => False

variable {v w : Value} {n : ℕ} {es : List (Key × Value)}

theorem isDecimal_ofReading {r : Decimal.Reading} : (ofReading n r).IsDecimal := by
  cases r <;> trivial

theorem isDecimal_ofTuple {sign e : Value} {ds : List Value} (h : ofTuple n sign ds e = some w) :
    w.IsDecimal := by
  unfold ofTuple at h
  obtain ⟨s, -, h⟩ := Option.bind_eq_some_iff.mp h
  obtain ⟨ds, -, h⟩ := Option.bind_eq_some_iff.mp h
  split at h
  case isFalse => cases h
  case isTrue  =>
    split at h
    case h_1 =>
      split at h
      case isTrue => cases h; trivial
      case isFalse =>
        split at h
        case isTrue => cases h; trivial
        case isFalse =>
          split at h
          case isTrue  => cases h; trivial
          case isFalse => cases h
    case h_2 =>
      obtain ⟨e, -, h⟩ := Option.bind_eq_some_iff.mp h
      cases h
      trivial

theorem isDecimal_decimalOf (h : v.decimalOf n = .ok w) : w.IsDecimal := by
  unfold decimalOf at h
  split at h
  case h_1 =>
    split at h
    case h_1 => cases h; exact isDecimal_ofReading
    case h_2 => cases h
  case h_7 =>
    split at h
    case h_1 e => cases h; exact isDecimal_ofTuple e
    case h_2   => cases h
  all_goals
    cases h
  all_goals
    trivial

end Value

theorem decodeDecimal_eq_dict {n : ℕ} {es es' : List (Key × Value)} :
    decodeDecimal n es = .ok (.dict es') ↔ decimalTag ∉ es.map Prod.fst ∧ es = es' := by
  rw [← List.lookup_eq_none_iff_not_mem, decodeDecimal]
  cases es.lookup decimalTag
  case none   => simp
  case some v =>
    simp only [reduceCtorEq, false_and, iff_false]
    exact fun h => Value.isDecimal_decimalOf h

namespace Datum

variable {d : Datum} {l : List Datum} {es : List (Bytes × Datum)} {n : ℕ}

theorem map_fst_valueEntries : (valueEntries es).map Prod.fst = es.map fun e => .str e.1 := by
  induction es
  case nil          => rfl
  case cons e es hi => rw [valueEntries, List.map_cons, List.map_cons, hi]

theorem nodup_valueEntries (h : (es.map Prod.fst).Nodup) :
    ((valueEntries es).map Prod.fst).Nodup := by
  have hm : es.map (fun e => Key.str e.1) = (es.map Prod.fst).map Key.str := by
    rw [List.map_map]
    rfl
  rw [map_fst_valueEntries, hm]
  exact h.map fun _ _ e => Key.str.inj e

theorem map_fst_decodeEntries {es' : List (Key × Value)} (hw : WellFormedEntries es)
    (h : decodeEntries n (objectEntries es) = .ok es') :
    es'.map Prod.fst = (valueEntries es).map Prod.fst := by
  induction es generalizing n es'
  case nil          => cases h; rfl
  case cons e es hi =>
    obtain ⟨v, es₁, -, he, rfl⟩ := (decodeEntries_cons hw.left.left).mp h
    rw [List.map_cons, hi hw.right.right he, valueEntries, List.map_cons]

theorem decimalTag_mem_iff :
    decimalTag ∈ (valueEntries es).map Prod.fst ↔ utf8 "__decimal__" ∈ es.map Prod.fst := by
  rw [map_fst_valueEntries, decimalTag]
  simp

theorem ofFloating_fin {x : ℚ} : Value.ofFloating n (.fin x) = .float (.fin x) 0 :=
  rfl

theorem decode_int {i : ℤ} (h : -2 ^ 63 ≤ i ∧ i < 2 ^ 64) :
    decodeObject n (Datum.int i).object = .ok (.int i) := by
  unfold object
  split
  case isTrue hi =>
    rw [decodeObject, BitVec.toNat_ofInt]
    have hn : ((i % (2 ^ 64 : ℕ)).toNat : ℤ) = i := by omega
    rw [hn]
  case isFalse hi =>
    have hb : i.bmod (2 ^ 64) = i := Int.bmod_eq_of_le (by omega) (by omega)
    rw [decodeObject, BitVec.toInt_ofInt, hb]

theorem decode_decimal {x : Decimal} :
    decodeObject n (Datum.decimal x).object = .ok (.decimal (.fin x.value) 0) := by
  have hv : decodeObject (n + 1 + 1) (.str x.str) = .ok (.str x.str) := by
    rw [decodeObject, if_pos isUtf8_str]
  have he : decodeEntries (n + 1) [(.str <| utf8 "__decimal__", .str x.str)] =
      .ok [(decimalTag, .str x.str)] :=
    (decodeEntries_cons isUtf8_utf8).mpr ⟨_, _, hv, rfl, rfl⟩
  have hd : decodeDecimal n [(decimalTag, .str x.str)] = (Value.str x.str).decimalOf n := rfl
  have hs : dictOf [(decimalTag, Value.str x.str)] = [(decimalTag, .str x.str)] :=
    dictOf_eq <| List.nodup_singleton decimalTag
  rw [object, decodeObject, bind_eq_ok]
  refine ⟨_, he, ?_⟩
  rw [hs, hd, Value.decimalOf, Decimal.ofText_str]
  rfl

mutual

-- A datum comes back as it was sent unless one of its dictionaries looks like a decimal.
theorem decode_iff : ∀ {d : Datum} {n : ℕ}, d.WellFormed →
    (decodeObject n d.object = .ok d.value ↔ d.Untagged)
  | .none, _, _      => iff_of_true (by rw [object, decodeObject, value]) trivial
  | .bool _, _, _    => iff_of_true (by rw [object, decodeObject, value]) trivial
  | .float _, _, _   => iff_of_true (by rw [object, decodeObject, value, ofFloating_fin]) trivial
  | .int _, _, h     => iff_of_true (by rw [decode_int h, value]) trivial
  | .decimal _, _, _ => iff_of_true (by rw [decode_decimal, value]) trivial
  | .str _, _, h     => iff_of_true (by rw [object, decodeObject, if_pos h.left, value]) trivial
  | .list l, n, h    => by
    rw [object, decodeObject, bind_eq_ok, value, Untagged, ← decodeItems_iff (n := n + 1) h.right]
    simp [pure, Except.pure]
  | .dict es, n, h   => by
    rw [object, decodeObject, bind_eq_ok, value, Untagged, ← decodeEntries_iff (n := n + 1) h.right.right,
      ← decimalTag_mem_iff]
    have hn := nodup_valueEntries h.right.left
    constructor
    case mp =>
      rintro ⟨es', he, hd⟩
      have hk := map_fst_decodeEntries h.right.right he
      rw [dictOf_eq (hk ▸ hn), decodeDecimal_eq_dict, hk] at hd
      exact ⟨hd.left, hd.right ▸ he⟩
    case mpr =>
      rintro ⟨ht, he⟩
      refine ⟨_, he, ?_⟩
      rw [dictOf_eq hn, decodeDecimal_eq_dict]
      exact ⟨ht, rfl⟩

theorem decodeItems_iff : ∀ {l : List Datum} {n : ℕ}, WellFormedItems l →
    (decodeItems n (objects l) = .ok (values l) ↔ UntaggedItems l)
  | [], _, _     => iff_of_true (by rw [objects, decodeItems, values]) trivial
  | d :: l, n, h => by
    rw [objects, values, decodeItems_cons, decode_iff h.left, decodeItems_iff h.right,
      UntaggedItems]

theorem decodeEntries_iff : ∀ {es : List (Bytes × Datum)} {n : ℕ}, WellFormedEntries es →
    (decodeEntries n (objectEntries es) = .ok (valueEntries es) ↔ UntaggedEntries es)
  | [], _, _           => iff_of_true (by rw [objectEntries, decodeEntries, valueEntries]) trivial
  | (k, d) :: es, n, h => by
    rw [objectEntries, valueEntries, decodeEntries_cons h.left.left, UntaggedEntries,
      ← decode_iff h.right.left, ← decodeEntries_iff h.right.right]
    constructor
    · rintro ⟨v, es', hv, he, heq⟩
      cases heq
      exact ⟨hv, he⟩
    · rintro ⟨hv, he⟩
      exact ⟨_, _, hv, he, rfl⟩

end

end Datum

namespace TypedMessage

variable {m : TypedMessage} {n : ℕ}

structure WellFormed (m : TypedMessage) : Prop where
  sender        : Datum.IsStr m.sender
  event         : Datum.IsStr m.event
  payload       : (Datum.dict m.payload).WellFormed
  recipient     : ∀ s ∈ m.recipient, Datum.IsStr s
  correlationId : ∀ s ∈ m.correlationId, Datum.IsStr s

def str? : Option Bytes → Object
  | none   => .nil
  | some s => .str s

def float? : Option Floating → Object
  | none   => .nil
  | some x => .float x

def lateFields (m : TypedMessage) : List (Object × Object) :=
  [(.str <| utf8 "recipient", str? m.recipient),
    (.str <| utf8 "durability", .uint <| .ofNat 64 m.durability.number),
    (.str <| utf8 "timestamp", float? m.timestamp),
    (.str <| utf8 "correlation_id", str? m.correlationId),
    (.str <| utf8 "wait_timeout", float? m.waitTimeout),
    (.str <| utf8 "run_timeout", float? m.runTimeout)]

def fields (m : TypedMessage) : List (Object × Object) :=
  (.str <| utf8 "msg_type", .str <| messageTypeValue m.msgType) ::
    (.str <| utf8 "sender", .str m.sender) ::
    (.str <| utf8 "event", .str m.event) ::
    (.str <| utf8 "payload", (Datum.dict m.payload).object) :: m.lateFields

theorem packStr?_eq {s : Option Bytes} (h : ∀ x ∈ s, Datum.IsStr x) :
    ∃ t, packStr? s = some t ∧ t.arity = 0 ∧ t.object [] = str? s := by
  cases s
  case none   => exact ⟨_, rfl, rfl, rfl⟩
  case some s => exact ⟨_, Datum.packStr_eq (h s rfl).right, rfl, rfl⟩

theorem packFloat?_eq {x : Option Floating} :
    (packFloat? x).arity = 0 ∧ (packFloat? x).object [] = float? x := by
  cases x <;> exact ⟨rfl, rfl⟩

def headTokens (m : TypedMessage) : List Token :=
  [packKey "msg_type", .str <| messageTypeValue m.msgType,
    packKey "sender", .str m.sender,
    packKey "event", .str m.event,
    packKey "payload"]

def tailTokens (m : TypedMessage) (recipient correlationId : Token) : List Token :=
  [packKey "recipient", recipient,
    packKey "durability", .uint <| .ofNat 64 m.durability.number,
    packKey "timestamp", packFloat? m.timestamp,
    packKey "correlation_id", correlationId,
    packKey "wait_timeout", packFloat? m.waitTimeout,
    packKey "run_timeout", packFloat? m.runTimeout]

theorem arity_headTokens : ∀ t ∈ m.headTokens, t.arity = 0 := by
  simp [headTokens, packKey, Token.arity]

theorem arity_tailTokens {r c : Token} (hr : r.arity = 0) (hc : c.arity = 0) :
    ∀ t ∈ m.tailTokens r c, t.arity = 0 := by
  simp only [tailTokens, List.forall_mem_cons]
  exact ⟨rfl, hr, rfl, rfl, rfl, packFloat?_eq.left, rfl, hc, rfl, packFloat?_eq.left, rfl,
    packFloat?_eq.left, nofun⟩

theorem exists_serialize (h : m.WellFormed) :
    ∃ ts, serialize m = some ts ∧ unpackb ts = .ok (.map m.fields) := by
  obtain ⟨payload, hp, hq⟩ := Datum.exists_pack h.payload
  obtain ⟨r, hr, hra, hro⟩ := packStr?_eq h.recipient
  obtain ⟨c, hc, hca, hco⟩ := packStr?_eq h.correlationId
  have hs := Datum.packStr_eq h.sender.right
  have he := Datum.packStr_eq h.event.right
  refine ⟨.map 10 :: (m.headTokens ++ (payload ++ m.tailTokens r c)), ?_, ?_⟩
  · unfold serialize
    rw [hs, he, hp, hr, hc]
    simp [headTokens, tailTokens]
  · have ht : parse (m.tailTokens r c ++ []) = _ ++ _ := parse_scalars <| arity_tailTokens hra hca
    have hf : parse (m.headTokens ++ (payload ++ m.tailTokens r c)) =
        (flattened m.fields).map some ++ [] := by
      rw [parse_scalars arity_headTokens, hq, ← List.append_nil (m.tailTokens r c), ht]
      simp only [tailTokens, List.map_cons, List.map_nil, hro, hco, packFloat?_eq.right]
      rfl
    rw [unpackb, parse_container hf rfl, Token.object, pairs_flattened]

def value? : Option Bytes → Value
  | none   => .none
  | some s => .str s

def number? (n : ℕ) : Option Floating → Value
  | none   => .none
  | some x => .ofFloating n x

theorem decode_str? {s : Option Bytes} (h : ∀ x ∈ s, Datum.IsStr x) :
    decodeObject n (str? s) = .ok (value? s) := by
  cases s
  case none   => rw [str?, decodeObject, value?]
  case some s => rw [str?, decodeObject, if_pos (h s rfl).left, value?]

theorem decode_float? {x : Option Floating} : decodeObject n (float? x) = .ok (number? n x) := by
  cases x <;> rw [float?, decodeObject, number?]

theorem decode_str {s : Bytes} (h : IsUtf8 s) : decodeObject n (.str s) = .ok (.str s) := by
  rw [decodeObject, if_pos h]

def lateEntries (m : TypedMessage) (a b c : ℕ) : List (Key × Value) :=
  [(.str <| utf8 "recipient", value? m.recipient),
    (.str <| utf8 "durability", .int m.durability.number),
    (.str <| utf8 "timestamp", number? a m.timestamp),
    (.str <| utf8 "correlation_id", value? m.correlationId),
    (.str <| utf8 "wait_timeout", number? b m.waitTimeout),
    (.str <| utf8 "run_timeout", number? c m.runTimeout)]

-- The entries that the fields are decoded to, given what the payload is decoded to.
def entries (m : TypedMessage) (payload : Value) (a b c : ℕ) : List (Key × Value) :=
  (.str <| utf8 "msg_type", .str <| messageTypeValue m.msgType) ::
    (.str <| utf8 "sender", .str m.sender) ::
    (.str <| utf8 "event", .str m.event) ::
    (.str <| utf8 "payload", payload) :: m.lateEntries a b c

theorem decodeEntries_cons_ok {k : Bytes} {o : Object} {kvs : List (Object × Object)} {v : Value}
    (hk : IsUtf8 k) (hv : decodeObject (n + 1) o = .ok v) :
    decodeEntries n ((.str k, o) :: kvs) =
      (decodeEntries (n + 1 + o.weight) kvs).map ((.str k, v) :: ·) := by
  have hw : (Object.str k).weight = 1 := rfl
  rw [decodeEntries, decode_str hk, hw, hv]
  cases decodeEntries (n + 1 + o.weight) kvs <;> rfl

theorem isUtf8_messageTypeValue {t : MessageType} : IsUtf8 (messageTypeValue t) := by
  cases t <;> exact isUtf8_utf8

theorem decode_durability {l : DurabilityLevel} :
    decodeObject n (.uint <| .ofNat 64 l.number) = .ok (.int l.number) := by
  cases l <;> rfl

theorem decode_lateFields (h : m.WellFormed) :
    ∃ a b c, decodeEntries n m.lateFields = .ok (m.lateEntries a b c) := by
  refine ⟨?_, ?_, ?_, ?_⟩
  rotate_left 3
  · unfold lateFields
    rw [decodeEntries_cons_ok isUtf8_utf8 (decode_str? h.recipient),
      decodeEntries_cons_ok isUtf8_utf8 decode_durability,
      decodeEntries_cons_ok isUtf8_utf8 decode_float?,
      decodeEntries_cons_ok isUtf8_utf8 (decode_str? h.correlationId),
      decodeEntries_cons_ok isUtf8_utf8 decode_float?,
      decodeEntries_cons_ok isUtf8_utf8 decode_float?, decodeEntries]
    rfl

theorem decode_earlyFields (h : m.WellFormed) (kvs : List (Object × Object)) : ∃ q,
    decodeEntries n ((.str <| utf8 "msg_type", .str <| messageTypeValue m.msgType) ::
      (.str <| utf8 "sender", .str m.sender) :: (.str <| utf8 "event", .str m.event) :: kvs) =
      (((decodeEntries q kvs).map ((.str <| utf8 "event", .str m.event) :: ·)).map
        ((.str <| utf8 "sender", .str m.sender) :: ·)).map
        ((.str <| utf8 "msg_type", .str <| messageTypeValue m.msgType) :: ·) := by
  refine ⟨?_, ?_⟩
  rotate_left
  · rw [decodeEntries_cons_ok isUtf8_utf8 (decode_str isUtf8_messageTypeValue),
      decodeEntries_cons_ok isUtf8_utf8 (decode_str h.sender.left),
      decodeEntries_cons_ok isUtf8_utf8 (decode_str h.event.left)]

-- The numbers of the objects after the payload depend on its size.
theorem decode_fields (h : m.WellFormed) : ∃ p a b c, ∀ es,
    decodeEntries n m.fields = .ok es ↔
      ∃ v, decodeObject p (Datum.dict m.payload).object = .ok v ∧ es = m.entries v a b c := by
  obtain ⟨q, hq⟩ := decode_earlyFields (n := n) h
    ((.str <| utf8 "payload", (Datum.dict m.payload).object) :: m.lateFields)
  obtain ⟨a, b, c, hl⟩ := decode_lateFields (n := q + 1 + (Datum.dict m.payload).object.weight) h
  refine ⟨q + 1, a, b, c, fun es => ?_⟩
  rw [fields, hq]
  constructor
  case mp =>
    intro he
    cases hd : decodeEntries q
      ((.str <| utf8 "payload", (Datum.dict m.payload).object) :: m.lateFields)
    case error => rw [hd] at he; cases he
    case ok es' =>
      rw [hd] at he
      cases he
      obtain ⟨v, es₁, hv, he, rfl⟩ := (decodeEntries_cons isUtf8_utf8).mp hd
      cases hl.symm.trans he
      exact ⟨v, hv, rfl⟩
  case mpr =>
    rintro ⟨v, hv, rfl⟩
    rw [(decodeEntries_cons isUtf8_utf8).mpr ⟨v, _, hv, hl, rfl⟩]
    rfl

theorem dictOf_entries {v : Value} {a b c : ℕ} :
    dictOf (m.entries v a b c) = m.entries v a b c := by
  refine dictOf_eq ?_
  have hk : (m.entries v a b c).map Prod.fst =
      [.str <| utf8 "msg_type", .str <| utf8 "sender", .str <| utf8 "event", .str <| utf8 "payload",
        .str <| utf8 "recipient", .str <| utf8 "durability", .str <| utf8 "timestamp",
        .str <| utf8 "correlation_id", .str <| utf8 "wait_timeout", .str <| utf8 "run_timeout"] :=
    rfl
  rw [hk]
  decide +kernel

theorem decodeDecimal_entries {v : Value} {a b c : ℕ} :
    decodeDecimal n (m.entries v a b c) = .ok (.dict <| m.entries v a b c) :=
  rfl

-- What becomes of a durability level.
def restoredLevel : DurabilityLevel → DurabilityLevel
  | .bestEffort => .asyncFlush
  | l           => l

def received (m : TypedMessage) (payload : Value) (a b c : ℕ) : FullMessage where
  msgType       := m.msgType
  sender        := .str m.sender
  event         := .str m.event
  payload       := payload
  recipient     := value? m.recipient
  durability    := restoredLevel m.durability
  timestamp     := number? a m.timestamp
  correlationId := value? m.correlationId
  waitTimeout   := number? b m.waitTimeout
  runTimeout    := number? c m.runTimeout

theorem messageType_value {t : MessageType} : messageType (.str <| messageTypeValue t) = .ok t := by
  cases t <;> rfl

theorem durabilityLevel_or {l : DurabilityLevel} :
    durabilityLevel (Value.or (.int l.number) (.int 1)) = .ok (restoredLevel l) := by
  cases l <;> rfl

theorem deserializeObject_entries {v : Value} {a b c : ℕ} :
    deserializeObject (.dict <| m.entries v a b c) = .ok (m.received v a b c) := by
  have ht : subscript "msg_type" (.dict <| m.entries v a b c) =
    .ok (.str <| messageTypeValue m.msgType) := rfl
  have hd : get "durability" (.dict <| m.entries v a b c) = .ok (.int m.durability.number) := rfl
  simp only [deserializeObject, ht, hd, bind, Except.bind, messageType_value, durabilityLevel_or]
  rfl

-- What is received has the fields of what was sent.
structure Restores (m : TypedMessage) (r : FullMessage) : Prop where
  msgType       : r.msgType = m.msgType
  sender        : r.sender = .str m.sender
  event         : r.event = .str m.event
  payload       : r.payload = (Datum.dict m.payload).value
  recipient     : r.recipient = value? m.recipient
  durability    : r.durability = m.durability
  timestamp     : ∃ a, r.timestamp = number? a m.timestamp
  correlationId : r.correlationId = value? m.correlationId
  waitTimeout   : ∃ b, r.waitTimeout = number? b m.waitTimeout
  runTimeout    : ∃ c, r.runTimeout = number? c m.runTimeout

theorem restoredLevel_eq_iff {l : DurabilityLevel} : restoredLevel l = l ↔ l ≠ .bestEffort := by
  cases l <;> decide

theorem restores_received {v : Value} {a b c : ℕ} : m.Restores (m.received v a b c) ↔
    v = (Datum.dict m.payload).value ∧ m.durability ≠ .bestEffort := by
  rw [← restoredLevel_eq_iff]
  constructor
  case mp  => exact fun h => ⟨h.payload, h.durability⟩
  case mpr =>
    rintro ⟨hv, hd⟩
    exact ⟨rfl, rfl, rfl, hv, rfl, hd, ⟨a, rfl⟩, rfl, ⟨b, rfl⟩, ⟨c, rfl⟩⟩

theorem deserialize_eq_ok (h : m.WellFormed) {ts : List Token} (hu : unpackb ts = .ok (.map m.fields)) :
    ∃ p a b c, ∀ r, deserialize n ts = .ok r ↔
      ∃ v, decodeObject p (Datum.dict m.payload).object = .ok v ∧ r = m.received v a b c := by
  obtain ⟨p, a, b, c, hf⟩ := decode_fields (n := n + 1) h
  refine ⟨p, a, b, c, fun r => ?_⟩
  rw [deserialize, hu]
  simp only [bind_eq_ok, Except.ok.injEq, exists_eq_left', decodeObject]
  constructor
  case mp =>
    rintro ⟨obj, ⟨es, he, hd⟩, hr⟩
    obtain ⟨v, hv, rfl⟩ := (hf es).mp he
    rw [dictOf_entries, decodeDecimal_entries] at hd
    cases hd
    rw [deserializeObject_entries] at hr
    cases hr
    exact ⟨v, hv, rfl⟩
  case mpr =>
    rintro ⟨v, hv, rfl⟩
    refine ⟨_, ⟨_, (hf _).mpr ⟨v, hv, rfl⟩, ?_⟩, deserializeObject_entries⟩
    rw [dictOf_entries, decodeDecimal_entries]

-- A message comes back as it was sent unless its durability is the lowest one or some dictionary in
-- its payload looks like a decimal.
theorem round_trip (n : ℕ) (h : m.WellFormed) : ∃ ts, serialize m = some ts ∧
    ((∃ r, deserialize n ts = .ok r ∧ m.Restores r) ↔
      m.durability ≠ .bestEffort ∧ (Datum.dict m.payload).Untagged) := by
  obtain ⟨ts, hs, hu⟩ := exists_serialize h
  obtain ⟨p, a, b, c, hd⟩ := deserialize_eq_ok (n := n) h hu
  refine ⟨ts, hs, ?_⟩
  rw [← Datum.decode_iff (n := p) h.payload]
  constructor
  case mp =>
    rintro ⟨r, hr, hm⟩
    obtain ⟨v, hv, rfl⟩ := (hd r).mp hr
    obtain ⟨rfl, hl⟩ := restores_received.mp hm
    exact ⟨hl, hv⟩
  case mpr =>
    rintro ⟨hl, hv⟩
    exact ⟨_, (hd _).mpr ⟨_, hv, rfl⟩, restores_received.mpr ⟨rfl, hl⟩⟩

end TypedMessage

namespace Sample

def outgoing (durability : DurabilityLevel) : TypedMessage where
  msgType       := .event
  sender        := utf8 "a"
  event         := utf8 "t"
  payload       := [(utf8 "x", .list [.decimal ⟨true, 150, -2⟩, .int (-1), .none]), (utf8 "", .dict [])]
  recipient     := some []
  durability    := durability
  timestamp     := some <| .fin 0
  correlationId := none
  waitTimeout   := some .nan
  runTimeout    := none

theorem isStr {s : String} (h : (utf8 s).length < 2 ^ 32) : Datum.IsStr (utf8 s) :=
  ⟨isUtf8_utf8, h⟩

theorem outgoing_wellFormed {l : DurabilityLevel} : (outgoing l).WellFormed where
  sender        := isStr (s := "a") <| by decide
  event         := isStr (s := "t") <| by decide
  payload       := by
    have hd : Decimal.str ⟨true, 150, -2⟩ = utf8 "-1.50" := by decide +kernel
    unfold outgoing
    simp only [Datum.WellFormed, Datum.WellFormedEntries, Datum.WellFormedItems, hd]
    exact ⟨by decide, by decide, isStr <| by decide, ⟨by decide, by decide, by decide, trivial, trivial⟩,
      isStr <| by decide, ⟨by decide, .nil, trivial⟩, trivial⟩
  recipient     := by rintro s ⟨⟩; exact isStr (s := "") <| by decide
  correlationId := nofun

end Sample

namespace TypedMessage

theorem round_trip_sample : ∃ ts, serialize (Sample.outgoing .syncFlush) = some ts ∧
    ∃ r, deserialize 0 ts = .ok r ∧ (Sample.outgoing .syncFlush).Restores r := by
  obtain ⟨ts, hs, hr⟩ := round_trip 0 <| Sample.outgoing_wellFormed (l := .syncFlush)
  exact ⟨ts, hs, hr.mpr ⟨by decide, by decide, ⟨trivial, trivial, trivial, trivial⟩,
    ⟨by decide, trivial⟩, trivial⟩⟩

theorem not_round_trip : ¬∀ (n : ℕ) (m : TypedMessage), m.WellFormed →
    ∃ ts, serialize m = some ts ∧ ∃ r, deserialize n ts = .ok r ∧ m.Restores r := by
  intro h
  obtain ⟨ts, hs, hu⟩ := exists_serialize <| Sample.outgoing_wellFormed (l := .bestEffort)
  obtain ⟨_, hs', r, hr, hm⟩ := h 0 (Sample.outgoing .bestEffort) Sample.outgoing_wellFormed
  cases hs.symm.trans hs'
  obtain ⟨_, _, _, _, hd⟩ := deserialize_eq_ok (n := 0) Sample.outgoing_wellFormed hu
  obtain ⟨v, -, rfl⟩ := (hd r).mp hr
  cases hm.durability

end TypedMessage

end Python
