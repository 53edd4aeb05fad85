import Tyche.Cpp.Serialization

theorem Option.forall_mem_ite {α : Type} {P : α → Prop} {p : Prop} [Decidable p] {x y : Option α}
    (hx : p → ∀ a ∈ x, P a) (hy : ∀ a ∈ y, P a) : ∀ a ∈ if p then x else y, P a := by
  split
  case isTrue h => exact hx h
  case isFalse  => exact hy

namespace Msgpack.Token

-- The integer fits into 32 bits.
def Narrow : Token → Prop
  | uint n => n.toNat < 2 ^ 31
  | int i  => -2 ^ 31 ≤ i.toInt ∧ i.toInt < 2 ^ 31
  | _      => True

def Unsigned : Token → Prop
  | int _ => False
  | _     => True

end Msgpack.Token

namespace Cpp

open Msgpack

variable (packDouble : Floating → Token)

namespace Any

mutual

-- The keys of each map are distinct.
def Distinct : Any → Prop
  | .payload m => (m.map Prod.fst).Nodup ∧ DistinctEntries m
  | .anys v    => DistinctItems v
  | _          => True

def DistinctEntries : List (Bytes × Any) → Prop
  | []          => True
  | (_, v) :: m => v.Distinct ∧ DistinctEntries m

def DistinctItems : List Any → Prop
  | []     => True
  | v :: l => v.Distinct ∧ DistinctItems l

end

mutual

-- The sizes of all containers fit into 32 bits.
def Sized : Any → Prop
  | .payload m => m.length < 2 ^ 32 ∧ SizedEntries m
  | .strings v => v.length < 2 ^ 32
  | .anys v    => v.length < 2 ^ 32 ∧ SizedItems v
  | _          => True

def SizedEntries : List (Bytes × Any) → Prop
  | []          => True
  | (_, v) :: m => v.Sized ∧ SizedEntries m

def SizedItems : List Any → Prop
  | []     => True
  | v :: l => v.Sized ∧ SizedItems l

end

mutual

-- All integers fit into 32 bits, those included that the packer makes of floating-point numbers.
def Narrow : Any → Prop
  | .int64 i   => -2 ^ 31 ≤ i.toInt ∧ i.toInt < 2 ^ 31
  | .uint64 n  => n.toNat < 2 ^ 31
  | .float x   => (packDouble x).Narrow
  | .double x  => (packDouble x).Narrow
  | .payload m => NarrowEntries m
  | .anys v    => NarrowItems v
  | _          => True

def NarrowEntries : List (Bytes × Any) → Prop
  | []          => True
  | (_, v) :: m => v.Narrow ∧ NarrowEntries m

def NarrowItems : List Any → Prop
  | []     => True
  | v :: l => v.Narrow ∧ NarrowItems l

end

mutual

-- The object that a value is packed as.
def packed : Any → Object
  | .empty     => .nil
  | .double x  => (packDouble x).object []
  | .string s  => .str s
  | .int i     => (Token.ofInt <| i.signExtend 64).object []
  | .int64 i   => (Token.ofInt i).object []
  | .uint64 n  => .uint n
  | .float x   => (packDouble x).object []
  | .bool b    => .bool b
  | .cstring s => .str s
  | .payload m => .map (packedEntries m)
  | .strings v => .array (v.map .str)
  | .anys v    => .array (packedItems v)

def packedEntries : List (Bytes × Any) → List (Object × Object)
  | []          => []
  | (k, v) :: m => (.str k, v.packed) :: packedEntries m

def packedItems : List Any → List Object
  | []     => []
  | v :: l => v.packed :: packedItems l

end

variable {packDouble} {v : Any} {l : List Any} {m : Payload} {ts : List Token}

theorem length_flattened : (flattened (packedEntries packDouble m)).length = 2 * m.length := by
  induction m
  case nil         => rfl
  case cons e m hi =>
    rw [packedEntries, List.length_cons, Nat.mul_succ, ← hi]
    rfl

theorem length_packedItems : (packedItems packDouble l).length = l.length := by
  induction l
  case nil         => rfl
  case cons v l hi => rw [packedItems, List.length_cons, List.length_cons, hi]

theorem toNat_ofNat_of_lt {n : ℕ} (h : n < 2 ^ 32) : (BitVec.ofNat 32 n).toNat = n := by
  rw [BitVec.toNat_ofNat, Nat.mod_eq_of_lt h]

theorem parse_strings {ss : List Bytes} :
    parse (ss.map .str ++ ts) = (ss.map Object.str).map some ++ parse ts := by
  induction ss
  case nil          => rfl
  case cons s ss hi => rw [List.map_cons, List.cons_append, parse_scalar rfl, hi]; rfl

-- The packer writes a floating-point number as one that has its value.
def Exact (packDouble : Floating → Token) : Prop :=
  ∀ x, (packDouble x).number? = some x

theorem Exact.arity (hp : Exact packDouble) {x : Floating} : (packDouble x).arity = 0 := by
  have h := hp x
  cases hx : packDouble x <;> rw [hx] at h <;> first | rfl | cases h

theorem arity_ofInt {i : BitVec 64} : (Token.ofInt i).arity = 0 := by
  rw [Token.ofInt]
  split <;> rfl

mutual

theorem parse_packAny (hp : Exact packDouble) : ∀ {v : Any} {ts}, v.Sized →
    parse (packAny packDouble v ++ ts) = some (v.packed packDouble) :: parse ts
  | .empty, _, _      => parse_scalar rfl
  | .bool _, _, _     => parse_scalar rfl
  | .string _, _, _   => parse_scalar rfl
  | .cstring _, _, _  => parse_scalar rfl
  | .uint64 _, _, _   => parse_scalar rfl
  | .int _, _, _      => parse_scalar arity_ofInt
  | .int64 _, _, _    => parse_scalar arity_ofInt
  | .float _, _, _    => parse_scalar hp.arity
  | .double _, _, _   => parse_scalar hp.arity
  | .strings v, _, h  => parse_container parse_strings <| by
    rw [Token.arity, toNat_ofNat_of_lt h, List.length_map]
  | .anys v, _, h     => parse_container (parse_packAnys hp h.right) <| by
    rw [Token.arity, toNat_ofNat_of_lt h.left, length_packedItems]
  | .payload m, ts, h => by
    rw [packed, ← @pairs_flattened (packedEntries packDouble m)]
    refine parse_container (parse_packEntries hp h.right) ?_
    rw [Token.arity, toNat_ofNat_of_lt h.left, length_flattened]

theorem parse_packEntries (hp : Exact packDouble) : ∀ {m : Payload} {ts}, SizedEntries m →
    parse (packEntries packDouble m ++ ts) =
      (flattened (packedEntries packDouble m)).map some ++ parse ts
  | [], _, _          => rfl
  | (k, v) :: m, _, h => by
    rw [packEntries, List.cons_append, List.cons_append, List.append_assoc, parse_scalar rfl,
      parse_packAny hp h.left, parse_packEntries hp h.right]
    rfl

theorem parse_packAnys (hp : Exact packDouble) : ∀ {l : List Any} {ts}, SizedItems l →
    parse (packAnys packDouble l ++ ts) = (packedItems packDouble l).map some ++ parse ts
  | [], _, _     => rfl
  | v :: l, _, h => by
    rw [packAnys, List.append_assoc, parse_packAny hp h.left, parse_packAnys hp h.right]
    rfl

end

theorem toInt_setWidth_eq_iff {i : BitVec 64} :
    (i.setWidth 32).toInt = i.toInt ↔ -2 ^ 31 ≤ i.toInt ∧ i.toInt < 2 ^ 31 := by
  rw [BitVec.toInt_setWidth, BitVec.toInt_eq_toNat_bmod, Int.bmod, Int.bmod]
  omega

theorem toInt_setWidth_eq_toNat_iff {n : BitVec 64} :
    (n.setWidth 32).toInt = n.toNat ↔ n.toNat < 2 ^ 31 := by
  rw [BitVec.toInt_setWidth, Int.bmod]
  omega

theorem ofInt_toInt {i : BitVec 64} (h : i.msb = false) : (i.toNat : ℤ) = i.toInt :=
  (BitVec.toInt_eq_toNat_of_msb h).symm

-- What the decoder makes of a number.
theorem unpackObject_token {t : Token} {x : Floating} (h : t.number? = some x) :
    ∃ u, unpackObject (t.object []) = some u ∧ (u.json = .number x ↔ t.Narrow) := by
  cases t
  case float x =>
    cases h
    exact ⟨.double x, rfl, iff_of_true rfl trivial⟩
  case uint n =>
    cases h
    refine ⟨.int (n.setWidth 32), rfl, ?_⟩
    rw [json, Token.Narrow, ← toInt_setWidth_eq_toNat_iff, Json.number.injEq, Floating.fin.injEq]
    exact_mod_cast Iff.rfl
  case int i =>
    cases h
    refine ⟨.int (i.setWidth 32), rfl, ?_⟩
    rw [json, Token.Narrow, ← toInt_setWidth_eq_iff, Json.number.injEq, Floating.fin.injEq]
    exact_mod_cast Iff.rfl
  all_goals cases h

theorem number?_ofInt {i : BitVec 64} : (Token.ofInt i).number? = some (.fin i.toInt) := by
  rw [Token.ofInt]
  cases h : i.msb
  case true  => rfl
  case false =>
    rw [← ofInt_toInt h]
    rfl

theorem narrow_ofInt {i : BitVec 64} :
    (Token.ofInt i).Narrow ↔ -2 ^ 31 ≤ i.toInt ∧ i.toInt < 2 ^ 31 := by
  rw [Token.ofInt]
  cases h : i.msb
  case true  => rfl
  case false =>
    rw [← ofInt_toInt h]
    simp only [Bool.false_eq_true, if_false, Token.Narrow]
    omega

theorem set_of_not_mem {k : Bytes} (h : k ∉ m.map Prod.fst) :
    Payload.set k v m = m ++ [(k, v)] := by
  induction m
  case nil         => rfl
  case cons e m hi =>
    rw [List.map_cons, List.mem_cons, not_or] at h
    rw [Payload.set, if_neg <| Ne.symm h.left, hi h.right]
    rfl

-- A list whose elements are all packed as strings.
theorem allStrings_packedItems (hp : Exact packDouble) {ss : List Bytes}
    (h : allStrings (packedItems packDouble l) = some ss) :
    jsons l = ss.map .string ∧ NarrowItems packDouble l := by
  induction l generalizing ss
  case nil         => cases h; exact ⟨rfl, trivial⟩
  case cons v l hi =>
    rw [packedItems] at h
    cases v
    case string s | cstring s =>
      obtain ⟨ss, hs, rfl⟩ := Option.map_eq_some_iff.mp h
      have ⟨hj, hn⟩ := hi hs
      exact ⟨congrArg (_ :: ·) hj, trivial, hn⟩
    case int i | int64 i =>
      rw [packed, Token.ofInt] at h
      split at h <;> cases h
    case float x | double x =>
      have hx := hp x
      rw [packed] at h
      cases ht : packDouble x <;> rw [ht] at h hx <;> first | cases h | cases hx
    all_goals cases h

theorem allStrings_map_str {ss : List Bytes} : allStrings (ss.map .str) = some ss := by
  induction ss
  case nil          => rfl
  case cons s ss hi => rw [List.map_cons, allStrings, hi, Option.map_some]

theorem unpackObject_array {o : Object} {os : List Object} :
    unpackObject (.array (o :: os)) =
      (allStrings (o :: os)).elim ((unpackArray (o :: os)).map .anys) (some <| .strings ·) := by
  cases hs : allStrings (o :: os) <;> simp [unpackObject, hs]

mutual

-- A value is decoded as the same value exactly if its integers fit.
theorem unpackObject_packed (hp : Exact packDouble) : ∀ {v : Any}, v.Distinct →
    ∃ u, unpackObject (v.packed packDouble) = some u ∧ (u.json = v.json ↔ v.Narrow packDouble)
  | .empty, _     => ⟨.empty, rfl, iff_of_true rfl trivial⟩
  | .bool b, _    => ⟨.bool b, rfl, iff_of_true rfl trivial⟩
  | .string s, _  => ⟨.string s, rfl, iff_of_true rfl trivial⟩
  | .cstring s, _ => ⟨.string s, rfl, iff_of_true rfl trivial⟩
  | .float x, _   => unpackObject_token (hp x)
  | .double x, _  => unpackObject_token (hp x)
  | .uint64 n, _  => unpackObject_token (t := .uint n) rfl
  | .int64 i, _   => by
    have ⟨u, hu, hj⟩ := unpackObject_token (number?_ofInt (i := i))
    exact ⟨u, hu, hj.trans narrow_ofInt⟩
  | .int i, _     => by
    have ⟨u, hu, hj⟩ := unpackObject_token (number?_ofInt (i := i.signExtend 64))
    have hi : (i.signExtend 64).toInt = i.toInt := BitVec.toInt_signExtend_of_le (by decide)
    rw [narrow_ofInt, hi] at hj
    have hl := i.le_toInt
    have hu' := i.toInt_lt
    exact ⟨u, hu, hj.trans <| iff_of_true (by simpa using ⟨hl, hu'⟩) trivial⟩
  | .strings [], _       => ⟨.anys [], rfl, iff_of_true rfl trivial⟩
  | .strings (s :: ss), _ => by
    refine ⟨.strings (s :: ss), ?_, iff_of_true rfl trivial⟩
    have hs : allStrings ((s :: ss).map .str) = some (s :: ss) := allStrings_map_str
    rw [packed, List.map_cons, unpackObject]
    rw [List.map_cons] at hs
    rw [hs]
  | .payload m, h => by
    have ⟨us, hu, _, hj⟩ : ∃ us, unpackMap [] (packedEntries packDouble m) = some ([] ++ us) ∧ _ :=
      unpackMap_packed hp h.right h.left <| List.disjoint_nil_left _
    refine ⟨.payload us, by rw [packed, unpackObject, hu]; rfl, ?_⟩
    rw [json, json, Json.object.injEq]
    exact hj
  | .anys [], _        => ⟨.anys [], rfl, iff_of_true rfl trivial⟩
  | .anys (v :: l), h  => by
    have ⟨us, hu, hj⟩ := unpackArray_packed hp (l := v :: l) h
    rw [packed, packedItems, unpackObject_array, ← packedItems, hu]
    cases hs : allStrings (packedItems packDouble (v :: l))
    case some ss =>
      have ⟨hj, hn⟩ := allStrings_packedItems hp hs
      refine ⟨.strings ss, rfl, iff_of_true ?_ hn⟩
      rw [json, json, hj]
    case none =>
      refine ⟨.anys us, rfl, ?_⟩
      rw [json, json, Json.array.injEq]
      exact hj

theorem unpackMap_packed (hp : Exact packDouble) : ∀ {m acc : Payload}, DistinctEntries m →
    (m.map Prod.fst).Nodup → (acc.map Prod.fst).Disjoint (m.map Prod.fst) →
    ∃ us : Payload, unpackMap acc (packedEntries packDouble m) = some (acc ++ us) ∧
      us.map Prod.fst = m.map Prod.fst ∧
        (jsonEntries us = jsonEntries m ↔ NarrowEntries packDouble m)
  | [], acc, _, _, _ => ⟨[], by rw [List.append_nil]; rfl, rfl, iff_of_true rfl trivial⟩
  | (k, v) :: m, acc, h, hn, hd => by
    rw [List.map_cons, List.nodup_cons] at hn
    rw [List.map_cons, List.disjoint_cons_right] at hd
    have ⟨u, hu, hj⟩ := unpackObject_packed hp h.left
    have hd' : ((acc ++ [(k, u)]).map Prod.fst).Disjoint (m.map Prod.fst) := by
      rw [List.map_append, List.disjoint_append_left]
      exact ⟨hd.right, List.singleton_disjoint.mpr hn.left⟩
    have ⟨us, hus, hk, hjs⟩ := unpackMap_packed hp h.right hn.right hd'
    refine ⟨(k, u) :: us, ?_, by rw [List.map_cons, List.map_cons, hk], ?_⟩
    · rw [packedEntries, unpackMap, hu]
      dsimp only
      rw [set_of_not_mem hd.left, hus, List.append_assoc]
      rfl
    · rw [jsonEntries, jsonEntries, List.cons.injEq, hjs, Prod.mk.injEq, and_iff_right rfl, hj]
      rfl

theorem unpackArray_packed (hp : Exact packDouble) : ∀ {l : List Any}, DistinctItems l →
    ∃ us, unpackArray (packedItems packDouble l) = some us ∧
      (jsons us = jsons l ↔ NarrowItems packDouble l)
  | [], _     => ⟨[], rfl, iff_of_true rfl trivial⟩
  | v :: l, h => by
    have ⟨u, hu, hj⟩ := unpackObject_packed hp h.left
    have ⟨us, hus, hjs⟩ := unpackArray_packed hp h.right
    refine ⟨u :: us, by rw [packedItems, unpackArray, hu, hus], ?_⟩
    rw [jsons, jsons, List.cons.injEq, hj, hjs]
    rfl

end

theorem unpackPayload_packed : ∀ {m acc : Payload},
    unpackPayload acc (packedEntries packDouble m) = unpackMap acc (packedEntries packDouble m)
  | [], _          => rfl
  | (k, v) :: m, _ => by
    rw [packedEntries, unpackPayload, unpackMap]
    cases unpackObject (v.packed packDouble)
    case none   => rfl
    case some u => exact unpackPayload_packed

mutual

theorem length_packAny : ∀ {v : Any}, (packAny packDouble v).length = v.json.weight
  | .empty | .bool _ | .string _ | .cstring _ | .int _ | .int64 _ | .uint64 _ | .float _
  | .double _   => rfl
  | .payload m  => by
    rw [packAny, List.length_cons, length_packEntries, json, Json.weight, Nat.add_comm]
  | .strings ss => by
    rw [packAny, List.length_cons, List.length_map, json, Json.weight, Json.weights_map_string,
      Nat.add_comm]
  | .anys l     => by
    rw [packAny, List.length_cons, length_packAnys, json, Json.weight, Nat.add_comm]

theorem length_packEntries : ∀ {m : Payload},
    (packEntries packDouble m).length = Json.weightEntries (jsonEntries m)
  | []          => rfl
  | (_, v) :: m => by
    rw [packEntries, List.length_append, List.length_cons, length_packAny, length_packEntries,
      jsonEntries, Json.weightEntries]
    omega

theorem length_packAnys : ∀ {l : List Any},
    (packAnys packDouble l).length = Json.weights (jsons l)
  | []     => rfl
  | v :: l => by
    rw [packAnys, List.length_append, length_packAny, length_packAnys, jsons, Json.weights]

end

theorem toNat_ofNat_le {n : ℕ} : (BitVec.ofNat 32 n).toNat ≤ n := by
  rw [BitVec.toNat_ofNat]
  exact Nat.mod_le ..

theorem lt_of_toNat_ofNat {n : ℕ} (h : (BitVec.ofNat 32 n).toNat = n) : n < 2 ^ 32 :=
  h ▸ (BitVec.ofNat 32 n).isLt

theorem arities_append {ts' : List Token} : arities (ts ++ ts') = arities ts + arities ts' := by
  rw [arities, List.map_append, List.sum_append]
  rfl

theorem arities_cons {t : Token} : arities (t :: ts) = t.arity + arities ts :=
  rfl

theorem arities_strings {ss : List Bytes} : arities (ss.map .str) = 0 := by
  induction ss
  case nil          => rfl
  case cons s ss hi => rw [List.map_cons, arities_cons, hi]; rfl

mutual

-- The sizes that are written never promise more tokens than there are, and if all tokens are
-- promised then no size was cut off.
theorem arities_packAny (hp : Exact packDouble) : ∀ {v : Any},
    arities (packAny packDouble v) + 1 ≤ (packAny packDouble v).length ∧
      (arities (packAny packDouble v) + 1 = (packAny packDouble v).length → v.Sized)
  | .empty | .bool _ | .string _ | .cstring _ | .uint64 _ => ⟨le_refl _, fun _ => trivial⟩
  | .int _ | .int64 _    => ⟨by rw [packAny, arities_cons, arity_ofInt]; rfl, fun _ => trivial⟩
  | .float _ | .double _ => ⟨by rw [packAny, arities_cons, hp.arity]; rfl, fun _ => trivial⟩
  | .payload m  => by
    have ⟨hl, hs⟩ := arities_packEntries hp (m := m)
    have hn : (BitVec.ofNat 32 m.length).toNat ≤ m.length := toNat_ofNat_le
    rw [packAny, arities_cons, Token.arity, List.length_cons]
    exact ⟨by omega, fun he => ⟨lt_of_toNat_ofNat (by omega), hs (by omega)⟩⟩
  | .strings ss => by
    have hn : (BitVec.ofNat 32 ss.length).toNat ≤ ss.length := toNat_ofNat_le
    rw [packAny, arities_cons, Token.arity, List.length_cons, arities_strings, List.length_map]
    exact ⟨by omega, fun he => lt_of_toNat_ofNat (by omega)⟩
  | .anys l     => by
    have ⟨hl, hs⟩ := arities_packAnys hp (l := l)
    have hn : (BitVec.ofNat 32 l.length).toNat ≤ l.length := toNat_ofNat_le
    rw [packAny, arities_cons, Token.arity, List.length_cons]
    exact ⟨by omega, fun he => ⟨lt_of_toNat_ofNat (by omega), hs (by omega)⟩⟩

theorem arities_packEntries (hp : Exact packDouble) : ∀ {m : Payload},
    arities (packEntries packDouble m) + 2 * m.length ≤ (packEntries packDouble m).length ∧
      (arities (packEntries packDouble m) + 2 * m.length = (packEntries packDouble m).length →
        SizedEntries m)
  | []          => ⟨le_refl _, fun _ => trivial⟩
  | (k, v) :: m => by
    have ⟨hv, hs⟩ := arities_packAny hp (v := v)
    have ⟨hm, hsm⟩ := arities_packEntries hp (m := m)
    have hk : (Token.str k).arity = 0 := rfl
    rw [packEntries, List.cons_append, arities_cons, arities_append, hk]
    simp only [List.length_cons, List.length_append]
    exact ⟨by omega, fun he => ⟨hs (by omega), hsm (by omega)⟩⟩

theorem arities_packAnys (hp : Exact packDouble) : ∀ {l : List Any},
    arities (packAnys packDouble l) + l.length ≤ (packAnys packDouble l).length ∧
      (arities (packAnys packDouble l) + l.length = (packAnys packDouble l).length → SizedItems l)
  | []     => ⟨le_refl _, fun _ => trivial⟩
  | v :: l => by
    have ⟨hv, hs⟩ := arities_packAny hp (v := v)
    have ⟨hl, hsl⟩ := arities_packAnys hp (l := l)
    rw [packAnys, arities_append]
    simp only [List.length_cons, List.length_append]
    exact ⟨by omega, fun he => ⟨hs (by omega), hsl (by omega)⟩⟩

end

theorem weight_set {k : Bytes} : Json.weightEntries (jsonEntries <| Payload.set k v m) ≤
    Json.weightEntries (jsonEntries m) + (1 + v.json.weight) := by
  induction m
  case nil =>
    rw [Payload.set, jsonEntries, Json.weightEntries]
    exact Nat.le_of_eq <| Nat.add_comm ..
  case cons e m hi =>
    rw [Payload.set]
    split
    · simp only [jsonEntries, Json.weightEntries]
      omega
    · simp only [jsonEntries, Json.weightEntries]
      omega

theorem weight_of_allStrings {os : List Object} {ss : List Bytes} (h : allStrings os = some ss) :
    ss.length = Object.weights os := by
  induction os generalizing ss
  case nil          => cases h; rfl
  case cons o os hi =>
    cases o
    case str s =>
      obtain ⟨ss, hs, rfl⟩ := Option.map_eq_some_iff.mp h
      rw [List.length_cons, hi hs, Object.weights, Nat.add_comm]
      rfl
    all_goals cases h

mutual

-- Nothing is decoded that is larger than what it is decoded from.
theorem weight_unpackObject : ∀ {o : Object} {u}, unpackObject o = some u →
    u.json.weight ≤ o.weight
  | .nil, _, h | .bool _, _, h | .uint _, _, h | .int _, _, h | .float _, _, h | .str _, _, h
  | .bin _, _, h | .ext .., _, h => by cases h; exact le_refl _
  | .map kvs, u, h => by
    obtain ⟨m, hm, rfl⟩ := Option.map_eq_some_iff.mp h
    rw [json, Json.weight, Object.weight]
    have hw := weight_unpackMap hm
    have h0 : Json.weightEntries (jsonEntries []) = 0 := rfl
    omega
  | .array [], _, h       => by cases h; exact le_refl _
  | .array (o :: os), u, h => by
    rw [unpackObject_array] at h
    cases hs : allStrings (o :: os)
    case some ss =>
      rw [hs] at h
      cases h
      rw [json, Json.weight, Json.weights_map_string, weight_of_allStrings hs, Object.weight]
    case none =>
      rw [hs] at h
      obtain ⟨l, hl, rfl⟩ := Option.map_eq_some_iff.mp h
      rw [json, Json.weight, Object.weight]
      exact Nat.add_le_add_left (weight_unpackArray hl) 1

theorem weight_unpackMap : ∀ {kvs : List (Object × Object)} {m m'}, unpackMap m kvs = some m' →
    Json.weightEntries (jsonEntries m') ≤
      Json.weightEntries (jsonEntries m) + Object.weightEntries kvs
  | [], _, _, h => by cases h; exact le_refl _
  | (.str k, o) :: kvs, m, m', h => by
    rw [unpackMap] at h
    cases hu : unpackObject o
    case none   => rw [hu] at h; cases h
    case some u =>
      rw [hu] at h
      have hm := weight_unpackMap h
      have hs := weight_set (v := u) (k := k) (m := m)
      have ho := weight_unpackObject hu
      have hk : (Object.str k).weight = 1 := rfl
      rw [Object.weightEntries]
      omega

theorem weight_unpackArray : ∀ {os : List Object} {l}, unpackArray os = some l →
    Json.weights (jsons l) ≤ Object.weights os
  | [], _, h      => by cases h; exact le_refl _
  | o :: os, l, h => by
    rw [unpackArray] at h
    cases hu : unpackObject o
    case none   => rw [hu] at h; cases h
    case some u =>
      cases hl : unpackArray os
      case none    => rw [hu, hl] at h; cases h
      case some us =>
        rw [hu, hl] at h
        cases h
        rw [jsons, Json.weights, Object.weights]
        exact Nat.add_le_add (weight_unpackObject hu) (weight_unpackArray hl)

end

theorem weight_unpackPayload {kvs : List (Object × Object)} {m m' : Payload}
    (h : unpackPayload m kvs = some m') : Json.weightEntries (jsonEntries m') ≤
      Json.weightEntries (jsonEntries m) + Object.weightEntries kvs := by
  induction kvs generalizing m
  case nil           => cases h; exact le_refl _
  case cons e kvs hi =>
    obtain ⟨k, o⟩ := e
    rw [Object.weightEntries]
    cases k
    case str k =>
      rw [unpackPayload] at h
      cases hu : unpackObject o
      case none   => rw [hu] at h; cases h
      case some u =>
        rw [hu] at h
        have hm := hi h
        have hs := weight_set (v := u) (k := k) (m := m)
        have ho := weight_unpackObject hu
        have hk : (Object.str k).weight = 1 := rfl
        omega
    all_goals
      have hm := hi h
      omega

end Any

namespace Message

open Any

variable {packDouble} {msg msg' : Message} {ts : List Token}

-- The fields hold values of their types, and the keys of a map are distinct.
structure Typed (msg : Message) : Prop where
  distinct    : (Any.payload msg.payload).Distinct
  timestamp   : ∀ x ∈ msg.timestamp, x.toDouble = x
  waitTimeout : ∀ x ∈ msg.waitTimeout, x.toSingle = x
  runTimeout  : ∀ x ∈ msg.runTimeout, x.toSingle = x

def Sized (msg : Message) : Prop :=
  (Any.payload msg.payload).Sized

-- All integers fit into 32 bits, and the packer makes no negative ones of the times.
structure Narrow (packDouble : Floating → Token) (msg : Message) : Prop where
  payload     : (Any.payload msg.payload).Narrow packDouble
  timestamp   : ∀ x ∈ msg.timestamp, (packDouble x).Unsigned
  waitTimeout : ∀ x ∈ msg.waitTimeout, (packDouble x).Unsigned
  runTimeout  : ∀ x ∈ msg.runTimeout, (packDouble x).Unsigned

def fields (packDouble : Floating → Token) (msg : Message) : List (Object × Object) :=
  [(.str <| utf8 "msg_type", .str <| messageTypeToStr msg.msgType),
    (.str <| utf8 "sender", .str msg.sender),
    (.str <| utf8 "event", .str msg.event),
    (.str <| utf8 "payload", .map <| packedEntries packDouble msg.payload),
    (.str <| utf8 "recipient", (packString? msg.recipient).object []),
    (.str <| utf8 "durability", (Token.ofInt <| msg.durability.signExtend 64).object []),
    (.str <| utf8 "timestamp", (packDouble? packDouble msg.timestamp).object []),
    (.str <| utf8 "correlation_id", (packString? msg.correlationId).object []),
    (.str <| utf8 "wait_timeout", (packDouble? packDouble msg.waitTimeout).object []),
    (.str <| utf8 "run_timeout", (packDouble? packDouble msg.runTimeout).object [])]

theorem arity_packKey {key : String} : (packKey key).arity = 0 :=
  rfl

theorem arity_packString? {s : Option Bytes} : (packString? s).arity = 0 := by
  cases s <;> rfl

theorem arity_packDouble? (hp : Exact packDouble) {x : Option Floating} :
    (packDouble? packDouble x).arity = 0 := by
  cases x
  case none => rfl
  case some => exact hp.arity

def headTokens (msg : Message) : List Token :=
  [packKey "msg_type", .str <| messageTypeToStr msg.msgType,
    packKey "sender", .str msg.sender,
    packKey "event", .str msg.event,
    packKey "payload"]

def tailTokens (packDouble : Floating → Token) (msg : Message) : List Token :=
  [packKey "recipient", packString? msg.recipient,
    packKey "durability", .ofInt <| msg.durability.signExtend 64,
    packKey "timestamp", packDouble? packDouble msg.timestamp,
    packKey "correlation_id", packString? msg.correlationId,
    packKey "wait_timeout", packDouble? packDouble msg.waitTimeout,
    packKey "run_timeout", packDouble? packDouble msg.runTimeout]

theorem serialize_eq : serialize packDouble msg =
    .map 10 :: (headTokens msg ++ (packAny packDouble (.payload msg.payload) ++
      tailTokens packDouble msg)) := by
  rw [serialize, packAny]
  rfl

theorem arity_headTokens : ∀ t ∈ headTokens msg, t.arity = 0 := by
  simp [headTokens, packKey, Token.arity]

theorem arity_tailTokens (hp : Exact packDouble) :
    ∀ t ∈ tailTokens packDouble msg, t.arity = 0 := by
  simp [tailTokens, arity_packKey, arity_ofInt, arity_packString?, arity_packDouble? hp]

theorem unpack_serialize (hp : Exact packDouble) (hs : msg.Sized) :
    unpack (serialize packDouble msg) = some (.map <| fields packDouble msg) := by
  have ht : parse (tailTokens packDouble msg ++ []) = _ ++ _ :=
    parse_scalars <| arity_tailTokens hp
  have hf : parse (headTokens msg ++ (packAny packDouble (.payload msg.payload) ++
      tailTokens packDouble msg)) = (flattened <| fields packDouble msg).map some ++ [] := by
    rw [parse_scalars arity_headTokens, parse_packAny hp hs, ← List.append_nil (tailTokens _ _), ht]
    rfl
  rw [serialize_eq, unpack, parse_container hf rfl, Token.object, pairs_flattened]
  rfl

theorem messageTypeFromStr_toStr {t : MessageType} :
    messageTypeFromStr (messageTypeToStr t) = t := by
  cases t <;> rfl

theorem setWidth_signExtend {i : BitVec 32} : (i.signExtend 64).setWidth 32 = i := by
  ext j hj
  simp [hj, BitVec.getLsbD_signExtend]
  omega

theorem unpackDurability_ofInt {i : BitVec 32} :
    unpackDurability ((Token.ofInt <| i.signExtend 64).object []) = some i := by
  rw [Token.ofInt]
  split <;> exact congrArg some setWidth_signExtend

theorem unpackString_str {s : Bytes} : unpackString (.str s) = some s :=
  rfl

theorem unpackString_packString? {s : Option Bytes} :
    unpackString ((packString? s).object []) = s := by
  cases s <;> rfl

-- What the decoder makes of the fields, given what it makes of the payload.
def received (packDouble : Floating → Token) (msg : Message) (payload : Payload) : Message where
  msgType       := msg.msgType
  sender        := msg.sender
  event         := msg.event
  payload       := payload
  recipient     := msg.recipient
  durability    := msg.durability
  timestamp     := unpackDouble ((packDouble? packDouble msg.timestamp).object [])
  correlationId := msg.correlationId
  waitTimeout   := unpackSingle ((packDouble? packDouble msg.waitTimeout).object [])
  runTimeout    := unpackSingle ((packDouble? packDouble msg.runTimeout).object [])

theorem foldlM_readField {m : Payload}
    (h : unpackMap [] (packedEntries packDouble msg.payload) = some m) :
    (fields packDouble msg).foldlM readField {} = some (msg.received packDouble m) := by
  rw [← unpackPayload_packed] at h
  simp +decide only [fields, List.foldlM_cons, List.foldlM_nil, readField, if_true, if_false,
    unpackString_str, messageTypeFromStr_toStr, Option.map_some, Option.getD_some,
    Option.bind_eq_bind, Option.bind_some, h, unpackString_packString?, unpackDurability_ofInt,
    Option.or_none]
  rfl

theorem deserialize_serialize (hp : Exact packDouble) (ht : msg.Typed) (hs : msg.Sized) :
    ∃ m, deserialize (serialize packDouble msg) = some (msg.received packDouble m) ∧
      (Any.jsonEntries m = Any.jsonEntries msg.payload ↔
        (Any.payload msg.payload).Narrow packDouble) := by
  have ⟨m, hm, _, hj⟩ :
      ∃ m, unpackMap [] (packedEntries packDouble msg.payload) = some ([] ++ m) ∧ _ :=
    unpackMap_packed hp ht.distinct.right ht.distinct.left <| List.disjoint_nil_left _
  refine ⟨m, ?_, hj⟩
  rw [deserialize, unpack_serialize hp hs]
  exact foldlM_readField hm

theorem unpackDouble_eq_iff (hp : Exact packDouble) {x : Option Floating}
    (ht : ∀ y ∈ x, y.toDouble = y) :
    unpackDouble ((packDouble? packDouble x).object []) = x ↔
      ∀ y ∈ x, (packDouble y).Unsigned := by
  cases x
  case none   => simp [packDouble?, unpackDouble, Token.object]
  case some y =>
    have hy := hp y
    have ht := ht y rfl
    simp only [packDouble?, Option.mem_def, Option.some.injEq, forall_eq']
    cases hd : packDouble y <;> rw [hd] at hy <;> cases hy
    case float => exact iff_of_true rfl trivial
    case uint  => exact iff_of_true (congrArg some ht) trivial
    case int   => exact iff_of_false (Option.some_ne_none _).symm id

theorem unpackSingle_eq_iff (hp : Exact packDouble) {x : Option Floating}
    (ht : ∀ y ∈ x, y.toSingle = y) :
    unpackSingle ((packDouble? packDouble x).object []) = x ↔
      ∀ y ∈ x, (packDouble y).Unsigned := by
  cases x
  case none   => simp [packDouble?, unpackSingle, Token.object]
  case some y =>
    have hy := hp y
    have ht := ht y rfl
    simp only [packDouble?, Option.mem_def, Option.some.injEq, forall_eq']
    cases hd : packDouble y <;> rw [hd] at hy <;> cases hy
    case float => exact iff_of_true (congrArg some ht) trivial
    case uint  => exact iff_of_true (congrArg some ht) trivial
    case int   => exact iff_of_false (Option.some_ne_none _).symm id

theorem elim_number_inj {x y : Option Floating} :
    x.elim Json.null .number = y.elim .null .number ↔ x = y := by
  cases x <;> cases y <;> simp

theorem json_received {m : Payload} : (msg.received packDouble m).json = msg.json ↔
    Any.jsonEntries m = Any.jsonEntries msg.payload ∧
      unpackDouble ((packDouble? packDouble msg.timestamp).object []) = msg.timestamp ∧
      unpackSingle ((packDouble? packDouble msg.waitTimeout).object []) = msg.waitTimeout ∧
      unpackSingle ((packDouble? packDouble msg.runTimeout).object []) = msg.runTimeout := by
  simp [json, received, elim_number_inj]

-- The decoder gives back the same message.
def Kept (packDouble : Floating → Token) (msg : Message) : Prop :=
  ∃ msg', deserialize (serialize packDouble msg) = some msg' ∧ msg'.json = msg.json

theorem kept_iff_narrow (hp : Exact packDouble) (ht : msg.Typed) (hs : msg.Sized) :
    msg.Kept packDouble ↔ msg.Narrow packDouble := by
  have ⟨m, hm, hj⟩ := deserialize_serialize hp ht hs
  have hk : msg.Kept packDouble ↔ (msg.received packDouble m).json = msg.json := by
    rw [Kept, hm]
    simp
  rw [hk, json_received, hj, unpackDouble_eq_iff hp ht.timestamp,
    unpackSingle_eq_iff hp ht.waitTimeout, unpackSingle_eq_iff hp ht.runTimeout]
  exact ⟨fun ⟨h₁, h₂, h₃, h₄⟩ => ⟨h₁, h₂, h₃, h₄⟩, fun ⟨h₁, h₂, h₃, h₄⟩ => ⟨h₁, h₂, h₃, h₄⟩⟩

-- An entry changes no field of another name.
structure ReadsOnly (k : Bytes) (m m' : Message) : Prop where
  msgType     : k ≠ utf8 "msg_type" → m'.msgType = m.msgType
  payload     : k ≠ utf8 "payload" → m'.payload = m.payload
  waitTimeout : k ≠ utf8 "wait_timeout" → m'.waitTimeout = m.waitTimeout
  runTimeout  : k ≠ utf8 "run_timeout" → m'.runTimeout = m.runTimeout

theorem readsOnly_of_readField {m m' : Message} {k : Bytes} {o : Object}
    (h : readField m (.str k, o) = some m') : ReadsOnly k m m' := by
  have hs : ReadsOnly k m m := ⟨fun _ => rfl, fun _ => rfl, fun _ => rfl, fun _ => rfl⟩
  suffices ∀ a ∈ readField m (.str k, o), ReadsOnly k m a from this m' h
  rw [readField.eq_def]
  dsimp only
  refine Option.forall_mem_ite (fun hk => ?_) <| Option.forall_mem_ite (fun _ => ?_) <|
    Option.forall_mem_ite (fun _ => ?_) <| Option.forall_mem_ite (fun hk => ?_) <|
    Option.forall_mem_ite (fun _ => ?_) <| Option.forall_mem_ite (fun hk => ?_) <|
    Option.forall_mem_ite (fun _ => ?_) <| Option.forall_mem_ite (fun _ => ?_) <|
    Option.forall_mem_ite (fun _ => ?_) <| Option.forall_mem_ite (fun hk => ?_) ?_
  case refine_1 => rintro _ ⟨⟩; exact { hs with msgType := absurd hk }
  case refine_4 =>
    cases o
    case map kvs =>
      intro _ h
      obtain ⟨p, -, rfl⟩ := Option.map_eq_some_iff.mp h
      exact { hs with payload := absurd hk }
    all_goals rintro _ ⟨⟩; exact hs
  case refine_6 => rintro _ ⟨⟩; exact { hs with runTimeout := absurd hk }
  case refine_10 => rintro _ ⟨⟩; exact { hs with waitTimeout := absurd hk }
  all_goals rintro _ ⟨⟩; exact ⟨hs.msgType, hs.payload, hs.waitTimeout, hs.runTimeout⟩

theorem weight_readField {m m' : Message} {e : Object × Object} (h : readField m e = some m') :
    Json.weightEntries (jsonEntries m'.payload) + 2 ≤
      Json.weightEntries (jsonEntries m.payload) + (e.1.weight + e.2.weight) := by
  obtain ⟨k, v⟩ := e
  have hk : 0 < k.weight := Object.weight_pos
  have hv : 0 < v.weight := Object.weight_pos
  have hle (he : m'.payload = m.payload) : Json.weightEntries (jsonEntries m'.payload) + 2 ≤
      Json.weightEntries (jsonEntries m.payload) + (k.weight + v.weight) := by
    rw [he]
    omega
  cases k
  case str k =>
    by_cases hp : k = utf8 "payload"
    case neg =>
      exact hle <| (readsOnly_of_readField h).payload hp
    case pos =>
      subst hp
      simp +decide only [readField, if_true, if_false] at h
      split at h
      case h_2     => cases h; exact hle rfl
      case h_1 kvs =>
        obtain ⟨p, hp, rfl⟩ := Option.map_eq_some_iff.mp h
        have hw := weight_unpackPayload hp
        have hm : (Object.map kvs).weight = 1 + Object.weightEntries kvs := rfl
        dsimp only
        omega
  all_goals cases h; exact hle rfl

theorem weight_foldlM {kvs : List (Object × Object)} {m m' : Message}
    (h : kvs.foldlM readField m = some m') :
    Json.weightEntries (jsonEntries m'.payload) + 2 * kvs.length ≤
      Json.weightEntries (jsonEntries m.payload) + Object.weightEntries kvs := by
  induction kvs generalizing m
  case nil           => cases h; exact le_refl _
  case cons e kvs hi =>
    obtain ⟨m₁, h₁, h⟩ := Option.bind_eq_some_iff.mp h
    have hr := weight_readField h₁
    have hm := hi h
    rw [List.length_cons, Object.weightEntries]
    omega

theorem length_serialize : (serialize packDouble msg).length =
    21 + Json.weightEntries (jsonEntries msg.payload) := by
  rw [serialize_eq]
  simp only [List.length_cons, List.length_append, length_packAny, Any.json, Json.weight,
    headTokens, tailTokens, List.length_nil]
  omega

theorem arities_serialize (hp : Exact packDouble) : arities (serialize packDouble msg) =
    20 + arities (packAny packDouble (.payload msg.payload)) := by
  have h0 {l : List Token} (hl : ∀ t ∈ l, t.arity = 0) : arities l = 0 :=
    List.sum_eq_zero <| by simpa using hl
  have hm : (Token.map 10).arity = 20 := rfl
  rw [serialize_eq, arities_cons, arities_append, arities_append, h0 arity_headTokens,
    h0 (arity_tailTokens hp), hm]
  omega

theorem length_pairs : ∀ {n} {os : List Object}, os.length = 2 * n → (pairs os).length = n
  | 0, [], _          => rfl
  | n + 1, k :: v :: os, h => by
    rw [pairs, List.length_cons, length_pairs (n := n) (by simp only [List.length_cons] at h; omega)]
  | n + 1, [_], h     => by simp only [List.length_cons, List.length_nil] at h; omega

theorem kept_sized (hp : Exact packDouble) (hk : msg.Kept packDouble) : msg.Sized := by
  obtain ⟨msg', hd, hj⟩ := hk
  have hj : jsonEntries msg'.payload = jsonEntries msg.payload := by
    simp only [json, Json.object.injEq, List.cons.injEq, Prod.mk.injEq] at hj
    exact hj.right.right.right.left.right
  have hp' : Parsed (.map 10) _ (parse (serialize packDouble msg)) := serialize_eq ▸ parsed
  have hl : weight (parse (serialize packDouble msg)) ≤ _ := weight_le_length
  have ha : weight (parse (serialize packDouble msg)) = _ → _ := parse_of_weight_eq
  rw [length_serialize] at hl ha
  rw [deserialize, unpack] at hd
  generalize parse (serialize packDouble msg) = st at hd hp' hl ha
  cases hp'
  case cut    => cases hd
  case broken => cases hd
  case whole os rest _ hn =>
    have hd : (pairs os).foldlM readField {} = some msg' := hd
    have hw := weight_foldlM hd
    rw [length_pairs (n := 10) hn, hj] at hw
    have h0 : Json.weightEntries (jsonEntries ({} : Message).payload) = 0 := rfl
    have ho : weight (some (Token.object os (.map 10)) :: rest) =
      1 + Object.weightEntries (pairs os) + weight rest := rfl
    have ⟨os', he, ha⟩ := ha (by omega)
    obtain ⟨o', os', rfl, _, hr⟩ := List.map_eq_cons_iff.mp he.symm
    have hr0 : Object.weights os' = 0 := by
      rw [← weight_map_some, hr]
      omega
    have hs := arities_packAny hp (v := .payload msg.payload)
    have hlen : (packAny packDouble (.payload msg.payload)).length =
        1 + Json.weightEntries (jsonEntries msg.payload) := length_packAny
    rw [arities_serialize hp, List.length_cons, Object.weights_eq_zero hr0, List.length_nil] at ha
    exact hs.right (by omega)

-- The decoder gives back a message exactly if its integers and its sizes fit into 32 bits.
theorem kept_iff (hp : Exact packDouble) (ht : msg.Typed) :
    msg.Kept packDouble ↔ msg.Sized ∧ msg.Narrow packDouble := by
  constructor
  case mp =>
    intro hk
    have hs := kept_sized hp hk
    exact ⟨hs, (kept_iff_narrow hp ht hs).mp hk⟩
  case mpr => exact fun ⟨hs, hn⟩ => (kept_iff_narrow hp ht hs).mpr hn

end Message

namespace Sample

def order (volume : Any) : Message where
  msgType       := .request
  sender        := utf8 "s"
  event         := utf8 "t"
  payload       := [(utf8 "volume", volume),
    (utf8 "legs", .anys [.payload [(utf8 "price", .float (.fin 2))], .strings [utf8 "x"]])]
  timestamp     := some (.fin 5)
  correlationId := some (utf8 "c")
  waitTimeout   := some (.fin (1 / 2))

theorem exact_float : Any.Exact Token.float :=
  fun _ => rfl

theorem order_typed {i : BitVec 64} : (order <| .int64 i).Typed where
  distinct    := by
    simp only [order, Any.Distinct, Any.DistinctEntries, Any.DistinctItems, List.map_cons,
      List.map_nil]
    decide
  timestamp   := by rintro _ ⟨⟩; decide +kernel
  waitTimeout := by rintro _ ⟨⟩; decide +kernel
  runTimeout  := nofun

theorem order_sized {i : BitVec 64} : (order <| .int64 i).Sized := by
  simp only [order, Message.Sized, Any.Sized, Any.SizedEntries, Any.SizedItems, List.length_cons,
    List.length_nil]
  decide

end Sample

namespace Message

theorem kept_order : (Sample.order <| .int64 (-5)).Kept Token.float := by
  refine (kept_iff Sample.exact_float Sample.order_typed).mpr ⟨Sample.order_sized, ?_⟩
  refine ⟨?_, fun _ _ => trivial, fun _ _ => trivial, fun _ _ => trivial⟩
  simp only [Sample.order, Any.Narrow, Any.NarrowEntries, Any.NarrowItems, Token.Narrow]
  decide

-- A volume of five billion is decoded as a different number.
theorem not_kept : ¬∀ packDouble, Any.Exact packDouble → ∀ msg : Message, msg.Typed →
    msg.Kept packDouble := by
  intro h
  have hk := h Token.float Sample.exact_float (Sample.order <| .int64 5000000000) Sample.order_typed
  have hn := (kept_iff_narrow Sample.exact_float Sample.order_typed Sample.order_sized).mp hk
  have hv : (5000000000 : BitVec 64).toInt < 2 ^ 31 := hn.payload.left.right
  exact absurd hv (by decide)

end Message

end Cpp
