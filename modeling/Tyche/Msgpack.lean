import Tyche.Bytes
import Tyche.Floating

-- The msgpack format over its primitive values, whose form in bytes is left open.
namespace Msgpack

-- What a packer writes in one go. The elements of an array, or the keys and values of a map, follow
-- it in the stream. Integers have different types according to their signs.
inductive Token
  | nil
  | bool (value : Bool)
  | uint (value : BitVec 64)
  | int (value : BitVec 64)
  | float (value : Floating)
  | str (value : Bytes)
  | bin (value : Bytes)
  | ext (code : UInt8) (value : Bytes)
  | array (size : BitVec 32)
  | map (size : BitVec 32)

inductive Object
  | nil
  | bool (value : Bool)
  | uint (value : BitVec 64)
  | int (value : BitVec 64)
  | float (value : Floating)
  | str (value : Bytes)
  | bin (value : Bytes)
  | ext (code : UInt8) (value : Bytes)
  | array (items : List Object)
  | map (entries : List (Object × Object))

namespace Token

def ofInt (i : BitVec 64) : Token :=
  if i.msb then .int i else .uint i

def number? : Token → Option Floating
  | uint n  => some <| .fin n.toNat
  | int i   => some <| .fin i.toInt
  | float x => some x
  | _       => none

-- The number of objects that belong to the token.
def arity : Token → ℕ
  | array size => size.toNat
  | map size   => 2 * size.toNat
  | _          => 0

end Token

def pairs : List Object → List (Object × Object)
  | k :: v :: os => (k, v) :: pairs os
  | _            => []

def Token.object (os : List Object) : Token → Object
  | nil      => .nil
  | bool b   => .bool b
  | uint n   => .uint n
  | int i    => .int i
  | float x  => .float x
  | str s    => .str s
  | bin b    => .bin b
  | ext c b  => .ext c b
  | array _  => .array os
  | map _    => .map (pairs os)

def complete : List (Option Object) → Option (List Object)
  | []           => some []
  | none :: _    => none
  | some o :: os => (complete os).map (o :: ·)

-- The objects that follow one another in a stream. One that is cut off by its end is none, and it
-- takes all of the rest.
def parse : List Token → List (Option Object)
  | []      => []
  | t :: ts =>
    if t.arity ≤ (parse ts).length then
      (complete <| (parse ts).take t.arity).map (t.object ·) :: (parse ts).drop t.arity
    else
      [none]

-- The first object in a stream.
def unpack (ts : List Token) : Option Object :=
  (parse ts).head?.join

variable {o : Object} {os : List Object} {ts : List Token} {t : Token} {st : List (Option Object)}

theorem parse_cons : parse (t :: ts) =
    if t.arity ≤ (parse ts).length then
      (complete <| (parse ts).take t.arity).map (t.object ·) :: (parse ts).drop t.arity
    else
      [none] :=
  rfl

theorem complete_map_some : complete (os.map some) = some os := by
  induction os
  case nil          => rfl
  case cons o os hi => rw [List.map_cons, complete, hi, Option.map_some]

theorem complete_eq_some (h : complete st = some os) : st = os.map some := by
  induction st generalizing os
  case nil          => cases h; rfl
  case cons x st hi =>
    cases x
    case none   => cases h
    case some o =>
      obtain ⟨os, hs, rfl⟩ := Option.map_eq_some_iff.mp h
      rw [List.map_cons, hi hs]

theorem parse_scalar (h : t.arity = 0) : parse (t :: ts) = some (t.object []) :: parse ts := by
  rw [parse_cons, h, if_pos <| Nat.zero_le _, List.take_zero, List.drop_zero]
  rfl

-- A token that all of its objects follow.
theorem parse_container (hp : parse ts = os.map some ++ st) (h : t.arity = os.length) :
    parse (t :: ts) = some (t.object os) :: st := by
  have hl : (os.map some).length = t.arity := by rw [List.length_map, h]
  rw [parse_cons, hp, if_pos (by simp [h]), List.take_left' hl, List.drop_left' hl,
    complete_map_some, Option.map_some]

theorem parse_scalars {us : List Token} (h : ∀ t ∈ us, t.arity = 0) :
    parse (us ++ ts) = (us.map (Token.object [])).map some ++ parse ts := by
  induction us
  case nil         => rfl
  case cons t us hi =>
    rw [List.forall_mem_cons] at h
    rw [List.cons_append, parse_scalar h.left, hi h.right]
    rfl

def flattened (kvs : List (Object × Object)) : List Object :=
  kvs.flatMap fun e => [e.1, e.2]

theorem pairs_flattened {kvs : List (Object × Object)} : pairs (flattened kvs) = kvs := by
  induction kvs
  case nil           => rfl
  case cons e kvs hi => exact congrArg (e :: ·) hi

namespace Object

mutual

-- The number of tokens of an object.
def weight : Object → ℕ
  | .array l => 1 + weights l
  | .map kvs => 1 + weightEntries kvs
  | _        => 1

def weights : List Object → ℕ
  | []     => 0
  | o :: l => o.weight + weights l

def weightEntries : List (Object × Object) → ℕ
  | []            => 0
  | (k, v) :: kvs => k.weight + v.weight + weightEntries kvs

end

theorem weight_pos : 0 < o.weight := by
  cases o <;> simp only [weight] <;> omega

theorem weights_eq_zero (h : weights os = 0) : os = [] := by
  cases os
  case nil         => rfl
  case cons o os =>
    have hw : 0 < o.weight := weight_pos
    rw [weights] at h
    omega

theorem weightEntries_pairs :
    ∀ {os : List Object}, os.length % 2 = 0 → weightEntries (pairs os) = weights os
  | [], _           => rfl
  | [_], h          => nomatch h
  | k :: v :: os, h => by
    have hi : weightEntries (pairs os) = weights os :=
      weightEntries_pairs <| by simp only [List.length_cons] at h; omega
    rw [pairs, weightEntries, weights, weights, hi]
    omega

mutual

-- All floats of an object have the property.
def Floats (P : Floating → Prop) : Object → Prop
  | .float x => P x
  | .array l => FloatsItems P l
  | .map kvs => FloatsEntries P kvs
  | _        => True

def FloatsItems (P : Floating → Prop) : List Object → Prop
  | []     => True
  | o :: l => o.Floats P ∧ FloatsItems P l

def FloatsEntries (P : Floating → Prop) : List (Object × Object) → Prop
  | []            => True
  | (k, v) :: kvs => k.Floats P ∧ v.Floats P ∧ FloatsEntries P kvs

end

variable {P : Floating → Prop}

theorem floatsItems_of_forall (h : ∀ o ∈ os, o.Floats P) : FloatsItems P os := by
  induction os
  case nil          => trivial
  case cons o os hi =>
    rw [List.forall_mem_cons] at h
    exact ⟨h.left, hi h.right⟩

theorem floatsEntries_pairs : ∀ {os : List Object}, (∀ o ∈ os, o.Floats P) →
    FloatsEntries P (pairs os)
  | [], _          => trivial
  | [_], _         => trivial
  | k :: v :: _, h =>
    ⟨h k <| .head _, h v <| .tail _ <| .head _,
      floatsEntries_pairs fun o ho => h o <| .tail _ <| .tail _ ho⟩

end Object

theorem weight_object (h : os.length = t.arity) :
    (t.object os).weight = 1 + Object.weights os := by
  cases t
  case array => rfl
  case map   =>
    rw [Token.object, Object.weight, Object.weightEntries_pairs]
    rw [h, Token.arity]
    omega
  all_goals
    cases List.length_eq_zero_iff.mp h
    rfl

def weight (st : List (Option Object)) : ℕ :=
  (st.map fun x => x.elim 0 Object.weight).sum

theorem weight_map_some : weight (os.map some) = Object.weights os := by
  induction os
  case nil          => rfl
  case cons o os hi =>
    rw [weight] at hi
    rw [weight, List.map_cons, List.map_cons, List.sum_cons, hi]
    rfl

theorem weight_append {st' : List (Option Object)} :
    weight (st ++ st') = weight st + weight st' := by
  rw [weight, List.map_append, List.sum_append]
  rfl

theorem weight_some (h : os.length = t.arity) :
    weight [some (t.object os)] = 1 + Object.weights os := by
  rw [← weight_object h, weight]
  simp

-- How the objects in a stream come about from those after its first token.
inductive Parsed (t : Token) (st : List (Option Object)) : List (Option Object) → Prop
  | cut : Parsed t st [none]
  | broken (cs : List (Option Object)) (rest : List (Option Object)) : st = cs ++ rest →
      Parsed t st (none :: rest)
  | whole (os : List Object) (rest : List (Option Object)) : st = os.map some ++ rest →
      os.length = t.arity → Parsed t st (some (t.object os) :: rest)

theorem parsed : Parsed t (parse ts) (parse (t :: ts)) := by
  rw [parse_cons]
  split
  case isFalse   => exact .cut
  case isTrue hl =>
    cases hc : complete ((parse ts).take t.arity)
    case none    => exact .broken _ _ (List.take_append_drop ..).symm
    case some os =>
      have ho := complete_eq_some hc
      refine .whole os _ (by rw [← ho, List.take_append_drop]) ?_
      rw [← List.length_map (f := some), ← ho, List.length_take, min_eq_left hl]

theorem weight_le_length : weight (parse ts) ≤ ts.length := by
  induction ts
  case nil          => exact le_refl _
  case cons t ts hi =>
    have hp : Parsed t (parse ts) (parse (t :: ts)) := parsed
    rw [List.length_cons]
    generalize parse (t :: ts) = st at hp ⊢
    cases hp
    case cut => exact Nat.zero_le _
    case broken cs rest he =>
      rw [he, weight_append] at hi
      have h0 : weight (none :: rest) = 0 + weight rest := rfl
      omega
    case whole os rest he hn =>
      rw [he, weight_append, weight_map_some] at hi
      rw [← List.singleton_append, weight_append, weight_some hn]
      omega

theorem floats_parse {P : Floating → Prop} (h : ∀ x, .float x ∈ ts → P x) :
    ∀ o, some o ∈ parse ts → o.Floats P := by
  induction ts
  case nil          => nofun
  case cons t ts hi =>
    have hi := hi fun x hx => h x <| .tail _ hx
    have hp : Parsed t (parse ts) (parse (t :: ts)) := parsed
    intro o ho
    generalize parse (t :: ts) = st at hp ho
    cases hp
    case cut               => cases List.mem_singleton.mp ho
    case broken cs rest he =>
      rcases List.mem_cons.mp ho with ho | ho
      case inl => cases ho
      case inr => exact hi o <| he ▸ List.mem_append_right _ ho
    case whole os rest he hn =>
      rcases List.mem_cons.mp ho with ho | ho
      case inr => exact hi o <| he ▸ List.mem_append_right _ ho
      case inl =>
        cases ho
        have hs : ∀ o ∈ os, o.Floats P :=
          fun o ho => hi o <| he ▸ List.mem_append_left _ (List.mem_map_of_mem ho)
        cases t
        case float x => exact h x <| .head _
        case array   => exact Object.floatsItems_of_forall hs
        case map     => exact Object.floatsEntries_pairs hs
        all_goals trivial

def arities (ts : List Token) : ℕ :=
  (ts.map Token.arity).sum

-- Where no token is lost, each of them belongs to another one or begins an object.
theorem parse_of_weight_eq (h : weight (parse ts) = ts.length) :
    ∃ os : List Object, parse ts = os.map some ∧ arities ts + os.length = ts.length := by
  induction ts
  case nil          => exact ⟨[], rfl, rfl⟩
  case cons t ts hi =>
    have hl : weight (parse ts) ≤ ts.length := weight_le_length
    rw [List.length_cons] at h
    have hp : Parsed t (parse ts) (parse (t :: ts)) := parsed
    generalize parse (t :: ts) = st at h hp
    cases hp
    case cut => cases h
    case broken cs rest he =>
      rw [he, weight_append] at hl
      have h0 : weight (none :: rest) = 0 + weight rest := rfl
      omega
    case whole os rest he hn =>
      rw [← List.singleton_append, weight_append, weight_some hn] at h
      have hw : weight (parse ts) = ts.length := by
        rw [he, weight_append, weight_map_some]
        omega
      obtain ⟨os', hs, ha⟩ := hi hw
      rw [hs] at he
      obtain ⟨os₁, os₂, rfl, h₁, h₂⟩ := List.map_eq_append_iff.mp he
      cases (List.map_injective_iff.mpr (Option.some_injective _)) h₁
      refine ⟨t.object os :: os₂, by rw [List.map_cons, h₂], ?_⟩
      rw [List.length_append, hn] at ha
      have : arities (t :: ts) = t.arity + arities ts := rfl
      simp only [List.length_cons]
      omega

-- So it is where no object is cut off.
theorem arities_of_complete (h : parse ts = os.map some) :
    arities ts + os.length = ts.length := by
  induction ts generalizing os
  case nil          =>
    cases os
    case nil  => rfl
    case cons => cases h
  case cons t ts hi =>
    have hp : Parsed t (parse ts) (parse (t :: ts)) := parsed
    rw [h] at hp
    generalize hs : os.map some = st at hp
    cases hp
    case cut | broken    => cases os <;> cases hs
    case whole os' rest he hn =>
      obtain ⟨o, os, rfl, -, rfl⟩ := List.map_eq_cons_iff.mp hs
      rw [← List.map_append] at he
      have hi := hi he
      have : arities (t :: ts) = t.arity + arities ts := rfl
      simp only [List.length_append, List.length_cons] at hi ⊢
      omega

end Msgpack
