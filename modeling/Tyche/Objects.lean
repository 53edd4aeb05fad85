import Mathlib.Logic.Function.Basic
import Tyche.Machine

-- Objects of a class, each at an address of its own.
namespace Objects

inductive Op (ι β : Type)
  | construct (i : ι) (value : β)
  | copyConstruct (i other : ι)
  | moveConstruct (i other : ι)
  | copyAssign (i other : ι)
  | moveAssign (i other : ι)
  | destroy (i : ι)

-- What a class does with its objects, which are made of values. A move says what is left of the other
-- object, too. An object may be assigned to itself, and then both are the same.
structure Class (φ β : Type) where
  construct     : β → Option φ
  copyConstruct : (other : φ) → Option φ
  moveConstruct : (other : φ) → Option (φ × φ)
  copyAssign    : (same : Bool) → (this other : φ) → Option φ
  moveAssign    : (same : Bool) → (this other : φ) → Option (φ × φ)

abbrev Store (ι φ : Type) :=
  ι → Option φ

def Store.empty {ι φ : Type} : Store ι φ :=
  fun _ => none

variable {ι φ β : Type}

-- The class of which the objects are nothing but their values.
def values (moved : β) : Class β β where
  construct                  := some
  copyConstruct              := some
  moveConstruct other        := some (other, moved)
  copyAssign _ _ other       := some other
  moveAssign same this other := if same then some (this, this) else some (other, moved)

namespace Class

variable [DecidableEq ι]

-- Objects are made where there are none, and all others have to exist.
def step (c : Class φ β) (m : Store ι φ) : Op ι β → Option (Store ι φ)
  | .construct i b         =>
    if (m i).isSome then none
    else do
      let this ← c.construct b
      return Function.update m i (some this)
  | .copyConstruct i other =>
    if (m i).isSome then none
    else do
      let this ← c.copyConstruct (← m other)
      return Function.update m i (some this)
  | .moveConstruct i other =>
    if (m i).isSome then none
    else do
      let (this, left) ← c.moveConstruct (← m other)
      return Function.update (Function.update m other (some left)) i (some this)
  | .copyAssign i other    => do
    let this ← c.copyAssign (i = other) (← m i) (← m other)
    return Function.update m i (some this)
  | .moveAssign i other    => do
    let (this, left) ← c.moveAssign (i = other) (← m i) (← m other)
    return Function.update (Function.update m other (some left)) i (some this)
  | .destroy i             => do
    let _ ← m i
    return Function.update m i none

def machine (c : Class φ β) (ι : Type) [DecidableEq ι] : Machine (Store ι φ) (Op ι β) where
  step := c.step

end Class

-- Which values the objects have.
def Stand (R : φ → β → Prop) (m : Store ι φ) (v : Store ι β) : Prop :=
  ∀ i, Option.Rel R (m i) (v i)

-- The operations are those on values. Only when an object is assigned to itself they may rely on
-- that.
structure Class.Represents (c : Class φ β) (moved : β) (R : φ → β → Prop) : Prop where
  construct      : ∀ b, ∃ f, c.construct b = some f ∧ R f b
  copyConstruct  : ∀ g b, R g b → ∃ f, c.copyConstruct g = some f ∧ R f b
  moveConstruct  : ∀ g b, R g b → ∃ f g', c.moveConstruct g = some (f, g') ∧ R f b ∧ R g' moved
  copyAssign     : ∀ f a g b, R f a → R g b → ∃ f', c.copyAssign false f g = some f' ∧ R f' b
  copyAssignSelf : ∀ f a, R f a → ∃ f', c.copyAssign true f f = some f' ∧ R f' a
  moveAssign     : ∀ f a g b, R f a → R g b →
    ∃ f' g', c.moveAssign false f g = some (f', g') ∧ R f' b ∧ R g' moved
  moveAssignSelf : ∀ f a, R f a → ∃ f' g', c.moveAssign true f f = some (f', g') ∧ R f' a

variable {c : Class φ β} {R : φ → β → Prop} {m : Store ι φ} {v : Store ι β} {moved : β}

theorem rel_mono {α α' : Type} {Q S : α → α' → Prop} {x : Option α} {y : Option α'}
    (hs : ∀ a b, Q a b → S a b) (h : Option.Rel Q x y) : Option.Rel S x y := by
  cases h
  case none   => exact .none
  case some h => exact .some <| hs _ _ h

theorem rel_bind {α α' γ γ' : Type} {Q : α → α' → Prop} {S : γ → γ' → Prop} {x : Option α}
    {y : Option α'} {f : α → Option γ} {g : α' → Option γ'} (h : Option.Rel Q x y)
    (hf : ∀ a b, Q a b → Option.Rel S (f a) (g b)) : Option.Rel S (x >>= f) (y >>= g) := by
  cases h
  case none   => exact .none
  case some h => exact hf _ _ h

theorem rel_bind_self {α α' γ γ' : Type} {Q : α → α' → Prop} {S : γ → γ' → Prop} {x : Option α}
    {y : Option α'} {f : α → α → Option γ} {g : α' → α' → Option γ'} (h : Option.Rel Q x y)
    (hf : ∀ a b, Q a b → Option.Rel S (f a a) (g b b)) :
    Option.Rel S (x >>= fun a => x >>= f a) (y >>= fun b => y >>= g b) := by
  cases h
  case none   => exact .none
  case some h => exact hf _ _ h

theorem isSome_eq_of_rel {x : Option φ} {y : Option β} (h : Option.Rel R x y) :
    x.isSome = y.isSome := by
  cases h <;> rfl

namespace Stand

theorem empty : Stand R (.empty : Store ι φ) .empty :=
  fun _ => .none

variable [DecidableEq ι]

theorem update {i : ι} {f : φ} {b : β} (h : Stand R m v) (hf : R f b) :
    Stand R (Function.update m i (some f)) (Function.update v i (some b)) := by
  intro j
  rw [Function.update_apply, Function.update_apply]
  split
  case isTrue  => exact .some hf
  case isFalse => exact h j

theorem erase {i : ι} (h : Stand R m v) :
    Stand R (Function.update m i none) (Function.update v i none) := by
  intro j
  rw [Function.update_apply, Function.update_apply]
  split
  case isTrue  => exact .none
  case isFalse => exact h j

end Stand

namespace Class.Represents

variable [DecidableEq ι] {o : Op ι β}

theorem step (hc : c.Represents moved R) (h : Stand R m v) :
    Option.Rel (Stand R) (c.step m o) ((values moved).step v o) := by
  cases o
  case construct i b =>
    rw [Class.step, Class.step, isSome_eq_of_rel (h i)]
    split
    case isTrue  => exact .none
    case isFalse =>
      obtain ⟨f, hf, hr⟩ := hc.construct b
      rw [hf]
      exact .some <| h.update hr
  case copyConstruct i other =>
    rw [Class.step, Class.step, isSome_eq_of_rel (h i)]
    split
    case isTrue  => exact .none
    case isFalse =>
      refine rel_bind (h other) fun g b hg => ?_
      obtain ⟨f, hf, hr⟩ := hc.copyConstruct g b hg
      rw [hf]
      exact .some <| h.update hr
  case moveConstruct i other =>
    rw [Class.step, Class.step, isSome_eq_of_rel (h i)]
    split
    case isTrue  => exact .none
    case isFalse =>
      refine rel_bind (h other) fun g b hg => ?_
      obtain ⟨f, g', hf, hr, hl⟩ := hc.moveConstruct g b hg
      rw [hf]
      exact .some <| (h.update hl).update hr
  case copyAssign i other =>
    by_cases hi : i = other
    case pos =>
      subst hi
      refine rel_bind_self (h i) fun f a hf => ?_
      obtain ⟨f', he, hr⟩ := hc.copyAssignSelf f a hf
      rw [decide_eq_true rfl, he]
      exact .some <| h.update hr
    case neg =>
      refine rel_bind (h i) fun f a hf => rel_bind (h other) fun g b hg => ?_
      obtain ⟨f', he, hr⟩ := hc.copyAssign f a g b hf hg
      rw [decide_eq_false hi, he]
      exact .some <| h.update hr
  case moveAssign i other =>
    by_cases hi : i = other
    case pos =>
      subst hi
      refine rel_bind_self (h i) fun f a hf => ?_
      obtain ⟨f', g', he, hr⟩ := hc.moveAssignSelf f a hf
      rw [decide_eq_true rfl, he]
      refine .some ?_
      rw [Function.update_idem, Function.update_idem]
      exact h.update hr
    case neg =>
      refine rel_bind (h i) fun f a hf => rel_bind (h other) fun g b hg => ?_
      obtain ⟨f', g', he, hr, hl⟩ := hc.moveAssign f a g b hf hg
      rw [decide_eq_false hi, he]
      exact .some <| (h.update hl).update hr
  case destroy i => exact rel_bind (h i) fun _ _ _ => .some h.erase

theorem exec (hc : c.Represents moved R) (h : Stand R m v) {os : List (Op ι β)} :
    Option.Rel (Stand R) ((c.machine ι).exec m os) (((values moved).machine ι).exec v os) := by
  induction os generalizing m v
  case nil          => exact .some h
  case cons o os hi => exact rel_bind (hc.step h) fun _ _ => hi

end Class.Represents

end Objects
