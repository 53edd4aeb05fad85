import Mathlib.Data.List.Nodup
import Mathlib.Logic.Function.Basic

-- Linked lists: nodes with a link to the next one.
namespace Linked

variable {α : Type*}

-- What can be reached from a link.
inductive Reaches (next : α → Option α) : Option α → α → Prop
  | here {a} : Reaches next (some a) a
  | there {a b} : Reaches next (next a) b → Reaches next (some a) b

-- The nodes that follow one another from a link to the end of the list.
def Chain (next : α → Option α) : Option α → List α → Prop
  | h, []     => h = none
  | h, a :: l => h = some a ∧ Chain next (next a) l

variable {next : α → Option α} {h : Option α} {a : α} {l : List α}

theorem Chain.reaches_iff (hc : Chain next h l) : Reaches next h a ↔ a ∈ l := by
  induction l generalizing h
  case nil =>
    cases hc
    exact iff_of_false nofun List.not_mem_nil
  case cons b l hi =>
    obtain ⟨rfl, hc⟩ := hc
    rw [List.mem_cons, ← hi hc]
    constructor
    case mp =>
      rintro (_ | hr)
      case here  => exact .inl rfl
      case there => exact .inr hr
    case mpr =>
      rintro (rfl | hr)
      case inl => exact .here
      case inr => exact .there hr

-- The links of other nodes do not matter.
theorem Chain.update [DecidableEq α] {b : Option α} (hc : Chain next h l) (ha : a ∉ l) :
    Chain (Function.update next a b) h l := by
  induction l generalizing h
  case nil         => exact hc
  case cons c l hi =>
    obtain ⟨rfl, hc⟩ := hc
    rw [List.mem_cons, not_or] at ha
    refine ⟨rfl, ?_⟩
    rw [Function.update_of_ne (Ne.symm ha.left)]
    exact hi hc ha.right

theorem Chain.pop (hc : Chain next (some a) l) : ∃ l', l = a :: l' ∧ Chain next (next a) l' := by
  cases l
  case nil         => cases hc
  case cons b l' =>
    obtain ⟨⟨⟩, hc⟩ := hc
    exact ⟨l', rfl, hc⟩

end Linked
