import Mathlib.Data.List.Basic
import Mathlib.Data.List.Induction
import Tyche.Bytes

-- Records that are appended to files whose names never go backwards.
namespace Journal

variable {N R : Type*} [DecidableEq N]

-- The files are kept in the order in which they are made.
def append (name : N) (text : List R) : List (N × List R) → List (N × List R)
  | []            => [(name, text)]
  | (n, b) :: fs  => if n = name then (n, b ++ text) :: fs else (n, b) :: append name text fs

def Ordered (le : N → N → Prop) (fs : List (N × List R)) : Prop :=
  fs.Pairwise fun f g => le f.1 g.1 ∧ f.1 ≠ g.1

variable {le : N → N → Prop} {name n : N} {text b : List R} {fs : List (N × List R)}
  {ps : List (N × List R)}

theorem mem_append (h : (n, b) ∈ append name text fs) : n = name ∨ ∃ c, (n, c) ∈ fs := by
  induction fs
  case nil =>
    cases List.mem_singleton.mp h
    exact .inl rfl
  case cons f fs hi =>
    obtain ⟨m, c⟩ := f
    rw [append] at h
    split at h
    case isTrue hm =>
      rcases List.mem_cons.mp h with h | h
      case inl =>
        cases h
        exact .inl hm
      case inr => exact .inr ⟨b, .tail _ h⟩
    case isFalse =>
      rcases List.mem_cons.mp h with h | h
      case inl =>
        cases h
        exact .inr ⟨b, .head _⟩
      case inr =>
        rcases hi h with hn | ⟨c, hc⟩
        case inl => exact .inl hn
        case inr => exact .inr ⟨c, .tail _ hc⟩

def lines : Bytes → List Bytes
  | []     => []
  | c :: s =>
    if c = 10 then [] :: lines s
    else match lines s with
      | []      => [[c]]
      | l :: ls => (c :: l) :: ls

variable {l s : Bytes} {ls : List Bytes}

end Journal
