import Mathlib.Data.List.Basic

-- A queue as its users see it: everything it ever accepted, in order, and how much of that was
-- taken out again.
structure Fifo (α : Type*) where
  accepted : List α
  taken    : ℕ
  taken_le : taken ≤ accepted.length

namespace Fifo

variable {α : Type*}

def empty : Fifo α where
  accepted := []
  taken    := 0
  taken_le := Nat.le_refl _

def size (f : Fifo α) : ℕ :=
  f.accepted.length - f.taken

def offer (f : Fifo α) (x : α) : Fifo α where
  accepted := f.accepted ++ [x]
  taken    := f.taken
  taken_le := by simpa using Nat.le_succ_of_le f.taken_le

def front? (f : Fifo α) : Option α :=
  f.accepted[f.taken]?

def take (f : Fifo α) : Fifo α where
  accepted := f.accepted
  taken    := if f.taken < f.accepted.length then f.taken + 1 else f.taken
  taken_le := by split <;> [assumption; exact f.taken_le]

variable {f : Fifo α} {x : α}

@[simp]
theorem offer_accepted : (f.offer x).accepted = f.accepted ++ [x] :=
  rfl

@[simp]
theorem offer_taken : (f.offer x).taken = f.taken :=
  rfl

@[simp]
theorem take_accepted : f.take.accepted = f.accepted :=
  rfl

theorem take_taken (h : f.taken < f.accepted.length) : f.take.taken = f.taken + 1 :=
  if_pos h

theorem take_eq_self (h : f.taken = f.accepted.length) : f.take = f := by
  cases f
  simp_all [take]

theorem front?_eq_none_iff : f.front? = none ↔ f.taken = f.accepted.length := by
  rw [front?, List.getElem?_eq_none_iff]
  have := f.taken_le
  omega

theorem front?_eq_some (h : f.taken < f.accepted.length) :
    f.front? = some f.accepted[f.taken] :=
  List.getElem?_eq_getElem h

-- What was taken is a prefix of what was accepted, so it came out in order and once each.
theorem taken_concat_front? (h : f.front? = some x) :
    f.accepted.take f.take.taken = f.accepted.take f.taken ++ [x] := by
  have ⟨hl, hx⟩ := List.getElem?_eq_some_iff.mp h
  rw [take_taken hl, List.take_succ_eq_append_getElem hl, hx]

end Fifo
