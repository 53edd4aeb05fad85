import Mathlib.Data.Set.Basic

-- Who holds which mutex, and who is waiting to acquire which.
structure Locking (ι μ : Type*) where
  holds : ι → μ → Prop
  waits : ι → μ → Prop

namespace Locking

variable {ι μ : Type*} {l : Locking ι μ} {ts : Set ι} {i j : ι} {m : μ}

-- Each of the threads holds a mutex that another one of them is waiting to acquire.
structure Deadlock (l : Locking ι μ) (ts : Set ι) : Prop where
  nonempty : ts.Nonempty
  waited   : ∀ i ∈ ts, ∃ j ∈ ts, j ≠ i ∧ ∃ m, l.holds i m ∧ l.waits j m

-- Threads only wait for mutexes above those that they hold.
def Ascends (l : Locking ι μ) (rank : μ → ℕ) : Prop :=
  ∀ i m n, l.holds i m → l.waits i n → rank m < rank n

-- A thread that is waited for by one that waits for a mutex is waited for at a lower rank.
theorem Deadlock.not_waits {rank : μ → ℕ} (h : l.Deadlock ts) (ha : l.Ascends rank) (hj : j ∈ ts) :
    ¬l.waits j m := by
  induction hr : rank m using Nat.strongRecOn generalizing j m
  case ind k hi =>
    intro hw
    obtain ⟨j', hj', _, m', hh, hw'⟩ := h.waited j hj
    have hlt : rank m' < rank m := ha j m' m hh hw
    exact hi (rank m') (hr ▸ hlt) hj' rfl hw'

theorem not_deadlock_of_ascends {rank : μ → ℕ} (ha : l.Ascends rank) : ¬l.Deadlock ts := by
  intro h
  obtain ⟨i, hi⟩ := h.nonempty
  obtain ⟨j, hj, _, m, _, hw⟩ := h.waited i hi
  exact h.not_waits ha hj hw

end Locking
