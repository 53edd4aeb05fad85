import Mathlib.Logic.Basic

variable {α : Type*} {P Q : α → Prop} {l l₁ l₂ : List α} {a : α}

-- A log that grows by lines that satisfy `P`.
def Grows (P : α → Prop) (l l' : List α) : Prop :=
  ∃ as, l' = l ++ as ∧ ∀ a ∈ as, P a

namespace Grows

theorem of_eq (h : l₁ = l) : Grows P l l₁ :=
  ⟨[], by simp [h], by simp⟩

theorem mono (hq : ∀ a, P a → Q a) (h : Grows P l l₁) : Grows Q l l₁ := by
  have ⟨as, e, h⟩ := h
  exact ⟨as, e, fun a hm => hq a (h a hm)⟩

theorem concat (h : P a) : Grows P l (l ++ [a]) :=
  ⟨[a], rfl, by simpa⟩

theorem trans (h₁ : Grows P l l₁) (h₂ : Grows P l₁ l₂) : Grows P l l₂ := by
  have ⟨as₁, e₁, h₁⟩ := h₁
  have ⟨as₂, e₂, h₂⟩ := h₂
  refine ⟨as₁ ++ as₂, by rw [e₂, e₁, List.append_assoc], fun a hm => ?_⟩
  exact (List.mem_append.mp hm).elim (h₁ a) (h₂ a)

theorem drop (h : Grows P l l₁) (hm : a ∈ l₁.drop l.length) : P a := by
  have ⟨as, e, h⟩ := h
  rw [e, List.drop_left] at hm
  exact h a hm

end Grows
