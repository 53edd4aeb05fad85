import Mathlib.Logic.Relation
import Tyche.Proc

namespace Proc

open Relation

variable {Op : Type → Type} {ε α β σ : Type}

-- A run of a program in which others take steps before, between and after its operations, which
-- `exec` carries out.
def Amid (exec : ∀ {β}, Op β → σ → Except ε β × σ) (others : σ → σ → Prop) :
    Proc Op ε α → σ → Except ε α → σ → Prop
  | done r', s, r, s' => r = r' ∧ ReflTransGen others s s'
  | call op k, s, r, s' => ∃ s₁, ReflTransGen others s s₁ ∧
      (k (exec op s₁).1).Amid exec others (exec op s₁).2 r s'

variable {exec : ∀ {β}, Op β → σ → Except ε β × σ} {others : σ → σ → Prop} {p : Proc Op ε α}
variable {s s' : σ} {I : σ → Prop}

-- One of the runs is the one that the others leave alone.
theorem amid_run : p.Amid exec others s (p.run exec s).1 (p.run exec s).2 := by
  induction p generalizing s
  case done      => exact ⟨rfl, .refl⟩
  case call _ hi => exact ⟨s, .refl, hi _⟩

theorem amid_after {f : Except ε α → Proc Op ε β} {r : Except ε β}
    (h : (p.after f).Amid exec others s r s') :
    ∃ x s₁, p.Amid exec others s x s₁ ∧ (f x).Amid exec others s₁ r s' := by
  induction p generalizing s
  case done x    => exact ⟨x, s, ⟨rfl, .refl⟩, h⟩
  case call _ hi =>
    obtain ⟨s₁, hs, h⟩ := h
    obtain ⟨x, s₂, hx, hf⟩ := hi _ h
    exact ⟨x, s₂, ⟨s₁, hs, hx⟩, hf⟩

theorem amid_bind {f : α → Proc Op ε β} {r : Except ε β}
    (h : (p >>= f).Amid exec others s r s') :
    (∃ a s₁, p.Amid exec others s (.ok a) s₁ ∧ (f a).Amid exec others s₁ r s') ∨
      ∃ e s₁, p.Amid exec others s (.error e) s₁ ∧ r = .error e ∧ ReflTransGen others s₁ s' := by
  obtain ⟨x, s₁, hx, hf⟩ := amid_after h
  cases x
  case ok a    => exact .inl ⟨a, s₁, hx, hf⟩
  case error e => exact .inr ⟨e, s₁, hx, hf⟩

-- What the others keep is kept in between.
theorem others_keep (hi : ∀ s s', I s → others s s' → I s') (h : ReflTransGen others s s')
    (hs : I s) : I s' := by
  induction h
  case refl          => exact hs
  case tail _ ho hi' => exact hi _ _ hi' ho

-- The rule for what the others and all operations of a program keep.
theorem Amid.keeps {C : ∀ {β}, Op β → Prop} {r : Except ε α} (h : p.Amid exec others s r s')
    (hp : p.All C) (hc : ∀ {β} (o : Op β) s, C o → I s → I (exec o s).2)
    (hi : ∀ s s', I s → others s s' → I s') (hs : I s) : I s' := by
  induction p generalizing s
  case done         => exact others_keep hi h.right hs
  case call o k hk =>
    obtain ⟨s₁, h₁, h⟩ := h
    exact hk _ h (hp.right _) <| hc o s₁ hp.left <| others_keep hi h₁ hs

end Proc
