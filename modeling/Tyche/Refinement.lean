import Tyche.Machine

-- A component with operations that return results.
structure Component (σ ω ρ : Type*) where
  perform : σ → ω → ρ × σ

namespace Component

variable {σ σ' ω ρ : Type*} {c : Component σ ω ρ} {d : Component σ' ω ρ} {s : σ} {s' : σ'}
variable {os : List ω}

-- Both components perform the same operations.
def beside (c : Component σ ω ρ) (d : Component σ' ω ρ) : Machine (σ × σ') ω where
  step s o := some ((c.perform s.1 o).2, (d.perform s.2 o).2)

-- No operation tells the components apart.
def Agree (c : Component σ ω ρ) (d : Component σ' ω ρ) (s : σ × σ') : Prop :=
  ∀ o, (c.perform s.1 o).1 = (d.perform s.2 o).1

def machine (c : Component σ ω ρ) : Machine σ ω where
  step s o := some (c.perform s o).2

theorem exec_beside (s : σ × σ') : ∃ s', (c.beside d).exec s os = some s' := by
  induction os generalizing s
  case nil          => exact ⟨s, rfl⟩
  case cons o os hi => exact hi _

theorem along_beside_iff {C : σ' → ω → Prop} :
    (c.beside d).Along (fun s o => C s.2 o) (s, s') os ↔ d.machine.Along C s' os := by
  induction os generalizing s s'
  case nil          => exact Iff.rfl
  case cons o os hi =>
    refine and_congr_right fun _ => ⟨?_, ?_⟩
    case refine_1 => rintro h _ ⟨⟩; exact hi.mp <| h _ rfl
    case refine_2 => rintro h _ ⟨⟩; exact hi.mpr <| h _ rfl

-- Where every operation keeps the components alike exactly when it meets `C`, they are alike in all
-- of a run exactly when all of its operations meet `C`.
theorem always_agree_iff {I : σ → σ' → Prop} {C : σ' → ω → Prop}
    (hi : ∀ s s' o, I s s' → I (c.perform s o).2 (d.perform s' o).2)
    (hs : ∀ s s' o, I s s' → c.Agree d (s, s') →
      (c.Agree d ((c.perform s o).2, (d.perform s' o).2) ↔ C s' o))
    (h : I s s') (ha : c.Agree d (s, s')) :
    (c.beside d).Always (c.Agree d) (s, s') os ↔ d.machine.Along C s' os := by
  obtain ⟨s₁, e⟩ := exec_beside (c := c) (d := d) (s, s')
  rw [← along_beside_iff (c := c) (s := s)]
  refine Machine.always_iff_along (I := fun s => I s.1 s.2) ?_ ?_ h ha e
  case refine_1 => rintro ⟨s, s'⟩ o _ h ⟨⟩; exact hi s s' o h
  case refine_2 => rintro ⟨s, s'⟩ o _ h ha ⟨⟩; exact hs s s' o h ha

end Component
