import Mathlib.Logic.Basic

-- A machine moves from state to state by actions. An action that is not enabled in a state has no
-- step there.
structure Machine (σ α : Type*) where
  step : σ → α → Option σ

namespace Machine

variable {σ α : Type*} {m : Machine σ α} {s s₁ s₂ : σ} {a : α} {as bs : List α}
variable {C D : σ → α → Prop} {I P Q : σ → Prop}

def exec (m : Machine σ α) : σ → List α → Option σ
  | s, []      => some s
  | s, a :: as => (m.step s a).bind (m.exec · as)

-- `C` holds of every step of the run `as`, judged in the state before that step.
def Along (m : Machine σ α) (C : σ → α → Prop) : σ → List α → Prop
  | _, []      => True
  | s, a :: as => C s a ∧ ∀ s', m.step s a = some s' → m.Along C s' as

-- `P` holds in every state that the run `as` visits, the first one included.
def Always (m : Machine σ α) (P : σ → Prop) : σ → List α → Prop
  | s, []      => P s
  | s, a :: as => P s ∧ ∀ s', m.step s a = some s' → m.Always P s' as

instance Along.decidable [∀ s a, Decidable (C s a)] : ∀ s as, Decidable (m.Along C s as)
  | _, []      => isTrue trivial
  | s, a :: as =>
    have : ∀ s', Decidable (m.Along C s' as) := (Along.decidable · as)
    decidable_of_iff (C s a ∧ ∀ s' ∈ m.step s a, m.Along C s' as) Iff.rfl

@[simp]
theorem exec_nil : m.exec s [] = some s :=
  rfl

theorem exec_cons : m.exec s (a :: as) = (m.step s a).bind (m.exec · as) :=
  rfl

theorem exec_cons_eq_some_iff :
    m.exec s (a :: as) = some s₂ ↔ ∃ s₁, m.step s a = some s₁ ∧ m.exec s₁ as = some s₂ := by
  rw [exec_cons, Option.bind_eq_some_iff]

theorem exec_append : m.exec s (as ++ bs) = (m.exec s as).bind (m.exec · bs) := by
  induction as generalizing s
  case nil => rfl
  case cons a as hi =>
    rw [List.cons_append, exec_cons, exec_cons]
    cases m.step s a
    case none    => rfl
    case some s' => exact hi

theorem exec_concat (h : m.exec s as = some s₁) : m.exec s (as ++ [a]) = m.step s₁ a := by
  rw [exec_append, h, Option.bind_some, exec_cons]
  cases m.step s₁ a <;> rfl

theorem always_cons {s' : σ} (e : m.step s a = some s') :
    m.Always P s (a :: as) ↔ P s ∧ m.Always P s' as :=
  and_congr_right fun _ => ⟨fun r => r s' e, fun r _ e' => Option.some.inj (e.symm.trans e') ▸ r⟩

namespace Along

theorem mono (h : ∀ s a, C s a → D s a) (r : m.Along C s as) : m.Along D s as := by
  induction as generalizing s
  case nil => trivial
  case cons a as hi => exact ⟨h s a r.left, fun s' e => hi (r.right s' e)⟩

theorem and (r₁ : m.Along C s as) (r₂ : m.Along D s as) :
    m.Along (fun s a => C s a ∧ D s a) s as := by
  induction as generalizing s
  case nil => trivial
  case cons a as hi =>
    exact ⟨⟨r₁.left, r₂.left⟩, fun s' e => hi (r₁.right s' e) (r₂.right s' e)⟩

theorem exec (r : m.Along C s (as ++ bs)) (h : m.exec s as = some s₁) : m.Along C s₁ bs := by
  induction as generalizing s
  case nil => cases h; exact r
  case cons a as hi =>
    have ⟨s', e, h⟩ := exec_cons_eq_some_iff.mp h
    exact hi (r.right s' e) h

theorem of_append (r : m.Along C s (as ++ bs)) : m.Along C s as := by
  induction as generalizing s
  case nil => trivial
  case cons a as hi => exact ⟨r.left, fun s' e => hi (r.right s' e)⟩

end Along

namespace Always

theorem start (r : m.Always P s as) : P s := by
  cases as
  case nil  => exact r
  case cons => exact r.left

theorem mono (h : ∀ s, P s → Q s) (r : m.Always P s as) : m.Always Q s as := by
  induction as generalizing s
  case nil => exact h s r
  case cons a as hi => exact ⟨h s r.left, fun s' e => hi (r.right s' e)⟩

theorem and (r₁ : m.Always P s as) (r₂ : m.Always Q s as) :
    m.Always (fun s => P s ∧ Q s) s as := by
  induction as generalizing s
  case nil => exact ⟨r₁, r₂⟩
  case cons a as hi =>
    exact ⟨⟨r₁.left, r₂.left⟩, fun s' e => hi (r₁.right s' e) (r₂.right s' e)⟩

theorem exec (r : m.Always P s as) (h : m.exec s as = some s₁) : P s₁ := by
  induction as generalizing s
  case nil => cases h; exact r
  case cons a as hi =>
    have ⟨s', e, h⟩ := exec_cons_eq_some_iff.mp h
    exact hi (r.right s' e) h

-- Facts about the states of a run and about its steps give a fact about its steps.
theorem along (r : m.Always I s as) (c : m.Along C s as) (h : ∀ s a, I s → C s a → D s a) :
    m.Along D s as := by
  induction as generalizing s
  case nil => trivial
  case cons a as hi => exact ⟨h s a r.left c.left, fun s' e => hi (r.right s' e) (c.right s' e)⟩

end Always

-- The invariant rule for runs whose steps all meet a condition.
theorem always_of_step (hs : ∀ s a s', I s → C s a → m.step s a = some s' → I s') (h : I s)
    (c : m.Along C s as) : m.Always I s as := by
  induction as generalizing s
  case nil => exact h
  case cons a as hi => exact ⟨h, fun s' e => hi (hs s a s' h c.left e) (c.right s' e)⟩

theorem along_of_forall {Q : α → Prop} (h : ∀ a ∈ as, Q a) : m.Along (fun _ => Q) s as := by
  induction as generalizing s
  case nil => trivial
  case cons a as hi =>
    rw [List.forall_mem_cons] at h
    exact ⟨h.left, fun _ _ => hi h.right⟩

theorem along_true : m.Along (fun _ _ => True) s as :=
  along_of_forall fun _ _ => trivial

-- The invariant rule for arbitrary runs.
theorem invariant (hs : ∀ s a s', I s → m.step s a = some s' → I s') (h : I s) :
    m.Always I s as :=
  always_of_step (fun s a s' h _ => hs s a s' h) h along_true

-- Where every step keeps `P` exactly when it meets `C`, a run keeps `P` exactly when all its steps
-- meet `C`. The invariant `I` may be used to show this for a single step.
theorem always_iff_along (hi : ∀ s a s', I s → m.step s a = some s' → I s')
    (hs : ∀ s a s', I s → P s → m.step s a = some s' → (P s' ↔ C s a)) (h : I s) (hp : P s)
    (e : m.exec s as = some s₁) : m.Always P s as ↔ m.Along C s as := by
  induction as generalizing s
  case nil => exact ⟨fun _ => trivial, fun _ => hp⟩
  case cons a as ih =>
    have ⟨s', e, e'⟩ := exec_cons_eq_some_iff.mp e
    have hc := hs s a s' h hp e
    have hr (hp' : P s') : m.Always P s' as ↔ m.Along C s' as := ih (hi s a s' h e) hp' e'
    constructor
    case mp =>
      intro r
      have hp' := (r.right s' e).start
      refine ⟨hc.mp hp', fun s'' e'' => ?_⟩
      cases e.symm.trans e''
      exact (hr hp').mp (r.right s' e)
    case mpr =>
      intro r
      refine ⟨hp, fun s'' e'' => ?_⟩
      cases e.symm.trans e''
      exact (hr <| hc.mpr r.left).mpr (r.right s' e)

end Machine
