import Mathlib.Data.List.Infix
import Tyche.Discipline

-- Parties that share nothing but the history of what they did, to which their steps add. What a
-- party has received is what the history says was sent.
namespace Network

variable {σ σ₁ σ₂ α α₁ α₂ E ι : Type*}

abbrev Party (σ α E : Type*) :=
  Machine (σ × List E) α

-- Two parties side by side.
def both (m₁ : Party σ₁ α₁ E) (m₂ : Party σ₂ α₂ E) : Party (σ₁ × σ₂) (α₁ ⊕ α₂) E where
  step s
    | .inl a => (m₁.step (s.1.1, s.2) a).map fun (t, h) => ((t, s.1.2), h)
    | .inr a => (m₂.step (s.1.2, s.2) a).map fun (t, h) => ((s.1.1, t), h)

-- Any number of parties side by side.
def all [DecidableEq ι] (m : ι → Party σ α E) : Party (ι → σ) (ι × α) E where
  step s a := ((m a.1).step (s.1 a.1, s.2) a.2).map fun (t, h) => (Function.update s.1 a.1 t, h)

-- What a party promises: as long as the history has been in order it keeps it in order. For that it
-- relies on what it knows about itself, which what the others add to the history leaves true.
structure Contract (m : Party σ α E) (J : List E → Prop) (I : σ → List E → Prop)
    (C : σ × List E → α → Prop) : Prop where
  later : ∀ {s h h'}, I s h → h <+: h' → I s h'
  grows : ∀ {s a s'}, m.step s a = some s' → s.2 <+: s'.2
  step  : ∀ {s a s'}, J s.2 → I s.1 s.2 → C s a → m.step s a = some s' → J s'.2 ∧ I s'.1 s'.2

namespace Contract

variable {m : Party σ α E} {m₁ : Party σ₁ α₁ E} {m₂ : Party σ₂ α₂ E} {ms : ι → Party σ α E}
variable {J : List E → Prop} {I : σ → List E → Prop} {I₁ : σ₁ → List E → Prop}
variable {I₂ : σ₂ → List E → Prop} {Is : ι → σ → List E → Prop} {C : σ × List E → α → Prop}
variable {C₁ : σ₁ × List E → α₁ → Prop} {C₂ : σ₂ × List E → α₂ → Prop}
variable {Cs : ι → σ × List E → α → Prop}

def bothMeet (C₁ : σ₁ × List E → α₁ → Prop) (C₂ : σ₂ × List E → α₂ → Prop)
    (s : (σ₁ × σ₂) × List E) : α₁ ⊕ α₂ → Prop
  | .inl a => C₁ (s.1.1, s.2) a
  | .inr a => C₂ (s.1.2, s.2) a

instance [∀ s a, Decidable (C₁ s a)] [∀ s a, Decidable (C₂ s a)] {s : (σ₁ × σ₂) × List E} :
    ∀ a, Decidable (bothMeet C₁ C₂ s a)
  | .inl a => inferInstanceAs <| Decidable (C₁ _ a)
  | .inr a => inferInstanceAs <| Decidable (C₂ _ a)

def allMeet (Cs : ι → σ × List E → α → Prop) (s : (ι → σ) × List E) (a : ι × α) : Prop :=
  Cs a.1 (s.1 a.1, s.2) a.2

instance [∀ i s a, Decidable (Cs i s a)] {s : (ι → σ) × List E} {a : ι × α} :
    Decidable (allMeet Cs s a) :=
  inferInstanceAs <| Decidable (Cs ..)

theorem both (c₁ : Contract m₁ J I₁ C₁) (c₂ : Contract m₂ J I₂ C₂) :
    Contract (both m₁ m₂) J (fun s h => I₁ s.1 h ∧ I₂ s.2 h) (bothMeet C₁ C₂) where
  later h hp := ⟨c₁.later h.left hp, c₂.later h.right hp⟩
  grows {s a s'} e := by
    cases a
    case inl a =>
      obtain ⟨t, ht, rfl⟩ := Option.map_eq_some_iff.mp e
      exact c₁.grows ht
    case inr a =>
      obtain ⟨t, ht, rfl⟩ := Option.map_eq_some_iff.mp e
      exact c₂.grows ht
  step {s a s'} hj hi hc e := by
    cases a
    case inl a =>
      obtain ⟨t, ht, rfl⟩ := Option.map_eq_some_iff.mp e
      have ⟨hj', hi'⟩ := c₁.step hj hi.left hc ht
      exact ⟨hj', hi', c₂.later hi.right <| c₁.grows ht⟩
    case inr a =>
      obtain ⟨t, ht, rfl⟩ := Option.map_eq_some_iff.mp e
      have ⟨hj', hi'⟩ := c₂.step hj hi.right hc ht
      exact ⟨hj', c₁.later hi.left <| c₂.grows ht, hi'⟩

theorem all [DecidableEq ι] (c : ∀ i, Contract (ms i) J (Is i) (Cs i)) :
    Contract (all ms) J (fun s h => ∀ i, Is i (s i) h) (allMeet Cs) where
  later h hp i := (c i).later (h i) hp
  grows {s a s'} e := by
    obtain ⟨t, ht, rfl⟩ := Option.map_eq_some_iff.mp e
    exact (c a.1).grows ht
  step {s a s'} hj hi hc e := by
    obtain ⟨t, ht, rfl⟩ := Option.map_eq_some_iff.mp e
    have ⟨hj', hi'⟩ := (c a.1).step hj (hi a.1) hc ht
    refine ⟨hj', fun i => ?_⟩
    dsimp only
    by_cases h : i = a.1
    case pos => rwa [h, Function.update_self]
    case neg =>
      rw [Function.update_of_ne h]
      exact (c i).later (hi i) <| (c a.1).grows ht

-- A run whose steps meet the conditions keeps the history in order.
theorem always (c : Contract m J I C) {s : σ × List E} {as : List α} (hj : J s.2) (hi : I s.1 s.2)
    (hc : m.Along C s as) : m.Always (fun s => J s.2 ∧ I s.1 s.2) s as :=
  Machine.always_of_step (fun _ _ _ h hc e => c.step h.left h.right hc e) ⟨hj, hi⟩ hc

end Contract

end Network

namespace Threads

open Network

variable {Op : Type → Type} {ε σ ι κ ξ E γ : Type}

def within (t : Threads Op ε σ ι κ) (h : List E) : Threads Op ε (σ × List E) ι κ :=
  ⟨(t.shared, h), t.task, t.code⟩

def own (t : Threads Op ε (σ × List E) ι κ) : Threads Op ε σ ι κ :=
  ⟨t.shared.1, t.task, t.code⟩

variable [DecidableEq ι]

-- The threads of a party share its state, and they all add to the history.
def party (S : System Op ε (σ × List E) ι κ ξ) :
    Party (Threads Op ε σ ι κ) (Action ι κ ξ) E where
  step s a := (step S (s.1.within s.2) a).map fun t => (t.own, t.shared.2)

-- The condition on the steps of the threads of a party.
def MeetsWithin (C : Condition Op (σ × List E) ι κ ξ) (s : Threads Op ε σ ι κ × List E)
    (a : Action ι κ ξ) : Prop :=
  Meets C (s.1.within s.2) a

instance {C : Condition Op (σ × List E) ι κ ξ} [∀ i k s, Decidable (C.enter i k s)]
    [∀ {β} i k x (o : Op β) s, Decidable (C.exec i k x o s)] {s : Threads Op ε σ ι κ × List E}
    {a : Action ι κ ξ} : Decidable (MeetsWithin C s a) :=
  inferInstanceAs <| Decidable (Meets ..)

structure System.Appends (S : System Op ε (σ × List E) ι κ ξ) : Prop where
  enter : ∀ {i k s s' p}, S.enter i k s = some (s', p) → s.2 <+: s'.2
  exec  : ∀ {β i x} {o : Op β} {s r s'}, S.exec i x o s = some (r, s') → s.2 <+: s'.2

variable {S : System Op ε (σ × List E) ι κ ξ} {t t' : Threads Op ε (σ × List E) ι κ}
variable {a : Action ι κ ξ}

theorem System.Appends.step (h : S.Appends) (e : step S t a = some t') :
    t.shared.2 <+: t'.shared.2 := by
  cases a
  case start i k =>
    rw [Threads.step] at e
    split at e
    case h_2 => cases e
    case h_1 =>
      obtain ⟨s, hs, rfl⟩ := Option.map_eq_some_iff.mp e
      exact h.enter hs
  case next i x =>
    rw [Threads.step] at e
    split at e
    case h_1 => cases e
    case h_2 =>
      obtain ⟨s, hs, rfl⟩ := Option.map_eq_some_iff.mp e
      exact h.exec hs

-- Threads that keep to a discipline whose invariant is about the history and about what they know
-- keep their contract.
theorem contract {D : Discipline S γ} {Q : ι → Except ε Unit → γ → Prop} {J : List E → Prop}
    {L : σ → List E → (ι → γ) → Prop} (ha : S.Appends) (hk : D.Kept Q)
    (hi : ∀ s h v, D.Inv (s, h) v ↔ J h ∧ L s h v)
    (hl : ∀ {s h h' v}, L s h v → h <+: h' → L s h' v) :
    Contract (party S) J
      (fun t h => ∃ v, L t.shared h v ∧ ∀ i, Obeys D (Q i) (t.code i) (v i))
      (MeetsWithin D.cond) where
  later h hp := h.imp fun _ h => ⟨hl h.left hp, h.right⟩
  grows e := by
    obtain ⟨t, ht, rfl⟩ := Option.map_eq_some_iff.mp e
    exact ha.step ht
  step {s _ _} hj h hc e := by
    obtain ⟨t, ht, rfl⟩ := Option.map_eq_some_iff.mp e
    obtain ⟨v, hv, ho⟩ := h
    have hd : Disciplined D Q (s.1.within s.2) := ⟨v, (hi _ _ _).mpr ⟨hj, hv⟩, ho⟩
    obtain ⟨v', hv', ho'⟩ := hd.step hk hc ht
    have ⟨hj', hl'⟩ := (hi _ _ _).mp hv'
    exact ⟨hj', v', hl', ho'⟩

end Threads
