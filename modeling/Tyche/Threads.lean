import Mathlib.Logic.Function.Basic
import Tyche.Machine
import Tyche.Proc

-- Threads that call the operations on a shared state in any order. Each of them is in the middle of
-- a task, of which it has the `code` left to do.
structure Threads (Op : Type → Type) (ε σ ι κ : Type) where
  shared : σ
  task   : ι → Option κ
  code   : ι → Proc Op ε Unit

namespace Threads

variable {Op : Type → Type} {ε σ ι κ ξ γ α β : Type}

-- A thread that is done with its task may begin another one. One that an exception has ended may
-- not. A step carries out the next operation, and `ξ` tells what the code does not determine.
inductive Action (ι κ ξ : Type)
  | start (i : ι) (task : κ)
  | next (i : ι) (x : ξ)

-- What a task does at once when a thread begins it, and which code it leaves for later. An
-- operation that has to wait has no outcome.
structure System (Op : Type → Type) (ε σ ι κ ξ : Type) where
  enter : ι → κ → σ → Option (σ × Proc Op ε Unit)
  exec  : ∀ {β}, ι → ξ → Op β → σ → Option (Except ε β × σ)

def start (s : σ) : Threads Op ε σ ι κ where
  shared := s
  task _ := none
  code _ := .done (.ok ())

variable [DecidableEq ι]

def step (S : System Op ε σ ι κ ξ) (t : Threads Op ε σ ι κ) :
    Action ι κ ξ → Option (Threads Op ε σ ι κ)
  | .start i k =>
    match t.code i with
    | .done (.ok ()) =>
      (S.enter i k t.shared).map fun (s, p) =>
        ⟨s, Function.update t.task i (some k), Function.update t.code i p⟩
    | _              => none
  | .next i x  =>
    match t.code i with
    | .done _      => none
    | .call o next =>
      (S.exec i x o t.shared).map fun (r, s) =>
        ⟨s, t.task, Function.update t.code i (next r)⟩

def machine (S : System Op ε σ ι κ ξ) : Machine (Threads Op ε σ ι κ) (Action ι κ ξ) where
  step := step S

-- A condition on the tasks that threads begin and on the operations that they carry out.
structure Condition (Op : Type → Type) (σ ι κ ξ : Type) where
  enter : ι → κ → σ → Prop
  exec  : ∀ {β}, ι → Option κ → ξ → Op β → σ → Prop

def Meets (C : Condition Op σ ι κ ξ) (t : Threads Op ε σ ι κ) : Action ι κ ξ → Prop
  | .start i k => C.enter i k t.shared
  | .next i x  =>
    match t.code i with
    | .done _   => True
    | .call o _ => C.exec i (t.task i) x o t.shared

instance {C : Condition Op σ ι κ ξ} [∀ i k s, Decidable (C.enter i k s)]
    [∀ {β} i k x (o : Op β) s, Decidable (C.exec i k x o s)] {t : Threads Op ε σ ι κ} :
    ∀ a, Decidable (Meets C t a)
  | .start i k => inferInstanceAs <| Decidable (C.enter i k t.shared)
  | .next i x  =>
    match h : t.code i with
    | .done _   => isTrue <| by rw [Meets, h]; trivial
    | .call o _ => decidable_of_iff (C.exec i (t.task i) x o t.shared) <| by rw [Meets, h]

-- An exception that the step raises in the code of its thread.
def Raises (S : System Op ε σ ι κ ξ) (t : Threads Op ε σ ι κ) (e : ε) : Action ι κ ξ → Prop
  | .start ..  => False
  | .next i x  =>
    match t.code i with
    | .done _   => False
    | .call o _ => ∃ s, S.exec i x o t.shared = some (.error e, s)

instance [DecidableEq ε] {S : System Op ε σ ι κ ξ} {t : Threads Op ε σ ι κ} {e : ε} :
    ∀ a, Decidable (Raises S t e a)
  | .start ..  => isFalse id
  | .next i x  =>
    match h : t.code i with
    | .done _   => isFalse <| by rw [Raises, h]; exact id
    | .call o _ =>
      match hs : S.exec i x o t.shared with
      | none                => isFalse <| by rw [Raises, h]; simp [hs]
      | some (.ok _, _)     => isFalse <| by rw [Raises, h]; simp [hs]
      | some (.error e', _) => decidable_of_iff (e' = e) <| by rw [Raises, h]; simp [hs]

-- The rule for an invariant of the shared state, which does not depend on the code.
theorem always_shared {S : System Op ε σ ι κ ξ} {C : Condition Op σ ι κ ξ} {I : σ → Prop}
    {t : Threads Op ε σ ι κ} {as : List (Action ι κ ξ)}
    (hb : ∀ i k s s' p, I s → C.enter i k s → S.enter i k s = some (s', p) → I s')
    (hx : ∀ {β} i k x (o : Op β) s r s', I s → C.exec i k x o s →
      S.exec i x o s = some (r, s') → I s') (h : I t.shared)
    (c : (machine S).Along (Meets C) t as) : (machine S).Always (fun t => I t.shared) t as := by
  refine Machine.always_of_step (fun t a t' h hc e => ?_) h c
  cases a
  case start i k =>
    simp only [machine, step] at e
    split at e
    case h_2 => cases e
    case h_1 =>
      obtain ⟨⟨s', p⟩, hs, rfl⟩ := Option.map_eq_some_iff.mp e
      exact hb i k _ _ _ h hc hs
  case next i x =>
    simp only [machine, step] at e
    simp only [Meets] at hc
    cases hd : t.code i
    case done        => simp [hd] at e
    case call o next =>
      simp only [hd] at e hc
      obtain ⟨⟨r, s'⟩, hs, rfl⟩ := Option.map_eq_some_iff.mp e
      exact hx i _ x o _ _ _ h hc hs

-- The outline of a proof about threads. The invariant relates the shared state to the views that
-- the threads have of it, and it has to be kept by steps that meet the condition. These steps raise
-- only some exceptions.
structure Outline (S : System Op ε σ ι κ ξ) (γ : Type) where
  Inv  : σ → (ι → γ) → Prop
  cond : Condition Op σ ι κ ξ
  Err  : ε → Prop

variable {S : System Op ε σ ι κ ξ} (O : Outline S γ)

-- Whatever the other threads do in between, each operation of the code keeps the invariant with a
-- new view of its own thread. The code ends with a result and a view that satisfy `Q`.
def Keeps (i : ι) (k : Option κ) (Q : Except ε α → γ → Prop) : Proc Op ε α → γ → Prop
  | .done r, g      => Q r g
  | .call o next, g => ∀ s v x r s', v i = g → O.Inv s v → O.cond.exec i k x o s →
    S.exec i x o s = some (r, s') → (∀ e, r = .error e → O.Err e) ∧
      ∃ g', O.Inv s' (Function.update v i g') ∧ Keeps i k Q (next r) g'

variable {O} {i : ι} {k : Option κ} {g : γ} {p : Proc Op ε α} {f : α → Proc Op ε β}
variable {Q R : Except ε α → γ → Prop} {t : Threads Op ε σ ι κ} {as : List (Action ι κ ξ)}

theorem Keeps.mono (h : Keeps O i k Q p g) (hq : ∀ r g, Q r g → R r g) : Keeps O i k R p g := by
  induction p generalizing g
  case done      => exact hq _ _ h
  case call _ hi =>
    intro s v x r s' hv hI hc he
    have ⟨hr, g', hI', h'⟩ := h s v x r s' hv hI hc he
    exact ⟨hr, g', hI', hi r h'⟩

theorem keeps_after {f : Except ε α → Proc Op ε β} {Q : Except ε β → γ → Prop}
    (h : Keeps O i k (fun r g => Keeps O i k Q (f r) g) p g) : Keeps O i k Q (p.after f) g := by
  induction p generalizing g
  case done      => exact h
  case call _ hi =>
    intro s v x r s' hv hI hc he
    have ⟨hr, g', hI', h'⟩ := h s v x r s' hv hI hc he
    exact ⟨hr, g', hI', hi r h'⟩

theorem keeps_bind {Q : Except ε β → γ → Prop}
    (h : Keeps O i k (fun r g => match r with
      | .ok a    => Keeps O i k Q (f a) g
      | .error e => Q (.error e) g) p g) : Keeps O i k Q (p >>= f) g := by
  refine keeps_after <| h.mono fun r g h => ?_
  cases r <;> exact h

theorem keeps_catching {f : ε → Proc Op ε α}
    (h : Keeps O i k (fun r g => match r with
      | .ok a    => Q (.ok a) g
      | .error e => Keeps O i k Q (f e) g) p g) : Keeps O i k Q (p.catching f) g := by
  refine keeps_after <| h.mono fun r g h => ?_
  cases r <;> exact h

theorem keeps_op {o : Op α} (h : ∀ s v x r s', v i = g → O.Inv s v → O.cond.exec i k x o s →
    S.exec i x o s = some (r, s') → (∀ e, r = .error e → O.Err e) ∧
      ∃ g', O.Inv s' (Function.update v i g') ∧ Q r g') : Keeps O i k Q (Proc.op o) g :=
  h

-- Code that only calls operations which keep the invariant whatever the views are.
theorem keeps_of_all {C : ∀ {β}, Op β → Prop} (hp : p.All C)
    (hc : ∀ {β} (o : Op β) s v x r s', C o → O.Inv s v → S.exec i x o s = some (r, s') →
      (∀ e, r = .error e → O.Err e) ∧ O.Inv s' v) :
    Keeps O i k (fun _ g' => g' = g) p g := by
  induction p
  case done           => rfl
  case call o next hi =>
    rintro s v x r s' rfl hI _ he
    have ⟨hr, hI'⟩ := hc o s v x r s' hp.left hI he
    exact ⟨hr, v i, by rwa [Function.update_eq_self], hi r (hp.right r)⟩

-- A loop whose rounds all leave the thread with the view it had.
theorem keeps_each {f : α → Proc Op ε Unit} {as : List α} {Q : Except ε Unit → γ → Prop}
    (hf : ∀ a, Keeps O i k (fun r g' => match r with
      | .ok _    => g' = g
      | .error e => Q (.error e) g') (f a) g) (hq : Q (.ok ()) g) :
    Keeps O i k Q (Proc.each f as) g := by
  induction as
  case nil            => exact hq
  case cons a as hi =>
    refine keeps_bind <| (hf a).mono fun r g' h => ?_
    cases r
    case ok    => exact h ▸ hi
    case error => exact h

theorem keeps_select {q : α → Proc Op ε Bool} {as : List α} {Q : Except ε (List α) → γ → Prop}
    (hf : ∀ a, Keeps O i k (fun r g' => match r with
      | .ok _    => g' = g
      | .error e => Q (.error e) g') (q a) g) (hq : ∀ as, Q (.ok as) g) :
    Keeps O i k Q (Proc.select q as) g := by
  induction as generalizing Q
  case nil          => exact hq _
  case cons a as hi =>
    refine keeps_bind <| (hf a).mono fun r g' h => ?_
    cases r
    case error => exact h
    case ok b  =>
      obtain rfl : g' = g := h
      exact keeps_bind <| hi (fun a => hf a) fun _ => hq _

-- The invariant holds for some views of the threads, each of which does its part with the rest of
-- its code.
def Sound (O : Outline S γ) (Q : ι → Except ε Unit → γ → Prop) (t : Threads Op ε σ ι κ) : Prop :=
  ∃ v, O.Inv t.shared v ∧ ∀ i, Keeps O i (t.task i) (Q i) (t.code i) (v i)

-- A task that a thread begins after it is done with the one before.
def Begins (O : Outline S γ) (Q : ι → Except ε Unit → γ → Prop) : Prop :=
  ∀ i k s v s' p, O.Inv s v → Q i (.ok ()) (v i) → O.cond.enter i k s →
    S.enter i k s = some (s', p) →
      ∃ g, O.Inv s' (Function.update v i g) ∧ Keeps O i (some k) (Q i) p g

namespace Sound

variable {Q : ι → Except ε Unit → γ → Prop} {t' : Threads Op ε σ ι κ} {a : Action ι κ ξ}

theorem update {v : ι → γ} {s : σ} {k : Option κ} {p : Proc Op ε Unit} {g : γ}
    (h : ∀ j, Keeps O j (t.task j) (Q j) (t.code j) (v j)) (hI : O.Inv s (Function.update v i g))
    (hp : Keeps O i k (Q i) p g) :
    Sound O Q ⟨s, Function.update t.task i k, Function.update t.code i p⟩ := by
  refine ⟨_, hI, fun j => ?_⟩
  dsimp only
  by_cases hj : j = i
  case pos =>
    subst hj
    simpa only [Function.update_self] using hp
  case neg => simpa only [Function.update_of_ne hj] using h j

theorem step (hb : Begins O Q) (h : Sound O Q t) (hc : Meets O.cond t a)
    (e : Threads.step S t a = some t') :
    Sound O Q t' ∧ ∀ e, Raises S t e a → O.Err e := by
  obtain ⟨v, hI, h⟩ := h
  cases a
  case start i k =>
    refine ⟨?_, fun _ hr => nomatch hr⟩
    rw [Threads.step] at e
    split at e
    case h_2      => cases e
    case h_1 hd   =>
      obtain ⟨⟨s', p⟩, hs, rfl⟩ := Option.map_eq_some_iff.mp e
      have hq : Q i (.ok ()) (v i) := by
        have hk := h i
        rwa [hd] at hk
      have ⟨g, hI', hp⟩ := hb i k _ _ _ _ hI hq hc hs
      exact update h hI' hp
  case next i x =>
    rw [Threads.step] at e
    rw [Meets] at hc
    simp only [Raises]
    have hk := h i
    cases hd : t.code i
    case done      => rw [hd] at e; cases e
    case call o next =>
      rw [hd] at e hc hk
      obtain ⟨⟨r, s'⟩, hs, rfl⟩ := Option.map_eq_some_iff.mp e
      have ⟨hr, g, hI', hp⟩ := hk _ v x r s' rfl hI hc hs
      constructor
      case left =>
        have ht : t.task = Function.update t.task i (t.task i) := (Function.update_eq_self ..).symm
        rw [ht]
        exact update h hI' hp
      case right =>
        rintro _ ⟨_, he⟩
        cases hs.symm.trans he
        exact hr _ rfl

theorem raises (hb : Begins O Q) (h : Sound O Q t) (hc : Meets O.cond t a) {e : ε}
    (hr : Raises S t e a) : O.Err e := by
  have ⟨t', ht⟩ : ∃ t', Threads.step S t a = some t' := by
    cases a
    case start i k => exact hr.elim
    case next i x  =>
      rw [Raises] at hr
      rw [Threads.step]
      cases hd : t.code i
      case done        => rw [hd] at hr; exact hr.elim
      case call o next =>
        rw [hd] at hr
        obtain ⟨s, hs⟩ := hr
        exact ⟨_, Option.map_eq_some_iff.mpr ⟨_, hs, rfl⟩⟩
  exact (h.step hb hc ht).right e hr

end Sound

-- A run whose steps meet the condition keeps the invariant.
theorem always_sound {Q : ι → Except ε Unit → γ → Prop} (hb : Begins O Q) (h : Sound O Q t)
    (c : (machine S).Along (Meets O.cond) t as) : (machine S).Always (Sound O Q) t as :=
  Machine.always_of_step (fun _ _ _ h hc e => (h.step hb hc e).left) h c

theorem along_raises {Q : ι → Except ε Unit → γ → Prop} (hb : Begins O Q) (h : Sound O Q t)
    (c : (machine S).Along (Meets O.cond) t as) :
    (machine S).Along (fun t a => ∀ e, Raises S t e a → O.Err e) t as :=
  (always_sound hb h c).along c fun _ _ h hc _ hr => h.raises hb hc hr

end Threads
