import Mathlib.Logic.IsEmpty.Basic
import Tyche.Multipart

namespace Threads

variable {Op : Type → Type} {ε σ ι κ ξ γ α β : Type}

-- Rules that the code of all threads follows. They tell which operations a thread with a given view
-- may call and which view it then has. The invariant relates the shared state to the views.
structure Discipline (S : System Op ε σ ι κ ξ) (γ : Type) where
  May  : ∀ {β}, γ → Op β → Prop
  next : ∀ {β}, γ → Op β → Except ε β → γ
  Inv  : σ → (ι → γ) → Prop
  cond : Condition Op σ ι κ ξ

variable {S : System Op ε σ ι κ ξ} {D : Discipline S γ}

-- All operations that the code may ever call are allowed. The code ends with a result and a view
-- that satisfy `Q`.
def Obeys (D : Discipline S γ) (Q : Except ε α → γ → Prop) : Proc Op ε α → γ → Prop
  | .done r, g      => Q r g
  | .call o next, g => D.May g o ∧ ∀ r, Obeys D Q (next r) (D.next g o r)

variable {p : Proc Op ε α} {f : α → Proc Op ε β} {g : γ} {Q R : Except ε α → γ → Prop}

theorem Obeys.mono (h : Obeys D Q p g) (hq : ∀ r g, Q r g → R r g) : Obeys D R p g := by
  induction p generalizing g
  case done      => exact hq _ _ h
  case call _ hi => exact ⟨h.left, fun r => hi r (h.right r)⟩

theorem obeys_after {f : Except ε α → Proc Op ε β} {Q : Except ε β → γ → Prop}
    (h : Obeys D (fun r g => Obeys D Q (f r) g) p g) : Obeys D Q (p.after f) g := by
  induction p generalizing g
  case done      => exact h
  case call _ hi => exact ⟨h.left, fun r => hi r (h.right r)⟩

theorem obeys_bind {Q : Except ε β → γ → Prop}
    (h : Obeys D (fun r g => match r with
      | .ok a    => Obeys D Q (f a) g
      | .error e => Q (.error e) g) p g) : Obeys D Q (p >>= f) g := by
  refine obeys_after <| h.mono fun r g h => ?_
  cases r <;> exact h

theorem obeys_op {o : Op α} (ho : D.May g o) (h : ∀ r, Q r (D.next g o r)) :
    Obeys D Q (Proc.op o) g :=
  ⟨ho, h⟩

-- The rules for code that raises no exceptions.
theorem obeys_last [IsEmpty ε] {o : Op α} (ho : D.May g o)
    (h : ∀ a, Q (.ok a) (D.next g o (.ok a))) : Obeys D Q (Proc.op o) g := by
  refine obeys_op ho fun r => ?_
  cases r
  case ok a    => exact h a
  case error e => exact isEmptyElim e

theorem obeys_call [IsEmpty ε] {o : Op α} {Q : Except ε β → γ → Prop} (ho : D.May g o)
    (h : ∀ a, Obeys D Q (f a) (D.next g o (.ok a))) : Obeys D Q (Proc.op o >>= f) g :=
  obeys_bind <| obeys_last ho h

-- A loop whose rounds all leave the thread with the view it had.
theorem obeys_each {f : α → Proc Op ε Unit} {as : List α} {Q : Except ε Unit → γ → Prop}
    (hf : ∀ a ∈ as, Obeys D (fun r g' => match r with
      | .ok _    => g' = g
      | .error e => Q (.error e) g') (f a) g) (hq : Q (.ok ()) g) :
    Obeys D Q (Proc.each f as) g := by
  induction as
  case nil            => exact hq
  case cons a as hi =>
    refine obeys_bind <| (hf a List.mem_cons_self).mono fun r g' h => ?_
    cases r
    case ok    => exact h ▸ hi fun b hb => hf b <| List.mem_cons_of_mem a hb
    case error => exact h

-- A loop whose rounds all leave the thread with a view that satisfies `P`.
theorem obeys_loop {P : γ → Prop} {f : α → Proc Op ε Unit} {as : List α}
    {Q : Except ε Unit → γ → Prop} (hf : ∀ a ∈ as, ∀ g, P g → Obeys D (fun r g' => match r with
      | .ok _    => P g'
      | .error e => Q (.error e) g') (f a) g) (hq : ∀ g, P g → Q (.ok ()) g) (h : P g) :
    Obeys D Q (Proc.each f as) g := by
  induction as generalizing g
  case nil          => exact hq g h
  case cons a as hi =>
    refine obeys_bind <| (hf a List.mem_cons_self g h).mono fun r g' h => ?_
    cases r
    case ok    => exact hi (fun b hb => hf b <| List.mem_cons_of_mem a hb) h
    case error => exact h

theorem obeys_catching {f : ε → Proc Op ε α}
    (h : Obeys D (fun r g => match r with
      | .ok a    => Q (.ok a) g
      | .error e => Obeys D Q (f e) g) p g) : Obeys D Q (p.catching f) g := by
  refine obeys_after <| h.mono fun r g h => ?_
  cases r <;> exact h

-- The rest of the code knows the result of a test that calls no operation.
theorem obeys_lift {r : Except ε α} {Q : Except ε β → γ → Prop}
    (h : ∀ a, r = .ok a → Obeys D Q (f a) g) (hq : ∀ e, r = .error e → Q (.error e) g) :
    Obeys D Q (Proc.lift r >>= f) g := by
  refine obeys_bind ?_
  cases r
  case ok a    => exact h a rfl
  case error e => exact hq e rfl

-- Code that only calls operations which the view allows and which leave it as it is.
theorem obeys_of_all {C : ∀ {β}, Op β → Prop} (hp : p.All C)
    (hc : ∀ {β} (o : Op β), C o → D.May g o ∧ ∀ r, D.next g o r = g) :
    Obeys D (fun _ g' => g' = g) p g := by
  induction p
  case done           => rfl
  case call o next hi =>
    have ⟨hm, hn⟩ := hc o hp.left
    exact ⟨hm, fun r => (hn r).symm ▸ hi r (hp.right r)⟩

section Through

variable {O : Type → Type} {f : ∀ {β}, O β → Op β} {q : Proc O ε α}

-- The rules that a discipline has for code whose operations are some of the operations.
def Discipline.through (D : Discipline S γ) (f : ∀ {β}, O β → Op β) :
    Discipline (⟨fun _ _ _ => none, fun _ _ _ _ => none⟩ : System O ε Unit Unit Unit Unit) γ where
  May g o    := D.May g (f o)
  next g o r := D.next g (f o) r
  Inv _ _    := True
  cond       := ⟨fun _ _ _ => True, fun _ _ _ _ _ => True⟩

theorem obeys_through (h : Obeys (D.through f) Q q g) :
    Obeys D Q (q.subst fun o => Proc.op (f o)) g := by
  induction q generalizing g
  case done      => exact h
  case call _ hi => exact ⟨h.left, fun r => hi r (h.right r)⟩

end Through

-- What a view may have for itself is had by one thread at most.
def Apart (f : γ → Option α) (v : ι → γ) : Prop :=
  ∀ ⦃i j a⦄, f (v i) = some a → f (v j) = some a → i = j

theorem Apart.ne {h : γ → Option α} {v : ι → γ} {i j : ι} {x : α} (ha : Apart h v) (hj : j ≠ i)
    (hi : h (v i) = some x) : h (v j) ≠ some x :=
  fun e => hj <| ha e hi

variable [DecidableEq ι] {t t' : Threads Op ε σ ι κ} {a : Action ι κ ξ} {as : List (Action ι κ ξ)}
variable {Q : ι → Except ε Unit → γ → Prop}

section Apart

variable {h : γ → Option α} {v : ι → γ} {i : ι}

theorem Apart.update (ha : Apart h v) (hg : ∀ x, h g = some x → ∀ j ≠ i, h (v j) ≠ some x) :
    Apart h (Function.update v i g) := by
  intro j k x hj hk
  by_cases hji : j = i
  case pos =>
    rw [hji, Function.update_self] at hj
    by_contra hjk
    rw [Function.update_of_ne fun e => hjk <| hji.trans e.symm] at hk
    exact hg x hj k (fun e => hjk <| hji.trans e.symm) hk
  case neg =>
    rw [Function.update_of_ne hji] at hj
    by_cases hki : k = i
    case pos =>
      rw [hki, Function.update_self] at hk
      exact absurd hj <| hg x hk j hji
    case neg =>
      rw [Function.update_of_ne hki] at hk
      exact ha hj hk

-- A thread with a new view has nothing that it did not have before.
theorem Apart.less (ha : Apart h v) (hg : ∀ x, h g = some x → h (v i) = some x) :
    Apart h (Function.update v i g) :=
  ha.update fun x hx _ hj => ha.ne hj <| hg x hx

end Apart

-- An operation that is allowed keeps the invariant, and so does a task that a thread begins.
structure Discipline.Kept (D : Discipline S γ) (Q : ι → Except ε Unit → γ → Prop) : Prop where
  exec  : ∀ {β} i k x (o : Op β) s v r s', D.Inv s v → D.May (v i) o → D.cond.exec i k x o s →
    S.exec i x o s = some (r, s') → D.Inv s' (Function.update v i <| D.next (v i) o r)
  enter : ∀ i k s v s' p, D.Inv s v → Q i (.ok ()) (v i) → D.cond.enter i k s →
    S.enter i k s = some (s', p) → ∃ g, D.Inv s' (Function.update v i g) ∧ Obeys D (Q i) p g

def Disciplined (D : Discipline S γ) (Q : ι → Except ε Unit → γ → Prop)
    (t : Threads Op ε σ ι κ) : Prop :=
  ∃ v, D.Inv t.shared v ∧ ∀ i, Obeys D (Q i) (t.code i) (v i)

theorem Disciplined.update {v : ι → γ} {i : ι} {s : σ} {k : ι → Option κ} {p : Proc Op ε Unit}
    {g : γ} (h : ∀ j, Obeys D (Q j) (t.code j) (v j)) (hI : D.Inv s (Function.update v i g))
    (hp : Obeys D (Q i) p g) : Disciplined D Q ⟨s, k, Function.update t.code i p⟩ := by
  refine ⟨_, hI, fun j => ?_⟩
  dsimp only
  by_cases hj : j = i
  case neg => simpa only [Function.update_of_ne hj] using h j
  case pos =>
    subst hj
    simpa only [Function.update_self] using hp

-- A step changes the shared state by what a task does at once or by an operation.
theorem step_shared (e : Threads.step S t a = some t') :
    (∃ i k p, a = .start i k ∧ S.enter i k t.shared = some (t'.shared, p)) ∨
      ∃ i x β, ∃ (o : Op β) (r : Except ε β), a = .next i x ∧
        S.exec i x o t.shared = some (r, t'.shared) := by
  cases a
  case start i k =>
    rw [Threads.step] at e
    split at e
    case h_2 => cases e
    case h_1 =>
      obtain ⟨⟨s, p⟩, hs, rfl⟩ := Option.map_eq_some_iff.mp e
      exact .inl ⟨i, k, p, rfl, hs⟩
  case next i x =>
    rw [Threads.step] at e
    split at e
    case h_1 => cases e
    case h_2 =>
      obtain ⟨⟨r, s⟩, hs, rfl⟩ := Option.map_eq_some_iff.mp e
      exact .inr ⟨i, x, _, _, r, rfl, hs⟩

theorem Disciplined.step (hk : D.Kept Q) (h : Disciplined D Q t) (hc : Meets D.cond t a)
    (e : Threads.step S t a = some t') : Disciplined D Q t' := by
  obtain ⟨v, hI, h⟩ := h
  cases a
  case start i k =>
    rw [Threads.step] at e
    split at e
    case h_2    => cases e
    case h_1 hd =>
      obtain ⟨⟨s', p⟩, hs, rfl⟩ := Option.map_eq_some_iff.mp e
      have hq := h i
      rw [hd] at hq
      obtain ⟨g, hI', hp⟩ := hk.enter i k _ _ _ _ hI hq hc hs
      exact update h hI' hp
  case next i x =>
    rw [Threads.step] at e
    rw [Meets] at hc
    have hi := h i
    cases hd : t.code i
    case done        => rw [hd] at e; cases e
    case call o next =>
      rw [hd] at e hc hi
      obtain ⟨⟨r, s'⟩, hs, rfl⟩ := Option.map_eq_some_iff.mp e
      exact update h (hk.exec i _ x o _ v r s' hI hi.left hc hs) (hi.right r)

-- A run whose steps meet the condition keeps the invariant.
theorem always_disciplined (hk : D.Kept Q) (h : Disciplined D Q t)
    (c : (machine S).Along (Meets D.cond) t as) :
    (machine S).Always (Disciplined D Q) t as :=
  Machine.always_of_step (fun _ _ _ h hc e => h.step hk hc e) h c

end Threads
