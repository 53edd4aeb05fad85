import Mathlib.Logic.Basic

-- A program that calls the operations of a machine one after the other. What a call raises is seen
-- by the rest of the program, which may handle it.
inductive Proc (Op : Type → Type) (ε α : Type) : Type 1
  | done (result : Except ε α)
  | call {β : Type} (op : Op β) (next : Except ε β → Proc Op ε α)

namespace Proc

variable {Op : Type → Type} {ε α β σ : Type}

def after (p : Proc Op ε α) (f : Except ε α → Proc Op ε β) : Proc Op ε β :=
  match p with
  | done r    => f r
  | call op k => call op fun r => (k r).after f

def bind (p : Proc Op ε α) (f : α → Proc Op ε β) : Proc Op ε β :=
  p.after fun
    | .ok a    => f a
    | .error e => done (.error e)

-- `try p except e: f e`
def catching (p : Proc Op ε α) (f : ε → Proc Op ε α) : Proc Op ε α :=
  p.after fun
    | .ok a    => done (.ok a)
    | .error e => f e

def op (o : Op α) : Proc Op ε α :=
  call o done

def lift (r : Except ε α) : Proc Op ε α :=
  done r

def raise (e : ε) : Proc Op ε α :=
  done (.error e)

instance : Monad (Proc Op ε) where
  pure a := done (.ok a)
  bind   := bind

def raised : Proc Op ε α → Bool
  | done (.error _) => true
  | _               => false

-- `for a in as: f a`
def each (f : α → Proc Op ε Unit) : List α → Proc Op ε Unit
  | []      => pure ()
  | a :: as => f a >>= fun _ => each f as

-- `[a for a in as if p a]`
def select (p : α → Proc Op ε Bool) : List α → Proc Op ε (List α)
  | []      => pure []
  | a :: as => p a >>= fun b => select p as >>= fun as => pure (if b then a :: as else as)

-- The whole of a program, with nothing in between its calls.
def run (exec : ∀ {β}, Op β → σ → Except ε β × σ) : Proc Op ε α → σ → Except ε α × σ
  | done r,    s => (r, s)
  | call op k, s => (k (exec op s).1).run exec (exec op s).2

-- The choice that `select` makes with tests that call no operation.
def chosen (q : α → Except ε Bool) : List α → Except ε (List α)
  | []      => .ok []
  | a :: as =>
    match q a, chosen q as with
    | .ok b,    .ok as   => .ok (if b then a :: as else as)
    | .error e, _        => .error e
    | .ok _,    .error e => .error e

variable {exec : ∀ {β}, Op β → σ → Except ε β × σ} {p : Proc Op ε α} {s s' : σ} {a : α} {e : ε}
variable {f : α → Proc Op ε β} {as bs : List α}

@[simp]
theorem run_done {r : Except ε α} : (done r).run exec s = (r, s) :=
  rfl

@[simp]
theorem run_pure : (pure a : Proc Op ε α).run exec s = (.ok a, s) :=
  rfl

@[simp]
theorem run_lift {r : Except ε α} : (lift r : Proc Op ε α).run exec s = (r, s) :=
  rfl

@[simp]
theorem run_raise : (raise e : Proc Op ε α).run exec s = (.error e, s) :=
  rfl

@[simp]
theorem run_op {o : Op α} : (op o).run exec s = exec o s :=
  rfl

theorem run_after {f : Except ε α → Proc Op ε β} :
    (p.after f).run exec s = (f (p.run exec s).1).run exec (p.run exec s).2 := by
  induction p generalizing s
  case done      => rfl
  case call _ hi => exact hi ..

-- What every call that the program may make keeps is kept by the program.
def All (C : ∀ {β}, Op β → Prop) : Proc Op ε α → Prop
  | done _    => True
  | call op k => C op ∧ ∀ r, (k r).All C

section All

variable {C : ∀ {β}, Op β → Prop} {I : σ → Prop}

theorem all_op {o : Op α} (h : C o) : (op o : Proc Op ε α).All C :=
  ⟨h, fun _ => trivial⟩

theorem All.after {f : Except ε α → Proc Op ε β} (hp : p.All C) (hf : ∀ r, (f r).All C) :
    (p.after f).All C := by
  induction p
  case done      => exact hf _
  case call _ hi => exact ⟨hp.left, fun r => hi r (hp.right r)⟩

theorem All.bind (hp : p.All C) (hf : ∀ a, (f a).All C) : (p >>= f).All C := by
  refine hp.after fun r => ?_
  cases r
  case ok a    => exact hf a
  case error e => trivial

-- The rest of the program knows the result of a test that calls no operation.
theorem All.lift {r : Except ε α} (hf : ∀ a, r = .ok a → (f a).All C) : (lift r >>= f).All C := by
  cases r
  case ok a    => exact hf a rfl
  case error e => trivial

theorem All.catching {f : ε → Proc Op ε α} (hp : p.All C) (hf : ∀ e, (f e).All C) :
    (p.catching f).All C := by
  refine hp.after fun r => ?_
  cases r
  case ok a    => trivial
  case error e => exact hf e

theorem All.each {f : α → Proc Op ε Unit} (hf : ∀ a, (f a).All C) : (each f as).All C := by
  induction as
  case nil        => trivial
  case cons a _ h => exact (hf a).bind fun _ => h

theorem All.select {t : α → Proc Op ε Bool} (ht : ∀ a, (t a).All C) : (select t as).All C := by
  induction as
  case nil        => trivial
  case cons a _ h => exact (ht a).bind fun _ => h.bind fun _ => trivial

theorem All.run (hp : p.All C) (hc : ∀ {β} (o : Op β) s, C o → I s → I (exec o s).2) (h : I s) :
    I (p.run exec s).2 := by
  induction p generalizing s
  case done         => exact h
  case call o k hi => exact hi _ (hp.right _) <| hc o s hp.left h

theorem all_true : p.All fun _ => True := by
  induction p
  case done      => trivial
  case call _ hi => exact ⟨trivial, hi⟩

end All

theorem run_bind : (p >>= f).run exec s =
    match p.run exec s with
    | (.ok a, s)    => (f a).run exec s
    | (.error e, s) => (.error e, s) := by
  refine run_after.trans ?_
  match p.run exec s with
  | (.ok _, _)    => rfl
  | (.error _, _) => rfl

theorem run_catching {f : ε → Proc Op ε α} : (p.catching f).run exec s =
    match p.run exec s with
    | (.ok a, s)    => (.ok a, s)
    | (.error e, s) => (f e).run exec s := by
  refine run_after.trans ?_
  match p.run exec s with
  | (.ok _, _)    => rfl
  | (.error _, _) => rfl

theorem run_each_cons {f : α → Proc Op ε Unit} : (each f (a :: as)).run exec s =
    match (f a).run exec s with
    | (.ok _, s)    => (each f as).run exec s
    | (.error e, s) => (.error e, s) := by
  rw [each, run_bind]
  cases (f a).run exec s
  case mk r _ => cases r <;> rfl

theorem run_select {t : α → Proc Op ε Bool} {q : α → Except ε Bool}
    (h : ∀ a, (t a).run exec s = (q a, s)) : (select t as).run exec s = (chosen q as, s) := by
  induction as
  case nil => rfl
  case cons a as hi =>
    rw [select, chosen, run_bind, h]
    cases q a
    case error => rfl
    case ok    =>
      simp only [run_bind, hi]
      cases chosen q as <;> rfl

theorem chosen_eq_ok {q : α → Except ε Bool} (h : chosen q as = .ok bs) :
    (∀ a ∈ as, ∃ b, q a = .ok b) ∧ ∀ a, a ∈ bs ↔ a ∈ as ∧ q a = .ok true := by
  induction as generalizing bs
  case nil => cases h; simp
  case cons a as hi =>
    rw [chosen] at h
    split at h <;> cases h
    case h_1 b cs hq hc =>
      have ⟨ha, hm⟩ := hi hc
      exact ⟨by simpa [hq] using ha, fun x => by cases b <;> grind⟩

theorem chosen_eq_self {q : α → Except ε Bool} (h : ∀ a ∈ as, q a = .ok true) :
    chosen q as = .ok as := by
  induction as
  case nil => rfl
  case cons a as hi =>
    rw [List.forall_mem_cons] at h
    rw [chosen, h.left, hi h.right]
    rfl

theorem chosen_ok {q : α → Bool} :
    chosen (fun a => (.ok (q a) : Except ε Bool)) as = .ok (as.filter q) := by
  induction as
  case nil => rfl
  case cons a as hi =>
    rw [chosen, hi, List.filter_cons]

theorem chosen_sublist {q : α → Except ε Bool} (h : chosen q as = .ok bs) : bs.Sublist as := by
  induction as generalizing bs
  case nil => cases h; exact .refl _
  case cons a as hi =>
    rw [chosen] at h
    split at h <;> cases h
    case h_1 b cs _ hc =>
      cases b
      case false => exact (hi hc).cons a
      case true  => exact (hi hc).cons_cons a

theorem chosen_eq_error {q : α → Except ε Bool} (h : chosen q as = .error e) :
    ∃ a ∈ as, q a = .error e := by
  induction as
  case nil => cases h
  case cons a as hi =>
    rw [chosen] at h
    split at h <;> cases h
    case h_2 hq => exact ⟨a, List.mem_cons_self, hq⟩
    case h_3 hc =>
      have ⟨x, hx, hq⟩ := hi hc
      exact ⟨x, List.mem_cons_of_mem _ hx, hq⟩

end Proc
