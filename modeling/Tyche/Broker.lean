import Tyche.Job
import Tyche.Machine

-- A machine that takes each of its jobs through the life of a job.
structure Broker (σ α κ τ ι η : Type*) [LinearOrder τ] extends Machine σ α where
  now      : σ → τ
  job      : σ → κ → Job τ ι η
  event    : σ → α → κ → Job.Event ι
  now_le   : ∀ {s a s'}, step s a = some s' → now s ≤ now s'
  job_step : ∀ {s a s'}, step s a = some s' → ∀ c, (job s c).Step (now s) (event s a c) (job s' c)

namespace Broker

variable {σ α κ τ ι η : Type*} [LinearOrder τ] {b : Broker σ α κ τ ι η}
variable {s s' s₁ s₂ : σ} {a : α} {as bs : List α}

def Owned (b : Broker σ α κ τ ι η) (s : σ) : Prop :=
  ∀ c, (b.job s c).Owned

def Answerable (b : Broker σ α κ τ ι η) (s : σ) : Prop :=
  ∀ c, (b.job s c).Answerable

def Conserved (b : Broker σ α κ τ ι η) (s : σ) : Prop :=
  ∀ c, (b.job s c).Conserved

def Exclusive (b : Broker σ α κ τ ι η) (s : σ) : Prop :=
  ∀ c, (b.job s c).Exclusive

-- A job is received only once.
def Fresh (b : Broker σ α κ τ ι η) (s : σ) (a : α) : Prop :=
  ∀ c, b.event s a c = .refused ∨ (∃ r, b.event s a c = .request r) → (b.job s c).received = 0

-- No job, request or answer goes missing.
def Lossless (b : Broker σ α κ τ ι η) (s : σ) (a : α) : Prop :=
  ∀ c, b.event s a c ≠ .lost ∧ b.event s a c ≠ .dropped

-- A job that handlers owe answers for is accepted only from the requester whom they owe them.
def Faithful (b : Broker σ α κ τ ι η) (s : σ) (a : α) : Prop :=
  ∀ c r, b.event s a c = .request r → ∀ h r', (h, r') ∈ (b.job s c).owed → r = r'

-- A job that is put back to waiting has a stamp that is not older than that.
def Stamping (b : Broker σ α κ τ ι η) (s : σ) (a : α) : Prop :=
  ∀ c, b.event s a c = .putBack → ∀ e ∈ (b.job s c).entry, b.now s ≤ e.waitStart

theorem now_le_of_exec (h : b.exec s as = some s') : b.now s ≤ b.now s' := by
  induction as generalizing s
  case nil => cases h; exact le_refl _
  case cons a as hi =>
    have ⟨_, e, h⟩ := Machine.exec_cons_eq_some_iff.mp h
    exact le_trans (b.now_le e) (hi h)

theorem always_owned (h : b.Owned s) (c : b.Along b.Lossless s as) : b.Always b.Owned s as :=
  Machine.always_of_step
    (fun _ _ _ h hl e k => (b.job_step e k).preserves_owned (h k) (hl k).right) h c

theorem always_answerable (h : b.Answerable s) : b.Always b.Answerable s as :=
  Machine.invariant (fun _ _ _ h e c => (b.job_step e c).preserves_answerable (h c)) h

theorem always_conserved (ho : b.Owned s) (h : b.Conserved s) (c : b.Along b.Fresh s as)
    (l : b.Along b.Lossless s as) : b.Always b.Conserved s as := by
  have hs : b.Always (fun s => b.Owned s ∧ b.Conserved s) s as :=
    Machine.always_of_step
      (fun _ _ _ h hc e =>
        ⟨fun k => (b.job_step e k).preserves_owned (h.left k) (hc.right k).right,
         fun k => (b.job_step e k).preserves_conserved (h.left k) (h.right k) (hc.left k)
          (hc.right k).left (hc.right k).right⟩)
      ⟨ho, h⟩ (c.and l)
  exact hs.mono fun _ => And.right

theorem always_exclusive (ho : b.Answerable s) (h : b.Exclusive s) (c : b.Along b.Faithful s as) :
    b.Always b.Exclusive s as := by
  have hs : b.Always (fun s => b.Answerable s ∧ b.Exclusive s) s as :=
    Machine.always_of_step (C := b.Faithful)
      (fun _ _ _ h hc e =>
        ⟨fun c => (b.job_step e c).preserves_answerable (h.left c),
         fun c => (b.job_step e c).preserves_exclusive (h.left c) (h.right c) (hc c)⟩)
      ⟨ho, h⟩ c
  exact hs.mono fun _ => And.right

-- A job that waits since before the start of a run did so during all of the run.
theorem stamped_of_exec (c : b.Along b.Stamping s as) (h : b.exec s as = some s') (k : κ) :
    Job.Stamped (b.now s) (b.job s k) (b.job s' k) := by
  have hs : b.Always
      (fun s' => b.now s ≤ b.now s' ∧ Job.Stamped (b.now s) (b.job s k) (b.job s' k)) s as :=
    Machine.always_of_step (C := b.Stamping)
      (fun _ _ _ h hc e =>
        ⟨le_trans h.left (b.now_le e),
         (b.job_step e k).preserves_stamped h.right h.left (hc k)⟩)
      ⟨le_refl _, Job.stamped_self⟩ c
  exact (hs.exec h).right

-- Whenever an action gives a job up in a state `s₂` of the run, the job was already waiting in each
-- state `s₁` of the run that is recent enough by the standard of `s₂`.
def MeasuresWaiting (b : Broker σ α κ τ ι η) (GivesUp : σ → α → κ → Prop)
    (Recent : σ → κ → τ → Prop) (s : σ) (as : List α) : Prop :=
  ∀ bs cs a ds, as = bs ++ (cs ++ a :: ds) → ∀ s₁ s₂, b.exec s bs = some s₁ →
    b.exec s₁ cs = some s₂ → ∀ k, GivesUp s₂ a k → Recent s₂ k (b.now s₁) →
      (b.job s₁ k).Waiting

theorem measuresWaiting_of_stamping {GivesUp : σ → α → κ → Prop} {Recent : σ → κ → τ → Prop}
    {C : σ → α → Prop} (c : b.Along b.Stamping s as) (r : b.Along C s as)
    (h : ∀ {s a k}, C s a → GivesUp s a k →
      ∃ e ∈ (b.job s k).entry, e.Waiting ∧ ∀ t, Recent s k t → e.waitStart < t) :
    b.MeasuresWaiting GivesUp Recent s as := by
  rintro bs cs a ds rfl s₁ s₂ h₁ h₂ k hg ht
  have h₁₂ : b.exec s (bs ++ cs) = some s₂ := by rw [Machine.exec_append, h₁, Option.bind_some, h₂]
  rw [← List.append_assoc] at r
  have ⟨e, he, hw, hl⟩ := h (r.exec h₁₂).left hg
  have hc : b.Along b.Stamping s₁ cs := (c.exec h₁).of_append
  exact stamped_of_exec hc h₂ k e he hw <| hl _ ht

end Broker
