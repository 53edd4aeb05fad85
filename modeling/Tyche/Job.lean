import Mathlib.Order.Lattice
import Mathlib.Tactic.Common

-- What a broker keeps about a job until it is answered. A job without a handler is waiting for one.
structure Entry (τ ι η : Type*) where
  requester : ι
  handler   : Option η
  waitStart : τ

def Entry.Waiting {τ ι η : Type*} (e : Entry τ ι η) : Prop :=
  e.handler = none

instance {τ ι η : Type*} [DecidableEq η] {e : Entry τ ι η} : Decidable e.Waiting :=
  inferInstanceAs <| Decidable (_ = _)

-- The life of the job with a given correlation id, as the tables of a broker and its log tell it.
-- The owner is whom an answer goes to. A handler owes an answer to each requester that it was sent
-- the job for, in this order, until it has answered.
structure Job (τ ι η : Type*) where
  owner      : Option ι
  entry      : Option (Entry τ ι η)
  received   : ℕ
  forwarded  : ℕ
  failed     : ℕ
  owed       : List (η × ι)

namespace Job

variable {τ ι η : Type*} {j j₁ j' : Job τ ι η} {t now : τ}

def idle : Job τ ι η where
  owner      := none
  entry      := none
  received   := 0
  forwarded  := 0
  failed     := 0
  owed       := []

-- What an action of a broker means for a job: a request for it arrives from a requester and is
-- refused or accepted, it loses its handler without another one to take it, its request or its
-- answer is lost on the way, the broker drops it by accident, or none of these.
inductive Event (ι : Type*)
  | refused
  | request (r : ι)
  | putBack
  | lost
  | dropped
  | other
deriving DecidableEq

-- The ways in which one action of a broker at time `now` can move a job on.
inductive Step (now : τ) (j : Job τ ι η) : Event ι → Job τ ι η → Prop
  | stay (ev : Event ι) : Step now j ev j
  | refuse : Step now j .refused { j with received := j.received + 1, failed := j.failed + 1 }
  | queue (r : ι) : Step now j (.request r)
      { j with received := j.received + 1, owner := some r, entry := some ⟨r, none, now⟩ }
  | start (r : ι) (h : η) : Step now j (.request r)
      { j with
        received := j.received + 1
        owner    := some r
        entry    := some ⟨r, some h, now⟩
        owed     := j.owed ++ [(h, r)] }
  | settle (os : List (η × ι)) : os.Sublist j.owed → Step now j .other { j with owed := os }
  | forward (r : ι) (os : List (η × ι)) : j.owner = some r → os.Sublist j.owed →
      Step now j .other
        { j with owner := none, entry := none, forwarded := j.forwarded + 1, owed := os }
  | fail (e : Entry τ ι η) : j.entry = some e → Step now j .other
      { j with owner := none, entry := none, failed := j.failed + 1 }
  | assign (e : Entry τ ι η) (h : η) : j.entry = some e → Step now j .other
      { j with
        entry := some { e with handler := some h }
        owed  := j.owed ++ [(h, e.requester)] }
  | release (e : Entry τ ι η) : j.entry = some e → Step now j .putBack
      { j with entry := some { e with handler := none } }
  | ignore : Step now j .lost { j with received := j.received + 1 }
  | lose (n : ℕ) (os : List (η × ι)) : os.Sublist j.owed → Step now j .lost
      { j with owner := none, entry := none, received := j.received + n, owed := os }
  | drop : Step now j .dropped { j with entry := none }

def Waiting (j : Job τ ι η) : Prop :=
  ∃ e ∈ j.entry, e.Waiting

instance [DecidableEq η] : Decidable j.Waiting :=
  inferInstanceAs <| Decidable (∃ _ ∈ _, _)

def tracked (j : Job τ ι η) : ℕ :=
  if j.entry.isSome then 1 else 0

-- Whoever is answered is the requester that the broker has on record.
def Owned (j : Job τ ι η) : Prop :=
  j.owner = j.entry.map Entry.requester

def Answerable (j : Job τ ι η) : Prop :=
  ∀ e ∈ j.entry, j.owner = some e.requester

-- Each time the job was received it ended up in exactly one place.
def Conserved (j : Job τ ι η) : Prop :=
  j.tracked + j.forwarded + j.failed = j.received

-- All handlers that may still answer the job do so for its owner.
def Exclusive (j : Job τ ι η) : Prop :=
  ∀ h r, (h, r) ∈ j.owed → ∀ r' ∈ j.owner, r' = r

-- A job that now waits since before the time `t` was already waiting in `j₁`.
def Stamped [LT τ] (t : τ) (j₁ j : Job τ ι η) : Prop :=
  ∀ e ∈ j.entry, e.Waiting → e.waitStart < t → j₁.Waiting

theorem idle_owned : (idle : Job τ ι η).Owned :=
  rfl

theorem idle_answerable : (idle : Job τ ι η).Answerable :=
  fun _ h => nomatch h

theorem idle_conserved : (idle : Job τ ι η).Conserved :=
  rfl

theorem idle_exclusive : (idle : Job τ ι η).Exclusive :=
  fun _ _ h => absurd h List.not_mem_nil

theorem stamped_self [LT τ] : Stamped t j j :=
  fun e he hw _ => ⟨e, he, hw⟩

namespace Step

variable {ev : Event ι}

theorem preserves_owned (s : Step now j ev j') (h : j.Owned) (hd : ev ≠ .dropped) :
    j'.Owned := by
  cases s
  case assign e _ he => simpa [Owned, he] using h
  case release e he  => simpa [Owned, he] using h
  case drop          => exact absurd rfl hd
  all_goals first | exact h | rfl

theorem preserves_answerable (s : Step now j ev j') (h : j.Answerable) : j'.Answerable := by
  cases s
  case stay | refuse | ignore | settle => exact h
  case queue | start                   => rintro e ⟨⟩; rfl
  case forward | fail | lose | drop    => exact fun _ he => nomatch he
  case assign e _ he | release e he    => rintro e' ⟨⟩; exact h e he

theorem preserves_conserved (s : Step now j ev j') (ho : j.Owned) (h : j.Conserved)
    (hr : ev = .refused ∨ (∃ r, ev = .request r) → j.received = 0)
    (hl : ev ≠ .lost) (hd : ev ≠ .dropped) : j'.Conserved := by
  have hn : j.received = 0 → j.tracked = 0 ∧ j.forwarded = 0 ∧ j.failed = 0 := by
    simp only [Conserved] at h
    omega
  cases s
  case stay | settle => exact h
  case refuse =>
    have ⟨ht, hf, hg⟩ := hn <| hr <| .inl rfl
    simp only [Conserved, tracked] at ht ⊢
    simp_all
  case queue r | start r _ =>
    have ⟨ht, hf, hg⟩ := hn <| hr <| .inr ⟨r, rfl⟩
    simp_all [Conserved, tracked]
  case forward r _ hw _ =>
    have he : j.entry.isSome := by
      rw [ho, Option.map_eq_some_iff] at hw
      have ⟨e, he, _⟩ := hw
      rw [he, Option.isSome_some]
    simp only [Conserved, tracked, he, if_true] at h
    simp only [Conserved, tracked, Option.isSome_none, Bool.false_eq_true, if_false]
    omega
  case fail e he =>
    simp only [Conserved, tracked, he, Option.isSome_some, if_true] at h
    simp only [Conserved, tracked, Option.isSome_none, Bool.false_eq_true, if_false]
    omega
  case assign e _ he | release e he => simpa [Conserved, tracked, he] using h
  case ignore | lose => exact absurd rfl hl
  case drop          => exact absurd rfl hd

-- A job keeps to one requester as long as it is only accepted from the requester that its handlers
-- already owe an answer.
theorem preserves_exclusive (s : Step now j ev j') (ho : j.Answerable) (h : j.Exclusive)
    (ha : ∀ r, ev = .request r → ∀ h r', (h, r') ∈ j.owed → r = r') : j'.Exclusive := by
  cases s
  case stay | refuse | ignore => exact h
  case settle os hs           => exact fun h' r hm => h h' r <| hs.subset hm
  case queue r =>
    intro h r' hm r'' hr
    cases hr
    exact ha r rfl h r' hm
  case start r h =>
    intro h' r' hm r'' hr
    cases hr
    rcases List.mem_append.mp hm with hm | hm
    case inl => exact ha r rfl h' r' hm
    case inr => simp_all
  case forward | fail | lose => exact fun _ _ _ _ hr => absurd hr (by simp)
  case assign e h' he =>
    intro h'' r' hm r'' hr
    rcases List.mem_append.mp hm with hm | hm
    case inl => exact h h'' r' hm r'' hr
    case inr =>
      have hr := Option.some.inj <| (ho e he).symm.trans hr
      simp_all
  case release | drop => exact h

-- The stamp of a job is right as long as it is not put back to waiting under an old one.
theorem preserves_stamped [LinearOrder τ] (s : Step now j ev j') (h : Stamped t j₁ j)
    (ht : t ≤ now) (hr : ev = .putBack → ∀ e ∈ j.entry, now ≤ e.waitStart) :
    Stamped t j₁ j' := by
  intro e' he' hw hl
  cases s
  case stay | refuse | ignore | settle => exact h e' he' hw hl
  case queue | start =>
    cases he'
    exact absurd ht hl.not_ge
  case forward | fail | lose | drop => cases he'
  case assign => cases he'; cases hw
  case release e he =>
    cases he'
    exact absurd (le_trans ht <| hr rfl e he) hl.not_ge

end Step

end Job
