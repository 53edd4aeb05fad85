import Tyche.Cpp.Theorems.Timeouts

namespace Cpp

def Output.GivesUp (c : Bytes) : Output → Prop
  | deadLetter k .waitTimeout _ _ | timedOut k .waitTimeout _ _ _ => k = c
  | _ => False

instance {c : Bytes} : ∀ o : Output, Decidable (o.GivesUp c)
  | .deadLetter k .waitTimeout _ _ => inferInstanceAs <| Decidable (k = c)
  | .timedOut k .waitTimeout _ _ _ => inferInstanceAs <| Decidable (k = c)
  | .deadLetter _ .runTimeout _ _  => isFalse id
  | .timedOut _ .runTimeout _ _ _  => isFalse id
  | .answer ..                     => isFalse id
  | .dispatch ..                   => isFalse id
  | .response ..                   => isFalse id
  | .noHandler ..                  => isFalse id
  | .handlerTimedOut ..            => isFalse id

namespace TycheEngine

variable {deserialize : Bytes → Option Message} {s s' s₁ s₂ : TycheEngine} {a : Action}
variable {c k : Bytes} {info : JobTrackingInfo} {as bs cs : List Action} {r : Reason} {t : ℚ}

-- The action ends the job because of its wait timeout.
def GivesUp (deserialize : Bytes → Option Message) (s : TycheEngine) (a : Action) (c : Bytes) :
    Prop :=
  ∃ s' ∈ s.step deserialize a, ∃ o ∈ s'.out.drop s.out.length, o.GivesUp c

def Waits (s : TycheEngine) (c : Bytes) : Prop :=
  ∃ info ∈ s.jobTracking.get? c, info.handlerId = none

-- The time is not longer ago than the wait timeout of the job.
def Recent (s : TycheEngine) (c : Bytes) (t : ℚ) : Prop :=
  ∃ info ∈ s.jobTracking.get? c, ¬Floating.ExceededBy (s.now - t) info.waitTimeout

instance : Decidable (GivesUp deserialize s a c) :=
  inferInstanceAs <| Decidable (∃ _ ∈ _, ∃ _ ∈ _, _)

instance : Decidable (s.Recent c t) :=
  inferInstanceAs <| Decidable (∃ _ ∈ _, _)

-- Timeout events are processed as soon as they are queued.
def Prompt (s : TycheEngine) (a : Action) : Prop :=
  s.jobTimeoutEvents ≠ [] → s.processed a ≠ none

instance : Decidable (s.Prompt a) :=
  inferInstanceAs <| Decidable (_ ≠ _ → _ ≠ _)

-- The queued timeout events are about different jobs, which are as the scan saw them.
structure Settled (s : TycheEngine) : Prop where
  nodup : (s.jobTimeoutEvents.map JobTimeoutEvent.correlationId).Nodup
  seen  : ∀ ev ∈ s.jobTimeoutEvents, s.jobTracking.get? ev.correlationId = some ev.seen

theorem Settled.current (h : s.Settled) : s.Current a := by
  intro ev he info hi
  cases a
  case timeoutEvent => exact Option.mem_unique hi <| h.seen ev <| List.mem_of_mem_head? he
  all_goals cases he

theorem Settled.of_nil (h : s.jobTimeoutEvents = []) : s.Settled where
  nodup := by rw [h]; exact .nil
  seen  := by rw [h]; exact fun _ hm => absurd hm List.not_mem_nil

theorem retryJob_tracking (hc : c ≠ k) (e : s.retryJob k info = some s') :
    s'.jobTracking.get? c = s.jobTracking.get? c := by
  have ⟨_, _, _, e⟩ := retryJob_eq_some e
  exact e ▸ Dict.get?_set_ne hc

theorem processTimeout_tracking (hc : c ≠ k) :
    (s.processTimeout deserialize k r).jobTracking.get? c = s.jobTracking.get? c := by
  rw [processTimeout]
  split
  case h_1 => rfl
  case h_2 info _ =>
    have hu : (s.untrack k).jobTracking.get? c = s.jobTracking.get? c := Dict.get?_erase_ne hc
    dsimp only
    split
    case h_1 h _ =>
      generalize hs : ((s.untrack k).markUnavailable h info.topic).emit _ = s₁
      have h₁ : s₁.jobTracking.get? c = s.jobTracking.get? c := hs ▸ hu
      cases e : s₁.retryJob k info
      case none => exact (Dict.get?_set_ne hc).trans h₁
      case some => exact (retryJob_tracking hc e).trans h₁
    case h_2 =>
      refine Eq.trans ?_ hu
      rw [failJob, persistDeadLetter]
      split <;> (try split) <;> rfl

theorem timeoutEvents_nodup {order : List Bytes} (h : order.Nodup) :
    ((s.timeoutEvents t order).map JobTimeoutEvent.correlationId).Nodup := by
  suffices ((s.timeoutEvents t order).map JobTimeoutEvent.correlationId).Sublist order from
    h.sublist this
  clear h
  induction order
  case nil => exact .refl _
  case cons k order hi =>
    rw [timeoutEvents, List.filterMap_cons]
    split
    case h_1 => exact hi.cons k
    case h_2 e =>
      have ⟨_, _, e⟩ := Option.bind_eq_some_iff.mp e
      have ⟨_, _, e⟩ := Option.map_eq_some_iff.mp e
      cases e
      exact hi.cons_cons k

theorem step_timeoutEvent_settled (e : s.step deserialize .timeoutEvent = some s')
    (h : s.Settled) : s'.Settled := by
  have ht : s'.jobTimeoutEvents = s.jobTimeoutEvents.tail :=
    (step_inputs e).events.trans <| List.append_nil _
  have ⟨ev, he, e⟩ := step_timeoutEvent e
  have ⟨es, hes⟩ : ∃ es, s.jobTimeoutEvents = ev :: es := ⟨_, List.eq_cons_of_mem_head? he⟩
  have hn := h.nodup
  rw [hes, List.map_cons, List.nodup_cons] at hn
  rw [hes, List.tail_cons] at ht
  constructor
  case nodup => rw [ht]; exact hn.right
  case seen =>
    intro ev' hm
    rw [ht] at hm
    have hne : ev'.correlationId ≠ ev.correlationId :=
      fun hc => hn.left <| hc ▸ List.mem_map_of_mem hm
    rw [e, processTimeout_tracking hne]
    exact h.seen ev' <| hes ▸ List.mem_cons_of_mem _ hm

theorem step_settled (hp : s.Prompt a) (e : s.step deserialize a = some s') (h : s.Settled) :
    s'.Settled := by
  by_cases hn : s.jobTimeoutEvents = []
  case neg =>
    have hp := hp hn
    cases a
    case timeoutEvent => exact step_timeoutEvent_settled e h
    all_goals exact absurd rfl hp
  case pos =>
    have he := (step_inputs e).events
    cases a
    case timeoutEvent => exact step_timeoutEvent_settled e h
    case scan t order =>
      have ⟨_, ho, e⟩ := step_scan e
      have hs : s'.jobTimeoutEvents = s.timeoutEvents t order := by
        rw [e, scanTimeouts, hn, List.nil_append]
      constructor
      case nodup =>
        rw [hs]
        exact timeoutEvents_nodup <| ho.nodup_iff.mpr s.jobTracking.keys_nodup
      case seen =>
        rw [hs, e]
        exact fun ev hm => (mem_timeoutEvents hm).left
    all_goals exact .of_nil <| he.trans <| (List.append_nil _).trans hn

theorem timedOut_waitTimeout_iff : timedOut t info = some .waitTimeout ↔
    info.handlerId = none ∧ Floating.ExceededBy (t - info.waitStartTime) info.waitTimeout := by
  rw [timedOut]
  split <;> simp_all

theorem GivesUp.waiting (hg : GivesUp deserialize s a c) (ht : Timely deserialize s a) :
    ∃ e ∈ (s.job c).entry, e.Waiting ∧ ∀ t, s.Recent c t → e.waitStart < t := by
  have ⟨s', e, o, ho, hg⟩ := hg
  have ⟨info, hi, hr⟩ : ∃ info ∈ s.jobTracking.get? c, timedOut s.now info = some .waitTimeout := by
    have hj := ht s' e o ho
    cases o
    case deadLetter r _ _    => cases r <;> cases hg; exact hj
    case timedOut r _ _ _    => cases r <;> cases hg; exact hj
    all_goals cases hg
  have ⟨hw, hx⟩ := timedOut_waitTimeout_iff.mp hr
  refine ⟨info.entry, job_entry_iff.mpr ⟨info, hi, rfl⟩, hw, fun t ⟨_, hi', hn⟩ => ?_⟩
  cases Option.mem_unique hi hi'
  by_contra hl
  exact hn <| hx.mono <| sub_le_sub_left (not_lt.mp hl) _

end TycheEngine

namespace broker

open TycheEngine

variable {deserialize : Bytes → Option Message} {as : List Action} {now : ℚ}

-- An action that puts a job back to waiting does so at the time at which the job arrived.
def PutsBackAtOnce (deserialize : Bytes → Option Message) (s : TycheEngine) (a : Action) : Prop :=
  ∀ c, s.event deserialize a c = .putBack → ∀ info ∈ s.jobTracking.get? c,
    s.now ≤ info.waitStartTime

instance {s : TycheEngine} {a : Action} : Decidable (PutsBackAtOnce deserialize s a) :=
  decidable_of_iff (∀ e ∈ s.jobTracking.entries, s.event deserialize a e.1 = .putBack →
      s.now ≤ e.2.waitStartTime)
    ⟨fun h c hv info hi => h (c, info) (Dict.get?_eq_some_iff.mp hi) hv,
     fun h e hm hv => h e.1 hv e.2 <| Dict.get?_eq_some_iff.mpr hm⟩

theorem measuresWaiting (hp : (broker deserialize).Along Prompt (.start now) as)
    (hb : (broker deserialize).Along (PutsBackAtOnce deserialize) (.start now) as) :
    (broker deserialize).MeasuresWaiting (GivesUp deserialize) Recent (.start now) as := by
  have hs : (broker deserialize).Always (fun s => s.Overdue ∧ s.Settled) (.start now) as :=
    Machine.always_of_step (fun _ _ _ h hp e => ⟨step_overdue e h.left, step_settled hp e h.right⟩)
      ⟨fun _ h => absurd h List.not_mem_nil, .of_nil rfl⟩ hp
  have ht : (broker deserialize).Along (Timely deserialize) (.start now) as :=
    hs.along hp fun _ _ h _ => step_timely h.left h.right.current
  refine Broker.measuresWaiting_of_stamping (hb.mono fun s a hb c hv e he => ?_) ht fun h hg =>
    hg.waiting h
  have ⟨info, hi, he⟩ := job_entry_iff.mp he
  exact he ▸ hb c hv info hi

end broker

end Cpp
