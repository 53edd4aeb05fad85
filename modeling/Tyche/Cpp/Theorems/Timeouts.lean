import Tyche.Cpp.Theorems.Output

namespace Cpp

-- What a timeout is answered with is right in the state in which the timeout is processed: a job
-- fails for a reason that holds of it, and a handler is marked for the job that it has too long.
def Output.Justified (s : TycheEngine) : Output → Prop
  | deadLetter c reason _ _ | timedOut c reason _ _ _ =>
    ∃ info ∈ s.jobTracking.get? c, TycheEngine.timedOut s.now info = some reason
  | handlerTimedOut c handler topic =>
    ∃ info ∈ s.jobTracking.get? c, info.handlerId = some handler ∧ info.topic = topic ∧
      TycheEngine.timedOut s.now info = some .runTimeout
  | _ => True

instance {s : TycheEngine} : ∀ o : Output, Decidable (o.Justified s)
  | .answer ..          => inferInstanceAs <| Decidable True
  | .dispatch ..        => inferInstanceAs <| Decidable True
  | .response ..        => inferInstanceAs <| Decidable True
  | .noHandler ..       => inferInstanceAs <| Decidable True
  | .handlerTimedOut .. => inferInstanceAs <| Decidable (∃ _ ∈ _, _)
  | .deadLetter ..      => inferInstanceAs <| Decidable (∃ _ ∈ _, _)
  | .timedOut ..        => inferInstanceAs <| Decidable (∃ _ ∈ _, _)

namespace TycheEngine

variable {deserialize : Bytes → Option Message} {s s' s₁ s₂ : TycheEngine} {a : Action}
variable {c : Bytes} {info : JobTrackingInfo} {o : Output} {r : Reason} {P : Output → Prop}
variable {as : List Action}

def Timely (deserialize : Bytes → Option Message) (s : TycheEngine) (a : Action) : Prop :=
  ∀ s' ∈ s.step deserialize a, ∀ o ∈ s'.out.drop s.out.length, o.Justified s

instance : Decidable (Timely deserialize s a) :=
  inferInstanceAs <| Decidable (∀ _ ∈ _, _)

-- The timeout event that an action processes.
def processed (s : TycheEngine) : Action → Option JobTimeoutEvent
  | .timeoutEvent => s.jobTimeoutEvents.head?
  | _             => none

-- A job that is still tracked when a timeout event is processed for it is as the scan saw it.
def Current (s : TycheEngine) (a : Action) : Prop :=
  ∀ ev ∈ s.processed a, ∀ info ∈ s.jobTracking.get? ev.correlationId, info = ev.seen

instance : Decidable (Current s a) :=
  inferInstanceAs <| Decidable (∀ _ ∈ _, ∀ _ ∈ _, _)

-- Every queued timeout event was right when the scan queued it.
def Overdue (s : TycheEngine) : Prop :=
  ∀ ev ∈ s.jobTimeoutEvents, timedOut s.now ev.seen = some ev.reason

theorem timedOut_mono {t t' : ℚ} (h : timedOut t info = some r) (ht : t ≤ t') :
    timedOut t' info = some r := by
  rw [timedOut] at h ⊢
  split at h <;> simp only [Option.ite_none_right_eq_some] at h ⊢ <;>
  · exact ⟨h.left.mono <| sub_le_sub_right ht _, h.right⟩

theorem step_overdue (e : s.step deserialize a = some s') (h : s.Overdue) : s'.Overdue := by
  have hi := step_inputs e
  intro ev hm
  rcases List.mem_append.mp (hi.events ▸ hm) with hm | hm
  case inl => exact timedOut_mono (h ev <| mem_of_mem_oldEvents hm) hi.now
  case inr =>
    cases a
    case scan t _ =>
      have ht : t ≤ s.now := (step_scan e).left
      exact timedOut_mono (mem_timeoutEvents hm).right <| ht.trans hi.now
    all_goals cases hm

theorem processTimeout_grows (ht : ∀ info, s.jobTracking.get? c = some info →
      timedOut s.now info = some r) :
    Grows (Output.Justified s) s.out (s.processTimeout deserialize c r).out := by
  rw [processTimeout]
  split
  case h_1 => exact .of_eq rfl
  case h_2 info hi =>
    have hr := ht info hi
    dsimp only
    split
    case h_1 h he =>
      have hm : Grows (Output.Justified s) s.out (s.out ++ [.handlerTimedOut c h info.topic]) :=
        .concat ⟨info, hi, he, rfl, hr⟩
      exact hm.trans <| redispatch_grows fun _ _ _ => trivial
    case h_2 =>
      exact failJob_grows (s := s.untrack c) (fun _ => ⟨info, hi, hr⟩) fun _ _ _ => ⟨info, hi, hr⟩

theorem step_timely (h : s.Overdue) (hc : s.Current a) : Timely deserialize s a := by
  intro s' e o ho
  suffices Grows (Output.Justified s) s.out s'.out from this.drop ho
  cases a
  case tick          => exact (step_tick e).right ▸ .of_eq rfl
  case receive       =>
    cases e
    exact receive_grows (fun _ _ _ => trivial) (fun _ _ _ _ => trivial) (fun _ _ => trivial)
      fun _ _ _ _ _ => trivial
  case timeoutEvent  =>
    have ⟨ev, he, e⟩ := step_timeoutEvent e
    refine e ▸ processTimeout_grows (s := s.popTimeoutEvent) fun info hi => ?_
    rw [hc ev he info hi]
    exact h ev <| List.mem_of_mem_head? he
  case recoveryEvent =>
    have ⟨_, _, _, e⟩ := step_recoveryEvent e
    exact e ▸ recoverJobs_grows (s := s.popRecoveryEvent) fun _ _ _ => trivial
  case scan       => exact (step_scan e).right.right ▸ .of_eq rfl
  case heartbeat  => cases e; exact .of_eq receiveHeartbeat_sameJobs.out
  case register   => cases e; exact .of_eq registerModule_sameJobs.out
  case unregister => cases e; exact .of_eq unregisterModule_out

end TycheEngine

namespace broker

open TycheEngine

variable {deserialize : Bytes → Option Message} {as : List Action} {now : ℚ}

-- Timeout events do no harm in the runs in which none of them is stale.
theorem along_timely_of_current (c : (broker deserialize).Along Current (.start now) as) :
    (broker deserialize).Along (Timely deserialize) (.start now) as := by
  have ho : (broker deserialize).Always Overdue (.start now) as :=
    Machine.invariant (fun _ _ _ h e => step_overdue e h) fun _ h => absurd h List.not_mem_nil
  exact ho.along c fun _ _ => step_timely

-- A job that has run for too long, as the scan sees it.
def overdueJob : List Action :=
  [Sample.register (Sample.worker 1), Sample.request (utf8 "a"), .tick 61, .scan 61 [utf8 "c"]]

theorem along_timely_retry :
    (broker Sample.unpack).Along Current (.start 0) (overdueJob ++ [.timeoutEvent]) ∧
    (broker Sample.unpack).Along (Timely Sample.unpack) (.start 0)
      (overdueJob ++ [.timeoutEvent]) :=
  have h : (broker Sample.unpack).Along Current (.start 0) (overdueJob ++ [.timeoutEvent]) := by
    decide +kernel
  ⟨h, along_timely_of_current h⟩

-- The handler of a job that is overdue is unregistered before the event is processed, so the job is
-- waiting when it fails because of its run timeout.
theorem not_along_timely : ¬∀ as,
    (broker Sample.unpack).Along (Timely Sample.unpack) (.start 0) as := by
  intro h
  have hn := h (overdueJob ++ [.unregister (Sample.worker 1), .timeoutEvent])
  revert hn
  decide +kernel

end broker

end Cpp
