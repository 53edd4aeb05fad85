import Tyche.Cpp.Theorems.Output
import Tyche.RoundRobin

namespace Cpp

-- The handler to which a job of the topic goes.
def Output.handler? (t : Bytes) : Output → Option ModuleId
  | dispatch _ h info => if info.topic = t then some h else none
  | _                 => none

namespace TycheEngine

variable {deserialize : Bytes → Option Message} {s s' s₁ s₂ : TycheEngine} {a : Action}
variable {c t topic : Bytes} {info info' : JobTrackingInfo} {o : Output} {h : ModuleId} {r : Reason}
variable {os : List Output} {as as₀ : List Action} {now : ℚ} {hs : List ModuleId} {job : Bytes × JobTrackingInfo}

def index (s : TycheEngine) (t : Bytes) : ℕ :=
  s.jobRoundRobin.getD t 0

-- The handlers that jobs of the topic go to between two states of a run.
def dispatches (t : Bytes) (s s' : TycheEngine) : List ModuleId :=
  (s'.out.drop s.out.length).filterMap (·.handler? t)

-- The turns for a topic between two states, where the available handlers are those after them.
def Rounds (t : Bytes) (s s' : TycheEngine) : Prop :=
  ∃ os, s'.out = s.out ++ os ∧ ∀ hs, (os.filterMap (·.handler? t) ≠ [] → s'.available t = hs) →
    RoundRobin.Turns hs (s.index t) (os.filterMap (·.handler? t)) (s'.index t)

-- No turn for the topic is taken, and no job goes to a handler of it.
structure Quiet (t : Bytes) (s s' : TycheEngine) : Prop where
  index : s'.index t = s.index t
  out   : Grows (·.handler? t = none) s.out s'.out

namespace Rounds

theorem refl : Rounds t s s :=
  ⟨[], (List.append_nil _).symm, fun _ _ => .nil⟩

theorem trans (h : Rounds t s s₁) (h' : Rounds t s₁ s₂) (ha : s₂.available t = s₁.available t) :
    Rounds t s s₂ := by
  obtain ⟨os, ho, h⟩ := h
  obtain ⟨os', ho', h'⟩ := h'
  refine ⟨os ++ os', by rw [ho', ho, List.append_assoc], fun hs hd => ?_⟩
  rw [List.filterMap_append] at hd ⊢
  refine (h hs fun hn => ?_).trans (h' hs fun hn => ?_)
  · exact ha.symm.trans <| hd <| List.append_ne_nil_of_left_ne_nil hn _
  · exact hd <| List.append_ne_nil_of_right_ne_nil _ hn

-- What comes before the turns may change the availability.
theorem of_quiet {u : TycheEngine} (hq : Quiet t s u) (h : Rounds t u s') : Rounds t s s' := by
  obtain ⟨os, ho, hn⟩ := hq.out
  obtain ⟨os', ho', h⟩ := h
  have hf : (os ++ os').filterMap (·.handler? t) = os'.filterMap (·.handler? t) := by
    rw [List.filterMap_append, List.filterMap_eq_nil_iff.mpr hn, List.nil_append]
  refine ⟨os ++ os', by rw [ho', ho, List.append_assoc], fun hs hd => ?_⟩
  rw [hf] at hd ⊢
  exact hq.index ▸ h hs hd

theorem quiet (hq : Quiet t s s') : Rounds t s s' :=
  of_quiet hq refl

end Rounds

theorem selectHandler_turn (e : s.selectHandler topic = some (h, s')) :
    (s.available topic)[s.index topic % (s.available topic).length]? = some h ∧
      s' = s.setRoundRobin topic (s.index topic % (s.available topic).length + 1) := by
  simp only [selectHandler, Option.map_eq_some_iff, Prod.mk.injEq] at e
  obtain ⟨_, hm, rfl, rfl⟩ := e
  exact ⟨hm, rfl⟩

-- A job is sent to the handler whose turn it is.
theorem dispatch_rounds (e : s.selectHandler topic = some (h, s₁))
    (hr : s'.jobRoundRobin = s₁.jobRoundRobin) (ho : s'.out = s.out ++ [.dispatch c h info])
    (ht : info.topic = topic) (ha : s'.available t = s.available t) :
    Rounds t s s' := by
  subst ht
  obtain ⟨hm, rfl⟩ := selectHandler_turn e
  have hi : s'.index t = if t = info.topic then
      s.index info.topic % (s.available info.topic).length + 1 else s.index t := by
    rw [index, hr, setRoundRobin, Dict.getD, Dict.get?_set]
    split <;> rfl
  refine ⟨_, ho, fun hs hd => ?_⟩
  by_cases ht : info.topic = t
  case pos =>
    subst ht
    have hf : [Output.dispatch c h info].filterMap (·.handler? info.topic) = [h] := by
      simp [Output.handler?]
    rw [hf] at hd ⊢
    cases ha.symm.trans <| hd <| List.cons_ne_nil _ _
    rw [hi, if_pos rfl]
    exact .single hm
  case neg =>
    have hf : [Output.dispatch c h info].filterMap (·.handler? t) = [] := by
      simp [Output.handler?, ht]
    rw [hf, hi, if_neg (Ne.symm ht)]
    exact .nil

theorem retryJob_rounds (e : s.retryJob c info = some s') :
    Rounds t s s' ∧ s'.available t = s.available t := by
  obtain ⟨⟨h, s₁⟩, hs, rfl⟩ := Option.map_eq_some_iff.mp e
  obtain ⟨-, n, rfl⟩ := selectHandler_eq_some hs
  exact ⟨dispatch_rounds hs rfl rfl rfl rfl, rfl⟩

theorem redispatch_rounds : Rounds t s ((s.retryJob c info).getD <| s.track c info') ∧
    ((s.retryJob c info).getD <| s.track c info').available t = s.available t := by
  cases e : s.retryJob c info
  case none => exact ⟨.quiet ⟨rfl, .of_eq rfl⟩, rfl⟩
  case some => exact retryJob_rounds e

theorem recoverJobs_rounds {js : List (Bytes × JobTrackingInfo)} :
    Rounds t s (js.foldl recoverJob s) ∧ (js.foldl recoverJob s).available t = s.available t := by
  induction js generalizing s
  case nil => exact ⟨.refl, rfl⟩
  case cons j js hi =>
    have hj : Rounds t s (s.recoverJob j) ∧ (s.recoverJob j).available t = s.available t :=
      redispatch_rounds (s := s.untrack j.1)
    exact ⟨hj.left.trans hi.left hi.right, hi.right.trans hj.right⟩

theorem handleRequest_rounds {i tf mf : Bytes} {msg : Message} :
    Rounds t s (s.handleRequest i tf mf msg) := by
  simp only [handleRequest]
  generalize msg.correlationId.getD [] = c
  split
  case h_1 =>
    split
    case isTrue  => exact .quiet ⟨rfl, .concat rfl⟩
    case isFalse => exact .quiet ⟨rfl, .of_eq rfl⟩
  case h_2 h s₁ e =>
    refine .of_quiet (u := s.logRequest c) ⟨rfl, .of_eq rfl⟩ ?_
    obtain ⟨-, n, rfl⟩ := selectHandler_eq_some e
    exact dispatch_rounds e rfl rfl rfl rfl

theorem handleResponse_quiet {i tf mf : Bytes} {msg : Message} :
    Quiet t s (s.handleResponse i tf mf msg) := by
  refine ⟨?_, handleResponse_grows (fun _ => rfl) fun _ _ _ => rfl⟩
  simp only [handleResponse]
  split <;> rfl

theorem receive_rounds {frames : List Bytes} : Rounds t s (s.receive deserialize frames) := by
  rw [receive]
  cases incoming deserialize frames
  case none   => exact .refl
  case some i =>
    rw [Option.map_some, Option.getD_some, route]
    split
    · exact handleRequest_rounds
    · exact .quiet handleResponse_quiet
    · exact .refl

theorem failJob_quiet : Quiet t s (s.failJob deserialize c r info) := by
  refine ⟨?_, failJob_grows (fun _ => rfl) fun _ _ _ => rfl⟩
  rw [failJob, persistDeadLetter]
  split
  · split <;> rfl
  · rfl

theorem processTimeout_rounds : Rounds t s (s.processTimeout deserialize c r) := by
  rw [processTimeout]
  split
  case h_1 => exact .refl
  case h_2 info hi =>
    dsimp only
    split
    case h_1 h _ =>
      exact .of_quiet (u := ((s.untrack c).markUnavailable h info.topic).emit _)
        ⟨rfl, .concat rfl⟩ redispatch_rounds.left
    case h_2 => exact .of_quiet (u := s.untrack c) ⟨rfl, .of_eq rfl⟩ <| .quiet failJob_quiet

theorem receiveHeartbeat_index {frames : List Bytes} :
    (s.receiveHeartbeat deserialize frames).index t = s.index t := by
  rw [receiveHeartbeat]
  split
  case h_2 => rfl
  case h_1 =>
    split
    case isFalse => rfl
    case isTrue  =>
      rw [handleHeartbeat, recoverHandler, updateAvailability.eq_def]
      split <;> split <;> (try split) <;> rfl

theorem addHandler_index {m : ModuleId} {i : Interface} :
    (s.addHandler m i).index t = s.index t := by
  rw [addHandler]
  split
  case h_2 => rfl
  case h_1 =>
    simp only [index]
    split
    case isTrue  => rfl
    case isFalse hn =>
      rw [Dict.getD, Dict.get?_set]
      split
      case isFalse => rfl
      case isTrue he =>
        rw [he, Dict.getD, Dict.get?_eq_none_iff.mpr hn]
        rfl

theorem registerModule_index {i : ModuleInfo} : (s.registerModule i).index t = s.index t := by
  have hf (is : List Interface) (s : TycheEngine) :
      (is.foldl (·.addHandler i.moduleId) s).index t = s.index t := by
    induction is generalizing s
    case nil          => rfl
    case cons _ _ hi  => exact (hi _).trans addHandler_index
  exact hf _ _

theorem unregisterModule_index {m : ModuleId} : (s.unregisterModule m).index t = s.index t := by
  rw [unregisterModule]
  split <;> rfl

-- The turns for the topic that a step takes.
theorem step_rounds (e : s.step deserialize a = some s') : Rounds t s s' := by
  cases a
  case tick       => exact (step_tick e).right ▸ .quiet ⟨rfl, .of_eq rfl⟩
  case receive    => cases e; exact receive_rounds
  case timeoutEvent =>
    obtain ⟨ev, -, rfl⟩ := step_timeoutEvent e
    exact .of_quiet (u := s.popTimeoutEvent) ⟨rfl, .of_eq rfl⟩ processTimeout_rounds
  case recoveryEvent =>
    obtain ⟨-, ev, -, rfl⟩ := step_recoveryEvent e
    exact .of_quiet (u := s.popRecoveryEvent) ⟨rfl, .of_eq rfl⟩ recoverJobs_rounds.left
  case scan       => exact (step_scan e).right.right ▸ .quiet ⟨rfl, .of_eq rfl⟩
  case heartbeat  =>
    cases e
    exact .quiet ⟨receiveHeartbeat_index, .of_eq receiveHeartbeat_sameJobs.out⟩
  case register   =>
    cases e
    exact .quiet ⟨registerModule_index, .of_eq registerModule_sameJobs.out⟩
  case unregister => cases e; exact .quiet ⟨unregisterModule_index, .of_eq unregisterModule_out⟩

-- Where the step sends jobs about the topic, the handlers that are available for it are these.
def Steady (deserialize : Bytes → Option Message) (t : Bytes) (hs : List ModuleId)
    (s : TycheEngine) (a : Action) : Prop :=
  ∀ s' ∈ s.step deserialize a, dispatches t s s' ≠ [] → s'.available t = hs

instance : Decidable (s.Steady deserialize t hs a) :=
  inferInstanceAs <| Decidable (∀ s' ∈ _, _)

theorem addHandler_distinct {m : ModuleId} {i : Interface} (h : s.jobHandlers.Distinct) :
    (s.addHandler m i).jobHandlers.Distinct := by
  rw [addHandler]
  split
  case h_1 => exact h.add
  case h_2 => exact h

theorem registerModule_distinct {i : ModuleInfo} (h : s.jobHandlers.Distinct) :
    (s.registerModule i).jobHandlers.Distinct := by
  have hf (is : List Interface) (s : TycheEngine) (h : s.jobHandlers.Distinct) :
      (is.foldl (·.addHandler i.moduleId) s).jobHandlers.Distinct := by
    induction is generalizing s
    case nil         => exact h
    case cons _ _ hi => exact hi _ <| addHandler_distinct h
  exact hf _ _ h

theorem unregisterModule_distinct {m : ModuleId} (h : s.jobHandlers.Distinct) :
    (s.unregisterModule m).jobHandlers.Distinct := by
  rw [unregisterModule]
  split
  case isTrue  => exact h.filter
  case isFalse => exact h

theorem redispatch_jobHandlers :
    ((s.retryJob c info).getD <| s.track c info').jobHandlers = s.jobHandlers := by
  cases e : s.retryJob c info
  case none => rfl
  case some =>
    obtain ⟨_, _, _, rfl⟩ := retryJob_eq_some e
    rfl

theorem recoverJobs_jobHandlers {js : List (Bytes × JobTrackingInfo)} :
    (js.foldl recoverJob s).jobHandlers = s.jobHandlers := by
  induction js generalizing s
  case nil          => rfl
  case cons j js hi => exact hi.trans <| redispatch_jobHandlers (s := s.untrack j.1)

theorem receive_jobHandlers {frames : List Bytes} :
    (s.receive deserialize frames).jobHandlers = s.jobHandlers := by
  rw [receive]
  cases incoming deserialize frames
  case none   => rfl
  case some i =>
    rw [Option.map_some, Option.getD_some, route]
    split
    case h_1 =>
      simp only [handleRequest]
      split
      case h_1   => split <;> rfl
      case h_2 e =>
        obtain ⟨-, n, rfl⟩ := selectHandler_eq_some e
        rfl
    case h_2 =>
      simp only [handleResponse]
      split <;> rfl
    case h_3 => rfl

theorem processTimeout_jobHandlers :
    (s.processTimeout deserialize c r).jobHandlers = s.jobHandlers := by
  rw [processTimeout]
  split
  case h_1 => rfl
  case h_2 =>
    dsimp only
    split
    case h_1 => exact redispatch_jobHandlers
    case h_2 =>
      rw [failJob, persistDeadLetter]
      split
      · split <;> rfl
      · rfl

theorem receiveHeartbeat_jobHandlers {frames : List Bytes} :
    (s.receiveHeartbeat deserialize frames).jobHandlers = s.jobHandlers := by
  rw [receiveHeartbeat]
  split
  case h_2 => rfl
  case h_1 =>
    split
    case isFalse => rfl
    case isTrue  =>
      rw [handleHeartbeat, recoverHandler, updateAvailability.eq_def]
      split <;> split <;> (try split) <;> rfl

-- A module handles a topic once, however often it registers for it.
theorem step_distinct (e : s.step deserialize a = some s') (h : s.jobHandlers.Distinct) :
    s'.jobHandlers.Distinct := by
  cases a
  case tick       => exact (step_tick e).right ▸ h
  case receive    => cases e; exact receive_jobHandlers.symm ▸ h
  case timeoutEvent =>
    obtain ⟨ev, -, rfl⟩ := step_timeoutEvent e
    exact (processTimeout_jobHandlers (s := s.popTimeoutEvent)).symm ▸ h
  case recoveryEvent =>
    obtain ⟨-, ev, -, rfl⟩ := step_recoveryEvent e
    exact (recoverJobs_jobHandlers (s := s.popRecoveryEvent)).symm ▸ h
  case scan       => exact (step_scan e).right.right ▸ h
  case heartbeat  => cases e; exact receiveHeartbeat_jobHandlers.symm ▸ h
  case register   => cases e; exact registerModule_distinct h
  case unregister => cases e; exact unregisterModule_distinct h

theorem exec_distinct (e : (broker deserialize).exec s as = some s')
    (h : s.jobHandlers.Distinct) : s'.jobHandlers.Distinct :=
  (Machine.invariant (I := fun s : TycheEngine => s.jobHandlers.Distinct)
    (fun _ _ _ h e => step_distinct e h) h).exec e

theorem exec_turns (h : s.jobHandlers.Distinct) (e : (broker deserialize).exec s as = some s')
    (c : (broker deserialize).Along (Steady deserialize t hs) s as) :
    ∃ os, s'.out = s.out ++ os ∧ (os.filterMap (·.handler? t) ≠ [] → hs.Nodup) ∧
      RoundRobin.Turns hs (s.index t) (os.filterMap (·.handler? t)) (s'.index t) := by
  induction as generalizing s
  case nil =>
    cases e
    exact ⟨[], (List.append_nil _).symm, absurd rfl, .nil⟩
  case cons a as hi =>
    obtain ⟨s₁, he, e⟩ := Machine.exec_cons_eq_some_iff.mp e
    have h₁ := step_distinct he h
    obtain ⟨os, ho, hr⟩ := step_rounds (t := t) he
    obtain ⟨os', ho', hd, hr'⟩ := hi h₁ e (c.right s₁ he)
    have ha (hn : os.filterMap (·.handler? t) ≠ []) : s₁.available t = hs :=
      c.left s₁ he <| by rwa [dispatches, ho, List.drop_left]
    refine ⟨os ++ os', by rw [ho', ho, List.append_assoc], ?_⟩
    rw [List.filterMap_append]
    refine ⟨fun hn => ?_, (hr hs ha).trans hr'⟩
    by_cases hn' : os.filterMap (·.handler? t) = []
    case pos => exact hd fun h => hn <| by rw [hn', h, List.nil_append]
    case neg => exact ha hn' ▸ (h₁ t).filter _

theorem exec_fair {r : ℕ} (e₀ : (broker deserialize).exec (.start now) as₀ = some s)
    (e : (broker deserialize).exec (s.setRoundRobin t r) as = some s')
    (c : (broker deserialize).Along (Steady deserialize t hs) (s.setRoundRobin t r) as) :
    RoundRobin.Fair hs (dispatches t s s') := by
  have h : s.jobHandlers.Distinct := exec_distinct (s := .start now) e₀ Dict.distinct_empty
  obtain ⟨os, ho, hd, hr⟩ := exec_turns (s := s.setRoundRobin t r) h e c
  have hf : dispatches t s s' = os.filterMap (·.handler? t) := by
    rw [dispatches, ho]
    exact congrArg _ List.drop_left
  rw [hf]
  exact hr.fair_of hd

end TycheEngine

end Cpp
