import Tyche.Broker
import Tyche.Cpp.JobRouter
import Tyche.Sample

namespace Cpp

def JobTrackingInfo.entry (info : JobTrackingInfo) : Entry ℚ Bytes ModuleId where
  requester := info.requesterId
  handler   := info.handlerId
  waitStart := info.waitStartTime

namespace Output

def corrId : Output → Bytes
  | answer c ..          => c
  | dispatch c ..        => c
  | response c ..        => c
  | noHandler c ..       => c
  | handlerTimedOut c .. => c
  | deadLetter c ..      => c
  | timedOut c ..        => c

def IsForward : Output → Bool
  | response .. => true
  | _           => false

def IsError : Output → Bool
  | noHandler .. => true
  | timedOut ..  => true
  | _            => false

def IsReply (o : Output) : Bool :=
  o.IsForward || o.IsError

-- The answers that are owed after a line of the log.
def owed (os : List (ModuleId × Bytes)) : Output → List (ModuleId × Bytes)
  | dispatch _ handler info => os ++ [(handler, info.requesterId)]
  | answer _ identity       => os.eraseP (·.1.val = identity)
  | _                       => os

-- What a line of the log says about its job.
def logged (o : Output) (j : Job ℚ Bytes ModuleId) : Job ℚ Bytes ModuleId :=
  { j with
    forwarded  := j.forwarded + if o.IsForward then 1 else 0
    failed     := j.failed + if o.IsError then 1 else 0
    owed       := owed j.owed o }

end Output

namespace TycheEngine

variable {deserialize : Bytes → Option Message} {s s' : TycheEngine} {a : Action}
variable {c k t : Bytes} {info : JobTrackingInfo} {h : ModuleId} {o : Output}

def outOf (s : TycheEngine) (c : Bytes) : List Output :=
  s.out.filter (·.corrId = c)

def job (s : TycheEngine) (c : Bytes) : Job ℚ Bytes ModuleId where
  owner      := s.pendingJobs.get? c
  entry      := (s.jobTracking.get? c).map JobTrackingInfo.entry
  received   := s.received.count c
  forwarded  := (s.outOf c).countP Output.IsForward
  failed     := (s.outOf c).countP Output.IsError
  owed       := (s.outOf c).foldl Output.owed []

-- What only the passing of time, the arrival of requests and the scans of the jobs change.
def inputs (s : TycheEngine) : ℚ × List Bytes × List JobTimeoutEvent :=
  (s.now, s.received, s.jobTimeoutEvents)

theorem job_entry_iff {e : Entry ℚ Bytes ModuleId} :
    (s.job c).entry = some e ↔ ∃ info, s.jobTracking.get? c = some info ∧ info.entry = e :=
  Option.map_eq_some_iff

theorem job_track : (s.track k info).job c =
    if c = k then { s.job c with entry := some info.entry } else s.job c := by
  simp only [job, track, outOf, Dict.get?_set]
  split <;> rfl

theorem job_untrack : (s.untrack k).job c =
    if c = k then { s.job c with entry := none } else s.job c := by
  simp only [job, untrack, outOf, Dict.get?_erase]
  split <;> rfl

theorem job_setPending {r : Bytes} : (s.setPending k r).job c =
    if c = k then { s.job c with owner := some r } else s.job c := by
  simp only [job, setPending, outOf, Dict.get?_set]
  split <;> rfl

theorem job_erasePending : (s.erasePending k).job c =
    if c = k then { s.job c with owner := none } else s.job c := by
  simp only [job, erasePending, outOf, Dict.get?_erase]
  split <;> rfl

theorem outOf_emit : (s.emit o).outOf c = s.outOf c ++ if o.corrId = c then [o] else [] := by
  simp only [outOf, emit, List.filter_append, List.filter_cons, List.filter_nil,
    decide_eq_true_eq]

theorem job_emit_ne (hc : o.corrId ≠ c) : (s.emit o).job c = s.job c := by
  simp only [job, outOf_emit, hc, if_false, List.append_nil]
  rfl

theorem job_emit_self : (s.emit o).job o.corrId = o.logged (s.job o.corrId) := by
  simp only [job, outOf_emit, if_true, List.countP_append, List.countP_singleton,
    List.foldl_append, Output.logged]
  cases o <;> rfl

theorem job_emit_dispatch : (s.emit (.dispatch c h info)).job c =
    { s.job c with owed := (s.job c).owed ++ [(h, info.requesterId)] } :=
  job_emit_self

theorem job_emit_response {r tf mf : Bytes} : (s.emit (.response c r tf mf)).job c =
    { s.job c with forwarded := (s.job c).forwarded + 1 } := by
  refine job_emit_self.trans ?_
  simp [Output.logged, Output.IsForward, Output.IsError, Output.owed, Output.corrId]

theorem job_emit_noHandler {r tf : Bytes} {err : Message} :
    (s.emit (.noHandler c r tf err)).job c =
      { s.job c with failed := (s.job c).failed + 1 } := by
  refine job_emit_self.trans ?_
  simp [Output.logged, Output.IsForward, Output.IsError, Output.owed, Output.corrId]

theorem job_emit_timedOut {r : Reason} {i tf : Bytes} {err : Message} :
    (s.emit (.timedOut c r i tf err)).job c =
      { s.job c with failed := (s.job c).failed + 1 } := by
  refine job_emit_self.trans ?_
  simp [Output.logged, Output.IsForward, Output.IsError, Output.owed, Output.corrId]

theorem job_emit_answer {i : Bytes} : (s.emit (.answer c i)).job c =
    { s.job c with owed := (s.job c).owed.eraseP (·.1.val = i) } :=
  job_emit_self

theorem job_emit_silent (hr : o.IsReply = false) (hd : ∀ os, o.owed os = os) :
    (s.emit o).job c = s.job c := by
  by_cases hc : o.corrId = c
  case neg => exact job_emit_ne hc
  case pos =>
    simp only [Output.IsReply, Bool.or_eq_false_iff] at hr
    simp [job, outOf_emit, hc, hr, hd]
    exact ⟨rfl, rfl, rfl⟩

theorem job_logRequest_self : (s.logRequest c).job c =
    { s.job c with received := (s.job c).received + 1 } := by
  simp only [job, outOf, logRequest, List.count_append, List.count_singleton_self]

theorem job_logRequest_ne (hc : c ≠ k) : (s.logRequest k).job c = s.job c := by
  simp only [job, outOf, logRequest, List.count_append, List.count_singleton,
    beq_false_of_ne hc.symm, Bool.false_eq_true, if_false, Nat.add_zero]

theorem job_setRoundRobin {n : ℕ} : (s.setRoundRobin t n).job c = s.job c :=
  rfl

theorem selectHandler_eq_none_iff : s.selectHandler t = none ↔ s.available t = [] := by
  simp only [selectHandler, Option.map_eq_none_iff, List.getElem?_eq_none_iff]
  constructor
  case mp =>
    intro hl
    by_contra hn
    exact absurd (Nat.mod_lt _ <| List.length_pos_of_ne_nil hn) (Nat.not_lt.mpr hl)
  case mpr => simp_all

theorem selectHandler_eq_some (e : s.selectHandler t = some (h, s')) :
    h ∈ s.available t ∧ ∃ n, s' = s.setRoundRobin t n := by
  simp only [selectHandler, Option.map_eq_some_iff, Prod.mk.injEq] at e
  obtain ⟨_, hm, rfl, e⟩ := e
  exact ⟨List.mem_of_getElem? hm, _, e.symm⟩

theorem retryJob_eq_none_iff : s.retryJob c info = none ↔ s.available info.topic = [] := by
  rw [retryJob, Option.map_eq_none_iff, selectHandler_eq_none_iff]

-- A retried job goes to an available handler, under the stamp that it had.
theorem retryJob_eq_some (e : s.retryJob c info = some s') :
    ∃ h ∈ s.available info.topic, ∃ n,
      s' = ((s.setRoundRobin info.topic n).emit
        (.dispatch c h { info with handlerId := some h, dispatchTime := s.now })).track c
          { info with handlerId := some h, dispatchTime := s.now } := by
  have ⟨⟨h, _⟩, hs, e⟩ := Option.map_eq_some_iff.mp e
  have ⟨ha, n, hr⟩ := selectHandler_eq_some hs
  exact ⟨h, ha, n, by rw [← e, hr]⟩

theorem retryJob_inputs (e : s.retryJob c info = some s') : s'.inputs = s.inputs := by
  have ⟨_, _, _, e⟩ := retryJob_eq_some e
  rw [e]
  rfl

theorem retryJob_job (e : s.retryJob c info = some s') :
    ∃ h, s'.job c = { s.job c with
      entry      := some { info.entry with handler := some h }
      owed := (s.job c).owed ++ [(h, info.requesterId)] } := by
  have ⟨h, _, n, e⟩ := retryJob_eq_some e
  refine ⟨h, ?_⟩
  rw [e, job_track, if_pos rfl, job_emit_dispatch]
  rfl

theorem retryJob_job_ne (e : s.retryJob k info = some s') (hc : c ≠ k) : s'.job c = s.job c := by
  have ⟨h, _, n, e⟩ := retryJob_eq_some e
  rw [e, job_track, if_neg hc, job_emit_ne (o := .dispatch ..) hc.symm]
  rfl

-- What a request means for a job.
def requestEvent (s : TycheEngine) (identity : Bytes) (msg : Message) (c : Bytes) :
    Job.Event Bytes :=
  if c = msg.correlationId.getD [] then
    if s.handlers msg.event = [] then .refused else .request identity
  else .other

theorem available_ne_nil (hm : h ∈ s.available t) : s.handlers t ≠ [] :=
  List.ne_nil_of_mem <| List.mem_of_mem_filter hm

theorem handleRequest_job {i tf mf : Bytes} {msg : Message} :
    (s.job c).Step s.now (s.requestEvent i msg c) ((s.handleRequest i tf mf msg).job c) := by
  rw [requestEvent]
  generalize hk : msg.correlationId.getD [] = k
  simp only [handleRequest, hk]
  by_cases hc : c = k
  case neg =>
    rw [if_neg hc]
    split
    case h_1 =>
      split
      · rw [job_emit_ne (o := .noHandler ..) (Ne.symm hc), job_logRequest_ne hc]
        exact .stay _
      · rw [job_setPending, if_neg hc, job_track, if_neg hc, job_logRequest_ne hc]
        exact .stay _
    case h_2 e =>
      have ⟨_, _, e⟩ := selectHandler_eq_some e
      rw [e, job_emit_ne (o := .dispatch ..) (Ne.symm hc), job_track, if_neg hc, job_setPending,
        if_neg hc, job_setRoundRobin, job_logRequest_ne hc]
      exact .stay _
  case pos =>
    subst hc
    rw [if_pos rfl]
    generalize hv : ite (s.handlers msg.event = []) _ _ = ev
    split
    case h_1 =>
      split
      case isTrue hn =>
        have hn : s.handlers msg.event = [] := hn
        rw [← hv, if_pos hn, job_emit_noHandler, job_logRequest_self]
        exact .refuse
      case isFalse hn =>
        have hn : s.handlers msg.event ≠ [] := hn
        rw [← hv, if_neg hn, job_setPending, if_pos rfl, job_track, if_pos rfl, job_logRequest_self]
        exact .queue i
    case h_2 h _ e =>
      have ⟨hm, _, e⟩ := selectHandler_eq_some e
      have hn : s.handlers msg.event ≠ [] := available_ne_nil (s := s.logRequest c) hm
      rw [← hv, if_neg hn, e, job_emit_dispatch, job_track, if_pos rfl, job_setPending, if_pos rfl,
        job_setRoundRobin, job_logRequest_self]
      exact .start i h

theorem handleResponse_job {i tf mf : Bytes} {msg : Message} :
    (s.job c).Step s.now .other ((s.handleResponse i tf mf msg).job c) := by
  generalize hk : msg.correlationId.getD [] = k
  simp only [handleResponse, hk]
  by_cases hc : c = k
  case neg =>
    have ha : (s.emit <| .answer k i).job c = s.job c := job_emit_ne (Ne.symm hc)
    split
    case h_1 => exact ha ▸ .stay _
    case h_2 =>
      rw [job_emit_ne (o := .response ..) (Ne.symm hc), job_untrack, if_neg hc, job_erasePending,
        if_neg hc, ha]
      exact .stay _
  case pos =>
    subst hc
    split
    case h_1 => exact job_emit_answer ▸ .settle _ List.eraseP_sublist
    case h_2 r e =>
      rw [job_emit_response, job_untrack, if_pos rfl, job_erasePending, if_pos rfl, job_emit_answer]
      exact .forward r _ e List.eraseP_sublist

theorem persistDeadLetter_job {r : Reason} :
    (s.persistDeadLetter deserialize k r info).job c = s.job c := by
  rw [persistDeadLetter]
  split
  case h_1 => exact job_emit_silent rfl fun _ => rfl
  case h_2 => rfl

theorem persistDeadLetter_inputs {r : Reason} :
    (s.persistDeadLetter deserialize k r info).inputs = s.inputs := by
  rw [persistDeadLetter]
  split <;> rfl

theorem failJob_job {r : Reason} : (s.failJob deserialize c r info).job c =
    { s.job c with owner := none, failed := (s.job c).failed + 1 } := by
  rw [failJob, job_emit_timedOut, job_erasePending, if_pos rfl, apply_ite (job · c),
    persistDeadLetter_job, ite_self]

theorem failJob_job_ne {r : Reason} (hc : c ≠ k) :
    (s.failJob deserialize k r info).job c = s.job c := by
  rw [failJob, job_emit_ne (o := .timedOut ..) hc.symm, job_erasePending, if_neg hc,
    apply_ite (job · c), persistDeadLetter_job, ite_self]

theorem failJob_inputs {r : Reason} :
    (s.failJob deserialize c r info).inputs = s.inputs := by
  have h : (s.failJob deserialize c r info).inputs = (if r = .waitTimeout then
    s.persistDeadLetter deserialize c r info else s).inputs := rfl
  rw [h, apply_ite inputs, persistDeadLetter_inputs, ite_self]

-- A job that was taken out of the tracking table is tried again.
theorem retryJob_step {s₁ : TycheEngine} (he : (s.job c).entry = some info.entry)
    (hj : s₁.job c = { s.job c with entry := none }) (e : s₁.retryJob c info = some s') :
    (s.job c).Step s.now .other (s'.job c) := by
  have ⟨h, e⟩ := retryJob_job e
  rw [e, hj]
  exact .assign info.entry h he

theorem redispatch_job_ne {info' : JobTrackingInfo} (hc : c ≠ k) :
    ((s.retryJob k info).getD <| s.track k info').job c = s.job c := by
  cases e : s.retryJob k info
  case none => rw [Option.getD_none, job_track, if_neg hc]
  case some => exact retryJob_job_ne e hc

theorem redispatch_inputs {info' : JobTrackingInfo} :
    ((s.retryJob c info).getD <| s.track c info').inputs = s.inputs := by
  cases e : s.retryJob c info
  case none => rfl
  case some => exact retryJob_inputs e

theorem isHandlerAvailable_markUnavailable {h' : ModuleId} :
    (s.markUnavailable h t).isHandlerAvailable h' t =
      (decide (h' ≠ h) && s.isHandlerAvailable h' t) := by
  simp only [isHandlerAvailable, markUnavailable, Dict.getD, Dict.get?_set]
  by_cases hh : h' = h
  case pos => simp [hh]
  case neg =>
    have hv : h'.val ≠ h.val := fun e => hh <| Subtype.ext e
    simp only [hh, hv, if_false, ne_eq, not_false_eq_true, decide_true, Bool.true_and]
    exact if_congr .rfl rfl rfl

theorem available_markUnavailable_eq_nil_iff :
    (s.markUnavailable h t).available t = [] ↔ ∀ h' ∈ s.available t, h' = h := by
  simp only [available, isHandlerAvailable_markUnavailable, List.filter_eq_nil_iff,
    List.mem_filter, Bool.and_eq_true, decide_eq_true_eq]
  exact ⟨fun hn h' hm => by_contra fun hh => hn h' hm.left ⟨hh, hm.right⟩,
    fun hn h' hm ha => ha.left <| hn h' ⟨hm, ha.right⟩⟩

-- The run timeout of the job leaves it without a handler.
def Strands (s : TycheEngine) (c : Bytes) (r : Reason) : Prop :=
  r = .runTimeout ∧ ∃ info ∈ s.jobTracking.get? c, ∃ h ∈ info.handlerId,
    ∀ h' ∈ s.available info.topic, h' = h

instance {r : Reason} : Decidable (s.Strands c r) :=
  inferInstanceAs <| Decidable (_ ∧ ∃ _ ∈ _, ∃ _ ∈ _, _)

theorem processTimeout_job {r : Reason} :
    (s.job c).Step s.now (if c = k ∧ s.Strands k r then .putBack else .other)
      ((s.processTimeout deserialize k r).job c) := by
  rw [processTimeout]
  generalize hv : ite (c = k ∧ s.Strands k r) _ _ = ev
  split
  case h_1 => exact .stay _
  case h_2 info hi =>
    dsimp only
    by_cases hc : c = k
    case neg =>
      split
      · rw [redispatch_job_ne hc, job_emit_silent (o := .handlerTimedOut ..) rfl fun _ => rfl]
        exact (job_untrack.trans <| if_neg hc) ▸ .stay _
      · rw [failJob_job_ne hc, job_untrack, if_neg hc]
        exact .stay _
    case pos =>
      subst hc
      have he : (s.job c).entry = some info.entry := job_entry_iff.mpr ⟨info, hi, rfl⟩
      have hu : (s.untrack c).job c = { s.job c with entry := none } :=
        job_untrack.trans <| if_pos rfl
      split
      case h_1 h hh =>
        have hs : s.Strands c .runTimeout ↔ ∀ h' ∈ s.available info.topic, h' = h := by
          simp [Strands, hi, hh]
        generalize ht : ((s.untrack c).markUnavailable h info.topic).emit _ = s'
        have ha : s'.retryJob c info = none ↔ s.Strands c .runTimeout := by
          rw [retryJob_eq_none_iff, hs, ← ht]
          exact available_markUnavailable_eq_nil_iff (s := s.untrack c)
        have hj : s'.job c = { s.job c with entry := none } :=
          ht ▸ (job_emit_silent (o := .handlerTimedOut ..) rfl fun _ => rfl).trans hu
        cases e : s'.retryJob c info
        case none =>
          rw [← hv, if_pos ⟨rfl, ha.mp e⟩, Option.getD_none, job_track, if_pos rfl, hj]
          exact .release info.entry he
        case some =>
          rw [← hv, if_neg (fun hn => by simp [ha.mpr hn.right] at e), Option.getD_some]
          exact retryJob_step he hj e
      case h_2 hn =>
        have hs : ∀ {r}, (∀ h, r = .runTimeout → info.handlerId = some h → False) →
            ¬s.Strands c r := by
          rintro _ hn ⟨rfl, i, hi', h, hh, _⟩
          cases hi.symm.trans hi'
          exact hn h rfl hh
        rw [← hv, if_neg (fun h => hs hn h.right), failJob_job, hu]
        exact .fail info.entry he

theorem processTimeout_inputs {r : Reason} :
    (s.processTimeout deserialize k r).inputs = s.inputs := by
  rw [processTimeout]
  split
  case h_1 => rfl
  case h_2 =>
    dsimp only
    split
    · exact redispatch_inputs
    · exact failJob_inputs

theorem mem_waitingJobs {ts order : List Bytes} (hm : (c, info) ∈ s.waitingJobs ts order) :
    s.jobTracking.get? c = some info ∧ info.handlerId = none ∧ info.topic ∈ ts := by
  simp only [waitingJobs, List.mem_filterMap, Option.bind_eq_some_iff] at hm
  obtain ⟨_, _, _, hi, e⟩ := hm
  split at e
  case isTrue hw => cases e; exact ⟨hi, hw⟩
  case isFalse   => cases e

theorem waitingJobs_keys {ts order : List Bytes} :
    ((s.waitingJobs ts order).map Prod.fst).Sublist order := by
  induction order
  case nil => exact .refl _
  case cons k order hi =>
    rw [waitingJobs, List.filterMap_cons]
    split
    case h_1 => exact hi.cons k
    case h_2 e =>
      obtain ⟨_, _, e⟩ := Option.bind_eq_some_iff.mp e
      split at e <;> cases e
      exact hi.cons_cons k

section Recovery

variable {j : Bytes × JobTrackingInfo} {js : List (Bytes × JobTrackingInfo)}

theorem recoverJob_job_ne (hc : c ≠ j.1) : (s.recoverJob j).job c = s.job c := by
  rw [recoverJob, redispatch_job_ne hc, job_untrack, if_neg hc]

theorem recoverJob_inputs : (s.recoverJob j).inputs = s.inputs :=
  redispatch_inputs

theorem recoverJob_job (he : (s.job j.1).entry = some j.2.entry) :
    (s.job j.1).Step s.now .other ((s.recoverJob j).job j.1) := by
  have hj : (s.untrack j.1).job j.1 = { s.job j.1 with entry := none } :=
    job_untrack.trans <| if_pos rfl
  rw [recoverJob]
  cases e : (s.untrack j.1).retryJob j.1 j.2
  case none =>
    rw [Option.getD_none, job_track, if_pos rfl, hj, ← he]
    exact .stay _
  case some => exact retryJob_step he hj e

theorem recoverJobs_inputs : (js.foldl recoverJob s).inputs = s.inputs := by
  induction js generalizing s
  case nil => rfl
  case cons j js hi => exact hi.trans recoverJob_inputs

theorem recoverJobs_job_ne (hc : c ∉ js.map Prod.fst) :
    (js.foldl recoverJob s).job c = s.job c := by
  induction js generalizing s
  case nil => rfl
  case cons j js hi =>
    rw [List.map_cons, List.mem_cons, not_or] at hc
    exact (hi hc.right).trans <| recoverJob_job_ne hc.left

theorem recoverJobs_job (hn : (js.map Prod.fst).Nodup)
    (hj : ∀ j ∈ js, (s.job j.1).entry = some j.2.entry) :
    (s.job c).Step s.now .other ((js.foldl recoverJob s).job c) := by
  induction js generalizing s
  case nil => exact .stay _
  case cons j js hi =>
    rw [List.map_cons, List.nodup_cons] at hn
    rw [List.foldl_cons]
    by_cases hc : c = j.1
    case pos =>
      subst hc
      rw [recoverJobs_job_ne hn.left]
      exact recoverJob_job <| hj j List.mem_cons_self
    case neg =>
      have hs : (s.recoverJob j).job c = s.job c := recoverJob_job_ne hc
      have ht : (s.recoverJob j).now = s.now := congrArg Prod.fst recoverJob_inputs
      rw [← hs, ← ht]
      refine hi hn.right fun i hm => ?_
      have hne : i.1 ≠ j.1 := fun e => hn.left <| e ▸ List.mem_map_of_mem hm
      rw [recoverJob_job_ne hne]
      exact hj i <| List.mem_cons_of_mem _ hm

theorem processRecovery_job {ts order : List Bytes} (ho : order.Nodup) :
    (s.job c).Step s.now .other ((s.processRecovery ts order).job c) := by
  refine recoverJobs_job (ho.sublist waitingJobs_keys) fun ⟨k, info⟩ hm => ?_
  exact job_entry_iff.mpr ⟨info, (mem_waitingJobs hm).left, rfl⟩

theorem processRecovery_inputs {ts order : List Bytes} :
    (s.processRecovery ts order).inputs = s.inputs :=
  recoverJobs_inputs

end Recovery

-- The unregistration of the module leaves the job without a handler.
def Orphans (s : TycheEngine) (c : Bytes) (m : ModuleId) : Prop :=
  m ∈ s.modules ∧ ∃ info ∈ s.jobTracking.get? c, info.handlerId = some m

instance {m : ModuleId} : Decidable (s.Orphans c m) :=
  inferInstanceAs <| Decidable (_ ∧ ∃ _ ∈ _, _)

theorem unregisterModule_job_eq {m : ModuleId} (hm : m ∈ s.modules) :
    (s.unregisterModule m).job c = { s.job c with
      entry := ((s.jobTracking.get? c).map (orphan m)).map JobTrackingInfo.entry } := by
  rw [unregisterModule, if_pos hm]
  simp only [job, outOf, Dict.get?_mapVal]

theorem unregisterModule_job {m : ModuleId} :
    (s.job c).Step s.now (if s.Orphans c m then .putBack else .other)
      ((s.unregisterModule m).job c) := by
  by_cases hm : m ∈ s.modules
  case neg =>
    rw [unregisterModule, if_neg hm]
    exact .stay _
  case pos =>
    rw [unregisterModule_job_eq hm]
    cases hi : s.jobTracking.get? c
    case none =>
      have he : (s.job c).entry = none := Option.map_eq_none_iff.mpr hi
      rw [Option.map_none, Option.map_none, ← he]
      exact .stay _
    case some info =>
      have he : (s.job c).entry = some info.entry := job_entry_iff.mpr ⟨info, hi, rfl⟩
      have ho : s.Orphans c m ↔ info.handlerId = some m := by simp [Orphans, hm, hi]
      rw [Option.map_some, Option.map_some, orphan]
      by_cases hh : info.handlerId = some m
      case pos =>
        rw [if_pos hh, if_pos <| ho.mpr hh]
        exact .release info.entry he
      case neg =>
        rw [if_neg hh, ← he]
        exact .stay _

theorem unregisterModule_inputs {m : ModuleId} :
    (s.unregisterModule m).inputs = s.inputs := by
  rw [unregisterModule]
  split <;> rfl

-- Nothing that concerns a job differs.
structure SameJobs (s s' : TycheEngine) : Prop where
  job    : s'.job = s.job
  inputs : s'.inputs = s.inputs
  out    : s'.out = s.out

theorem SameJobs.refl : s.SameJobs s :=
  ⟨rfl, rfl, rfl⟩

theorem SameJobs.trans {s₁ s₂ s₃ : TycheEngine} (h₁ : s₁.SameJobs s₂) (h₂ : s₂.SameJobs s₃) :
    s₁.SameJobs s₃ :=
  ⟨h₂.job.trans h₁.job, h₂.inputs.trans h₁.inputs, h₂.out.trans h₁.out⟩

theorem updateAvailability_sameJobs {m : Bytes} {v : Option Any} :
    s.SameJobs (s.updateAvailability m v) := by
  rw [updateAvailability.eq_def]
  split
  · split <;> exact ⟨rfl, rfl, rfl⟩
  · exact ⟨rfl, rfl, rfl⟩

theorem recoverHandler_sameJobs {m : Bytes} : s.SameJobs (s.recoverHandler m) := by
  rw [recoverHandler]
  split <;> exact ⟨rfl, rfl, rfl⟩

theorem handleHeartbeat_sameJobs {msg : Message} : s.SameJobs (s.handleHeartbeat msg) :=
  updateAvailability_sameJobs.trans recoverHandler_sameJobs

theorem addHandler_sameJobs {m : ModuleId} {i : Interface} : s.SameJobs (s.addHandler m i) := by
  rw [addHandler]
  split <;> exact ⟨rfl, rfl, rfl⟩

theorem addHandlers_sameJobs {m : ModuleId} {is : List Interface} :
    s.SameJobs (is.foldl (·.addHandler m) s) := by
  induction is generalizing s
  case nil => exact .refl
  case cons i is hi => exact addHandler_sameJobs.trans hi

theorem registerModule_sameJobs {i : ModuleInfo} : s.SameJobs (s.registerModule i) := by
  rw [registerModule]
  have hm : s.SameJobs { s with modules := s.modules.insert i.moduleId } := ⟨rfl, rfl, rfl⟩
  exact hm.trans addHandlers_sameJobs

-- What an action means for a job.
def incomingEvent (s : TycheEngine) (i : Incoming) (c : Bytes) : Job.Event Bytes :=
  if i.msg.msgType = .request then s.requestEvent i.identity i.msg c else .other

def event (deserialize : Bytes → Option Message) (s : TycheEngine) (a : Action) (c : Bytes) :
    Job.Event Bytes :=
  match a with
  | .receive frames => ((incoming deserialize frames).map (s.incomingEvent · c)).getD .other
  | .timeoutEvent   =>
    if ∃ ev ∈ s.jobTimeoutEvents.head?, c = ev.correlationId ∧ s.Strands ev.correlationId ev.reason
    then .putBack else .other
  | .unregister m   => if s.Orphans c m then .putBack else .other
  | _               => .other

theorem route_job {i : Incoming} :
    (s.job c).Step s.now (s.incomingEvent i c) ((s.route i).job c) := by
  rw [route, incomingEvent]
  generalize hv : ite (i.msg.msgType = .request) _ _ = ev
  split
  case h_1 hm => rw [← hv, if_pos hm]; exact handleRequest_job
  case h_2 hm => rw [← hv, if_neg (by simp [hm])]; exact handleResponse_job
  case h_3    => exact .stay _

theorem receive_job {frames : List Bytes} : (s.job c).Step s.now
    (((incoming deserialize frames).map (s.incomingEvent · c)).getD .other)
    ((s.receive deserialize frames).job c) := by
  rw [receive]
  cases incoming deserialize frames
  case none => exact .stay _
  case some => exact route_job

theorem handleRequest_inputs {i tf mf : Bytes} {msg : Message} :
    (s.handleRequest i tf mf msg).inputs =
      (s.now, s.received ++ [msg.correlationId.getD []], s.jobTimeoutEvents) := by
  simp only [handleRequest]
  split
  case h_1 => split <;> rfl
  case h_2 e =>
    have ⟨_, _, e⟩ := selectHandler_eq_some e
    rw [e]
    rfl

theorem handleResponse_inputs {i tf mf : Bytes} {msg : Message} :
    (s.handleResponse i tf mf msg).inputs = s.inputs := by
  simp only [handleResponse]
  split <;> rfl

theorem receiveHeartbeat_sameJobs {frames : List Bytes} :
    s.SameJobs (s.receiveHeartbeat deserialize frames) := by
  rw [receiveHeartbeat]
  split
  case h_1 =>
    split
    · exact handleHeartbeat_sameJobs
    · exact .refl
  case h_2 => exact .refl

-- The correlation id under which a request is kept.
def Incoming.requestId (i : Incoming) : Option Bytes :=
  if i.msg.msgType = .request then some (i.msg.correlationId.getD []) else none

def requestId (deserialize : Bytes → Option Message) : Action → Option Bytes
  | .receive frames => (incoming deserialize frames).bind Incoming.requestId
  | _               => none

theorem route_inputs {i : Incoming} : (s.route i).inputs =
    (s.now, s.received ++ i.requestId.toList, s.jobTimeoutEvents) := by
  rw [route, Incoming.requestId]
  split
  case h_1 hm => rw [if_pos hm]; exact handleRequest_inputs
  case h_2 hm =>
    rw [if_neg (by simp [hm]), Option.toList_none, List.append_nil]
    exact handleResponse_inputs
  case h_3 hm _ =>
    rw [if_neg hm, Option.toList_none, List.append_nil]
    rfl

theorem receive_inputs {fs : List Bytes} : (s.receive deserialize fs).inputs =
    (s.now, s.received ++ (requestId deserialize (.receive fs)).toList, s.jobTimeoutEvents) := by
  rw [receive, requestId]
  cases incoming deserialize fs
  case none => exact congrArg (s.now, ·, s.jobTimeoutEvents) (List.append_nil _).symm
  case some => exact route_inputs

def oldEvents (s : TycheEngine) : Action → List JobTimeoutEvent
  | .timeoutEvent => s.jobTimeoutEvents.tail
  | _             => s.jobTimeoutEvents

def newEvents (s : TycheEngine) : Action → List JobTimeoutEvent
  | .scan time order => s.timeoutEvents time order
  | _                => []

-- What an action adds to the inputs of the router.
structure Inputs (deserialize : Bytes → Option Message) (s : TycheEngine) (a : Action)
    (s' : TycheEngine) : Prop where
  now      : s.now ≤ s'.now
  received : s'.received = s.received ++ (requestId deserialize a).toList
  events   : s'.jobTimeoutEvents = s.oldEvents a ++ s.newEvents a

theorem Inputs.of_eq (h : s'.inputs = (s.now, s.received, s.oldEvents a))
    (hr : requestId deserialize a = none) (he : s.newEvents a = []) :
    Inputs deserialize s a s' := by
  simp only [TycheEngine.inputs, Prod.mk.injEq] at h
  constructor
  case now      => exact h.left.ge
  case received => rw [hr, Option.toList_none, List.append_nil, h.right.left]
  case events   => rw [he, List.append_nil, h.right.right]

theorem step_inputs (e : s.step deserialize a = some s') : Inputs deserialize s a s' := by
  cases a
  case tick d =>
    have ⟨hd, e⟩ := step_tick e
    rw [e]
    exact ⟨le_add_of_nonneg_right hd, (List.append_nil _).symm, (List.append_nil _).symm⟩
  case receive =>
    cases e
    obtain ⟨hn, hr⟩ := Prod.mk.inj receive_inputs
    obtain ⟨hr, he⟩ := Prod.mk.inj hr
    exact ⟨hn.ge, hr, he.trans (List.append_nil _).symm⟩
  case timeoutEvent =>
    have ⟨_, _, e⟩ := step_timeoutEvent e
    exact e ▸ .of_eq (processTimeout_inputs (s := s.popTimeoutEvent)) rfl rfl
  case recoveryEvent =>
    have ⟨_, _, _, e⟩ := step_recoveryEvent e
    exact e ▸ .of_eq (processRecovery_inputs (s := s.popRecoveryEvent)) rfl rfl
  case scan =>
    have ⟨_, _, e⟩ := step_scan e
    exact e ▸ ⟨le_refl _, (List.append_nil _).symm, rfl⟩
  case heartbeat  => cases e; exact .of_eq receiveHeartbeat_sameJobs.inputs rfl rfl
  case register   => cases e; exact .of_eq registerModule_sameJobs.inputs rfl rfl
  case unregister => cases e; exact .of_eq unregisterModule_inputs rfl rfl

theorem mem_of_mem_oldEvents {ev : JobTimeoutEvent} (hm : ev ∈ s.oldEvents a) :
    ev ∈ s.jobTimeoutEvents := by
  cases a
  case timeoutEvent => exact List.mem_of_mem_tail hm
  all_goals exact hm

theorem mem_timeoutEvents {t : ℚ} {order : List Bytes} {ev : JobTimeoutEvent}
    (hm : ev ∈ s.timeoutEvents t order) :
    s.jobTracking.get? ev.correlationId = some ev.seen ∧
      timedOut t ev.seen = some ev.reason := by
  have ⟨k, _, hm⟩ := List.mem_filterMap.mp hm
  have ⟨info, hi, hm⟩ := Option.bind_eq_some_iff.mp hm
  have ⟨r, hr, hm⟩ := Option.map_eq_some_iff.mp hm
  exact hm ▸ ⟨hi, hr⟩

theorem step_job (e : s.step deserialize a = some s') :
    (s.job c).Step s.now (s.event deserialize a c) (s'.job c) := by
  cases a
  case tick => exact (step_tick e).right ▸ .stay _
  case receive => cases e; exact receive_job
  case timeoutEvent =>
    have ⟨ev, he, e⟩ := step_timeoutEvent e
    have hv : (∃ ev ∈ s.jobTimeoutEvents.head?,
        c = ev.correlationId ∧ s.Strands ev.correlationId ev.reason) ↔
        c = ev.correlationId ∧ s.Strands ev.correlationId ev.reason :=
      ⟨fun ⟨_, h, hs⟩ => Option.mem_unique h he ▸ hs, fun hs => ⟨ev, he, hs⟩⟩
    rw [event, if_congr hv rfl rfl, e]
    exact processTimeout_job (s := s.popTimeoutEvent)
  case recoveryEvent =>
    have ⟨ho, _, _, e⟩ := step_recoveryEvent e
    have hn := ho.nodup_iff.mpr s.jobTracking.keys_nodup
    exact e ▸ processRecovery_job (s := s.popRecoveryEvent) hn
  case scan => exact (step_scan e).right.right ▸ .stay _
  case heartbeat frames =>
    cases e
    have hs : s.SameJobs (s.receiveHeartbeat deserialize frames) := receiveHeartbeat_sameJobs
    exact congrFun hs.job c ▸ .stay _
  case register i =>
    cases e
    exact congrFun (registerModule_sameJobs (s := s) (i := i)).job c ▸ .stay _
  case unregister => cases e; exact unregisterModule_job

theorem event_eq_request {a : Action}
    (h : s.event deserialize a c = .refused ∨ ∃ r, s.event deserialize a c = .request r) :
    requestId deserialize a = some c := by
  cases a <;> simp only [event] at h
  case receive frames =>
    rw [requestId]
    cases hi : incoming deserialize frames
    case none => simp [hi] at h
    case some i =>
      rw [hi, Option.map_some, Option.getD_some, incomingEvent] at h
      rw [Option.bind_some, Incoming.requestId]
      by_cases hm : i.msg.msgType = .request
      case neg => simp [hm] at h
      case pos =>
        rw [if_pos hm, requestEvent] at h
        by_cases hc : c = i.msg.correlationId.getD []
        case pos => rw [if_pos hm, hc]
        case neg => simp [hc] at h
  all_goals first | (split at h <;> simp at h) | simp at h

end TycheEngine

def broker (deserialize : Bytes → Option Message) :
    Broker TycheEngine Action Bytes ℚ Bytes ModuleId where
  step     := TycheEngine.step deserialize
  now      := TycheEngine.now
  job      := TycheEngine.job
  event    := TycheEngine.event deserialize
  now_le e := (TycheEngine.step_inputs e).now
  job_step e _ := TycheEngine.step_job e

namespace Sample

def unpack (frame : Bytes) : Option Message :=
  if frame = Sample.packed "req" "c" then
    some { msgType := .request, event := utf8 "t", correlationId := utf8 "c" }
  else if frame = Sample.packed "resp" "c" then
    some { msgType := .response, event := utf8 "t", correlationId := utf8 "c" }
  else none

def register (m : ModuleId) : Action :=
  .register { moduleId := m, interfaces := [{ pattern := .handle, eventType := utf8 "t" }] }

def request (identity : Bytes) : Action :=
  .receive <| Sample.frames identity "req" "c"

def response (identity : Bytes) : Action :=
  .receive <| Sample.frames identity "resp" "c"

end Sample

end Cpp
