import Tyche.Job
import Tyche.Python.Theorems.Calls

namespace Python

open Proc

def TrackingInfo.entry (info : TrackingInfo) : Entry ℚ Bytes ModuleId where
  requester := info.requesterId
  handler   := info.handlerId
  waitStart := info.waitStartTime

def Call.duration : Call → ℚ
  | .tick d => d
  | _       => 0

namespace Output

def corrId? : Output → Option Key
  | answer c ..     => c
  | dispatch c ..   => c
  | response c ..   => c
  | noHandler v ..  => v.hash.toOption
  | deadLetter c .. => c
  | timedOut c ..   => c

def IsForward : Output → Bool
  | response .. => true
  | _           => false

def IsError : Output → Bool
  | noHandler .. => true
  | timedOut ..  => true
  | _            => false

-- The answers that are owed after a line of the log.
def owed (os : List (ModuleId × Bytes)) : Output → List (ModuleId × Bytes)
  | dispatch _ handler requester _ _ => os ++ [(handler, requester)]
  | answer _ identity                => os.eraseP (·.1.val = identity)
  | _                                => os

-- What a line of the log says about its job.
def logged (o : Output) (j : Job ℚ Bytes ModuleId) : Job ℚ Bytes ModuleId :=
  { j with
    forwarded := j.forwarded + if o.IsForward then 1 else 0
    failed    := j.failed + if o.IsError then 1 else 0
    owed      := owed j.owed o }

section Logged

variable {c : Key} {h : ModuleId} {r i tf mf : Bytes} {j : Job ℚ Bytes ModuleId} {v t : Value}
variable {reason : Reason} {msg : Message}

theorem logged_dispatch : (dispatch c h r tf mf).logged j =
    { j with owed := j.owed ++ [(h, r)] } :=
  rfl

theorem logged_response : (response c i tf mf).logged j =
    { j with forwarded := j.forwarded + 1 } := by
  simp [logged, IsForward, IsError, owed]

theorem logged_noHandler : (noHandler v i tf t).logged j = { j with failed := j.failed + 1 } := by
  simp [logged, IsForward, IsError, owed]

theorem logged_deadLetter : (deadLetter c t msg).logged j = j := by
  simp [logged, IsForward, IsError, owed]

theorem logged_timedOut : (timedOut c reason i tf t).logged j =
    { j with failed := j.failed + 1 } := by
  simp [logged, IsForward, IsError, owed]

end Logged

end Output

namespace TycheEngine

variable {deserialize : Bytes → Option Message} {works : Output → Bool} {s s' : TycheEngine}
variable {m h : ModuleId} {topic : Hashed} {t c k : Key} {ref : Ref} {o : Output}
variable {info : TrackingInfo}

def outOf (s : TycheEngine) (c : Key) : List Output :=
  s.out.filter (·.corrId? = some c)

def job (s : TycheEngine) (c : Key) : Job ℚ Bytes ModuleId where
  owner     := s.pendingJobs.get? c
  entry     := (s.tracking? c).map TrackingInfo.entry
  received  := s.received.count c
  forwarded := (s.outOf c).countP Output.IsForward
  failed    := (s.outOf c).countP Output.IsError
  owed      := (s.outOf c).foldl Output.owed []

theorem tracking?_retrack : ((s.setInfo ref info).retrack ref).tracking? c =
    if c = ref.corrId then some info else s.tracking? c := by
  simp only [tracking?, retrack, Dict.get?_set]
  by_cases hc : c = ref.corrId
  case pos =>
    subst hc
    simp [setInfo]
  case neg =>
    have hr (n : ℕ) : (s.setInfo ref info).infos ⟨c, n⟩ = s.infos ⟨c, n⟩ :=
      if_neg fun e => hc <| congrArg Ref.corrId e
    simp only [hc, if_false, hr]
    rfl

theorem tracking?_untrack : (s.untrack k).tracking? c = if c = k then none else s.tracking? c := by
  simp only [tracking?, untrack, Dict.get?_erase]
  split <;> rfl

theorem job_retrack : ((s.setInfo ref info).retrack ref).job c =
    if c = ref.corrId then { s.job c with entry := some info.entry } else s.job c := by
  rw [job, tracking?_retrack, apply_ite (Option.map TrackingInfo.entry)]
  split <;> rfl

theorem setInfo_self : s.setInfo ref (s.infos ref) = s := by
  have hf : (fun r => if r = ref then s.infos ref else s.infos r) = s.infos := by
    funext r
    split <;> simp_all
  rw [setInfo, hf]

theorem job_retrack_self : (s.retrack ref).job c =
    if c = ref.corrId then { s.job c with entry := some (s.infos ref).entry } else s.job c := by
  have h : ((s.setInfo ref (s.infos ref)).retrack ref).job c = _ := job_retrack
  rwa [setInfo_self] at h

theorem job_untrack : (s.untrack k).job c =
    if c = k then { s.job c with entry := none } else s.job c := by
  rw [job, tracking?_untrack, apply_ite (Option.map TrackingInfo.entry)]
  split <;> rfl

theorem job_track : (s.track k info).job c =
    if c = k then { s.job c with entry := some info.entry } else s.job c := by
  have h : ((s.setInfo ⟨k, s.created⟩ info).retrack ⟨k, s.created⟩).job c = _ := job_retrack
  exact h

theorem job_setPending {r : Bytes} : (s.setPending k r).job c =
    if c = k then { s.job c with owner := some r } else s.job c := by
  simp only [job, setPending, Dict.get?_set]
  split <;> rfl

theorem job_erasePending : (s.erasePending k).job c =
    if c = k then { s.job c with owner := none } else s.job c := by
  simp only [job, erasePending, Dict.get?_erase]
  split <;> rfl

theorem job_setRoundRobin {n : ℕ} : (s.setRoundRobin t n).job c = s.job c :=
  rfl

theorem outOf_emit : (s.emit o).outOf c = s.outOf c ++ if o.corrId? = some c then [o] else [] := by
  simp only [outOf, emit, List.filter_append, List.filter_cons, List.filter_nil,
    decide_eq_true_eq]

theorem job_emit : (s.emit o).job c =
    if o.corrId? = some c then o.logged (s.job c) else s.job c := by
  simp only [job, outOf_emit]
  split
  case isTrue =>
    simp only [List.countP_append, List.countP_singleton, List.foldl_append, Output.logged]
    cases o <;> rfl
  case isFalse =>
    rw [List.append_nil]
    rfl

theorem job_emit_self (hc : o.corrId? = some c) : (s.emit o).job c = o.logged (s.job c) :=
  job_emit.trans <| if_pos hc

theorem job_emit_ne (hc : o.corrId? ≠ some c) : (s.emit o).job c = s.job c :=
  job_emit.trans <| if_neg hc

theorem job_trying : (s.trying works o).job c =
    if works o ∧ o.corrId? = some c then o.logged (s.job c) else s.job c := by
  rw [trying, apply_ite (job · c), job_emit]
  split <;> simp_all

theorem job_logRequest : (s.logRequest k).job c =
    if c = k then { s.job c with received := (s.job c).received + 1 } else s.job c := by
  simp only [job, logRequest, List.count_append, List.count_singleton]
  by_cases hc : c = k
  case pos => simp only [hc, beq_self_eq_true, if_true]; rfl
  case neg => simp only [hc, beq_false_of_ne (Ne.symm hc), Bool.false_eq_true, if_false]; rfl

theorem arrive_now {i : Incoming} : (s.arrive i).now = s.now := by
  rw [arrive]
  split <;> rfl

theorem job_arrive_request {i : Incoming} (hm : i.msg.msgType = .request)
    (hc : i.msg.correlationId.hash = .ok c) :
    (s.arrive i).job c = { s.job c with received := (s.job c).received + 1 } := by
  rw [arrive, hm, hc]
  exact job_logRequest.trans <| if_pos rfl

theorem job_arrive_response {i : Incoming} (hm : i.msg.msgType = .response)
    (hc : i.msg.correlationId.hash = .ok c) : (s.arrive i).job c =
      { s.job c with owed := (s.job c).owed.eraseP (·.1.val = i.identity) } := by
  rw [arrive, hm, hc]
  exact job_emit_self rfl

theorem job_arrive_ne {i : Incoming} (hc : i.msg.correlationId.hash ≠ .ok c) :
    (s.arrive i).job c = s.job c := by
  rw [arrive]
  split
  case h_1 hk => exact job_logRequest.trans <| if_neg fun e : c = _ => hc <| e ▸ hk
  case h_2 hk =>
    exact job_emit_ne (o := .answer ..) fun e => hc <| Option.some.inj e ▸ hk
  case h_3    => rfl

theorem job_assign : (s.assign ref h).job c =
    if c = ref.corrId then
      { s.job c with entry := some { (s.infos ref).entry with handler := some h } }
    else s.job c :=
  job_retrack

theorem job_release : (s.release ref).job c =
    if c = ref.corrId then
      { s.job c with entry := some { (s.infos ref).entry with handler := none } }
    else s.job c :=
  job_retrack

theorem selectHandler_eq_some (e : s.selectHandler topic = .ok (some (h, s'))) :
    s.handlers topic.key ≠ [] ∧ ∃ n, s' = s.setRoundRobin topic.key n := by
  rw [selectHandler] at e
  split at e <;> cases e
  case h_3 ha =>
    have hm := ((chosen_eq_ok ha).right _).mp List.mem_cons_self
    exact ⟨List.ne_nil_of_mem hm.left, _, rfl⟩

-- What a request means for its job.
def requestEvent (s : TycheEngine) (works : Output → Bool) (i : Incoming) (c : Key) :
    Job.Event Bytes :=
  match request i.msg with
  | .error _ => .lost
  | .ok r    =>
    match s.selectHandler r.topic with
    | .error _           => .lost
    | .ok none           =>
      if s.handlers r.topic.key ≠ [] then .request i.identity
      else if works (.noHandler i.msg.correlationId i.identity i.topicFrame i.msg.event) then .refused
      else .lost
    | .ok (some (h, _)) =>
      if works (.dispatch c h i.identity i.topicFrame i.messageFrame) then .request i.identity
      else .lost

theorem handleJobRequest_job {i : Incoming} {s₀ : TycheEngine}
    (hc : i.msg.correlationId.hash = .ok c)
    (hs : s.job c = { s₀.job c with received := (s₀.job c).received + 1 }) :
    (s₀.job c).Step s.now (s.requestEvent works i c)
      (((handleJobRequest i.identity i.topicFrame i.messageFrame i.msg).run
        (exec deserialize works) s).2.job c) := by
  have hi : (s₀.job c).Step s.now .lost (s.job c) := hs ▸ .ignore
  rw [run_handleJobRequest, requestEvent]
  match request i.msg with
  | .error _ => exact hi
  | .ok r    =>
    dsimp only
    rw [hc]
    match hh : s.selectHandler r.topic with
    | .error _           => exact hi
    | .ok none           =>
      dsimp only
      by_cases hn : s.handlers r.topic.key = []
      case pos =>
        simp only [hn, if_true, ne_eq, not_true_eq_false, if_false, job_trying]
        simp only [Output.corrId?, hc, Except.toOption, and_true]
        split
        · rw [Output.logged_noHandler, hs]
          exact .refuse
        · exact hi
      case neg =>
        simp only [hn, if_false, ne_eq, not_false_eq_true, if_true]
        rw [job_setPending, if_pos rfl, job_track, if_pos rfl, hs]
        exact .queue i.identity
    | .ok (some (h, s')) =>
      have ⟨_, n, e⟩ := selectHandler_eq_some hh
      dsimp only
      simp only [TrackingInfo.dispatch, Request.info]
      by_cases hw : works (.dispatch c h i.identity i.topicFrame i.messageFrame)
      case pos =>
        simp only [hw, if_true]
        rw [job_emit_self rfl, Output.logged_dispatch, job_track, if_pos rfl, job_setPending,
          if_pos rfl, e, job_setRoundRobin, hs]
        exact .start i.identity h
      case neg =>
        simp only [hw, if_false, Bool.false_eq_true]
        rw [job_untrack, if_pos rfl, job_erasePending, if_pos rfl, job_track, if_pos rfl,
          job_setPending, if_pos rfl, e, job_setRoundRobin, hs]
        exact .lose 1 _ (.refl _)

theorem noHandler_corrId? {v : Value} {i tf : Bytes} {t : Value} (hc : v.hash ≠ .ok c) :
    (Output.noHandler v i tf t).corrId? ≠ some c := by
  rw [Output.corrId?]
  cases hv : v.hash
  case error => nofun
  case ok k  => exact fun e => hc <| hv.trans <| congrArg Except.ok <| Option.some.inj e

theorem dispatch_corrId? (hc : c ≠ k) : (info.dispatch k h).corrId? ≠ some c :=
  fun e => hc (Option.some.inj e).symm

theorem handleJobRequest_job_ne {i tf mf : Bytes} {msg : Message}
    (hc : msg.correlationId.hash ≠ .ok c) :
    ((handleJobRequest i tf mf msg).run (exec deserialize works) s).2.job c = s.job c := by
  rw [run_handleJobRequest]
  match request msg with
  | .error _ => rfl
  | .ok r    =>
    dsimp only
    match hh : s.selectHandler r.topic with
    | .error _ => rfl
    | .ok none =>
      dsimp only
      split
      case isTrue => exact job_trying.trans <| if_neg fun h => noHandler_corrId? hc h.right
      case isFalse =>
        match hk : msg.correlationId.hash with
        | .error _ => rfl
        | .ok k    =>
          have hne : c ≠ k := fun e => hc <| e ▸ hk
          rw [job_setPending, if_neg hne, job_track, if_neg hne]
    | .ok (some (h, s')) =>
      have ⟨_, n, e⟩ := selectHandler_eq_some hh
      dsimp only
      match hk : msg.correlationId.hash with
      | .error _ => exact e ▸ rfl
      | .ok k    =>
        have hne : c ≠ k := fun e => hc <| e ▸ hk
        dsimp only
        split
        · rw [job_emit_ne (dispatch_corrId? hne), job_track, if_neg hne, job_setPending,
            if_neg hne, e, job_setRoundRobin]
        · rw [job_untrack, if_neg hne, job_erasePending, if_neg hne, job_track, if_neg hne,
            job_setPending, if_neg hne, e, job_setRoundRobin]

-- What a response means for its job.
def responseEvent (s : TycheEngine) (works : Output → Bool) (i : Incoming) (c : Key) :
    Job.Event Bytes :=
  match s.pendingJobs.get? c with
  | none   => .other
  | some r => if works (.response c r i.topicFrame i.messageFrame) then .other else .lost

theorem handleJobResponse_job {i : Incoming} {s₀ : TycheEngine} {os : List (ModuleId × Bytes)}
    (hc : i.msg.correlationId.hash = .ok c) (hs : s.job c = { s₀.job c with owed := os })
    (ho : os.Sublist (s₀.job c).owed) :
    (s₀.job c).Step s.now (s.responseEvent works i c)
      (((handleJobResponse i.topicFrame i.messageFrame i.msg).run (exec deserialize works) s).2.job
        c) := by
  rw [run_handleJobResponse, hc, responseEvent]
  dsimp only
  match hr : s.pendingJobs.get? c with
  | none   => exact hs ▸ .settle os ho
  | some r =>
    dsimp only
    rw [job_erasePending, if_pos rfl, job_trying, job_untrack, if_pos rfl, hs]
    by_cases hw : works (.response c r i.topicFrame i.messageFrame)
    case pos =>
      have hr : (s₀.job c).owner = some r := (congrArg Job.owner hs).symm.trans hr
      rw [if_pos hw, if_pos ⟨hw, rfl⟩, Output.logged_response]
      exact .forward r os hr ho
    case neg =>
      rw [if_neg hw, if_neg fun h => hw h.left]
      exact .lose 0 os ho

theorem handleJobResponse_job_ne {tf mf : Bytes} {msg : Message}
    (hc : msg.correlationId.hash ≠ .ok c) :
    ((handleJobResponse tf mf msg).run (exec deserialize works) s).2.job c = s.job c := by
  rw [run_handleJobResponse]
  match hk : msg.correlationId.hash with
  | .error _ => rfl
  | .ok k    =>
    have hne : c ≠ k := fun e => hc <| e ▸ hk
    dsimp only
    match s.pendingJobs.get? k with
    | none   => rfl
    | some r =>
      rw [job_erasePending, if_neg hne, job_trying,
        if_neg fun h => hne (Option.some.inj h.right).symm, job_untrack, if_neg hne]

def incomingEvent (s : TycheEngine) (works : Output → Bool) (i : Incoming) (c : Key) :
    Job.Event Bytes :=
  if i.msg.correlationId.hash = .ok c then
    match i.msg.msgType with
    | .request  => (s.arrive i).requestEvent works i c
    | .response => (s.arrive i).responseEvent works i c
    | _         => .other
  else .other

theorem receive_job {i : Incoming} : (s.job c).Step s.now (s.incomingEvent works i c)
    (((route i).run (exec deserialize works) (s.arrive i)).2.job c) := by
  rw [route, incomingEvent, ← arrive_now (i := i)]
  by_cases hc : i.msg.correlationId.hash = .ok c
  case neg =>
    have hj : (s.arrive i).job c = s.job c := job_arrive_ne hc
    rw [if_neg hc]
    split
    · rw [handleJobRequest_job_ne hc, hj]
      exact .stay _
    · rw [handleJobResponse_job_ne hc, hj]
      exact .stay _
    · exact hj ▸ .stay _
  case pos =>
    rw [if_pos hc]
    cases hm : i.msg.msgType
    case request  => exact handleJobRequest_job hc <| job_arrive_request hm hc
    case response => exact handleJobResponse_job hc (job_arrive_response hm hc) List.eraseP_sublist
    all_goals
      have hj : s.arrive i = s := by simp only [arrive, hm]
      exact (congrArg (job · c) hj) ▸ .stay _

theorem tracking?_eq_some {n : ℕ} (hn : s.jobTracking.get? c = some n) :
    s.tracking? c = some (s.infos ⟨c, n⟩) := by
  rw [tracking?, hn, Option.map_some]

theorem mem_tracked : (c, info) ∈ s.tracked ↔ s.tracking? c = some info := by
  simp only [tracked, tracking?, List.mem_map, Option.map_eq_some_iff, Dict.get?_eq_some_iff,
    Prod.exists, Prod.mk.injEq]
  constructor
  case mp  => rintro ⟨_, n, hm, rfl, hi⟩; exact ⟨n, hm, hi⟩
  case mpr => rintro ⟨n, hm, hi⟩; exact ⟨c, n, hm, rfl, hi⟩

theorem forall_tracked_iff {P : Key → TrackingInfo → Prop} :
    (∀ e ∈ s.tracked, P e.1 e.2) ↔ ∀ c, ∀ info ∈ s.tracking? c, P c info := by
  simp only [Prod.forall, mem_tracked]
  rfl

instance {P : Key → TrackingInfo → Prop} [∀ c info, Decidable (P c info)] :
    Decidable (∀ c, ∀ info ∈ s.tracking? c, P c info) :=
  decidable_of_iff _ forall_tracked_iff

theorem tracked_keys : s.tracked.map Prod.fst = s.jobTracking.keys := by
  rw [tracked, List.map_map]
  rfl

theorem job_reassigned (hs : s.selectHandler topic = .ok (some (h, s'))) :
    ((s'.emit <| (s.infos ref).dispatch ref.corrId h).assign ref h).job c =
      if c = ref.corrId then
        { s.job c with
          entry := some { (s.infos ref).entry with handler := some h }
          owed  := (s.job c).owed ++ [(h, (s.infos ref).requesterId)] }
      else s.job c := by
  have ⟨_, n, e⟩ := selectHandler_eq_some hs
  rw [job_assign, e]
  by_cases hc : c = ref.corrId
  case pos =>
    rw [if_pos hc, if_pos hc, hc, job_emit_self rfl]
    rfl
  case neg =>
    rw [if_neg hc, if_neg hc, job_emit_ne (dispatch_corrId? hc)]
    rfl

theorem job_persisting : (s.persisting deserialize works ref).job c = s.job c := by
  rw [persisting]
  split
  case h_1 => rfl
  case h_2 =>
    rw [job_trying, Output.logged_deadLetter]
    exact ite_self _

theorem job_fail {r : Reason} : (s.fail deserialize works ref r).job c =
    if c = ref.corrId then
      { s.job c with
        owner  := none
        failed := (s.job c).failed + if works (.timedOut c r (s.infos ref).requesterId
          (s.infos ref).topicFrame (s.infos ref).topic.value) then 1 else 0 }
    else s.job c := by
  rw [fail, job_trying, job_erasePending, apply_ite (job · c), job_persisting, ite_self]
  by_cases hc : c = ref.corrId
  case pos =>
    subst hc
    simp only [Output.corrId?, and_true, if_true, Output.logged_timedOut]
    split <;> rfl
  case neg =>
    rw [if_neg hc, if_neg hc, if_neg fun h => hc (Option.some.inj h.right).symm]

-- What the timeout of a job means for it.
def timeoutEvent (s : TycheEngine) (works : Output → Bool) (c : Key) (r : Reason) :
    Job.Event Bytes :=
  match s.tracking? c with
  | none      => .other
  | some info =>
    match r, info.handlerId with
    | .runTimeout, some h =>
      match ((s.untrack c).mark (.ofModule h) info.topic.key).selectHandler info.topic with
      | .error _           => .dropped
      | .ok none           => .putBack
      | .ok (some (h', _)) => if works (info.dispatch c h') then .other else .putBack
    | r, _                =>
      if works (.timedOut c r info.requesterId info.topicFrame info.topic.value) then .other
      else .lost

theorem fail_job {r : Reason} (ref : Ref) (hi : s.tracking? ref.corrId = some (s.infos ref)) :
    (s.job ref.corrId).Step s.now
      (if works (.timedOut ref.corrId r (s.infos ref).requesterId (s.infos ref).topicFrame
        (s.infos ref).topic.value) then .other else .lost)
      (((s.untrack ref.corrId).fail deserialize works ref r).job ref.corrId) := by
  have hu : (s.untrack ref.corrId).infos = s.infos := rfl
  rw [job_fail, if_pos rfl, job_untrack, if_pos rfl, hu]
  split
  · exact .fail _ <| congrArg (Option.map TrackingInfo.entry) hi
  · exact .lose 0 _ (.refl _)

theorem handleJobTimeout_job {r : Reason} :
    (s.job c).Step s.now (s.timeoutEvent works c r)
      (((handleJobTimeout c r).run (exec deserialize works) s).2.job c) := by
  rw [run_handleJobTimeout, timeoutEvent]
  match hn : s.jobTracking.get? c with
  | none   =>
    rw [tracking?, hn]
    exact .stay _
  | some n =>
    have hi := tracking?_eq_some hn
    have he : (s.job c).entry = some (s.infos ⟨c, n⟩).entry :=
      congrArg (Option.map TrackingInfo.entry) hi
    have hu : (s.untrack c).job c = { s.job c with entry := none } := job_untrack.trans <| if_pos rfl
    rw [hi]
    dsimp only
    match r, (s.infos ⟨c, n⟩).handlerId with
    | .waitTimeout, some _ => exact fail_job ⟨c, n⟩ hi
    | .waitTimeout, none   => exact fail_job ⟨c, n⟩ hi
    | .runTimeout,  none   => exact fail_job ⟨c, n⟩ hi
    | .runTimeout,  some h =>
      dsimp only
      generalize hs : (s.untrack c).mark (.ofModule h) (s.infos ⟨c, n⟩).topic.key = s₁
      have hj : s₁.job c = { s.job c with entry := none } := hs ▸ hu
      have hi : s₁.infos = s.infos := hs ▸ rfl
      rw [run_retryJob, hi]
      match ht : s₁.selectHandler (s.infos ⟨c, n⟩).topic with
      | .error _            =>
        dsimp only
        rw [hj]
        exact .drop
      | .ok none            =>
        dsimp only
        rw [job_release, if_pos rfl, hj, hi]
        exact .release _ he
      | .ok (some (h', s₂)) =>
        dsimp only
        by_cases hw : works ((s.infos ⟨c, n⟩).dispatch c h')
        case pos =>
          rw [if_pos hw, if_pos hw, ← hi, job_reassigned ht, if_pos rfl, hj, hi]
          exact .assign _ h' he
        case neg =>
          have ⟨_, m, e⟩ := selectHandler_eq_some ht
          have hi₂ : s₂.infos = s.infos := e ▸ hi
          have hj₂ : s₂.job c = { s.job c with entry := none } := e ▸ hj
          rw [if_neg hw, if_neg hw, job_release, if_pos rfl, hj₂, hi₂]
          exact .release _ he

-- Nothing that concerns the job differs.
structure Untouched (c : Key) (s s' : TycheEngine) : Prop where
  job    : s'.job c = s.job c
  number : s'.jobTracking.get? c = s.jobTracking.get? c
  infos  : ∀ n, s'.infos ⟨c, n⟩ = s.infos ⟨c, n⟩

namespace Untouched

theorem refl : Untouched c s s :=
  ⟨rfl, rfl, fun _ => rfl⟩

theorem trans {s₁ s₂ s₃ : TycheEngine} (h₁ : Untouched c s₁ s₂) (h₂ : Untouched c s₂ s₃) :
    Untouched c s₁ s₃ :=
  ⟨h₂.job.trans h₁.job, h₂.number.trans h₁.number, fun n => (h₂.infos n).trans (h₁.infos n)⟩

theorem untrack (hc : c ≠ k) : Untouched c s (s.untrack k) where
  job     := job_untrack.trans <| if_neg hc
  number  := Dict.get?_erase_ne hc
  infos _ := rfl

theorem retrack (hc : c ≠ ref.corrId) : Untouched c s ((s.setInfo ref info).retrack ref) where
  job     := job_retrack.trans <| if_neg hc
  number  := Dict.get?_set_ne hc
  infos _ := if_neg fun e => hc <| congrArg Ref.corrId e

theorem retrack_self (hc : c ≠ ref.corrId) : Untouched c s (s.retrack ref) := by
  have h : Untouched c s ((s.setInfo ref (s.infos ref)).retrack ref) := retrack hc
  rwa [setInfo_self] at h

theorem tracking? (u : Untouched c s s') : s'.tracking? c = s.tracking? c := by
  simp only [TycheEngine.tracking?, u.number, u.infos]

end Untouched

theorem retryJob_untouched (hc : c ≠ ref.corrId) :
    Untouched c s ((retryJob ref).run (exec deserialize works) s).2 := by
  rw [run_retryJob]
  match hs : s.selectHandler (s.infos ref).topic with
  | .error _           => exact .refl
  | .ok none           => exact .refl
  | .ok (some (h, s')) =>
    have ⟨_, n, e⟩ := selectHandler_eq_some hs
    have he : Untouched c s s' := e ▸ ⟨rfl, rfl, fun _ => rfl⟩
    dsimp only
    split
    · have hj : (s'.emit <| (s.infos ref).dispatch ref.corrId h).job c = s'.job c :=
        job_emit_ne <| dispatch_corrId? hc
      exact (he.trans ⟨hj, rfl, fun _ => rfl⟩).trans <| .retrack hc
    · exact he

theorem trying_untouched (hc : o.corrId? ≠ some c) : Untouched c s (s.trying works o) := by
  rw [trying]
  split
  · exact ⟨job_emit_ne hc, rfl, fun _ => rfl⟩
  · exact .refl

theorem fail_untouched {r : Reason} (hc : c ≠ ref.corrId) :
    Untouched c s (s.fail deserialize works ref r) := by
  have hn : some ref.corrId ≠ some c := fun e => hc (Option.some.inj e).symm
  let s' := if r = .waitTimeout then s.persisting deserialize works ref else s
  have hp : Untouched c s s' := by
    rw [show s' = ite _ _ _ from rfl]
    split
    case isTrue =>
      rw [persisting]
      split
      · exact .refl
      · exact trying_untouched hn
    case isFalse => exact .refl
  have he : Untouched c s' (s'.erasePending ref.corrId) :=
    ⟨job_erasePending.trans <| if_neg hc, rfl, fun _ => rfl⟩
  exact (hp.trans he).trans <| trying_untouched hn

theorem handleJobTimeout_untouched {r : Reason} (hc : c ≠ k) :
    Untouched c s ((handleJobTimeout k r).run (exec deserialize works) s).2 := by
  rw [run_handleJobTimeout]
  match hn : s.jobTracking.get? k with
  | none   => exact .refl
  | some n =>
    have hu : Untouched c s (s.untrack k) := .untrack hc
    have hf {r : Reason} : Untouched c s ((s.untrack k).fail deserialize works ⟨k, n⟩ r) :=
      hu.trans <| fail_untouched hc
    dsimp only
    match r, (s.infos ⟨k, n⟩).handlerId with
    | .waitTimeout, some _ => exact hf
    | .waitTimeout, none   => exact hf
    | .runTimeout,  none   => exact hf
    | .runTimeout,  some h =>
      dsimp only
      generalize hs : (s.untrack k).mark (.ofModule h) (s.infos ⟨k, n⟩).topic.key = s₁
      have hm : Untouched c s s₁ := hs ▸ hu.trans ⟨rfl, rfl, fun _ => rfl⟩
      have hr : Untouched c s ((retryJob ⟨k, n⟩).run (exec deserialize works) s₁).2 :=
        hm.trans <| retryJob_untouched hc
      generalize (retryJob ⟨k, n⟩).run (exec deserialize works) s₁ = x at hr ⊢
      match x, hr with
      | (.error _, _), hr  => exact hr
      | (.ok true, _), hr  => exact hr
      | (.ok false, _), hr => exact hr.trans <| .retrack hc

-- What recovery does to a waiting job. The last case is an error in the retry.
inductive Recovered (info : TrackingInfo) (j : Job ℚ Bytes ModuleId) :
    Except Error Unit → Job ℚ Bytes ModuleId → Prop
  | stay : Recovered info j (.ok ()) j
  | assign (h : ModuleId) : Recovered info j (.ok ())
    { j with
      entry := some { info.entry with handler := some h }
      owed  := j.owed ++ [(h, info.requesterId)] }
  | drop (e : Error) : Recovered info j (.error e) { j with entry := none }

theorem recoverJob_job (hi : s.tracking? ref.corrId = some (s.infos ref)) :
    Recovered (s.infos ref) (s.job ref.corrId) ((recoverJob ref).run (exec deserialize works) s).1
      (((recoverJob ref).run (exec deserialize works) s).2.job ref.corrId) := by
  have he : (s.job ref.corrId).entry = some (s.infos ref).entry :=
    congrArg (Option.map TrackingInfo.entry) hi
  have hu : (s.untrack ref.corrId).job ref.corrId = { s.job ref.corrId with entry := none } :=
    job_untrack.trans <| if_pos rfl
  have hs {s' : TycheEngine} (hj : s'.job ref.corrId = { s.job ref.corrId with entry := none })
      (hi : s'.infos = s.infos) : (s'.retrack ref).job ref.corrId = s.job ref.corrId := by
    rw [job_retrack_self, if_pos rfl, hj, hi, ← he]
  rw [run_recoverJob, run_retryJob]
  have hr : (s.untrack ref.corrId).infos = s.infos := rfl
  rw [hr]
  match ht : (s.untrack ref.corrId).selectHandler (s.infos ref).topic with
  | .error e           =>
    dsimp only
    rw [hu]
    exact .drop e
  | .ok none           =>
    dsimp only
    rw [hs hu rfl]
    exact .stay
  | .ok (some (h, s')) =>
    have ⟨_, _, e⟩ := selectHandler_eq_some ht
    dsimp only
    by_cases hw : works ((s.infos ref).dispatch ref.corrId h)
    case pos =>
      rw [if_pos hw]
      dsimp only
      rw [← hr, job_reassigned ht, if_pos rfl, hu]
      exact .assign h
    case neg =>
      rw [if_neg hw]
      dsimp only
      rw [hs (e ▸ hu) (e ▸ rfl)]
      exact .stay

theorem recoverJob_untouched (hc : c ≠ ref.corrId) :
    Untouched c s ((recoverJob ref).run (exec deserialize works) s).2 := by
  have hu : Untouched c s (s.untrack ref.corrId) := .untrack hc
  have hr : Untouched c s ((retryJob ref).run (exec deserialize works) (s.untrack ref.corrId)).2 :=
    hu.trans <| retryJob_untouched hc
  rw [run_recoverJob]
  generalize (retryJob ref).run (exec deserialize works) (s.untrack ref.corrId) = x at hr ⊢
  match x, hr with
  | (.error _, _), hr  => exact hr
  | (.ok true, _), hr  => exact hr
  | (.ok false, _), hr => exact hr.trans <| .retrack_self hc

-- The jobs that are recovered one after the other are different ones.
theorem recoverJobs_job (deserialize : Bytes → Option Message) (works : Output → Bool) (c : Key)
    {refs : List Ref} (hn : (refs.map Ref.corrId).Nodup)
    (hr : ∀ ref ∈ refs, s.tracking? ref.corrId = some (s.infos ref)) :
    ((each recoverJob refs).run (exec deserialize works) s).2.job c = s.job c ∨
      ∃ ref ∈ refs, ref.corrId = c ∧ ∃ r, Recovered (s.infos ref) (s.job c) r
        (((each recoverJob refs).run (exec deserialize works) s).2.job c) := by
  induction refs generalizing s
  case nil => exact .inl rfl
  case cons ref refs hi =>
    rw [List.map_cons, List.nodup_cons] at hn
    have hs : Recovered (s.infos ref) (s.job ref.corrId)
      ((recoverJob ref).run (exec deserialize works) s).1
      (((recoverJob ref).run (exec deserialize works) s).2.job ref.corrId) :=
        recoverJob_job <| hr ref List.mem_cons_self
    have hu : ∀ c ≠ ref.corrId, Untouched c s
      ((recoverJob ref).run (exec deserialize works) s).2 := fun _ => recoverJob_untouched
    rw [run_each_cons]
    generalize (recoverJob ref).run (exec deserialize works) s = x at hs hu ⊢
    match x, hs, hu with
    | (.error e, s₁), hs, hu =>
      by_cases hc : c = ref.corrId
      case pos => exact .inr ⟨ref, List.mem_cons_self, hc.symm, _, hc ▸ hs⟩
      case neg => exact .inl (hu c hc).job
    | (.ok (), s₁), hs, hu   =>
      have hne : ∀ i ∈ refs, i.corrId ≠ ref.corrId :=
        fun i hm e => hn.left <| e ▸ List.mem_map_of_mem hm
      have hi := hi hn.right (s := s₁) fun i hm => by
        rw [(hu _ <| hne i hm).tracking?, hr i <| List.mem_cons_of_mem _ hm]
        exact congrArg some ((hu _ <| hne i hm).infos i.number).symm
      by_cases hc : c = ref.corrId
      case pos =>
        rcases hi with hi | ⟨i, hm, rfl, _⟩
        case inl => exact .inr ⟨ref, List.mem_cons_self, hc.symm, _, by rw [hi, hc]; exact hs⟩
        case inr => exact absurd hc <| hne i hm
      case neg =>
        rcases hi with hi | ⟨i, hm, rfl, r, hi⟩
        case inl => exact .inl <| hi.trans (hu c hc).job
        case inr =>
          refine .inr ⟨i, List.mem_cons_of_mem _ hm, rfl, r, ?_⟩
          have hf : s₁.infos i = s.infos i := (hu _ hc).infos i.number
          rwa [hf, (hu _ hc).job] at hi

theorem mem_waiting {ts : List Key} : ref ∈ s.waiting ts ↔
    s.jobTracking.get? ref.corrId = some ref.number ∧ (s.infos ref).handlerId = none ∧
      (s.infos ref).topic.key ∈ ts := by
  simp only [waiting, List.mem_filter, List.mem_map, Prod.exists, decide_eq_true_eq,
    Dict.get?_eq_some_iff]
  refine and_congr_left' ⟨?_, fun hm => ⟨_, _, hm, rfl⟩⟩
  rintro ⟨_, _, hm, rfl⟩
  exact hm

theorem waiting_nodup {ts : List Key} : ((s.waiting ts).map Ref.corrId).Nodup := by
  refine s.jobTracking.nodup.sublist ?_
  have h : ((s.jobTracking.entries.map fun e => Ref.mk e.1 e.2).map Ref.corrId) =
      s.jobTracking.entries.map Prod.fst := by
    rw [List.map_map]
    rfl
  exact h ▸ List.filter_sublist.map _

-- A heartbeat only ever drops a job by an error.
def heartbeatEvent (s s' : TycheEngine) (c : Key) : Job.Event Bytes :=
  if (s.job c).entry.isSome ∧ (s'.job c).entry = none then .dropped else .other

theorem Recovered.step (he : (s.job c).entry = some info.entry) {r : Except Error Unit}
    (hr : Recovered info (s.job c) r (s'.job c)) :
    (s.job c).Step s.now (s.heartbeatEvent s' c) (s'.job c) := by
  rw [heartbeatEvent]
  generalize s'.job c = j at hr ⊢
  cases hr
  case stay     => exact .stay _
  case assign h => rw [if_neg fun h => nomatch h.right]; exact .assign _ h he
  case drop     => rw [if_pos ⟨he ▸ rfl, rfl⟩]; exact .drop

theorem recoverHandler_job : (s.job c).Step s.now
    (s.heartbeatEvent ((recoverHandler k).run (exec deserialize works) s).2 c)
      (((recoverHandler k).run (exec deserialize works) s).2.job c) := by
  rw [run_recoverHandler]
  have ht : ∀ ref ∈ s.waiting (s.unavailableHandlers.getD k []),
      s.tracking? ref.corrId = some (s.infos ref) := fun _ hm =>
    tracking?_eq_some (mem_waiting.mp hm).left
  rcases recoverJobs_job deserialize works c (s := s.eraseMarks k) waiting_nodup ht with
    hj | ⟨ref, hm, rfl, r, hr⟩
  case inl =>
    rw [hj]
    exact .stay _
  case inr => exact Recovered.step (congrArg (Option.map TrackingInfo.entry) <| ht ref hm) hr

theorem handleHeartbeat_job {msg : Message} : (s.job c).Step s.now
    (s.heartbeatEvent ((handleHeartbeat msg).run (exec deserialize works) s).2 c)
      (((handleHeartbeat msg).run (exec deserialize works) s).2.job c) := by
  rw [run_handleHeartbeat]
  match msg.sender.hash, reported msg.payload with
  | .error _, _             => exact .stay _
  | .ok _, .error _         => exact .stay _
  | .ok m, .ok none         => exact recoverHandler_job
  | .ok m, .ok (some v)     => exact recoverHandler_job (s := s.setReport m v)

-- The unregistration of the module leaves the job without a handler.
def Orphans (s : TycheEngine) (c : Key) (m : ModuleId) : Prop :=
  m ∈ s.modules ∧ ∃ info ∈ s.tracking? c, info.handlerId = some m

instance : Decidable (s.Orphans c m) :=
  inferInstanceAs <| Decidable (_ ∧ ∃ _ ∈ _, _)

def orphaned (m : ModuleId) (info : TrackingInfo) : TrackingInfo :=
  if info.handlerId = some m then { info with handlerId := none, dispatchTime := none } else info

theorem unregisterModule_tracking? (hm : m ∈ s.modules) :
    (s.unregisterModule m).tracking? c = (s.tracking? c).map (orphaned m) := by
  rw [unregisterModule, if_pos hm]
  simp only [tracking?]
  cases hn : s.jobTracking.get? c
  case none   => rfl
  case some n => simp only [Option.map_some, orphan, orphaned, hn, true_and]

theorem unregisterModule_job : (s.job c).Step s.now (if s.Orphans c m then .putBack else .other)
    ((s.unregisterModule m).job c) := by
  by_cases hm : m ∈ s.modules
  case neg =>
    rw [unregisterModule, if_neg hm]
    exact .stay _
  case pos =>
    have hj : (s.unregisterModule m).job c = { s.job c with
        entry := ((s.tracking? c).map (orphaned m)).map TrackingInfo.entry } := by
      rw [job, unregisterModule_tracking? hm, unregisterModule, if_pos hm]
      rfl
    rw [hj]
    cases hi : s.tracking? c
    case none =>
      have he : (s.job c).entry = none := congrArg (Option.map TrackingInfo.entry) hi
      rw [Option.map_none, Option.map_none, ← he]
      exact .stay _
    case some info =>
      have he : (s.job c).entry = some info.entry := congrArg (Option.map TrackingInfo.entry) hi
      have ho : s.Orphans c m ↔ info.handlerId = some m := by simp [Orphans, hm, hi]
      rw [Option.map_some, Option.map_some, orphaned]
      by_cases hh : info.handlerId = some m
      case pos =>
        rw [if_pos hh, if_pos <| ho.mpr hh]
        exact .release info.entry he
      case neg =>
        rw [if_neg hh, ← he]
        exact .stay _

-- Nothing that concerns a job differs.
theorem addInterfaces_job {is : List Interface} : (addInterfaces m is s).2.job c = s.job c := by
  induction is generalizing s
  case nil => rfl
  case cons i is hi =>
    rw [addInterfaces]
    cases i.eventType.hash
    case error => rfl
    case ok    => exact hi.trans <| by split <;> rfl

def callEvent (deserialize : Bytes → Option Message) (works : Output → Bool) (s : TycheEngine)
    (call : Call) (c : Key) : Job.Event Bytes :=
  match call with
  | .receive i     => s.incomingEvent works i c
  | .timeout k r   => if c = k then s.timeoutEvent works k r else .other
  | .heartbeat msg => s.heartbeatEvent (s.perform deserialize works (.heartbeat msg)).2 c
  | .unregister m  => if s.Orphans c m then .putBack else .other
  | _              => .other

theorem callEvent_eq_request {call : Call} {r : Bytes}
    (h : s.callEvent deserialize works call c = .request r) :
    ∃ i, call = .receive i ∧ i.msg.msgType = .request ∧ i.msg.correlationId.hash = .ok c := by
  cases call <;> simp only [callEvent, reduceCtorEq] at h
  case receive i =>
    rw [incomingEvent] at h
    split at h
    case isTrue hc =>
      split at h
      case h_1 hm => exact ⟨i, rfl, hm, hc⟩
      case h_2    =>
        rw [responseEvent] at h
        split at h <;> (try split at h) <;> cases h
      case h_3    => cases h
    case isFalse => cases h
  case timeout =>
    split at h
    case isTrue =>
      rw [timeoutEvent] at h
      split at h <;> (try split at h) <;> (try split at h) <;> (try split at h) <;> cases h
    case isFalse => cases h
  case heartbeat  => rw [heartbeatEvent] at h; split at h <;> cases h
  case unregister => split at h <;> cases h

theorem perform_job {call : Call} : (s.job c).Step s.now (s.callEvent deserialize works call c)
    ((s.perform deserialize works call).2.job c) := by
  cases call
  case tick       => exact .stay _
  case receive    => exact receive_job
  case heartbeat  => exact handleHeartbeat_job
  case unregister => exact unregisterModule_job
  case register i =>
    have hj : (s.registerModule i).2.job c = s.job c := addInterfaces_job
    exact hj ▸ .stay _
  case timeout k r =>
    rw [callEvent]
    by_cases hc : c = k
    case pos =>
      rw [if_pos hc]
      exact hc ▸ handleJobTimeout_job
    case neg =>
      have hj : (s.perform deserialize works (.timeout k r)).2.job c = s.job c :=
        (handleJobTimeout_untouched hc).job
      exact hj ▸ .stay _

theorem exec_now {β : Type} {o : Op β} : (exec deserialize works o s).2.now = s.now := by
  cases o <;> simp only [exec] <;> (try split) <;> (try split) <;> rfl

theorem run_now {α : Type} {p : Py α} : (p.run (exec deserialize works) s).2.now = s.now :=
  all_true.run (I := fun s' : TycheEngine => s'.now = s.now) (fun _ _ _ h => exec_now.trans h) rfl

theorem addInterfaces_now {is : List Interface} : (addInterfaces m is s).2.now = s.now := by
  induction is generalizing s
  case nil => rfl
  case cons i is hi =>
    rw [addInterfaces]
    cases i.eventType.hash
    case error => rfl
    case ok    => exact hi.trans <| by split <;> rfl

theorem perform_now {call : Call} :
    (s.perform deserialize works call).2.now = s.now + call.duration := by
  cases call
  case tick       => rfl
  case receive i  => exact (run_now.trans arrive_now).trans (add_zero _).symm
  case unregister =>
    refine Eq.trans ?_ (add_zero _).symm
    rw [perform, unregisterModule]
    split <;> rfl
  case register   => exact addInterfaces_now.trans (add_zero _).symm
  all_goals exact run_now.trans (add_zero _).symm

end TycheEngine

end Python
