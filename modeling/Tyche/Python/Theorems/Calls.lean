import Tyche.Python.Workers

namespace Python

open Proc

-- What a reported availability says about a topic.
def Value.allows (v : Value) (topic : Hashed) : Except Error Bool :=
  match v.contains topic with
  | .ok true  => (v.getItem topic).map truthy
  | .ok false => .ok true
  | .error e  => .error e

namespace TycheEngine

variable {deserialize : Bytes → Option Message} {works : Output → Bool} {s s' : TycheEngine}
variable {m h : ModuleId} {hs : List ModuleId} {topic : Hashed} {t c : Key} {ref : Ref} {o : Output}

def handlers (s : TycheEngine) (topic : Key) : List ModuleId :=
  s.jobHandlers.getD topic []

def marks (s : TycheEngine) (m : ModuleId) : List Key :=
  s.unavailableHandlers.getD (.ofModule m) []

def report (s : TycheEngine) (m : ModuleId) : Value :=
  s.moduleAvailability.getD (.ofModule m) (.dict [])

def isHandlerAvailable (s : TycheEngine) (m : ModuleId) (topic : Hashed) : Except Error Bool :=
  if topic.key ∈ s.marks m then .ok false else (s.report m).allows topic

def available (s : TycheEngine) (topic : Hashed) : Except Error (List ModuleId) :=
  chosen (s.isHandlerAvailable · topic) (s.handlers topic.key)

theorem run_isMarkedFor : (isMarkedFor m topic).run (exec deserialize works) s =
    (.ok (topic.key ∈ s.marks m), s) := by
  rw [isMarkedFor, run_bind, run_op, exec, marks, Dict.getD]
  by_cases hm : .ofModule m ∈ s.unavailableHandlers
  case neg => simp [hm, Dict.get?_eq_none_iff.mpr hm]
  case pos =>
    obtain ⟨l, hl⟩ := Dict.mem_iff.mp hm
    simp only [hm, decide_true, if_true, run_bind, run_op, exec, hl, Option.getD_some, run_pure]

theorem run_isReportedAvailable :
    (isReportedAvailable m topic).run (exec deserialize works) s =
      ((s.report m).allows topic, s) := by
  rw [isReportedAvailable, run_bind, run_op, exec]
  simp only [run_bind, run_lift, Value.allows, report]
  cases (s.moduleAvailability.getD (.ofModule m) (.dict [])).contains topic
  case error => rfl
  case ok b  =>
    cases b
    case false => rfl
    case true  =>
      simp only [if_true, run_bind, run_lift]
      cases (s.moduleAvailability.getD (.ofModule m) (.dict [])).getItem topic <;> rfl

theorem run_isHandlerAvailable :
    (Python.isHandlerAvailable m topic).run (exec deserialize works) s =
      (s.isHandlerAvailable m topic, s) := by
  rw [Python.isHandlerAvailable, run_bind, run_isMarkedFor, isHandlerAvailable]
  by_cases hm : topic.key ∈ s.marks m
  case pos => simp [hm]
  case neg => simp [hm, run_isReportedAvailable]

theorem run_select_available :
    (select (Python.isHandlerAvailable · topic) (s.handlers topic.key)).run
      (exec deserialize works) s = (s.available topic, s) :=
  run_select fun _ => run_isHandlerAvailable

-- The handler that is next in turn among the available handlers `h :: hs`.
def robin (s : TycheEngine) (topic : Key) (h : ModuleId) (hs : List ModuleId) :
    Fin (h :: hs).length :=
  turn hs (s.jobRoundRobin.getD topic 0)

theorem run_nextHandler : (nextHandler t h hs).run (exec deserialize works) s =
    (.ok ((h :: hs).get (s.robin t h hs)), s.setRoundRobin t (s.robin t h hs + 1)) := by
  simp only [nextHandler, run_bind, run_op, exec]
  rfl

theorem run_trySend : (trySend o).run (exec deserialize works) s =
    (.ok (works o), if works o then s.emit o else s) := by
  simp only [trySend, run_catching, run_bind, run_op, exec]
  cases works o <;> rfl

-- The round robin over the handlers that are available for a topic, and the engine with its index
-- moved on.
def selectHandler (s : TycheEngine) (topic : Hashed) :
    Except Error (Option (ModuleId × TycheEngine)) :=
  match s.available topic with
  | .error e     => .error e
  | .ok []       => .ok none
  | .ok (h :: hs) =>
    .ok <| some ((h :: hs).get (s.robin topic.key h hs),
      s.setRoundRobin topic.key (s.robin topic.key h hs + 1))

def assign (s : TycheEngine) (ref : Ref) (h : ModuleId) : TycheEngine :=
  (s.setInfo ref { s.infos ref with handlerId := some h, dispatchTime := some s.now }).retrack ref

def release (s : TycheEngine) (ref : Ref) : TycheEngine :=
  (s.setInfo ref { s.infos ref with handlerId := none, dispatchTime := none }).retrack ref

def mark (s : TycheEngine) (h t : Key) : TycheEngine :=
  s.setMarks h <| (s.unavailableHandlers.getD h []).insert t

def trying (s : TycheEngine) (works : Output → Bool) (o : Output) : TycheEngine :=
  if works o then s.emit o else s

theorem setInfo_setInfo {i j : TrackingInfo} : (s.setInfo ref i).setInfo ref j = s.setInfo ref j := by
  simp only [setInfo, mk.injEq, and_self, and_true, true_and]
  funext r
  split <;> rfl

theorem setInfo_infos {i : TrackingInfo} : (s.setInfo ref i).infos ref = i :=
  if_pos rfl

theorem run_retryJob : (retryJob ref).run (exec deserialize works) s =
    match s.selectHandler (s.infos ref).topic with
    | .error e           => (.error e, s)
    | .ok none           => (.ok false, s)
    | .ok (some (h, s')) =>
      if works ((s.infos ref).dispatch ref.corrId h) then
        (.ok true, (s'.emit <| (s.infos ref).dispatch ref.corrId h).assign ref h)
      else (.ok false, s') := by
  rw [retryJob, run_bind, run_op, exec]
  simp only [run_bind, run_op, exec]
  rw [← handlers, run_select_available, selectHandler]
  cases s.available (s.infos ref).topic
  case error => rfl
  case ok l  =>
    cases l
    case nil       => rfl
    case cons h hs =>
      simp only [run_bind, run_nextHandler, run_trySend]
      generalize (h :: hs).get (s.robin (s.infos ref).topic.key h hs) = h'
      by_cases hw : works ((s.infos ref).dispatch ref.corrId h')
      case neg => simp only [hw, Bool.false_eq_true, if_false, run_pure]
      case pos =>
        simp only [hw, if_true, run_bind, run_op, exec, setInfo_infos, setInfo_setInfo, run_pure]
        rfl

-- What a request says about its job. A message of the wrong form is an error.
structure Request where
  waitTimeout : Value
  runTimeout  : Value
  topic       : Hashed

def request (msg : Message) : Except Error Request :=
  match Python.timeout msg.payload "wait_timeout" 30, Python.timeout msg.payload "run_timeout" 60,
    msg.event.hashed with
  | .ok wait, .ok run, .ok topic => .ok ⟨wait, run, topic⟩
  | .error e, _, _ | _, .error e, _ | _, _, .error e => .error e

def Request.info (r : Request) (now : ℚ) (identity topicFrame messageFrame : Bytes) :
    TrackingInfo where
  requesterId   := identity
  handlerId     := none
  dispatchTime  := none
  waitStartTime := now
  waitTimeout   := r.waitTimeout
  runTimeout    := r.runTimeout
  topic         := r.topic
  topicFrame    := topicFrame
  messageFrame  := messageFrame

theorem run_handleJobRequest {identity tf mf : Bytes} {msg : Message} :
    (handleJobRequest identity tf mf msg).run (exec deserialize works) s =
      match request msg with
      | .error e => (.error e, s)
      | .ok r    =>
        match s.selectHandler r.topic with
        | .error e           => (.error e, s)
        | .ok none           =>
          if s.handlers r.topic.key = [] then
            (.ok (), s.trying works <| .noHandler msg.correlationId identity tf msg.event)
          else
            match msg.correlationId.hash with
            | .error e => (.error e, s)
            | .ok c    => (.ok (), (s.track c <| r.info s.now identity tf mf).setPending c identity)
        | .ok (some (h, s')) =>
          match msg.correlationId.hash with
          | .error e => (.error e, s')
          | .ok c    =>
            let info := { r.info s.now identity tf mf with
              handlerId := some h, dispatchTime := some s.now }
            let s'   := (s'.setPending c identity).track c info
            if works (info.dispatch c h) then (.ok (), s'.emit <| info.dispatch c h)
            else (.ok (), (s'.erasePending c).untrack c) := by
  rw [handleJobRequest, run_bind, run_op, exec]
  simp only [run_bind, run_lift, request]
  cases Python.timeout msg.payload "wait_timeout" 30
  case error => rfl
  case ok wait =>
    cases Python.timeout msg.payload "run_timeout" 60
    case error => rfl
    case ok run =>
      cases msg.event.hashed
      case error => rfl
      case ok topic =>
        simp only [run_op, exec]
        rw [← handlers, run_select_available, selectHandler]
        cases s.available topic
        case error => rfl
        case ok l =>
          cases l
          case nil =>
            by_cases hn : s.handlers topic.key = []
            case pos =>
              simp only [hn, if_true, run_bind, run_trySend]
              rfl
            case neg =>
              simp only [hn, if_false, run_bind, run_lift]
              cases msg.correlationId.hash <;> rfl
          case cons h hs =>
            simp only [run_bind, run_nextHandler, run_lift]
            generalize (h :: hs).get (s.robin topic.key h hs) = h'
            cases msg.correlationId.hash
            case error => rfl
            case ok c  =>
              simp only [run_op, exec, run_trySend, Request.info]
              split
              case isTrue hw  => exact (if_pos hw).symm
              case isFalse hw => exact (if_neg hw).symm

theorem run_handleJobResponse {tf mf : Bytes} {msg : Message} :
    (handleJobResponse tf mf msg).run (exec deserialize works) s =
      match msg.correlationId.hash with
      | .error e => (.error e, s)
      | .ok c    =>
        match s.pendingJobs.get? c with
        | none   => (.ok (), s)
        | some r => (.ok (), ((s.untrack c).trying works <| .response c r tf mf).erasePending c) := by
  rw [handleJobResponse, run_bind, run_lift]
  match msg.correlationId.hash with
  | .error _ => rfl
  | .ok c    =>
    simp only [run_bind, run_op, exec]
    cases hp : s.pendingJobs.get? c
    case none   => rfl
    case some r =>
      have hm : c ∈ (if works (.response c r tf mf) then
          (s.untrack c).emit (.response c r tf mf) else s.untrack c).pendingJobs := by
        split <;> exact Dict.mem_of_get? hp
      simp only [run_bind, run_op, exec, run_trySend, hm, if_true]
      rfl

theorem setMarks_setMarks {h : Key} {l l' : List Key} :
    (s.setMarks h l).setMarks h l' = s.setMarks h l' := by
  simp only [setMarks, Dict.set_set]

theorem run_markUnavailable {h : Key} :
    (markUnavailable h t).run (exec deserialize works) s = (.ok (), s.mark h t) := by
  rw [markUnavailable, run_bind, run_op, exec, mark, Dict.getD]
  by_cases hm : h ∈ s.unavailableHandlers
  case pos =>
    obtain ⟨l, hl⟩ := Dict.mem_iff.mp hm
    simp only [hm, decide_true, if_true, run_op, exec, hl, Option.getD_some]
  case neg =>
    have hl : (s.setMarks h []).unavailableHandlers.get? h = some [] := Dict.get?_set_self
    simp only [hm, decide_false, Bool.false_eq_true, if_false, run_bind, run_op, exec, hl,
      setMarks_setMarks, Dict.get?_eq_none_iff.mpr hm, Option.getD_none]

def persisting (s : TycheEngine) (deserialize : Bytes → Option Message) (works : Output → Bool)
    (ref : Ref) : TycheEngine :=
  match deserialize (s.infos ref).messageFrame with
  | none     => s
  | some msg => s.trying works <| .deadLetter ref.corrId (s.infos ref).topic.value msg

def fail (s : TycheEngine) (deserialize : Bytes → Option Message) (works : Output → Bool)
    (ref : Ref) (reason : Reason) : TycheEngine :=
  let info := s.infos ref
  let s    := if reason = .waitTimeout then s.persisting deserialize works ref else s
  (s.erasePending ref.corrId).trying works <|
    .timedOut ref.corrId reason info.requesterId info.topicFrame info.topic.value

theorem run_deadLetter : (deadLetter ref (s.infos ref)).run (exec deserialize works) s =
    (.ok (), s.persisting deserialize works ref) := by
  rw [deadLetter, run_catching, run_op, persisting]
  simp only [exec, trying]
  cases deserialize (s.infos ref).messageFrame
  case none   => rfl
  case some m =>
    dsimp only
    cases works (.deadLetter ref.corrId (s.infos ref).topic.value m) <;> rfl

theorem run_failJob {reason : Reason} : (failJob ref reason).run (exec deserialize works) s =
    (.ok (), s.fail deserialize works ref reason) := by
  rw [failJob, run_bind, run_op, exec, fail]
  by_cases hr : reason = .waitTimeout
  case pos =>
    simp only [hr, if_true, run_bind, run_deadLetter, run_op, exec, run_trySend]
    rfl
  case neg =>
    simp only [hr, if_false, run_bind, run_pure, run_op, exec, run_trySend]
    rfl

theorem run_handleJobTimeout {reason : Reason} :
    (handleJobTimeout c reason).run (exec deserialize works) s =
      match s.jobTracking.get? c with
      | none   => (.ok (), s)
      | some n =>
        match reason, (s.infos ⟨c, n⟩).handlerId with
        | .runTimeout, some h =>
          let s := (s.untrack c).mark (.ofModule h) (s.infos ⟨c, n⟩).topic.key
          match (retryJob ⟨c, n⟩).run (exec deserialize works) s with
          | (.error e, s)  => (.error e, s)
          | (.ok true, s)  => (.ok (), s)
          | (.ok false, s) => (.ok (), s.release ⟨c, n⟩)
        | reason, _           => (.ok (), (s.untrack c).fail deserialize works ⟨c, n⟩ reason) := by
  rw [handleJobTimeout, run_bind, run_op, exec]
  cases hn : s.jobTracking.get? c
  case none =>
    have hc : s.untrack c = s := congrArg ({ s with jobTracking := · }) <|
      Dict.erase_of_not_mem <| Dict.get?_eq_none_iff.mp hn
    simp only [Option.map_none, run_pure, hc]
  case some n =>
    simp only [Option.map_some, run_bind, run_op, exec]
    have hi : (s.untrack c).infos = s.infos := rfl
    rw [hi]
    by_cases hr : reason = .runTimeout ∧ (s.infos ⟨c, n⟩).handlerId.isSome
    case neg =>
      rw [if_neg hr, run_failJob]
      split
      case h_1 hh => exact absurd ⟨rfl, hh ▸ rfl⟩ hr
      case h_2    => rfl
    case pos =>
      rw [if_pos hr, run_bind, run_op, exec, hi]
      obtain ⟨rfl, hh⟩ := hr
      obtain ⟨h, hh⟩ := Option.isSome_iff_exists.mp hh
      simp only [hh, run_bind, run_markUnavailable, Key.ofHandler]
      match (retryJob ⟨c, n⟩).run (exec deserialize works)
        ((s.untrack c).mark (.ofModule h) (s.infos ⟨c, n⟩).topic.key) with
      | (.error _, _)   => rfl
      | (.ok true, _)   => rfl
      | (.ok false, s') =>
        simp only [Bool.false_eq_true, if_false, run_bind, run_op, exec, setInfo_infos,
          setInfo_setInfo, release]

theorem run_recoverJob : (recoverJob ref).run (exec deserialize works) s =
    match (retryJob ref).run (exec deserialize works) (s.untrack ref.corrId) with
    | (.error e, s)  => (.error e, s)
    | (.ok true, s)  => (.ok (), s)
    | (.ok false, s) => (.ok (), s.retrack ref) := by
  rw [recoverJob, run_bind, run_op, exec]
  dsimp only
  rw [run_bind]
  match (retryJob ref).run (exec deserialize works) (s.untrack ref.corrId) with
  | (.error _, _)   => rfl
  | (.ok true, _)   => rfl
  | (.ok false, _)  => rfl

theorem waiting_nil : s.waiting [] = [] := by
  simp [waiting]

theorem run_recoverHandler : (recoverHandler c).run (exec deserialize works) s =
    (each recoverJob <| s.waiting <| s.unavailableHandlers.getD c []).run (exec deserialize works)
      (s.eraseMarks c) := by
  rw [recoverHandler, run_bind, run_op, exec, Dict.getD]
  have hw (l : List Key) : (s.eraseMarks c).waiting l = s.waiting l := rfl
  by_cases hm : c ∈ s.unavailableHandlers
  case neg =>
    have he : s.eraseMarks c = s :=
      congrArg ({ s with unavailableHandlers := · }) <| Dict.erase_of_not_mem hm
    simp only [hm, decide_false, Bool.false_eq_true, if_false, he,
      Dict.get?_eq_none_iff.mpr hm, Option.getD_none, waiting_nil]
    rfl
  case pos =>
    obtain ⟨l, hl⟩ := Dict.mem_iff.mp hm
    simp only [hm, decide_true, if_true, run_bind, run_op, exec, hl, Option.getD_some]
    by_cases hn : l = []
    case pos => simp only [hn, if_true, waiting_nil]; rfl
    case neg => simp only [hn, if_false, run_bind, run_op, exec, hw]

-- The availability that a heartbeat reports, if it reports one.
def reported (payload : Value) : Except Error (Option Value) :=
  match if payload.truthy then payload.contains availabilityKey else .ok false with
  | .error e  => .error e
  | .ok false => .ok none
  | .ok true  => (payload.getItem availabilityKey).map some

theorem run_handleHeartbeat {msg : Message} :
    (handleHeartbeat msg).run (exec deserialize works) s =
      match msg.sender.hash, reported msg.payload with
      | .error e, _     => (.error e, s)
      | .ok _, .error e => (.error e, s)
      | .ok m, .ok v    =>
        (recoverHandler m).run (exec deserialize works) (v.elim s (s.setReport m)) := by
  rw [handleHeartbeat, run_bind, run_lift, reported]
  match msg.sender.hash with
  | .error _ => rfl
  | .ok m    =>
    simp only [run_bind, run_lift]
    match if msg.payload.truthy then msg.payload.contains availabilityKey else .ok false with
    | .error _  => rfl
    | .ok false => rfl
    | .ok true  =>
      simp only [if_true, run_bind, run_lift]
      cases msg.payload.getItem availabilityKey <;> rfl

end TycheEngine

end Python
