import Tyche.Cpp.JobRouter
import Tyche.Threads

namespace Cpp

open Proc

-- The engine, with the modules that were removed and not registered since, and those of them whose
-- jobs were taken from them as well.
structure Jobs where
  engine       : TycheEngine
  removed      : List ModuleId
  unregistered : List ModuleId

-- The sections under a lock, each of which is atomic, and what a thread does without a lock.
inductive JobOp : Type → Type
  | time : JobOp ℚ
  | send (o : Output) : JobOp Unit
  | persist (o : Output) : JobOp Unit
  | handlers (topic : Bytes) : JobOp (List ModuleId × List ModuleId)
  | select (topic : Bytes) (available : List ModuleId) : JobOp (Option ModuleId)
  | track (corrId : Bytes) (info : JobTrackingInfo) : JobOp Unit
  | accept (corrId : Bytes) (info : JobTrackingInfo) : JobOp Unit
  | takePending (corrId : Bytes) : JobOp (Option Bytes)
  | takeTracked (corrId : Bytes) : JobOp (Option JobTrackingInfo)
  | untrack (corrId : Bytes) : JobOp Unit
  | erasePending (corrId : Bytes) : JobOp Unit
  | markUnavailable (handler : ModuleId) (topic : Bytes) : JobOp Unit
  | waitingJobs (topics : List Bytes) : JobOp (List (Bytes × JobTrackingInfo))
  | takeTimeouts : JobOp (List JobTimeoutEvent)
  | takeRecoveries : JobOp (List RecoveryEvent)
  | scan (time : ℚ) : JobOp (List JobTimeoutEvent)
  | pushTimeouts (events : List JobTimeoutEvent) : JobOp Unit
  | setAvailability (moduleId : Bytes) (avail : Dict Bytes Bool) : JobOp Unit
  | takeMarks (moduleId : Bytes) : JobOp (List Bytes)
  | pushRecovery (event : RecoveryEvent) : JobOp Unit
  | remove (m : ModuleId) : JobOp Bool
  | orphan (m : ModuleId) : JobOp Unit

namespace TycheEngine

-- The two sections of `unregister_module`.
def removeModule (s : TycheEngine) (m : ModuleId) : TycheEngine :=
  { s with
    modules             := s.modules.erase m
    jobHandlers         := s.jobHandlers.mapVal (·.filter (· ≠ m))
    unavailableHandlers := s.unavailableHandlers.erase m.val
    moduleAvailability  := s.moduleAvailability.erase m.val }

def orphanJobs (s : TycheEngine) (m : ModuleId) : TycheEngine :=
  { s with jobTracking := s.jobTracking.mapVal (orphan m) }

theorem unregisterModule_eq {s : TycheEngine} {m : ModuleId} (h : m ∈ s.modules) :
    s.unregisterModule m = (s.removeModule m).orphanJobs m := by
  simp [unregisterModule, removeModule, orphanJobs, h]

-- The index moves on even if it is out of range, which it is only without an element.
def select (s : TycheEngine) (topic : Bytes) (available : List ModuleId) :
    Option ModuleId × TycheEngine :=
  let idx := s.jobRoundRobin.getD topic 0 % available.length
  (available[idx]?, s.setRoundRobin topic (idx + 1))

def takeTimeouts (s : TycheEngine) : TycheEngine :=
  { s with jobTimeoutEvents := [] }

def takeRecoveries (s : TycheEngine) : TycheEngine :=
  { s with recoveryEvents := [] }

def pushTimeouts (s : TycheEngine) (events : List JobTimeoutEvent) : TycheEngine :=
  { s with jobTimeoutEvents := s.jobTimeoutEvents ++ events }

def setAvailability (s : TycheEngine) (moduleId : Bytes) (avail : Dict Bytes Bool) : TycheEngine :=
  { s with moduleAvailability := s.moduleAvailability.set moduleId avail }

def takePending (s : TycheEngine) (corrId : Bytes) : TycheEngine :=
  if corrId ∈ s.pendingJobs then (s.erasePending corrId).untrack corrId else s

def takeMarks (s : TycheEngine) (moduleId : Bytes) : TycheEngine :=
  if s.unavailableHandlers.getD moduleId [] = [] then s
  else { s with unavailableHandlers := s.unavailableHandlers.erase moduleId }

def pushRecovery (s : TycheEngine) (event : RecoveryEvent) : TycheEngine :=
  { s with recoveryEvents := s.recoveryEvents ++ [event] }

end TycheEngine

namespace Jobs

def start (now : ℚ) : Jobs where
  engine       := .start now
  removed      := []
  unregistered := []

def update (s : Jobs) (f : TycheEngine → TycheEngine) : Jobs :=
  { s with engine := f s.engine }

-- A call for a module that is not registered ends at once.
def remove (s : Jobs) (m : ModuleId) : Bool × Jobs :=
  if m ∈ s.engine.modules then
    (true, { s with
      engine       := s.engine.removeModule m
      removed      := m :: s.removed
      unregistered := s.unregistered.filter (· ≠ m) })
  else
    (false, { s with removed := m :: s.removed, unregistered := m :: s.unregistered })

def orphan (s : Jobs) (m : ModuleId) : Jobs :=
  { s with
    engine       := s.engine.orphanJobs m
    unregistered := if m ∈ s.removed then m :: s.unregistered else s.unregistered }

def register (s : Jobs) (info : ModuleInfo) : Jobs where
  engine       := s.engine.registerModule info
  removed      := s.removed.filter (· ≠ info.moduleId)
  unregistered := s.unregistered.filter (· ≠ info.moduleId)

-- The entries of an unordered map are visited in an `order` that the map does not specify.
def exec (order : List Bytes) : ∀ {β : Type}, JobOp β → Jobs → Except Empty β × Jobs
  | _, .time, s                       => (.ok s.engine.now, s)
  | _, .send o, s | _, .persist o, s  => (.ok (), s.update (·.emit o))
  | _, .handlers topic, s             =>
    (.ok (s.engine.handlers topic, s.engine.available topic), s)
  | _, .select topic available, s     =>
    (.ok (s.engine.select topic available).1,
      s.update fun e => (e.select topic available).2)
  | _, .track c info, s               => (.ok (), s.update (·.track c info))
  | _, .accept c info, s              =>
    (.ok (), s.update fun e => (e.track c info).setPending c info.requesterId)
  | _, .takePending c, s              =>
    (.ok <| s.engine.pendingJobs.get? c, s.update (·.takePending c))
  | _, .takeTracked c, s              =>
    (.ok <| s.engine.jobTracking.get? c, s.update (·.untrack c))
  | _, .untrack c, s                  => (.ok (), s.update (·.untrack c))
  | _, .erasePending c, s             => (.ok (), s.update (·.erasePending c))
  | _, .markUnavailable h topic, s    => (.ok (), s.update (·.markUnavailable h topic))
  | _, .waitingJobs topics, s         => (.ok <| s.engine.waitingJobs topics order, s)
  | _, .takeTimeouts, s               =>
    (.ok s.engine.jobTimeoutEvents, s.update (·.takeTimeouts))
  | _, .takeRecoveries, s             =>
    (.ok s.engine.recoveryEvents, s.update (·.takeRecoveries))
  | _, .scan time, s                  => (.ok <| s.engine.timeoutEvents time order, s)
  | _, .pushTimeouts events, s        => (.ok (), s.update (·.pushTimeouts events))
  | _, .setAvailability m avail, s    => (.ok (), s.update (·.setAvailability m avail))
  | _, .takeMarks m, s                =>
    (.ok <| s.engine.unavailableHandlers.getD m [], s.update (·.takeMarks m))
  | _, .pushRecovery ev, s            => (.ok (), s.update (·.pushRecovery ev))
  | _, .remove m, s                   => (.ok (s.remove m).1, (s.remove m).2)
  | _, .orphan m, s                   => (.ok (), s.orphan m)

-- The orders in which an operation may visit the jobs.
def Orders {β : Type} (s : Jobs) (order : List Bytes) : JobOp β → Prop
  | .waitingJobs _ | .scan _ => order.Perm s.engine.jobTracking.keys
  | _                        => True

instance {β : Type} {s : Jobs} {order : List Bytes} : ∀ o : JobOp β, Decidable (s.Orders order o)
  | .waitingJobs _ | .scan _ => inferInstanceAs <| Decidable (List.Perm _ _)
  | .time | .send _ | .persist _ | .handlers _ | .select .. | .track .. | .accept ..
  | .takePending _ | .takeTracked _ | .untrack _ | .erasePending _ | .markUnavailable ..
  | .takeTimeouts | .takeRecoveries | .pushTimeouts _ | .setAvailability .. | .takeMarks _
  | .pushRecovery _ | .remove _ | .orphan _ => isTrue trivial

end Jobs

abbrev CppJobs :=
  Proc JobOp Empty

def retryJob (corrId : Bytes) (info : JobTrackingInfo) : CppJobs Bool := do
  let (_, available) ← op (.handlers info.topic)
  if available = [] then return false
  else
    match ← op (.select info.topic available) with
    | none         => return false
    | some handler =>
      op (.send <| .dispatch corrId handler info)
      let now ← op .time
      op (.track corrId { info with handlerId := some handler, dispatchTime := now })
      return true

-- What the message of a request says about its job.
def Message.trackingInfo (msg : Message) (now : ℚ) (identity topicFrame messageFrame : Bytes) :
    JobTrackingInfo where
  requesterId   := identity
  topic         := msg.event
  waitStartTime := now
  waitTimeout   := msg.timeout msg.waitTimeout (utf8 "wait_timeout") (.fin 30)
  runTimeout    := msg.timeout msg.runTimeout (utf8 "run_timeout") (.fin 60)
  topicFrame    := topicFrame
  messageFrame  := messageFrame

def Message.noHandler (msg : Message) : Message where
  msgType       := .response
  sender        := utf8 "engine"
  event         := msg.event
  payload       := [(utf8 "error", .string <|
    utf8 "No handler registered for job '" ++ msg.event ++ utf8 "'")]
  correlationId := msg.correlationId

def handleRequest (identity topicFrame messageFrame : Bytes) (msg : Message) : CppJobs Unit := do
  let corrId := msg.correlationId.getD []
  let now ← op .time
  let info := msg.trackingInfo now identity topicFrame messageFrame
  let (handlers, available) ← op (.handlers msg.event)
  if available = [] then
    if handlers = [] then op (.send <| .noHandler corrId identity topicFrame msg.noHandler)
    else op (.accept corrId info)
  else
    match ← op (.select msg.event available) with
    | none         => return ()
    | some handler =>
      let info := { info with handlerId := some handler, dispatchTime := now }
      op (.accept corrId info)
      op (.send <| .dispatch corrId handler info)

def handleResponse (topicFrame messageFrame : Bytes) (msg : Message) : CppJobs Unit := do
  let corrId := msg.correlationId.getD []
  match ← op (.takePending corrId) with
  | none           => return ()
  | some requester => op (.send <| .response corrId requester topicFrame messageFrame)

def timeoutError (corrId : Bytes) (reason : Reason) (info : JobTrackingInfo) : Message where
  msgType       := .response
  sender        := utf8 "engine"
  event         := info.topic
  payload       := [(utf8 "error", .string reason.text), (utf8 "correlation_id", .string corrId)]
  correlationId := corrId

def failJob (deserialize : Bytes → Option Message) (corrId : Bytes) (reason : Reason)
    (info : JobTrackingInfo) : CppJobs Unit := do
  match reason, deserialize info.messageFrame with
  | .waitTimeout, some message => op (.persist <| .deadLetter corrId reason info.topic message)
  | _, _                       => pure ()
  op (.erasePending corrId)
  op (.send <| .timedOut corrId reason info.requesterId info.topicFrame <|
    timeoutError corrId reason info)

def processTimeout (deserialize : Bytes → Option Message) (corrId : Bytes) (reason : Reason) :
    CppJobs Unit := do
  match ← op (.takeTracked corrId) with
  | none      => return ()
  | some info =>
    match reason, info.handlerId with
    | .runTimeout, some handler =>
      op (.markUnavailable handler info.topic)
      if ← retryJob corrId info then return ()
      else op (.track corrId { info with handlerId := none, dispatchTime := 0 })
    | _, _ => failJob deserialize corrId reason info

def recoverJob (job : Bytes × JobTrackingInfo) : CppJobs Unit := do
  op (.untrack job.1)
  if ← retryJob job.1 job.2 then return () else op (.track job.1 job.2)

def processRecovery (topics : List Bytes) : CppJobs Unit := do
  let waiting ← op (.waitingJobs topics)
  each recoverJob waiting

def route (i : TycheEngine.Incoming) : CppJobs Unit :=
  match i.msg.msgType with
  | .request  => handleRequest i.identity i.topicFrame i.messageFrame i.msg
  | .response => handleResponse i.topicFrame i.messageFrame i.msg
  | _         => return ()

-- What the router does after it has looked for a message.
def processTimeouts (deserialize : Bytes → Option Message) : CppJobs Unit := do
  let batch ← op .takeTimeouts
  each (fun ev => processTimeout deserialize ev.correlationId ev.reason) batch

def processRecoveries : CppJobs Unit := do
  let batch ← op .takeRecoveries
  each (fun ev => processRecovery ev.recoveredTopics) batch

def scanTimeouts : CppJobs Unit := do
  let now ← op .time
  let events ← op (.scan now)
  if events = [] then return () else op (.pushTimeouts events)

def availability : Option Any → Option (Dict Bytes Bool)
  | some (.payload m) => (Any.bools m).map fun bs => bs.foldl (fun d e => d.set e.1 e.2) ∅
  | _                 => none

def handleHeartbeat (msg : Message) : CppJobs Unit := do
  match availability <| msg.payload.lookup <| utf8 "availability" with
  | some avail => op (.setAvailability msg.sender avail)
  | none       => pure ()
  let topics ← op (.takeMarks msg.sender)
  if topics = [] then return () else op (.pushRecovery ⟨msg.sender, topics⟩)

def unregisterModule (m : ModuleId) : CppJobs Unit := do
  if ← op (.remove m) then op (.orphan m) else return ()

-- Any number of callers may register and unregister modules. The monitor and the thread that
-- receives registrations are among them.
inductive JobThread
  | router
  | timeout
  | heartbeat
  | caller (n : ℕ)
  | clock
deriving DecidableEq

inductive JobTask
  | receive (frames : List Bytes)
  | timeouts
  | recoveries
  | scan
  | heartbeat (frames : List Bytes)
  | register (info : ModuleInfo)
  | unregister (m : ModuleId)
  | tick (duration : ℚ)

-- A registration is a single section.
def Jobs.enter (deserialize : Bytes → Option Message) :
    JobThread → JobTask → Jobs → Option (Jobs × CppJobs Unit)
  | .router, .receive frames, s      =>
    some (s, (TycheEngine.incoming deserialize frames).elim (return ()) route)
  | .router, .timeouts, s            => some (s, processTimeouts deserialize)
  | .router, .recoveries, s          => some (s, processRecoveries)
  | .timeout, .scan, s               => some (s, scanTimeouts)
  | .heartbeat, .heartbeat frames, s =>
    match (TycheEngine.heartbeatFrame frames).bind deserialize with
    | some msg => some (s, if msg.msgType = .heartbeat then handleHeartbeat msg else return ())
    | none     => some (s, return ())
  | .caller _, .register info, s     => some (s.register info, return ())
  | .caller _, .unregister m, s      => some (s, unregisterModule m)
  | .clock, .tick duration, s        =>
    if 0 ≤ duration then some (s.update (·.elapse duration), return ()) else none
  | _, _, _                          => none

def jobs (deserialize : Bytes → Option Message) :
    Threads.System JobOp Empty Jobs JobThread JobTask (List Bytes) where
  enter            := Jobs.enter deserialize
  exec _ order o s := if s.Orders order o then some (Jobs.exec order o s) else none

end Cpp
