import Tyche.Cpp.Engine
import Tyche.Machine

namespace Cpp

-- `field` is the timeout of the message itself, and `key` names the entry of the payload that is
-- used where the message has none. An entry of another type leaves the default.
def Message.timeout (msg : Message) (field : Option Floating) (key : Bytes) (default : Floating) :
    Floating :=
  field.getD <| ((msg.payload.lookup key).bind Any.toSingle?).getD default

namespace TycheEngine

-- The round robin over the handlers that are available for a topic, and the engine with its index
-- moved on. Without an available handler there is no element to select.
def selectHandler (s : TycheEngine) (topic : Bytes) : Option (ModuleId × TycheEngine) :=
  let available := s.available topic
  let idx := s.jobRoundRobin.getD topic 0 % available.length
  available[idx]?.map (·, s.setRoundRobin topic (idx + 1))

def retryJob (s : TycheEngine) (corrId : Bytes) (info : JobTrackingInfo) : Option TycheEngine :=
  (s.selectHandler info.topic).map fun (handler, s') =>
    let info := { info with handlerId := some handler, dispatchTime := s.now }
    (s'.emit <| .dispatch corrId handler info).track corrId info

def handleRequest (s : TycheEngine) (identity topicFrame messageFrame : Bytes) (msg : Message) :
    TycheEngine :=
  let topic := msg.event
  let corrId := msg.correlationId.getD []
  let info : JobTrackingInfo :=
    { requesterId   := identity
      topic         := topic
      waitStartTime := s.now
      waitTimeout   := msg.timeout msg.waitTimeout (utf8 "wait_timeout") (.fin 30)
      runTimeout    := msg.timeout msg.runTimeout (utf8 "run_timeout") (.fin 60)
      topicFrame    := topicFrame
      messageFrame  := messageFrame }
  let s := s.logRequest corrId
  match s.selectHandler topic with
  | none =>
    if s.handlers topic = [] then
      let text := utf8 "No handler registered for job '" ++ topic ++ utf8 "'"
      s.emit <| .noHandler corrId identity topicFrame
        { msgType       := .response
          sender        := utf8 "engine"
          event         := msg.event
          payload       := [(utf8 "error", .string text)]
          correlationId := msg.correlationId }
    else
      (s.track corrId info).setPending corrId identity
  | some (handler, s) =>
    let info := { info with handlerId := some handler, dispatchTime := s.now }
    ((s.setPending corrId identity).track corrId info).emit <| .dispatch corrId handler info

def handleResponse (s : TycheEngine) (identity topicFrame messageFrame : Bytes) (msg : Message) :
    TycheEngine :=
  let corrId := msg.correlationId.getD []
  let s := s.emit <| .answer corrId identity
  match s.pendingJobs.get? corrId with
  | none           => s
  | some requester =>
    ((s.erasePending corrId).untrack corrId).emit <|
      .response corrId requester topicFrame messageFrame

def markUnavailable (s : TycheEngine) (handler : ModuleId) (topic : Bytes) : TycheEngine :=
  let topics := s.unavailableHandlers.getD handler.val []
  { s with unavailableHandlers := s.unavailableHandlers.set handler.val <| topics.insert topic }

-- A message frame that cannot be decoded is not persisted.
def persistDeadLetter (deserialize : Bytes → Option Message) (s : TycheEngine) (corrId : Bytes)
    (reason : Reason) (info : JobTrackingInfo) : TycheEngine :=
  match deserialize info.messageFrame with
  | some message => s.emit <| .deadLetter corrId reason info.topic message
  | none         => s

-- The rest of `process_timeout` for a job that is not tried again.
def failJob (deserialize : Bytes → Option Message) (s : TycheEngine) (corrId : Bytes)
    (reason : Reason) (info : JobTrackingInfo) : TycheEngine :=
  let s :=
    if reason = .waitTimeout then s.persistDeadLetter deserialize corrId reason info else s
  (s.erasePending corrId).emit <| .timedOut corrId reason info.requesterId info.topicFrame
    { msgType       := .response
      sender        := utf8 "engine"
      event         := info.topic
      payload       := [(utf8 "error", .string reason.text),
                        (utf8 "correlation_id", .string corrId)]
      correlationId := corrId }

def processTimeout (deserialize : Bytes → Option Message) (s : TycheEngine) (corrId : Bytes)
    (reason : Reason) : TycheEngine :=
  match s.jobTracking.get? corrId with
  | none      => s
  | some info =>
    let s := s.untrack corrId
    match reason, info.handlerId with
    | .runTimeout, some handler =>
      let s := (s.markUnavailable handler info.topic).emit <|
        .handlerTimedOut corrId handler info.topic
      (s.retryJob corrId info).getD <|
        s.track corrId { info with handlerId := none, dispatchTime := 0 }
    | _, _ => s.failJob deserialize corrId reason info

def recoverJob (s : TycheEngine) (job : Bytes × JobTrackingInfo) : TycheEngine :=
  ((s.untrack job.1).retryJob job.1 job.2).getD <| (s.untrack job.1).track job.1 job.2

def waitingJobs (s : TycheEngine) (topics order : List Bytes) : List (Bytes × JobTrackingInfo) :=
  order.filterMap fun corrId =>
    (s.jobTracking.get? corrId).bind fun info =>
      if info.handlerId = none ∧ info.topic ∈ topics then some (corrId, info) else none

def processRecovery (s : TycheEngine) (topics order : List Bytes) : TycheEngine :=
  (s.waitingJobs topics order).foldl recoverJob s

def timedOut (time : ℚ) (info : JobTrackingInfo) : Option Reason :=
  match info.handlerId with
  | some _ =>
    if Floating.ExceededBy (time - info.dispatchTime) info.runTimeout then some .runTimeout
    else none
  | none   =>
    if Floating.ExceededBy (time - info.waitStartTime) info.waitTimeout then some .waitTimeout
    else none

def timeoutEvents (s : TycheEngine) (time : ℚ) (order : List Bytes) : List JobTimeoutEvent :=
  order.filterMap fun corrId =>
    (s.jobTracking.get? corrId).bind fun info =>
      (timedOut time info).map (⟨corrId, ·, info⟩)

-- One pass of the timeout worker, which has read the clock at `time`.
def scanTimeouts (s : TycheEngine) (time : ℚ) (order : List Bytes) : TycheEngine :=
  { s with jobTimeoutEvents := s.jobTimeoutEvents ++ s.timeoutEvents time order }

def updateAvailability (s : TycheEngine) (moduleId : Bytes) : Option Any → TycheEngine
  | some (.payload m) =>
    match Any.bools m with
    | some bs =>
      let avail := bs.foldl (fun (avail : Dict Bytes Bool) e => avail.set e.1 e.2) ∅
      { s with moduleAvailability := s.moduleAvailability.set moduleId avail }
    | none => s
  | _ => s

-- This takes the locks of the modules and of the recovery events one after the other. Only the
-- thread that receives heartbeats queues recovery events.
def recoverHandler (s : TycheEngine) (moduleId : Bytes) : TycheEngine :=
  let topics := s.unavailableHandlers.getD moduleId []
  if topics = [] then s
  else
    { s with
      unavailableHandlers := s.unavailableHandlers.erase moduleId
      recoveryEvents      := s.recoveryEvents ++ [⟨moduleId, topics⟩] }

def handleHeartbeat (s : TycheEngine) (msg : Message) : TycheEngine :=
  (s.updateAvailability msg.sender <| msg.payload.lookup <| utf8 "availability").recoverHandler
    msg.sender

def addHandler (s : TycheEngine) (moduleId : ModuleId) (iface : Interface) : TycheEngine :=
  match iface.pattern with
  | .handle =>
    { s with
      jobHandlers   := s.jobHandlers.set iface.eventType <|
        let handlers := s.handlers iface.eventType
        if moduleId ∈ handlers then handlers else handlers ++ [moduleId]
      jobRoundRobin :=
        if iface.eventType ∈ s.jobRoundRobin then s.jobRoundRobin
        else s.jobRoundRobin.set iface.eventType 0 }
  | _ => s

def registerModule (s : TycheEngine) (info : ModuleInfo) : TycheEngine :=
  info.interfaces.foldl (·.addHandler info.moduleId)
    { s with modules := s.modules.insert info.moduleId }

def orphan (moduleId : ModuleId) (info : JobTrackingInfo) : JobTrackingInfo :=
  if info.handlerId = some moduleId then { info with handlerId := none, dispatchTime := 0 }
  else info

def unregisterModule (s : TycheEngine) (moduleId : ModuleId) : TycheEngine :=
  if moduleId ∈ s.modules then
    { s with
      modules             := s.modules.erase moduleId
      jobHandlers         := s.jobHandlers.mapVal (·.filter (· ≠ moduleId))
      unavailableHandlers := s.unavailableHandlers.erase moduleId.val
      moduleAvailability  := s.moduleAvailability.erase moduleId.val
      jobTracking         := s.jobTracking.mapVal (orphan moduleId) }
  else
    s

end TycheEngine

-- The atomic actions of the threads that take part in job routing, and the passing of time. The
-- entries of an unordered map are visited in an `order` that the map does not specify.
inductive Action
  | tick (duration : ℚ)
  | receive (frames : List Bytes)
  | timeoutEvent
  | recoveryEvent (order : List Bytes)
  | scan (time : ℚ) (order : List Bytes)
  | heartbeat (frames : List Bytes)
  | register (info : ModuleInfo)
  | unregister (moduleId : ModuleId)

namespace TycheEngine

-- What arrives at the job socket, decoded. The router drops anything else.
structure Incoming where
  identity     : Bytes
  topicFrame   : Bytes
  messageFrame : Bytes
  msg          : Message

def incoming (deserialize : Bytes → Option Message) : List Bytes → Option Incoming
  | identity :: _ :: topicFrame :: messageFrame :: _ =>
    (deserialize messageFrame).map (⟨identity, topicFrame, messageFrame, ·⟩)
  | _ => none

def route (s : TycheEngine) (i : Incoming) : TycheEngine :=
  match i.msg.msgType with
  | .request  => s.handleRequest i.identity i.topicFrame i.messageFrame i.msg
  | .response => s.handleResponse i.identity i.topicFrame i.messageFrame i.msg
  | _         => s

def receive (deserialize : Bytes → Option Message) (s : TycheEngine) (frames : List Bytes) :
    TycheEngine :=
  ((incoming deserialize frames).map s.route).getD s

def heartbeatFrame : List Bytes → Option Bytes
  | _ :: [] :: frame :: _ => some frame
  | _ :: frame :: _       => some frame
  | _                     => none

def receiveHeartbeat (deserialize : Bytes → Option Message) (s : TycheEngine)
    (frames : List Bytes) : TycheEngine :=
  match (heartbeatFrame frames).bind deserialize with
  | some msg => if msg.msgType = .heartbeat then s.handleHeartbeat msg else s
  | none     => s

def elapse (s : TycheEngine) (duration : ℚ) : TycheEngine :=
  { s with now := s.now + duration }

def popTimeoutEvent (s : TycheEngine) : TycheEngine :=
  { s with jobTimeoutEvents := s.jobTimeoutEvents.tail }

def popRecoveryEvent (s : TycheEngine) : TycheEngine :=
  { s with recoveryEvents := s.recoveryEvents.tail }

def step (deserialize : Bytes → Option Message) (s : TycheEngine) : Action → Option TycheEngine
  | .tick duration => if 0 ≤ duration then some <| s.elapse duration else none
  | .receive frames => some <| s.receive deserialize frames
  | .timeoutEvent =>
    s.jobTimeoutEvents.head?.map fun ev =>
      s.popTimeoutEvent.processTimeout deserialize ev.correlationId ev.reason
  | .recoveryEvent order =>
    if order.Perm s.jobTracking.keys then
      s.recoveryEvents.head?.map fun ev =>
        s.popRecoveryEvent.processRecovery ev.recoveredTopics order
    else none
  | .scan time order =>
    if time ≤ s.now ∧ order.Perm s.jobTracking.keys then some <| s.scanTimeouts time order
    else none
  | .heartbeat frames => some <| s.receiveHeartbeat deserialize frames
  | .register info => some <| s.registerModule info
  | .unregister moduleId => some <| s.unregisterModule moduleId

variable {deserialize : Bytes → Option Message} {s s' : TycheEngine} {d time : ℚ}
variable {order : List Bytes}

theorem step_tick (e : s.step deserialize (.tick d) = some s') : 0 ≤ d ∧ s' = s.elapse d := by
  rw [step] at e
  split at e <;> cases e
  exact ⟨‹_›, rfl⟩

theorem step_timeoutEvent (e : s.step deserialize .timeoutEvent = some s') :
    ∃ ev ∈ s.jobTimeoutEvents.head?,
      s' = s.popTimeoutEvent.processTimeout deserialize ev.correlationId ev.reason := by
  have ⟨ev, he, e⟩ := Option.map_eq_some_iff.mp e
  exact ⟨ev, he, e.symm⟩

theorem step_recoveryEvent (e : s.step deserialize (.recoveryEvent order) = some s') :
    order.Perm s.jobTracking.keys ∧ ∃ ev ∈ s.recoveryEvents.head?,
      s' = s.popRecoveryEvent.processRecovery ev.recoveredTopics order := by
  rw [step] at e
  split at e
  case isTrue hp =>
    have ⟨ev, he, e⟩ := Option.map_eq_some_iff.mp e
    exact ⟨hp, ev, he, e.symm⟩
  case isFalse => cases e

theorem step_scan (e : s.step deserialize (.scan time order) = some s') :
    time ≤ s.now ∧ order.Perm s.jobTracking.keys ∧ s' = s.scanTimeouts time order := by
  rw [step] at e
  split at e <;> cases e
  exact ⟨And.left ‹_›, And.right ‹_›, rfl⟩

end TycheEngine

end Cpp
