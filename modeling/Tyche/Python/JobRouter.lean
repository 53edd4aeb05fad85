import Tyche.Python.Engine

namespace Python

open Proc

abbrev Py :=
  Proc Op Error

def isMarkedFor (handler : ModuleId) (topic : Hashed) : Py Bool := do
  if ← op (.isMarked <| .ofModule handler) then
    let topics ← op (.getMarks <| .ofModule handler)
    return topic.key ∈ topics
  else
    return false

def isReportedAvailable (handler : ModuleId) (topic : Hashed) : Py Bool := do
  let availability ← op (.getReport <| .ofModule handler)
  if ← lift (availability.contains topic) then
    let v ← lift (availability.getItem topic)
    return v.truthy
  else
    return true

def isHandlerAvailable (handler : ModuleId) (topic : Hashed) : Py Bool := do
  if ← isMarkedFor handler topic then return false else isReportedAvailable handler topic

-- The round robin over the available handlers `h :: hs`.
def turn (hs : List ModuleId) (robin : ℕ) : Fin (hs.length + 1) :=
  Fin.ofNat _ robin

def nextHandler (topic : Key) (h : ModuleId) (hs : List ModuleId) : Py ModuleId := do
  let robin ← op (.getRoundRobin topic)
  let idx := turn hs robin
  op (.setRoundRobin topic (idx + 1))
  return (h :: hs).get idx

def trySend (o : Output) : Py Bool :=
  Proc.catching (do op (.send o); return true) fun _ => return false

-- What goes to the handler of a job.
def TrackingInfo.dispatch (info : TrackingInfo) (c : Key) (handler : ModuleId) : Output :=
  .dispatch c handler info.requesterId info.topicFrame info.messageFrame

-- `msg.payload.get(key, default) if msg.payload else default`
def timeout (payload : Value) (key : String) (default : ℚ) : Except Error Value :=
  if payload.truthy then payload.get (.str <| utf8 key) (.float (.fin default) 0)
  else .ok <| .float (.fin default) 0

def handleJobRequest (identity topicFrame messageFrame : Bytes) (msg : Message) : Py Unit := do
  let now ← op .time
  let waitTimeout ← lift (timeout msg.payload "wait_timeout" 30)
  let runTimeout ← lift (timeout msg.payload "run_timeout" 60)
  let topic ← lift msg.event.hashed
  let handlers ← op (.getHandlers topic.key)
  let available ← select (isHandlerAvailable · topic) handlers
  let info : TrackingInfo :=
    { requesterId   := identity
      handlerId     := none
      dispatchTime  := none
      waitStartTime := now
      waitTimeout   := waitTimeout
      runTimeout    := runTimeout
      topic         := topic
      topicFrame    := topicFrame
      messageFrame  := messageFrame }
  match available with
  | []      =>
    if handlers = [] then
      let _ ← trySend (.noHandler msg.correlationId identity topicFrame msg.event)
    else
      let c ← lift msg.correlationId.hash
      op (.track c info)
      op (.setPending c identity)
  | h :: hs =>
    let handler ← nextHandler topic.key h hs
    let c ← lift msg.correlationId.hash
    op (.setPending c identity)
    let info := { info with handlerId := some handler, dispatchTime := some now }
    op (.track c info)
    if ← trySend (info.dispatch c handler) then
      return ()
    else
      op (.popPending c)
      let _ ← op (.untrack c)

def handleJobResponse (topicFrame messageFrame : Bytes) (msg : Message) : Py Unit := do
  let c ← lift msg.correlationId.hash
  match ← op (.getPending c) with
  | none           => return ()
  | some requester =>
    let _ ← op (.untrack c)
    let _ ← trySend (.response c requester topicFrame messageFrame)
    op (.delPending c)

def retryJob (ref : Ref) : Py Bool := do
  let info ← op (.read ref)
  let handlers ← op (.getHandlers info.topic.key)
  let available ← select (isHandlerAvailable · info.topic) handlers
  match available with
  | []      => return false
  | h :: hs =>
    let handler ← nextHandler info.topic.key h hs
    if ← trySend (info.dispatch ref.corrId handler) then
      op (.setHandler ref (some handler))
      let now ← op .time
      op (.setDispatchTime ref (some now))
      op (.retrack ref)
      return true
    else
      return false

def markUnavailable (handler topic : Key) : Py Unit := do
  let marked ← op (.isMarked handler)
  if marked then
    op (.addMark handler topic)
  else
    op (.newMarks handler)
    op (.addMark handler topic)

-- A message frame that cannot be decoded is not persisted.
def deadLetter (ref : Ref) (info : TrackingInfo) : Py Unit :=
  Proc.catching (op <| .persist ref.corrId info.topic.value info.messageFrame) fun _ => return ()

-- The rest of `_handle_job_timeout` for a job that is not tried again.
def failJob (ref : Ref) (reason : Reason) : Py Unit := do
  let info ← op (.read ref)
  if reason = .waitTimeout then deadLetter ref info
  op (.popPending ref.corrId)
  let _ ← trySend (.timedOut ref.corrId reason info.requesterId info.topicFrame info.topic.value)

def handleJobTimeout (c : Key) (reason : Reason) : Py Unit := do
  match ← op (.untrack c) with
  | none     => return ()
  | some ref =>
    let info ← op (.read ref)
    if reason = .runTimeout ∧ info.handlerId.isSome then
      let info ← op (.read ref)
      markUnavailable (.ofHandler info.handlerId) info.topic.key
      if ← retryJob ref then
        return ()
      else
        op (.setHandler ref none)
        op (.setDispatchTime ref none)
        op (.retrack ref)
    else
      failJob ref reason

-- One pass of the timeout worker.
def checkTimeouts : Py Unit := do
  let now ← op .time
  let timedOut ← op (.findTimedOut now)
  each (fun (c, reason) => handleJobTimeout c reason) timedOut

def recoverJob (ref : Ref) : Py Unit := do
  let _ ← op (.untrack ref.corrId)
  if ← retryJob ref then return () else op (.retrack ref)

def recoverHandler (moduleId : Key) : Py Unit := do
  if ← op (.isMarked moduleId) then
    let topics ← op (.popMarks moduleId)
    if topics = [] then
      return ()
    else
      let jobs ← op (.findWaiting topics)
      each recoverJob jobs
  else
    return ()

def availabilityKey : Hashed :=
  ⟨.str <| utf8 "availability", .str <| utf8 "availability", rfl⟩

-- The monitor of the heartbeats is a dictionary, so the sender has to be hashable.
def handleHeartbeat (msg : Message) : Py Unit := do
  let sender ← lift msg.sender.hash
  let reports ← lift (if msg.payload.truthy then msg.payload.contains availabilityKey else .ok false)
  if reports then
    let availability ← lift (msg.payload.getItem availabilityKey)
    op (.setReport sender availability)
  recoverHandler sender

-- What arrives at the job socket, decoded. The router drops anything else.
structure Incoming where
  identity     : Bytes
  topicFrame   : Bytes
  messageFrame : Bytes
  msg          : Message

def incoming (deserialize : Bytes → Option Message) : List Bytes → Option Incoming
  | identity :: _ :: topicFrame :: messageFrame :: _ =>
    (deserialize messageFrame).map (⟨identity, topicFrame, messageFrame, ·⟩)
  | _ => none

def route (i : Incoming) : Py Unit :=
  match i.msg.msgType with
  | .request  => handleJobRequest i.identity i.topicFrame i.messageFrame i.msg
  | .response => handleJobResponse i.topicFrame i.messageFrame i.msg
  | _         => return ()

def heartbeatFrame : List Bytes → Option Bytes
  | _ :: [] :: frame :: _ => some frame
  | _ :: frame :: _       => some frame
  | _                     => none

def heartbeat? (deserialize : Bytes → Option Message) (frames : List Bytes) : Option Message :=
  ((heartbeatFrame frames).bind deserialize).filter (·.msgType = .heartbeat)

namespace TycheEngine

def addHandler (s : TycheEngine) (moduleId : ModuleId) (topic : Key) : TycheEngine :=
  let handlers := s.jobHandlers.getD topic []
  { s with
    jobHandlers   := s.jobHandlers.set topic <|
      if moduleId ∈ handlers then handlers else handlers ++ [moduleId]
    jobRoundRobin :=
      if topic ∈ s.jobRoundRobin then s.jobRoundRobin else s.jobRoundRobin.set topic 0 }

-- The tables of the interfaces are dictionaries over the event types.
def addInterfaces (moduleId : ModuleId) :
    List Interface → TycheEngine → Except Error Unit × TycheEngine
  | [], s      => (.ok (), s)
  | i :: is, s =>
    match i.eventType.hash with
    | .error e  => (.error e, s)
    | .ok topic =>
      addInterfaces moduleId is <|
        if i.pattern = .handle then s.addHandler moduleId topic else s

def registerModule (s : TycheEngine) (info : ModuleInfo) : Except Error Unit × TycheEngine :=
  addInterfaces info.moduleId info.interfaces
    { s with modules := s.modules.insert info.moduleId }

-- The module is the handler of these jobs no more. They are tracked by the infos that they had.
def orphan (s : TycheEngine) (moduleId : ModuleId) (ref : Ref) : TrackingInfo :=
  let info := s.infos ref
  if s.jobTracking.get? ref.corrId = some ref.number ∧ info.handlerId = some moduleId then
    { info with handlerId := none, dispatchTime := none }
  else
    info

def unregisterModule (s : TycheEngine) (moduleId : ModuleId) : TycheEngine :=
  if moduleId ∈ s.modules then
    { s with
      modules             := s.modules.erase moduleId
      jobHandlers         := s.jobHandlers.mapVal (·.filter (· ≠ moduleId))
      unavailableHandlers := s.unavailableHandlers.erase (.ofModule moduleId)
      moduleAvailability  := s.moduleAvailability.erase (.ofModule moduleId)
      infos               := s.orphan moduleId }
  else
    s

end TycheEngine

end Python
