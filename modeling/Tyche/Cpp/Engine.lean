import Tyche.Cpp.Message
import Tyche.Dict

namespace Cpp

structure Interface where
  pattern   : InterfacePattern
  eventType : Bytes

structure ModuleInfo where
  moduleId   : ModuleId
  interfaces : List Interface

-- An empty `handler_id` stands for no handler.
@[ext]
structure JobTrackingInfo where
  requesterId   : Bytes
  handlerId     : Option ModuleId := none
  topic         : Bytes
  dispatchTime  : ℚ := 0
  waitStartTime : ℚ
  waitTimeout   : Floating
  runTimeout    : Floating
  topicFrame    : Bytes
  messageFrame  : Bytes
deriving DecidableEq

-- `seen` is not part of the event. It records what the scan found when it queued the event.
structure JobTimeoutEvent where
  correlationId : Bytes
  reason        : Reason
  seen          : JobTrackingInfo

structure RecoveryEvent where
  moduleId        : Bytes
  recoveredTopics : List Bytes

-- What leaves the job router, and the responses of handlers as they arrive there. A job goes out as
-- the frames of its tracking info, to its handler.
inductive Output
  | answer (corrId identity : Bytes)
  | dispatch (corrId : Bytes) (handler : ModuleId) (info : JobTrackingInfo)
  | response (corrId identity topicFrame messageFrame : Bytes)
  | noHandler (corrId identity topicFrame : Bytes) (err : Message)
  | handlerTimedOut (corrId : Bytes) (handler : ModuleId) (topic : Bytes)
  | deadLetter (corrId : Bytes) (reason : Reason) (topic : Bytes) (message : Message)
  | timedOut (corrId : Bytes) (reason : Reason) (identity topicFrame : Bytes) (err : Message)

-- The part of the engine that routes jobs. Topics are interned one to one, so the tables that are
-- keyed by `InternId` are keyed by topic here. `received` and `out` are logs.
structure TycheEngine where
  now                 : ℚ
  modules             : List ModuleId
  jobHandlers         : Dict Bytes (List ModuleId)
  jobRoundRobin       : Dict Bytes ℕ
  moduleAvailability  : Dict Bytes (Dict Bytes Bool)
  unavailableHandlers : Dict Bytes (List Bytes)
  pendingJobs         : Dict Bytes Bytes
  jobTracking         : Dict Bytes JobTrackingInfo
  jobTimeoutEvents    : List JobTimeoutEvent
  recoveryEvents      : List RecoveryEvent
  received            : List Bytes
  out                 : List Output

namespace TycheEngine

def start (now : ℚ) : TycheEngine where
  now                 := now
  modules             := []
  jobHandlers         := ∅
  jobRoundRobin       := ∅
  moduleAvailability  := ∅
  unavailableHandlers := ∅
  pendingJobs         := ∅
  jobTracking         := ∅
  jobTimeoutEvents    := []
  recoveryEvents      := []
  received            := []
  out                 := []

def track (s : TycheEngine) (corrId : Bytes) (info : JobTrackingInfo) : TycheEngine :=
  { s with jobTracking := s.jobTracking.set corrId info }

def untrack (s : TycheEngine) (corrId : Bytes) : TycheEngine :=
  { s with jobTracking := s.jobTracking.erase corrId }

def setPending (s : TycheEngine) (corrId identity : Bytes) : TycheEngine :=
  { s with pendingJobs := s.pendingJobs.set corrId identity }

def erasePending (s : TycheEngine) (corrId : Bytes) : TycheEngine :=
  { s with pendingJobs := s.pendingJobs.erase corrId }

def setRoundRobin (s : TycheEngine) (topic : Bytes) (idx : ℕ) : TycheEngine :=
  { s with jobRoundRobin := s.jobRoundRobin.set topic idx }

def logRequest (s : TycheEngine) (corrId : Bytes) : TycheEngine :=
  { s with received := s.received ++ [corrId] }

def emit (s : TycheEngine) (o : Output) : TycheEngine :=
  { s with out := s.out ++ [o] }

def isHandlerAvailable (s : TycheEngine) (moduleId : ModuleId) (topic : Bytes) : Bool :=
  if topic ∈ s.unavailableHandlers.getD moduleId.val [] then false
  else ((s.moduleAvailability.getD moduleId.val ∅).get? topic).getD true

def handlers (s : TycheEngine) (topic : Bytes) : List ModuleId :=
  s.jobHandlers.getD topic []

def available (s : TycheEngine) (topic : Bytes) : List ModuleId :=
  (s.handlers topic).filter (s.isHandlerAvailable · topic)

end TycheEngine

end Cpp
