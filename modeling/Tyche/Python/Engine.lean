import Tyche.Dict
import Tyche.Proc
import Tyche.Python.Value
import Tyche.Types

namespace Python

-- The parts of a message that job routing looks at.
structure Message where
  msgType       : MessageType
  sender        : Value
  event         : Value
  payload       : Value
  correlationId : Value

structure Interface where
  pattern       : InterfacePattern
  eventType     : Value
  backpressure  : BackpressureStrategy := .dropOldest
  maxQueueDepth : Value := .int 10000
  waitTimeout   : Value := .none

structure ModuleInfo where
  moduleId   : ModuleId
  interfaces : List Interface

def Key.ofModule (moduleId : ModuleId) : Key :=
  .str moduleId.val

def Key.ofHandler : Option ModuleId → Key
  | some moduleId => .ofModule moduleId
  | Option.none   => .none

structure TrackingInfo where
  requesterId   : Bytes
  handlerId     : Option ModuleId
  dispatchTime  : Option ℚ
  waitStartTime : ℚ
  waitTimeout   : Value
  runTimeout    : Value
  topic         : Hashed
  topicFrame    : Bytes
  messageFrame  : Bytes

instance : Inhabited TrackingInfo where
  default := ⟨[], none, none, 0, .none, .none, ⟨.none, .none, rfl⟩, [], []⟩

-- The tracking info of a job is an object that its holders share. It is only ever stored under the
-- correlation id that it was made for.
structure Ref where
  corrId : Key
  number : ℕ
deriving DecidableEq

-- The answers that arrive, what leaves the job router, and the dead letters. The two errors go out
-- as responses of the engine about their topic.
inductive Output
  | answer (corrId : Key) (identity : Bytes)
  | dispatch (corrId : Key) (handler : ModuleId) (requesterId topicFrame messageFrame : Bytes)
  | response (corrId : Key) (identity topicFrame messageFrame : Bytes)
  | noHandler (corrId : Value) (identity topicFrame : Bytes) (topic : Value)
  | deadLetter (corrId : Key) (topic : Value) (message : Message)
  | timedOut (corrId : Key) (reason : Reason) (identity topicFrame : Bytes) (topic : Value)

-- The part of the engine that routes jobs. `infos` holds the objects with the tracking infos, of
-- which `created` have been made so far. `received` and `out` are logs.
structure TycheEngine where
  now                 : ℚ
  modules             : List ModuleId
  jobHandlers         : Dict Key (List ModuleId)
  jobRoundRobin       : Dict Key ℕ
  moduleAvailability  : Dict Key Value
  unavailableHandlers : Dict Key (List Key)
  pendingJobs         : Dict Key Bytes
  jobTracking         : Dict Key ℕ
  infos               : Ref → TrackingInfo
  created             : ℕ
  received            : List Key
  out                 : List Output

namespace TycheEngine

def start (now : ℚ) : TycheEngine where
  now                 := now
  modules             := []
  jobHandlers         := ∅
  jobRoundRobin       := ∅
  moduleAvailability  := ∅
  unavailableHandlers := ∅
  pendingJobs         := ∅
  jobTracking         := ∅
  infos               := default
  created             := 0
  received            := []
  out                 := []

def tracked (s : TycheEngine) : List (Key × TrackingInfo) :=
  s.jobTracking.entries.map fun (c, n) => (c, s.infos ⟨c, n⟩)

def tracking? (s : TycheEngine) (c : Key) : Option TrackingInfo :=
  (s.jobTracking.get? c).map fun n => s.infos ⟨c, n⟩

def setInfo (s : TycheEngine) (ref : Ref) (info : TrackingInfo) : TycheEngine :=
  { s with infos := fun r => if r = ref then info else s.infos r }

def retrack (s : TycheEngine) (ref : Ref) : TycheEngine :=
  { s with jobTracking := s.jobTracking.set ref.corrId ref.number }

def track (s : TycheEngine) (c : Key) (info : TrackingInfo) : TycheEngine :=
  { (s.setInfo ⟨c, s.created⟩ info).retrack ⟨c, s.created⟩ with created := s.created + 1 }

def untrack (s : TycheEngine) (c : Key) : TycheEngine :=
  { s with jobTracking := s.jobTracking.erase c }

def setPending (s : TycheEngine) (c : Key) (identity : Bytes) : TycheEngine :=
  { s with pendingJobs := s.pendingJobs.set c identity }

def erasePending (s : TycheEngine) (c : Key) : TycheEngine :=
  { s with pendingJobs := s.pendingJobs.erase c }

def setRoundRobin (s : TycheEngine) (topic : Key) (idx : ℕ) : TycheEngine :=
  { s with jobRoundRobin := s.jobRoundRobin.set topic idx }

def setMarks (s : TycheEngine) (handler : Key) (topics : List Key) : TycheEngine :=
  { s with unavailableHandlers := s.unavailableHandlers.set handler topics }

def eraseMarks (s : TycheEngine) (handler : Key) : TycheEngine :=
  { s with unavailableHandlers := s.unavailableHandlers.erase handler }

def setReport (s : TycheEngine) (sender : Key) (availability : Value) : TycheEngine :=
  { s with moduleAvailability := s.moduleAvailability.set sender availability }

def logRequest (s : TycheEngine) (c : Key) : TycheEngine :=
  { s with received := s.received ++ [c] }

def emit (s : TycheEngine) (o : Output) : TycheEngine :=
  { s with out := s.out ++ [o] }

end TycheEngine

-- The test of the timeout scan for one job.
def timedOut (time : ℚ) (info : TrackingInfo) : Except Error (Option Reason) :=
  match info.handlerId, info.dispatchTime with
  | some _, some t => do
    if ← info.runTimeout.exceededBy (time - t) then return some .runTimeout else return none
  | some _, none   => .error .typeError
  | none, _        => do
    if ← info.waitTimeout.exceededBy (time - info.waitStartTime) then return some .waitTimeout
    else return none

def timedOutJobs (time : ℚ) : List (Key × TrackingInfo) → Except Error (List (Key × Reason))
  | []              => .ok []
  | (c, info) :: js => do
    let reason ← timedOut time info
    let found ← timedOutJobs time js
    return (reason.map (c, ·)).toList ++ found

-- The operations on the shared state that are atomic: those on a dictionary, the sections under
-- `_job_tracking_lock`, and what goes to the socket, to the disk and to the clock.
inductive Op : Type → Type
  | time : Op ℚ
  | getHandlers (topic : Key) : Op (List ModuleId)
  | isMarked (handler : Key) : Op Bool
  | getMarks (handler : Key) : Op (List Key)
  | newMarks (handler : Key) : Op Unit
  | addMark (handler topic : Key) : Op Unit
  | popMarks (handler : Key) : Op (List Key)
  | getReport (handler : Key) : Op Value
  | setReport (sender : Key) (availability : Value) : Op Unit
  | getRoundRobin (topic : Key) : Op ℕ
  | setRoundRobin (topic : Key) (idx : ℕ) : Op Unit
  | getPending (c : Key) : Op (Option Bytes)
  | setPending (c : Key) (identity : Bytes) : Op Unit
  | popPending (c : Key) : Op Unit
  | delPending (c : Key) : Op Unit
  | track (c : Key) (info : TrackingInfo) : Op Unit
  | untrack (c : Key) : Op (Option Ref)
  | retrack (ref : Ref) : Op Unit
  | read (ref : Ref) : Op TrackingInfo
  | setHandler (ref : Ref) (handler : Option ModuleId) : Op Unit
  | setDispatchTime (ref : Ref) (time : Option ℚ) : Op Unit
  | findTimedOut (time : ℚ) : Op (List (Key × Reason))
  | findWaiting (topics : List Key) : Op (List Ref)
  | send (o : Output) : Op Unit
  | persist (c : Key) (topic : Value) (messageFrame : Bytes) : Op Unit

namespace TycheEngine

def waiting (s : TycheEngine) (topics : List Key) : List Ref :=
  (s.jobTracking.entries.map fun (c, n) => ⟨c, n⟩).filter fun ref =>
    (s.infos ref).handlerId = none ∧ (s.infos ref).topic.key ∈ topics

-- `works` tells which outputs succeed.
def exec (deserialize : Bytes → Option Message) (works : Output → Bool) :
    ∀ {β : Type}, Op β → TycheEngine → Except Error β × TycheEngine
  | _, .time, s                     => (.ok s.now, s)
  | _, .getHandlers topic, s        => (.ok <| s.jobHandlers.getD topic [], s)
  | _, .isMarked handler, s         => (.ok (handler ∈ s.unavailableHandlers), s)
  | _, .getMarks handler, s         =>
    match s.unavailableHandlers.get? handler with
    | some topics => (.ok topics, s)
    | none        => (.error <| .keyError Table.unavailableHandlers, s)
  | _, .newMarks handler, s         => (.ok (), s.setMarks handler [])
  | _, .addMark handler topic, s    =>
    match s.unavailableHandlers.get? handler with
    | some topics => (.ok (), s.setMarks handler <| topics.insert topic)
    | none        => (.error <| .keyError Table.unavailableHandlers, s)
  | _, .popMarks handler, s         =>
    match s.unavailableHandlers.get? handler with
    | some topics => (.ok topics, s.eraseMarks handler)
    | none        => (.error <| .keyError Table.unavailableHandlers, s)
  | _, .getReport handler, s        => (.ok <| s.moduleAvailability.getD handler (.dict []), s)
  | _, .setReport sender v, s       => (.ok (), s.setReport sender v)
  | _, .getRoundRobin topic, s      => (.ok <| s.jobRoundRobin.getD topic 0, s)
  | _, .setRoundRobin topic idx, s  => (.ok (), s.setRoundRobin topic idx)
  | _, .getPending c, s             => (.ok <| s.pendingJobs.get? c, s)
  | _, .setPending c identity, s    => (.ok (), s.setPending c identity)
  | _, .popPending c, s             => (.ok (), s.erasePending c)
  | _, .delPending c, s             =>
    if c ∈ s.pendingJobs then (.ok (), s.erasePending c)
    else (.error <| .keyError Table.pendingJobs, s)
  | _, .track c info, s             => (.ok (), s.track c info)
  | _, .untrack c, s                => (.ok <| (s.jobTracking.get? c).map (⟨c, ·⟩), s.untrack c)
  | _, .retrack ref, s              => (.ok (), s.retrack ref)
  | _, .read ref, s                 => (.ok <| s.infos ref, s)
  | _, .setHandler ref handler, s   =>
    (.ok (), s.setInfo ref { s.infos ref with handlerId := handler })
  | _, .setDispatchTime ref time, s =>
    (.ok (), s.setInfo ref { s.infos ref with dispatchTime := time })
  | _, .findTimedOut time, s        => (timedOutJobs time s.tracked, s)
  | _, .findWaiting topics, s       => (.ok <| s.waiting topics, s)
  | _, .send o, s                   =>
    if works o then (.ok (), s.emit o) else (.error .zmqError, s)
  | _, .persist c topic frame, s    =>
    match deserialize frame with
    | none     => (.error .valueError, s)
    | some msg =>
      if works (.deadLetter c topic msg) then (.ok (), s.emit (.deadLetter c topic msg))
      else (.error .ioError, s)

end TycheEngine

end Python
