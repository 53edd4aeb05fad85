import Tyche.Python.Engine

namespace Python

-- The enqueue time and the frames of a message.
structure QueueEntry where
  enqueueTime : ℚ
  frames      : List Bytes

-- The logs tell which entries were put into the queue, which of them were taken out of it by the
-- egress worker, and which of them made room for newer ones.
structure TopicQueue where
  items     : List QueueEntry
  capacity  : Value
  processed : ℕ
  dropped   : ℕ
  accepted  : List QueueEntry
  drained   : List QueueEntry
  evicted   : List QueueEntry

namespace TopicQueue

def new (capacity : Value) : TopicQueue where
  items     := []
  capacity  := capacity
  processed := 0
  dropped   := 0
  accepted  := []
  drained   := []
  evicted   := []

-- Whether the queue has no room for a further entry. A capacity of `None` is no limit.
def full (q : TopicQueue) : Except Error Bool :=
  match q.capacity with
  | .none => .ok false
  | c     => c.number.map fun x => decide (x.ReachedBy q.items.length)

def drop (q : TopicQueue) : TopicQueue :=
  { q with dropped := q.dropped + 1 }

def append (q : TopicQueue) (e : QueueEntry) : TopicQueue :=
  { q with items := q.items ++ [e], accepted := q.accepted ++ [e] }

end TopicQueue

-- The part of the engine that deals with events. The queues are objects that their holders share,
-- of which `created` have been made so far. The egress worker goes through a `snapshot` of them.
structure Events where
  now               : ℚ
  modules           : Dict ModuleId ModuleInfo
  queueCapacity     : Option ℤ
  topicEventMap     : Dict Key Key
  topicQueues       : Dict Key ℕ
  topicBackpressure : Dict Key BackpressureStrategy
  topicMaxDepth     : Dict Key Value
  topicTtl          : Dict Key Value
  topicSubscribers  : Dict Key (List ModuleId)
  topicProducers    : Dict Key (List ModuleId)
  topicLastAccess   : Dict Key ℚ
  queues            : ℕ → TopicQueue
  created           : ℕ
  snapshot          : List (Key × ℕ)
  locked            : Bool

namespace Events

def start (now : ℚ) (queueCapacity : Option ℤ) : Events where
  now               := now
  modules           := ∅
  queueCapacity     := queueCapacity
  topicEventMap     := ∅
  topicQueues       := ∅
  topicBackpressure := ∅
  topicMaxDepth     := ∅
  topicTtl          := ∅
  topicSubscribers  := ∅
  topicProducers    := ∅
  topicLastAccess   := ∅
  queues _          := .new .none
  created           := 0
  snapshot          := []
  locked            := false

def defaultBroadcastTtl : Value :=
  .float (.fin 60) 0

def topicQueueTtl : ℚ :=
  60

def setQueue (s : Events) (q : ℕ) (queue : TopicQueue) : Events :=
  { s with queues := fun p => if p = q then queue else s.queues p }

def newQueue (s : Events) (topic : Key) (capacity : Value) : Events :=
  { s.setQueue s.created (.new capacity) with
    topicQueues := s.topicQueues.set topic s.created
    created     := s.created + 1 }

def touch (s : Events) (topic : Key) : Events :=
  { s with topicLastAccess := s.topicLastAccess.set topic s.now }

-- The capacity of the queues that are made for topics that nobody has registered.
def capacity (s : Events) : Value :=
  s.queueCapacity.elim .none .int

-- `self._queue_capacity or 10000`
def defaultDepth (s : Events) : Value :=
  .int <| match s.queueCapacity with
    | some 0 | none => 10000
    | some n        => n

def strategy (s : Events) (topic : Key) : BackpressureStrategy :=
  s.topicBackpressure.getD topic .dropOldest

def maxDepth (s : Events) (topic : Key) : Value :=
  s.topicMaxDepth.getD topic s.defaultDepth

def ttl (s : Events) (topic : Key) : Value :=
  s.topicTtl.getD topic defaultBroadcastTtl

-- No module takes part in the topic, and it has not been accessed for a while.
def Idle (s : Events) (time : ℚ) (topic : Key) : Prop :=
  s.topicSubscribers.getD topic [] = [] ∧ s.topicProducers.getD topic [] = [] ∧
    topicQueueTtl < time - s.topicLastAccess.getD topic time

instance {s : Events} {time : ℚ} {topic : Key} : Decidable (s.Idle time topic) :=
  inferInstanceAs <| Decidable (_ ∧ _)

end Events

-- The operations that are atomic: those on a dictionary, and those under the lock of a queue. What
-- is done under `_topic_queues_lock` is in between `lock` and `unlock`, or a single operation.
inductive EventOp : Type → Type
  | time : EventOp ℚ
  | forward (frames : List Bytes) : EventOp Unit
  | getQueueKey (topic : Key) : EventOp Key
  | getQueue (topic : Key) : EventOp (Option ℕ)
  | lock : EventOp Unit
  | unlock : EventOp Unit
  | newQueue (topic : Key) : EventOp ℕ
  | getStrategy (topic : Key) : EventOp BackpressureStrategy
  | getMaxDepth (topic : Key) : EventOp Value
  | len (q : ℕ) : EventOp ℕ
  | put (q : ℕ) (e : QueueEntry) : EventOp Bool
  | get (q : ℕ) : EventOp (Option QueueEntry)
  | popleft (q : ℕ) : EventOp QueueEntry
  | countDropped (q : ℕ) : EventOp Unit
  | touch (topic : Key) : EventOp Unit
  | nextQueue : EventOp (Option (Key × ℕ))
  | takeSnapshot : EventOp Unit
  | skipQueue : EventOp Unit
  | getTtl (topic : Key) : EventOp Value
  | persist (topic : Key) (frame : Bytes) : EventOp Unit
  | topics : EventOp (List Key)
  | isIdle (time : ℚ) (topic : Key) : EventOp Bool
  | delete (topic : Key) : EventOp Unit
  | popLastAccess (topic : Key) : EventOp Unit

namespace Events

-- `works` tells which of the messages can be sent, or be decoded and persisted.
def exec (works : List Bytes → Bool) :
    ∀ {β : Type}, EventOp β → Events → Except Error β × Events
  | _, .time, s               => (.ok s.now, s)
  | _, .forward frames, s     => (if works frames then .ok () else .error .zmqError, s)
  | _, .getQueueKey topic, s  => (.ok <| s.topicEventMap.getD topic topic, s)
  | _, .getQueue topic, s     => (.ok <| s.topicQueues.get? topic, s)
  | _, .lock, s               => (.ok (), { s with locked := true })
  | _, .unlock, s             => (.ok (), { s with locked := false })
  | _, .newQueue topic, s     => (.ok s.created, s.newQueue topic s.capacity)
  | _, .getStrategy topic, s  => (.ok <| s.strategy topic, s)
  | _, .getMaxDepth topic, s  => (.ok <| s.maxDepth topic, s)
  | _, .len q, s              => (.ok (s.queues q).items.length, s)
  | _, .put q e, s            =>
    match (s.queues q).full with
    | .error e  => (.error e, s)
    | .ok true  => (.ok false, s.setQueue q (s.queues q).drop)
    | .ok false => (.ok true, s.setQueue q <| (s.queues q).append e)
  | _, .get q, s              =>
    match (s.queues q).items with
    | []      => (.ok none, s)
    | e :: es =>
      (.ok <| some e, s.setQueue q
        { s.queues q with
          items     := es
          processed := (s.queues q).processed + 1
          drained   := (s.queues q).drained ++ [e] })
  | _, .popleft q, s          =>
    match (s.queues q).items with
    | []      => (.error .indexError, s)
    | e :: es =>
      (.ok e, s.setQueue q
        { s.queues q with items := es, evicted := (s.queues q).evicted ++ [e] })
  | _, .countDropped q, s     => (.ok (), s.setQueue q (s.queues q).drop)
  | _, .touch topic, s        => (.ok (), s.touch topic)
  | _, .nextQueue, s          => (.ok s.snapshot.head?, s)
  | _, .takeSnapshot, s       => (.ok (), { s with snapshot := s.topicQueues.entries })
  | _, .skipQueue, s          => (.ok (), { s with snapshot := s.snapshot.tail })
  | _, .getTtl topic, s       => (.ok <| s.ttl topic, s)
  | _, .persist _ frame, s    => (if works [frame] then .ok () else .error .ioError, s)
  | _, .topics, s             => (.ok s.topicQueues.keys, s)
  | _, .isIdle time topic, s  => (.ok <| s.Idle time topic, s)
  | _, .delete topic, s       =>
    if topic ∈ s.topicQueues then (.ok (), { s with topicQueues := s.topicQueues.erase topic })
    else (.error <| .keyError none, s)
  | _, .popLastAccess topic, s =>
    (.ok (), { s with topicLastAccess := s.topicLastAccess.erase topic })

-- An operation that has to wait for the lock.
def Blocked {β : Type} (s : Events) : EventOp β → Prop
  | .lock | .takeSnapshot => s.locked
  | _                     => False

instance {β : Type} {s : Events} : ∀ o : EventOp β, Decidable (s.Blocked o)
  | .lock | .takeSnapshot => inferInstanceAs <| Decidable (_ = true)
  | .time | .forward _ | .getQueueKey _ | .getQueue _ | .unlock | .newQueue _ | .getStrategy _
  | .getMaxDepth _ | .len _ | .put .. | .get _ | .popleft _ | .countDropped _ | .touch _
  | .nextQueue | .skipQueue | .getTtl _ | .persist .. | .topics | .isIdle .. | .delete _
  | .popLastAccess _      => isFalse id

def addSubscriber (s : Events) (topic : Key) (m : ModuleId) : Events :=
  let subs := s.topicSubscribers.getD topic []
  { s with
    topicSubscribers := s.topicSubscribers.set topic <| if m ∈ subs then subs else subs ++ [m] }

def addProducer (s : Events) (topic : Key) (m : ModuleId) : Events :=
  let prods := s.topicProducers.getD topic []
  { s with
    topicProducers := s.topicProducers.set topic <| if m ∈ prods then prods else prods ++ [m] }

def configure (s : Events) (topic : Key) (i : Interface) : Events :=
  { s with
    topicEventMap     := s.topicEventMap.set topic topic
    topicBackpressure := s.topicBackpressure.set topic i.backpressure
    topicMaxDepth     := s.topicMaxDepth.set topic i.maxQueueDepth
    topicTtl          := match i.waitTimeout with
      | .none => s.topicTtl
      | v     => s.topicTtl.set topic v }

def registerInterface (s : Events) (m : ModuleId) (i : Interface) (topic : Key) : Events :=
  let s := s.configure topic i
  let s := if topic ∈ s.topicQueues then s else s.newQueue topic i.maxQueueDepth
  match i.pattern with
  | .on             => s.addSubscriber topic m
  | .send | .request => s.addProducer topic m
  | .handle         => s

def registerInterfaces (m : ModuleId) : List Interface → Events → Except Error Unit × Events
  | [], s      => (.ok (), s)
  | i :: is, s =>
    match i.eventType.hash with
    | .error e  => (.error e, s)
    | .ok topic => registerInterfaces m is <| s.registerInterface m i topic

def registerModule (s : Events) (info : ModuleInfo) : Except Error Unit × Events :=
  registerInterfaces info.moduleId info.interfaces
    { s with modules := s.modules.set info.moduleId info }

def removeFrom (d : Dict Key (List ModuleId)) (topic : Key) (m : ModuleId) :
    Dict Key (List ModuleId) :=
  if topic ∈ d then d.set topic <| (d.getD topic []).filter (· ≠ m) else d

def unregisterInterfaces (m : ModuleId) : List Interface → Events → Except Error Unit × Events
  | [], s      => (.ok (), s)
  | i :: is, s =>
    match i.eventType.hash with
    | .error e  => (.error e, s)
    | .ok topic => unregisterInterfaces m is
      { s with
        topicSubscribers := removeFrom s.topicSubscribers topic m
        topicProducers   := removeFrom s.topicProducers topic m }

def unregisterModule (s : Events) (m : ModuleId) : Except Error Unit × Events :=
  match s.modules.get? m with
  | none      => (.ok (), s)
  | some info =>
    match unregisterInterfaces m info.interfaces s with
    | (.ok _, s)    => (.ok (), { s with modules := s.modules.erase m })
    | (.error e, s) => (.error e, s)

end Events

end Python
