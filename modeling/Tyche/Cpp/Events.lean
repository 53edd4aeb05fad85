import Tyche.Cpp.Engine
import Tyche.Cpp.RingBuffer
import Tyche.Proc

namespace Cpp

-- Which event this is, and whether it was injected. It is not a part of the engine's data.
structure Event where
  number   : ℕ
  injected : Bool
deriving DecidableEq

structure QueueItem where
  enqueueTime : ℚ
  frames      : List Bytes
  event       : Event
deriving DecidableEq

-- The strategy is to drop the oldest item. The logs tell which items were put into the queue, which
-- of them were taken out of it by the egress worker, and which were overwritten.
structure TopicQueue where
  capacity    : ℕ
  items       : List QueueItem
  accepted    : List QueueItem
  drained     : List QueueItem
  overwritten : List QueueItem

namespace TopicQueue

def new (requestedCapacity : BitVec 64) : TopicQueue where
  capacity    := (RingBuffer.capacity requestedCapacity).toNat
  items       := []
  accepted    := []
  drained     := []
  overwritten := []

def put (q : TopicQueue) (item : QueueItem) : TopicQueue :=
  if q.items.length < q.capacity then
    { q with items := q.items ++ [item], accepted := q.accepted ++ [item] }
  else
    { q with
      items       := q.items.tail ++ [item]
      accepted    := q.accepted ++ [item]
      overwritten := q.overwritten ++ q.items.head?.toList }

def get (q : TopicQueue) : Option QueueItem × TopicQueue :=
  match q.items with
  | []            => (none, q)
  | item :: items => (some item, { q with items := items, drained := q.drained ++ [item] })

end TopicQueue

-- The part of the engine that deals with events. The queues are objects that their holders share,
-- of which `created` have been made so far. The egress worker goes through a `snapshot` of them.
-- `sent` and `persisted` are logs.
structure Events where
  now              : ℚ
  modules          : Dict ModuleId ModuleInfo
  topicSubscribers : Dict Bytes (List ModuleId)
  topicProducers   : Dict Bytes (List ModuleId)
  topicQueues      : Dict Bytes ℕ
  lastAccess       : Dict Bytes ℚ
  queues           : ℕ → TopicQueue
  created          : ℕ
  snapshot         : List (Bytes × ℕ)
  sent             : List Event
  persisted        : List Event

namespace Events

-- All queues are made with the capacity of the engine.
def start (now : ℚ) (queueCapacity : BitVec 32) : Events where
  now              := now
  modules          := ∅
  topicSubscribers := ∅
  topicProducers   := ∅
  topicQueues      := ∅
  lastAccess       := ∅
  queues _         := .new <| queueCapacity.signExtend 64
  created          := 0
  snapshot         := []
  sent             := []
  persisted        := []

def broadcastTtl : ℚ :=
  60

def topicQueueTtl : ℚ :=
  60

def setQueue (s : Events) (q : ℕ) (queue : TopicQueue) : Events :=
  { s with queues := fun p => if p = q then queue else s.queues p }

def getOrCreate (s : Events) (topic : Bytes) : ℕ × Events :=
  match s.topicQueues.get? topic with
  | some q => (q, s)
  | none   =>
    (s.created, { s with
      topicQueues := s.topicQueues.set topic s.created
      lastAccess  := if topic ∈ s.lastAccess then s.lastAccess else s.lastAccess.set topic 0
      created     := s.created + 1 })

def touch (s : Events) (topic : Bytes) (time : ℚ) : Events :=
  { s with lastAccess := s.lastAccess.set topic time }

def erase (s : Events) (topic : Bytes) : Events :=
  { s with
    topicQueues := s.topicQueues.erase topic
    lastAccess  := s.lastAccess.erase topic }

def activeTopics (s : Events) : List Bytes :=
  let active (d : Dict Bytes (List ModuleId)) := (d.entries.filter (·.2 ≠ [])).map Prod.fst
  active s.topicSubscribers ++ active s.topicProducers

end Events

-- The operations that are atomic: those under the lock of a bucket of the map of queues, those on a
-- queue, and those of the egress worker and the monitor on their own data.
inductive EventOp : Type → Type
  | time : EventOp ℚ
  | send (e : Event) (frames : List Bytes) : EventOp Unit
  | getRaw (topic : Bytes) : EventOp (Option ℕ)
  | getOrCreate (topic : Bytes) : EventOp ℕ
  | put (q : ℕ) (item : QueueItem) : EventOp Unit
  | touch (topic : Bytes) (time : ℚ) : EventOp Unit
  | nextQueue : EventOp (Option (Bytes × ℕ))
  | takeSnapshot : EventOp Unit
  | skipQueue : EventOp Unit
  | get (q : ℕ) : EventOp (Option QueueItem)
  | persist (e : Event) (frame : Bytes) : EventOp Unit
  | activeTopics : EventOp (List Bytes)
  | topics : EventOp (List Bytes)
  | lastAccess (topic : Bytes) : EventOp ℚ
  | erase (topic : Bytes) : EventOp Unit

namespace Events

-- `works` tells which of the messages can be sent, or be decoded and persisted. What fails is
-- ignored.
def exec (works : List Bytes → Bool) :
    ∀ {β : Type}, EventOp β → Events → Except Empty β × Events
  | _, .time, s              => (.ok s.now, s)
  | _, .send e frames, s     => (.ok (), if works frames then { s with sent := s.sent ++ [e] } else s)
  | _, .getRaw topic, s      => (.ok <| s.topicQueues.get? topic, s)
  | _, .getOrCreate topic, s => (.ok (s.getOrCreate topic).1, (s.getOrCreate topic).2)
  | _, .put q item, s        => (.ok (), s.setQueue q <| (s.queues q).put item)
  | _, .touch topic time, s  => (.ok (), s.touch topic time)
  | _, .nextQueue, s         => (.ok s.snapshot.head?, s)
  | _, .takeSnapshot, s      => (.ok (), { s with snapshot := s.topicQueues.entries })
  | _, .skipQueue, s         => (.ok (), { s with snapshot := s.snapshot.tail })
  | _, .get q, s             => (.ok (s.queues q).get.1, s.setQueue q (s.queues q).get.2)
  | _, .persist e frame, s   =>
    (.ok (), if works [frame] then { s with persisted := s.persisted ++ [e] } else s)
  | _, .activeTopics, s      => (.ok s.activeTopics, s)
  | _, .topics, s            => (.ok s.topicQueues.keys, s)
  | _, .lastAccess topic, s  => (.ok <| s.lastAccess.getD topic 0, s)
  | _, .erase topic, s       => (.ok (), s.erase topic)

def addTo (d : Dict Bytes (List ModuleId)) (topic : Bytes) (m : ModuleId) :
    Dict Bytes (List ModuleId) :=
  let l := d.getD topic []
  d.set topic <| if m ∈ l then l else l ++ [m]

def registerInterface (m : ModuleId) (s : Events) (i : Interface) : Events :=
  let s := (s.getOrCreate i.eventType).2
  match i.pattern with
  | .on              => { s with topicSubscribers := addTo s.topicSubscribers i.eventType m }
  | .send | .request => { s with topicProducers := addTo s.topicProducers i.eventType m }
  | .handle          => s

def registerModule (s : Events) (info : ModuleInfo) : Events :=
  info.interfaces.foldl (registerInterface info.moduleId)
    { s with modules := s.modules.set info.moduleId info }

def unregisterModule (s : Events) (m : ModuleId) : Events :=
  if m ∈ s.modules then
    { s with
      modules          := s.modules.erase m
      topicSubscribers := s.topicSubscribers.mapVal (·.filter (· ≠ m))
      topicProducers   := s.topicProducers.mapVal (·.filter (· ≠ m)) }
  else s

def elapse (s : Events) (duration : ℚ) : Events :=
  { s with now := s.now + duration }

end Events

end Cpp
