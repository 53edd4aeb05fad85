import Tyche.Cpp.TopicQueue
import Tyche.Dict

namespace Cpp.Frames

def SSO_SIZE : ℕ :=
  64

-- The size 0xFF marks a frame whose bytes are on the heap.
structure Frame where
  size    : UInt8
  ssoBuf  : Bytes
  heapPtr : Option Bytes
  heapLen : ℕ

namespace Frame

def empty : Frame where
  size    := 0
  ssoBuf  := .replicate SSO_SIZE 0
  heapPtr := none
  heapLen := 0

def memcpy (dst src : Bytes) : Bytes :=
  src ++ dst.drop src.length

def new (data : Bytes) : Frame :=
  if data.length ≤ SSO_SIZE then
    { empty with size := .ofNat data.length, ssoBuf := memcpy empty.ssoBuf data }
  else
    { empty with size := 0xFF, heapLen := data.length, heapPtr := some data }

-- The bytes on the heap are copied, those in a buffer as many as the size says.
def copy (other : Frame) : Frame :=
  if other.size = 0xFF then
    { empty with
      size    := other.size
      heapLen := other.heapLen
      heapPtr := other.heapPtr.map (·.take other.heapLen) }
  else
    { empty with
      size    := other.size
      heapLen := other.heapLen
      ssoBuf  := memcpy empty.ssoBuf (other.ssoBuf.take other.size.toNat) }

def moveAssign (f other : Frame) : Frame :=
  if other.size = 0xFF then
    { f with size := other.size, heapLen := other.heapLen, heapPtr := other.heapPtr }
  else
    { f with
      size    := other.size
      heapLen := other.heapLen
      ssoBuf  := memcpy f.ssoBuf (other.ssoBuf.take other.size.toNat) }

def toVector (f : Frame) : Bytes :=
  if f.size = 0xFF then (f.heapPtr.getD []).take f.heapLen else f.ssoBuf.take f.size.toNat

end Frame

-- The number of the message is not a part of the engine's data.
structure QueueItem where
  enqueueTime : ℚ
  frames      : List Frame
  number      : ℕ

def MAX_FRAMES : ℕ :=
  4

-- The array of frames on the stack, as far as it is filled.
def fixedFrames (frames : List Bytes) : List Frame :=
  (frames.take MAX_FRAMES).map fun data => Frame.empty.moveAssign (.new data)

-- The queues of the topics. The messages received are numbered, and `drained` is a log of the items
-- that the egress worker has taken out of the queue of a topic.
structure Topics where
  queueCapacity : BitVec 32
  queues        : Dict Bytes (RingBuffer.TopicQueue QueueItem)
  received      : ℕ
  drained       : List (Bytes × QueueItem)

namespace Topics

def start (queueCapacity : BitVec 32) : Topics where
  queueCapacity := queueCapacity
  queues        := ∅
  received      := 0
  drained       := []

def getOrCreate (s : Topics) (topic : Bytes) : RingBuffer.TopicQueue QueueItem :=
  s.queues.getD topic <| .create (s.queueCapacity.signExtend 64) .dropOldest

-- A message of the publishers has been received, of which `fuel` bounds the loops of `put`.
def enqueueFromXsub (s : Topics) (now : ℚ) (frames : List Bytes) (fuel : ℕ) : Option Topics :=
  match frames with
  | topic :: _ :: _ => do
    let q := s.getOrCreate topic
    let frames := (fixedFrames frames).map Frame.copy
    let (_, q) ← q.put { enqueueTime := now, frames := frames, number := s.received } fuel
    some { s with queues := s.queues.set topic q, received := s.received + 1 }
  | _ => some { s with received := s.received + 1 }

-- The egress worker goes on with the queue of a topic.
def drain (s : Topics) (topic : Bytes) : Option Topics :=
  match s.queues.get? topic with
  | none   => some s
  | some q => do
    let (item, q) ← q.get
    some { s with
      queues  := s.queues.set topic q
      drained := s.drained ++ item.toList.map fun item => (topic, item) }

inductive Action
  | receive (now : ℚ) (frames : List Bytes)
  | drain (topic : Bytes)

def machine (fuel : ℕ) : Machine Topics Action where
  step s
    | .receive now frames => s.enqueueFromXsub now frames fuel
    | .drain topic        => s.drain topic

end Topics

-- A message with its number.
abbrev Numbered :=
  ℕ × List Bytes

def QueueItem.message (item : QueueItem) : Numbered :=
  (item.number, item.frames.map Frame.toVector)

def Topics.drainedOf (s : Topics) (topic : Bytes) : List Numbered :=
  (s.drained.filter (·.1 = topic)).map (·.2.message)

-- A message for the queue of the topic.
def Addressed (topic : Bytes) (frames : List Bytes) : Prop :=
  frames.head? = some topic ∧ 2 ≤ frames.length

instance {topic : Bytes} {frames : List Bytes} : Decidable (Addressed topic frames) :=
  inferInstanceAs <| Decidable (_ ∧ _)

-- The messages for a topic among those received, of which the first has the number `n`.
def received (topic : Bytes) : (n : ℕ) → List Topics.Action → List Numbered
  | _, []                     => []
  | n, .receive _ frames :: as =>
    if Addressed topic frames then (n, frames) :: received topic (n + 1) as
    else received topic (n + 1) as
  | n, .drain _ :: as          => received topic n as

-- What is drained from a topic's queue is a subsequence of what was received for it.
def Whole (queueCapacity : BitVec 32) (topic : Bytes) (as : List Topics.Action) : Prop :=
  ∃ enough, ∀ fuel ≥ enough, ∃ s,
    (Topics.machine fuel).exec (.start queueCapacity) as = some s ∧
      (s.drainedOf topic).Sublist (received topic 0 as)

-- The queue of a topic as it should be: bounded, and of whole messages.
structure Ideal where
  queue   : Fifo Numbered
  drained : List Numbered

namespace Ideal

def empty : Ideal where
  queue   := .empty
  drained := []

-- The state after the actions, of which the next message received has the number `n`.
def run (bound : ℕ) (topic : Bytes) : (n : ℕ) → Ideal → List Topics.Action → Ideal
  | _, i, []                      => i
  | n, i, .receive _ frames :: as =>
    if Addressed topic frames then
      run bound topic (n + 1) { i with queue := RingBuffer.specOverwrite bound i.queue (n, frames) } as
    else
      run bound topic (n + 1) i as
  | n, i, .drain t :: as          =>
    if t = topic then
      run bound topic n
        { queue := i.queue.take, drained := i.drained ++ i.queue.front?.toList } as
    else
      run bound topic n i as

end Ideal

end Cpp.Frames
