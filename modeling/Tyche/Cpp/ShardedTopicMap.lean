import Mathlib.Data.Multiset.Basic
import Mathlib.Logic.Function.Basic
import Tyche.Bytes
import Tyche.Dict
import Tyche.Refinement

namespace Cpp

-- FNV-1a with 64 bits.
def fnv1a64 (s : Bytes) : BitVec 64 :=
  s.foldl (fun hash c => (hash ^^^ c.toBitVec.setWidth 64) * 0x100000001b3) 0xcbf29ce484222325

structure Bucket (τ : Type) where
  entries         : List (Bytes × ℕ) := []
  lastAccessTimes : List (Bytes × τ) := []

-- A queue is known by its place among the queues that were `made`, which are given by the capacity
-- that was asked for. The buckets are those below the bucket count.
structure ShardedTopicQueueMap (τ : Type) where
  bucketCount : BitVec 64
  bucketMask  : BitVec 64
  buckets     : BitVec 64 → Bucket τ
  made        : List (BitVec 64)

-- The operations of a map of topic queues. The time of the last access is only asked for with `out`.
inductive MapOp (τ : Type)
  | getOrCreate (topic : Bytes) (queueCapacity : BitVec 64) (out : Bool)
  | find (topic : Bytes)
  | getRaw (topic : Bytes)
  | erase (topic : Bytes)
  | touch (topic : Bytes) (now : τ)
  | lastAccess (topic : Bytes)
  | snapshot
  | size

-- The order of a snapshot is not a part of the result.
inductive MapResult (τ : Type)
  | queue (q : ℕ) (lastAccess : Option τ)
  | found (q : Option ℕ)
  | done
  | time (t : τ)
  | queues (qs : Multiset (Bytes × ℕ))
  | count (n : ℕ)
deriving DecidableEq

namespace ShardedTopicQueueMap

variable {τ : Type}

-- `while (pow2 < bucket_count) pow2 <<= 1;` with at most so many rounds.
def roundUp (bucketCount : BitVec 64) : ℕ → BitVec 64 → Option (BitVec 64)
  | 0, _          => none
  | rounds + 1, p => if p < bucketCount then roundUp bucketCount rounds (p <<< 1) else some p

def empty (bucketCount bucketMask : BitVec 64) : ShardedTopicQueueMap τ where
  bucketCount := bucketCount
  bucketMask  := bucketMask
  buckets _   := {}
  made        := []

def new (bucketCount : BitVec 64) (rounds : ℕ) : Option (ShardedTopicQueueMap τ) :=
  if bucketCount &&& (bucketCount - 1) ≠ 0 then
    (roundUp bucketCount rounds 1).map fun pow2 => empty pow2 (pow2 - 1)
  else
    some <| empty bucketCount (bucketCount - 1)

def bucketIndex (s : ShardedTopicQueueMap τ) (topic : Bytes) : BitVec 64 :=
  fnv1a64 topic &&& s.bucketMask

def bucket (s : ShardedTopicQueueMap τ) (topic : Bytes) : Bucket τ :=
  s.buckets <| s.bucketIndex topic

def setBucket (s : ShardedTopicQueueMap τ) (topic : Bytes) (b : Bucket τ) :
    ShardedTopicQueueMap τ :=
  { s with buckets := Function.update s.buckets (s.bucketIndex topic) b }

def find (s : ShardedTopicQueueMap τ) (topic : Bytes) : Option ℕ :=
  (s.bucket topic).entries.lookup topic

def getRaw (s : ShardedTopicQueueMap τ) (topic : Bytes) : Option ℕ :=
  (s.bucket topic).entries.lookup topic

def erase (s : ShardedTopicQueueMap τ) (topic : Bytes) : ShardedTopicQueueMap τ :=
  s.setBucket topic
    { entries         := (s.bucket topic).entries.filter (·.1 ≠ topic)
      lastAccessTimes := (s.bucket topic).lastAccessTimes.filter (·.1 ≠ topic) }

def snapshot (s : ShardedTopicQueueMap τ) : List (Bytes × ℕ) :=
  (List.range s.bucketCount.toNat).flatMap fun i => (s.buckets <| .ofNat 64 i).entries

-- The first record of the topic is set, or a new one is added at the end.
def touchRecord (topic : Bytes) (now : τ) : List (Bytes × τ) → List (Bytes × τ)
  | []            => [(topic, now)]
  | (t, la) :: rs => if t = topic then (t, now) :: rs else (t, la) :: touchRecord topic now rs

def touch (s : ShardedTopicQueueMap τ) (topic : Bytes) (now : τ) : ShardedTopicQueueMap τ :=
  s.setBucket topic
    { s.bucket topic with
      lastAccessTimes := touchRecord topic now (s.bucket topic).lastAccessTimes }

def size (s : ShardedTopicQueueMap τ) : ℕ :=
  ((List.range s.bucketCount.toNat).map fun i => (s.buckets <| .ofNat 64 i).entries.length).sum

variable [Zero τ]

def create (s : ShardedTopicQueueMap τ) (topic : Bytes) (queueCapacity : BitVec 64) :
    ShardedTopicQueueMap τ :=
  let b : Bucket τ :=
    { entries         := (s.bucket topic).entries ++ [(topic, s.made.length)]
      lastAccessTimes := (s.bucket topic).lastAccessTimes ++ [(topic, 0)] }
  { s.setBucket topic b with made := s.made ++ [queueCapacity] }

def getOrCreate (s : ShardedTopicQueueMap τ) (topic : Bytes) (queueCapacity : BitVec 64)
    (out : Bool) : MapResult τ × ShardedTopicQueueMap τ :=
  match (s.bucket topic).entries.lookup topic with
  | some q =>
    (.queue q <| if out then (s.bucket topic).lastAccessTimes.lookup topic else none, s)
  | none   =>
    (.queue s.made.length <| if out then some 0 else none, s.create topic queueCapacity)

def lastAccess (s : ShardedTopicQueueMap τ) (topic : Bytes) : τ :=
  ((s.bucket topic).lastAccessTimes.lookup topic).getD 0

def perform (s : ShardedTopicQueueMap τ) : MapOp τ → MapResult τ × ShardedTopicQueueMap τ
  | .getOrCreate topic queueCapacity out => s.getOrCreate topic queueCapacity out
  | .find topic       => (.found <| s.find topic, s)
  | .getRaw topic     => (.found <| s.getRaw topic, s)
  | .erase topic      => (.done, s.erase topic)
  | .touch topic now  => (.done, s.touch topic now)
  | .lastAccess topic => (.time <| s.lastAccess topic, s)
  | .snapshot         => (.queues s.snapshot, s)
  | .size             => (.count s.size, s)

end ShardedTopicQueueMap

-- What a map of topic queues is for: one dictionary with the queues and one with the times of the
-- last accesses.
structure TopicQueueMap (τ : Type) where
  queues : Dict Bytes ℕ
  times  : Dict Bytes τ
  made   : List (BitVec 64)

namespace TopicQueueMap

variable {τ : Type} [Zero τ]

def empty : TopicQueueMap τ where
  queues := ∅
  times  := ∅
  made   := []

def lastAccess (d : TopicQueueMap τ) (topic : Bytes) : τ :=
  d.times.getD topic 0

def create (d : TopicQueueMap τ) (topic : Bytes) (queueCapacity : BitVec 64) : TopicQueueMap τ where
  queues := d.queues.set topic d.made.length
  times  := d.times.set topic 0
  made   := d.made ++ [queueCapacity]

def perform (d : TopicQueueMap τ) : MapOp τ → MapResult τ × TopicQueueMap τ
  | .getOrCreate topic queueCapacity out =>
    match d.queues.get? topic with
    | some q => (.queue q <| if out then d.times.get? topic else none, d)
    | none   =>
      (.queue d.made.length <| if out then some 0 else none, d.create topic queueCapacity)
  | .find topic       => (.found <| d.queues.get? topic, d)
  | .getRaw topic     => (.found <| d.queues.get? topic, d)
  | .erase topic      =>
    (.done, { d with queues := d.queues.erase topic, times := d.times.erase topic })
  | .touch topic now  => (.done, { d with times := d.times.set topic now })
  | .lastAccess topic => (.time <| d.lastAccess topic, d)
  | .snapshot         => (.queues d.queues.entries, d)
  | .size             => (.count d.queues.entries.length, d)

end TopicQueueMap

def shardedTopicQueueMap (τ : Type) [Zero τ] :
    Component (ShardedTopicQueueMap τ) (MapOp τ) (MapResult τ) where
  perform := ShardedTopicQueueMap.perform

def topicQueueMap (τ : Type) [Zero τ] : Component (TopicQueueMap τ) (MapOp τ) (MapResult τ) where
  perform := TopicQueueMap.perform

end Cpp
