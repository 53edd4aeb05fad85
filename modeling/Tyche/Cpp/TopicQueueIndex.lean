import Tyche.Cpp.Registry
import Tyche.Machine
import Tyche.Memory
import Tyche.Slots

namespace Cpp

-- `α` is the type of pointers to topic queues that are not null. Until the first queue is set, there
-- is no vector.
structure TopicQueueIndex (α : Type*) where
  queues : Option (List (Option α))

-- The operations hold the lock from beginning to end, so those of several threads are a sequence, too.
inductive IndexOp (α : Type*)
  | get (id : InternId)
  | set (id : InternId) (q : Option α)
  | snapshot

inductive IndexResult (α : Type*)
  | queue (q : Option α)
  | done
  | queues (qs : List (InternId × α))
deriving DecidableEq

namespace TopicQueueIndex

variable {α : Type*}

def empty : TopicQueueIndex α where
  queues := none

def get (x : TopicQueueIndex α) (id : InternId) : Option α :=
  match x.queues with
  | none          => none
  | some snapshot => if id.toNat ≥ snapshot.length then none else snapshot.getD id.toNat none

-- The vector that takes the place of the old one, with a copy of its entries. Sizes are of 64 bits.
def resize (oldSnapshot : Option (List (Option α))) (neededSize : ℕ) : Option (List (Option α)) :=
  let newSize := (oldSnapshot.map fun old => old.length * 2 % 2 ^ 64).getD 64
  let newSize := if newSize < neededSize then neededSize else newSize
  let newSnapshot := .replicate newSize none
  match oldSnapshot with
  | none     => some newSnapshot
  | some old => Memory.store newSnapshot 0 old

def copy (oldSnapshot : Option (List (Option α))) (neededSize : ℕ) : Option (List (Option α)) :=
  match oldSnapshot with
  | none     => resize none neededSize
  | some old => if old.length ≥ neededSize then some old else resize (some old) neededSize

-- There is no result if the vector is written to outside of its bounds.
def set (x : TopicQueueIndex α) (id : InternId) (q : Option α) : Option (TopicQueueIndex α) := do
  let newSnapshot ← copy x.queues (id.toNat + 1)
  let newSnapshot ← Memory.store newSnapshot id.toNat [q]
  return { queues := some newSnapshot }

-- The numbers of the entries are of 32 bits.
def snapshot (x : TopicQueueIndex α) : List (InternId × α) :=
  match x.queues with
  | none     => []
  | some ptr => Slots.listing (.ofNat 32) (ptr.getD · none) ptr.length

def perform (x : TopicQueueIndex α) : IndexOp α → Option (IndexResult α × TopicQueueIndex α)
  | .get id   => some (.queue <| x.get id, x)
  | .set id q => (x.set id q).map (.done, ·)
  | .snapshot => some (.queues x.snapshot, x)

def results (x : TopicQueueIndex α) : List (IndexOp α) → Option (List (IndexResult α))
  | []      => some []
  | o :: os => do
    let (r, x) ← x.perform o
    let rs ← x.results os
    return r :: rs

def machine (α : Type*) : Machine (TopicQueueIndex α) (IndexOp α) where
  step x o := (x.perform o).map Prod.snd

-- The entries of the vector by their places.
def slots (x : TopicQueueIndex α) : List (Option α) :=
  x.queues.getD []

-- Whatever is set next, all other entries stay where they are, whether the vector grows or not.
def Retains (x : TopicQueueIndex α) : Prop :=
  ∀ id q, ∃ x', x.set id q = some x' ∧ x.slots.length ≤ x'.slots.length ∧
    ∀ i ≠ id.toNat, x'.slots.getD i none = x.slots.getD i none

end TopicQueueIndex

-- What an index is for: a map to the pointers that were last set.
abbrev QueueMap (α : Type*) :=
  InternId → Option α

namespace QueueMap

variable {α : Type*}

def empty : QueueMap α :=
  fun _ => none

def entries (m : QueueMap α) : List (InternId × α) :=
  Slots.listing (.ofNat 32) (fun i => m <| .ofNat 32 i) (2 ^ 32)

def perform (m : QueueMap α) : IndexOp α → IndexResult α × QueueMap α
  | .get id   => (.queue <| m id, m)
  | .set id q => (.done, Function.update m id q)
  | .snapshot => (.queues m.entries, m)

def results (m : QueueMap α) : List (IndexOp α) → List (IndexResult α)
  | []      => []
  | o :: os => (m.perform o).1 :: results (m.perform o).2 os

end QueueMap

end Cpp
