import Tyche.Cpp.RingBuffer
import Tyche.Types

namespace Cpp.RingBuffer

-- It has no result when the buffer is still full after `fuel` attempts. Nobody else takes items out
-- of it meanwhile.
def Buffer.pushBlocking {α : Type} (b : Buffer α) (item : α) : (fuel : ℕ) → Option (Buffer α)
  | 0        => none
  | fuel + 1 => do
    let (accepted, b) ← b.tryPush item fuel
    if accepted then some b else b.pushBlocking item fuel

structure TopicQueue (α : Type) where
  buffer    : Buffer α
  strategy  : BackpressureStrategy
  processed : BitVec 64
  dropped   : BitVec 64

namespace TopicQueue

variable {α : Type}

def create (capacity : BitVec 64) (strategy : BackpressureStrategy) : TopicQueue α where
  buffer    := RingBuffer.create α capacity
  strategy  := strategy
  processed := 0
  dropped   := 0

def put (q : TopicQueue α) (item : α) (fuel : ℕ) : Option (Bool × TopicQueue α) :=
  match q.strategy with
  | .dropOldest =>
    (q.buffer.pushOverwrite item fuel).map fun b => (true, { q with buffer := b })
  | .dropNewest =>
    (q.buffer.tryPush item fuel).map fun (accepted, b) =>
      if accepted then (true, { q with buffer := b })
      else (false, { q with buffer := b, dropped := q.dropped + 1 })
  | .blockProducer =>
    (q.buffer.pushBlocking item fuel).map fun b => (true, { q with buffer := b })

def get (q : TopicQueue α) : Option (Option α × TopicQueue α) :=
  q.buffer.pop.map fun (item, b) =>
    if item.isSome then (item, { q with buffer := b, processed := q.processed + 1 })
    else (item, { q with buffer := b })

def size (q : TopicQueue α) : ℕ :=
  q.buffer.size

inductive Call (α : Type)
  | put (item : α)
  | get

def call (q : TopicQueue α) (fuel : ℕ) : Call α → Option (TopicQueue α)
  | .put item => (q.put item fuel).map Prod.snd
  | .get      => q.get.map Prod.snd

def machine (α : Type) (fuel : ℕ) : Machine (TopicQueue α) (Call α) where
  step q c := q.call fuel c

def offered (calls : List (Call α)) : ℕ :=
  calls.countP fun
    | .put _ => true
    | .get   => false

-- What becomes of the items that are offered to a bounded queue.
structure Tally (α : Type) where
  queue       : Fifo α
  overwritten : ℕ
  refused     : ℕ

def Tally.empty : Tally α where
  queue       := .empty
  overwritten := 0
  refused     := 0

-- A producer that blocks does not complete its call on a full queue.
def Tally.call (bound : ℕ) (strategy : BackpressureStrategy) (t : Tally α) :
    Call α → Option (Tally α)
  | .put item =>
    if t.queue.size < bound then
      some { t with queue := t.queue.offer item }
    else match strategy with
      | .dropOldest    =>
        some { t with queue := t.queue.take.offer item, overwritten := t.overwritten + 1 }
      | .dropNewest    => some { t with refused := t.refused + 1 }
      | .blockProducer => none
  | .get => some { t with queue := t.queue.take }

def spec (α : Type) (bound : ℕ) (strategy : BackpressureStrategy) : Machine (Tally α) (Call α) where
  step t c := t.call bound strategy c

-- Calls that can all be completed are, and then the figures add up.
def Balanced (capacity : BitVec 64) (strategy : BackpressureStrategy) (calls : List (Call α)) : Prop :=
  ∀ t, (spec α (bound capacity) strategy).exec .empty calls = some t → ∃ enough, ∀ fuel ≥ enough,
    ∃ q, (machine α fuel).exec (create capacity strategy) calls = some q ∧
      offered calls = q.processed.toNat + q.dropped.toNat + q.size

end TopicQueue

end Cpp.RingBuffer
