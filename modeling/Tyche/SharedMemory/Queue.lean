import Mathlib.Order.Lattice
import Tyche.Bytes
import Tyche.Fifo
import Tyche.Machine

namespace SharedMemoryQueue

structure Config where
  slotCount  : BitVec 32
  maxMsgSize : BitVec 32

structure Slot where
  sequence : BitVec 32
  size     : BitVec 32
  data     : Bytes

-- A valid mapping of the segment. The header's copies of `slot_count` and `max_msg_size` are those
-- of the configuration, which the constructor writes or checks.
structure Queue where
  config   : Config
  writeSeq : BitVec 32
  readSeq  : BitVec 32
  slots    : ℕ → Slot

-- The segment as its owner leaves it: zeroed, with the number of each slot as its sequence.
def create (config : Config) : Queue where
  config   := config
  writeSeq := 0
  readSeq  := 0
  slots i  := { sequence := .ofNat 32 i, size := 0, data := .replicate config.maxMsgSize.toNat 0 }

namespace Queue

def slotHeader (q : Queue) (index : BitVec 32) : Option Slot :=
  if index < q.config.slotCount then some (q.slots index.toNat) else none

def setSlot (q : Queue) (index : BitVec 32) (slot : Slot) : Queue :=
  { q with slots := Function.update q.slots index.toNat slot }

def memcpy (dst src : Bytes) : Bytes :=
  src ++ dst.drop src.length

-- The outcome of one pass through the loop of `write`.
inductive Pass
  | done (accepted : Bool) (q : Queue)
  | retry (pos : BitVec 32)

-- The difference of the two `int32_t` values is taken in two's complement. The compare-and-swap
-- succeeds exactly when `write_seq` still is `pos`; a spurious failure of the weak form would
-- repeat this pass unchanged.
def writePass (q : Queue) (data : Bytes) (pos : BitVec 32) : Pass :=
  let idx := pos % q.config.slotCount
  match q.slotHeader idx with
  | none => .done false q
  | some sh =>
    let diff := (sh.sequence - pos).toInt
    if diff = 0 then
      if q.writeSeq = pos then
        let slot := { sequence := pos + 1, size := .ofNat 32 data.length, data := memcpy sh.data data }
        .done true <| { q with writeSeq := pos + 1 }.setSlot idx slot
      else
        .retry q.writeSeq
    else if diff < 0 then
      .done false q
    else
      .retry q.writeSeq

-- The loop of `write`, which is unbounded. It has no result when `fuel` passes do not end it.
def writeLoop (q : Queue) (data : Bytes) : (fuel : ℕ) → (pos : BitVec 32) → Option (Bool × Queue)
  | 0,        _   => none
  | fuel + 1, pos =>
    match q.writePass data pos with
    | .done accepted q' => some (accepted, q')
    | .retry pos'       => q.writeLoop data fuel pos'

def write (q : Queue) (data : Bytes) (fuel : ℕ) : Option (Bool × Queue) :=
  if data.length = 0 ∨ q.config.maxMsgSize.toNat < data.length then
    some (false, q)
  else
    q.writeLoop data fuel q.writeSeq

def read (q : Queue) : Option Bytes × Queue :=
  let pos := q.readSeq
  let idx := pos % q.config.slotCount
  match q.slotHeader idx with
  | none => (none, q)
  | some sh =>
    let diff := (sh.sequence - (pos + 1)).toInt
    if diff = 0 then
      let msgSize := min sh.size.toNat q.config.maxMsgSize.toNat
      let slot := { sh with sequence := pos + q.config.slotCount + 1 }
      (some (sh.data.take msgSize), { q with readSeq := pos + 1 }.setSlot idx slot)
    else
      (none, q)

def size (q : Queue) : ℕ :=
  if q.readSeq ≤ q.writeSeq then (q.writeSeq - q.readSeq).toNat else 0

end Queue

inductive Call
  | write (data : Bytes)
  | read

-- What a call returns, and what `size` returns after it.
inductive Reply
  | written (accepted : Bool) (size : ℕ)
  | message (data : Option Bytes) (size : ℕ)
deriving DecidableEq

def Queue.call (q : Queue) (fuel : ℕ) : Call → Option (Reply × Queue)
  | .write data => (q.write data fuel).map fun (b, q') => (.written b q'.size, q')
  | .read       => let (m, q') := q.read; some (.message m q'.size, q')

-- The replies to a sequence of calls that one writer and one reader complete one after the other.
def Queue.replies (q : Queue) (fuel : ℕ) : List Call → Option (List Reply)
  | []      => some []
  | c :: cs => do
    let (r, q') ← q.call fuel c
    let rs ← q'.replies fuel cs
    return r :: rs

-- The purpose of the queue: a bounded first-in-first-out buffer of messages.
section Spec

def Config.Admits (c : Config) (data : Bytes) : Prop :=
  data.length ≠ 0 ∧ data.length ≤ c.maxMsgSize.toNat

instance {c : Config} {data : Bytes} : Decidable (c.Admits data) :=
  inferInstanceAs <| Decidable (_ ∧ _)

def Config.specCall (c : Config) (f : Fifo Bytes) : Call → Reply × Fifo Bytes
  | .write data =>
    if c.Admits data ∧ f.size ≠ c.slotCount.toNat then
      (.written true (f.offer data).size, f.offer data)
    else
      (.written false f.size, f)
  | .read => (.message f.front? f.take.size, f.take)

def Config.spec (c : Config) : Machine (Fifo Bytes) Call where
  step f call := some (c.specCall f call).2

def Config.specReplies (c : Config) (f : Fifo Bytes) : List Call → List Reply
  | []          => []
  | call :: cs => (c.specCall f call).1 :: c.specReplies (c.specCall f call).2 cs

-- The queue answers the calls as a bounded first-in-first-out buffer does, and each call returns.
def Conforms (c : Config) (calls : List Call) : Prop :=
  ∃ enough, ∀ fuel ≥ enough, (create c).replies fuel calls = some (c.specReplies .empty calls)

end Spec

end SharedMemoryQueue
