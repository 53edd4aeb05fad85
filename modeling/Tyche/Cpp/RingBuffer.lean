import Mathlib.Data.Nat.Log
import Tyche.Bytes
import Tyche.Fifo
import Tyche.Machine

namespace Cpp.RingBuffer

-- Rounding up to the next power of two, on `size_t`.
def nextPowerOf2 (n : BitVec 64) : BitVec 64 :=
  if n ≤ 1 then 1
  else
    let n := n - 1
    let n := n ||| n >>> 1
    let n := n ||| n >>> 2
    let n := n ||| n >>> 4
    let n := n ||| n >>> 8
    let n := n ||| n >>> 16
    let n := n ||| n >>> 32
    n + 1

def mask (requestedCapacity : BitVec 64) : BitVec 64 :=
  nextPowerOf2 (if requestedCapacity < 2 then 2 else requestedCapacity) - 1

def capacity (requestedCapacity : BitVec 64) : BitVec 64 :=
  mask requestedCapacity + 1

example : capacity 10000 = 16384 := by decide

-- The data is `none` where there is no value to rely on: before the first push into the slot and
-- after a pop has moved the value out of it.
structure Slot (α : Type) where
  sequence : BitVec 64
  data     : Option α

structure Buffer (α : Type) where
  mask     : BitVec 64
  writePos : BitVec 64
  readPos  : BitVec 64
  slots    : ℕ → Slot α

def create (α : Type) (requestedCapacity : BitVec 64) : Buffer α where
  mask     := mask requestedCapacity
  writePos := 0
  readPos  := 0
  slots i  := { sequence := .ofNat 64 i, data := none }

namespace Buffer

variable {α : Type}

-- There are `mask + 1` slots. An access beyond them has no result.
def slot? (b : Buffer α) (pos : BitVec 64) : Option (Slot α) :=
  if pos &&& b.mask < b.mask + 1 then some (b.slots (pos &&& b.mask).toNat) else none

def setSlot (b : Buffer α) (pos : BitVec 64) (slot : Slot α) : Buffer α :=
  { b with slots := Function.update b.slots (pos &&& b.mask).toNat slot }

-- The outcome of one pass through the loop of `try_push`.
inductive Pass (α : Type)
  | done (accepted : Bool) (b : Buffer α)
  | retry (pos : BitVec 64)

-- The difference of the two `intptr_t` values is taken in two's complement. The compare-and-swap
-- succeeds exactly when `_write_pos` still is `pos`; a spurious failure of the weak form would
-- repeat this pass unchanged.
def tryPushPass (b : Buffer α) (item : α) (pos : BitVec 64) : Option (Pass α) := do
  let slot ← b.slot? pos
  let diff := (slot.sequence - pos).toInt
  if diff = 0 then
    if b.writePos = pos then
      let slot := { sequence := pos + 1, data := some item }
      some <| .done true <| { b with writePos := pos + 1 }.setSlot pos slot
    else
      some <| .retry b.writePos
  else if diff < 0 then
    some <| .done false b
  else
    some <| .retry b.writePos

-- The loop of `try_push`, which is unbounded. It has no result when `fuel` passes do not end it.
def tryPushLoop (b : Buffer α) (item : α) : (fuel : ℕ) → (pos : BitVec 64) → Option (Bool × Buffer α)
  | 0,        _   => none
  | fuel + 1, pos => do
    match ← b.tryPushPass item pos with
    | .done accepted b' => some (accepted, b')
    | .retry pos'       => b.tryPushLoop item fuel pos'

def tryPush (b : Buffer α) (item : α) (fuel : ℕ) : Option (Bool × Buffer α) :=
  b.tryPushLoop item fuel b.writePos

-- How `push_overwrite` discards the oldest entry of a full buffer. With one thread its
-- compare-and-swap succeeds.
def discard (b : Buffer α) : Option (Buffer α) := do
  let rpos := b.readPos
  let slot ← b.slot? rpos
  if (slot.sequence - (rpos + 1)).toInt = 0 then
    let slot := { slot with sequence := rpos + b.mask + 1 }
    some <| { b with readPos := rpos + 1 }.setSlot rpos slot
  else
    some b

def pushOverwrite (b : Buffer α) (item : α) : (fuel : ℕ) → Option (Buffer α)
  | 0        => none
  | fuel + 1 => do
    let (accepted, b) ← b.tryPush item fuel
    if accepted then some b else (← b.discard).pushOverwrite item fuel

def pop (b : Buffer α) : Option (Option α × Buffer α) := do
  let pos := b.readPos
  let slot ← b.slot? pos
  if (slot.sequence - (pos + 1)).toInt = 0 then
    let item ← slot.data
    let slot := { sequence := pos + b.mask + 1, data := none }
    some (some item, { b with readPos := pos + 1 }.setSlot pos slot)
  else
    some (none, b)

def size (b : Buffer α) : ℕ :=
  if b.readPos ≤ b.writePos then (b.writePos - b.readPos).toNat else 0

end Buffer

inductive Call (α : Type)
  | tryPush (item : α)
  | pushOverwrite (item : α)
  | pop

-- What a call returns, and what `size` returns after it.
inductive Reply (α : Type)
  | pushed (accepted : Bool) (size : ℕ)
  | overwritten (size : ℕ)
  | popped (item : Option α) (size : ℕ)

variable {α : Type}

def Buffer.call (b : Buffer α) (fuel : ℕ) : Call α → Option (Reply α × Buffer α)
  | .tryPush item       => (b.tryPush item fuel).map fun (a, b') => (.pushed a b'.size, b')
  | .pushOverwrite item => (b.pushOverwrite item fuel).map fun b' => (.overwritten b'.size, b')
  | .pop                => b.pop.map fun (x, b') => (.popped x b'.size, b')

-- The replies to a sequence of calls that are completed one after the other.
def Buffer.replies (b : Buffer α) (fuel : ℕ) : List (Call α) → Option (List (Reply α))
  | []      => some []
  | c :: cs => do
    let (r, b') ← b.call fuel c
    let rs ← b'.replies fuel cs
    return r :: rs

-- The purpose of the buffer: a bounded first-in-first-out queue.
section Spec

def bound (requestedCapacity : BitVec 64) : ℕ :=
  2 ^ Nat.clog 2 (max requestedCapacity.toNat 2)

def specOverwrite (bound : ℕ) (f : Fifo α) (item : α) : Fifo α :=
  if f.size < bound then f.offer item else f.take.offer item

def specCall (bound : ℕ) (f : Fifo α) : Call α → Reply α × Fifo α
  | .tryPush item       =>
    if f.size < bound then
      (.pushed true (f.offer item).size, f.offer item)
    else
      (.pushed false f.size, f)
  | .pushOverwrite item =>
    (.overwritten (specOverwrite bound f item).size, specOverwrite bound f item)
  | .pop                => (.popped f.front? f.take.size, f.take)

def spec (α : Type) (bound : ℕ) : Machine (Fifo α) (Call α) where
  step f call := some (specCall bound f call).2

def specReplies (bound : ℕ) (f : Fifo α) : List (Call α) → List (Reply α)
  | []          => []
  | call :: cs => (specCall bound f call).1 :: specReplies bound (specCall bound f call).2 cs

-- The buffer answers the calls as the bounded queue does, and each call returns.
def Conforms (requestedCapacity : BitVec 64) (calls : List (Call α)) : Prop :=
  ∃ enough, ∀ fuel ≥ enough, (create α requestedCapacity).replies fuel calls =
    some (specReplies (bound requestedCapacity) .empty calls)

end Spec

end Cpp.RingBuffer
