import Tyche.Cpp.RingBuffer

namespace Cpp.RingBuffer.Steps

inductive Push
  | tryPush
  | pushOverwrite
deriving DecidableEq

-- Where a producer is in a call: before which operation, with what it has read so far. The last
-- four are those of the loop of `push_overwrite`.
inductive Point (α : Type)
  | idle
  | loadWritePos (push : Push) (item : α)
  | loadSequence (push : Push) (item : α) (pos : BitVec 64)
  | exchange (push : Push) (item : α) (pos : BitVec 64)
  | moveData (item : α) (pos : BitVec 64)
  | storeSequence (item : α) (pos : BitVec 64)
  | loadReadPos (item : α)
  | loadOldest (item : α) (rpos : BitVec 64)
  | exchangeReadPos (item : α) (rpos : BitVec 64)
  | storeWritable (item : α) (rpos : BitVec 64)

-- Where the consumer is in `pop`. What it has moved out of a slot is `none` if there was no value
-- in it.
inductive Pop (α : Type)
  | idle
  | loadSequence (pos : BitVec 64)
  | moveData (pos : BitVec 64)
  | storeWritable (pos : BitVec 64) (result : Option α)
  | storeReadPos (pos : BitVec 64) (result : Option α)

-- What the threads do to the queue, for the record.
inductive Event (ι α : Type)
  | enter (i : ι) (item : α)
  | load (i : ι)
  | claim (i : ι) (item : α)
  | accept (i : ι) (item : α)
  | refuse (i : ι) (item : α)
  | discard (item : Option α)
  | release
  | popped (item : Option α)
  | nothing

structure Users (ι α : Type) where
  buffer   : Buffer α
  producer : ι → Point α
  consumer : Pop α
  log      : List (Event ι α)

-- The weak form of a compare-and-swap may fail spuriously. A consumer that is not in a call makes
-- the next one.
inductive Action (ι α : Type)
  | push (i : ι) (push : Push) (item : α)
  | next (i : ι) (spurious : Bool)
  | pop

variable {ι α : Type}

def Users.start (b : Buffer α) : Users ι α where
  buffer     := b
  producer _ := .idle
  consumer   := .idle
  log        := []

namespace Users

def setBuffer (u : Users ι α) (b : Buffer α) : Users ι α :=
  { u with buffer := b }

def setConsumer (u : Users ι α) (p : Pop α) (events : List (Event ι α)) : Users ι α :=
  { u with consumer := p, log := u.log ++ events }

-- An operation of `pop`.
def consume (u : Users ι α) : Pop α → Option (Users ι α)
  | .idle                     => some <| u.setConsumer (.loadSequence u.buffer.readPos) []
  | .loadSequence pos         => do
    let slot ← u.buffer.slot? pos
    if (slot.sequence - (pos + 1)).toInt = 0 then
      some <| u.setConsumer (.moveData pos) []
    else
      some <| u.setConsumer .idle [.nothing]
  | .moveData pos             => do
    let slot ← u.buffer.slot? pos
    let u := u.setBuffer <| u.buffer.setSlot pos { slot with data := none }
    some <| u.setConsumer (.storeWritable pos slot.data) []
  | .storeWritable pos result => do
    let slot ← u.buffer.slot? pos
    let u := u.setBuffer <| u.buffer.setSlot pos { slot with sequence := pos + u.buffer.mask + 1 }
    some <| u.setConsumer (.storeReadPos pos result) [.release]
  | .storeReadPos pos result  =>
    let u := u.setBuffer { u.buffer with readPos := pos + 1 }
    some <| u.setConsumer .idle [.popped result]

variable [DecidableEq ι]

def setProducer (u : Users ι α) (i : ι) (p : Point α) (events : List (Event ι α)) : Users ι α :=
  { u with producer := Function.update u.producer i p, log := u.log ++ events }

-- `try_push` returns false.
def full (u : Users ι α) (i : ι) (item : α) : Push → Users ι α
  | .tryPush       => u.setProducer i .idle [.refuse i item]
  | .pushOverwrite => u.setProducer i (.loadReadPos item) []

-- An operation of `try_push` or `push_overwrite`.
def run (u : Users ι α) (i : ι) (spurious : Bool) : Point α → Option (Users ι α)
  | .idle                      => none
  | .loadWritePos push item    =>
    some <| u.setProducer i (.loadSequence push item u.buffer.writePos) [.load i]
  | .loadSequence push item pos => do
    let slot ← u.buffer.slot? pos
    let diff := (slot.sequence - pos).toInt
    if diff = 0 then
      some <| u.setProducer i (.exchange push item pos) []
    else if diff < 0 then
      some <| u.full i item push
    else
      some <| u.setProducer i (.loadWritePos push item) []
  | .exchange push item pos    =>
    if u.buffer.writePos = pos ∧ spurious = false then
      let u := u.setBuffer { u.buffer with writePos := pos + 1 }
      some <| u.setProducer i (.moveData item pos) [.claim i item]
    else
      some <| u.setProducer i (.loadSequence push item u.buffer.writePos) [.load i]
  | .moveData item pos         => do
    let slot ← u.buffer.slot? pos
    let u := u.setBuffer <| u.buffer.setSlot pos { slot with data := some item }
    some <| u.setProducer i (.storeSequence item pos) []
  | .storeSequence item pos    => do
    let slot ← u.buffer.slot? pos
    let u := u.setBuffer <| u.buffer.setSlot pos { slot with sequence := pos + 1 }
    some <| u.setProducer i .idle [.accept i item]
  | .loadReadPos item          =>
    some <| u.setProducer i (.loadOldest item u.buffer.readPos) []
  | .loadOldest item rpos      => do
    let slot ← u.buffer.slot? rpos
    if (slot.sequence - (rpos + 1)).toInt = 0 then
      some <| u.setProducer i (.exchangeReadPos item rpos) []
    else
      some <| u.setProducer i (.loadWritePos .pushOverwrite item) []
  | .exchangeReadPos item rpos =>
    if u.buffer.readPos = rpos then
      let discarded := (u.buffer.slot? rpos).bind Slot.data
      let u := u.setBuffer { u.buffer with readPos := rpos + 1 }
      some <| u.setProducer i (.storeWritable item rpos) [.discard discarded]
    else
      some <| u.setProducer i (.loadWritePos .pushOverwrite item) []
  | .storeWritable item rpos   => do
    let slot ← u.buffer.slot? rpos
    let u := u.setBuffer <| u.buffer.setSlot rpos { slot with sequence := rpos + u.buffer.mask + 1 }
    some <| u.setProducer i (.loadWritePos .pushOverwrite item) []

def step (u : Users ι α) : Action ι α → Option (Users ι α)
  | .push i push item =>
    match u.producer i with
    | .idle => some <| u.setProducer i (.loadWritePos push item) [.enter i item]
    | _     => none
  | .next i spurious  => u.run i spurious (u.producer i)
  | .pop              => u.consume u.consumer

end Users

abbrev machine (ι α : Type) [DecidableEq ι] : Machine (Users ι α) (Action ι α) where
  step := Users.step

section Record

-- The items in the order in which positions were claimed for them, each with its producer.
def claims (log : List (Event ι α)) : List (ι × α) :=
  log.filterMap fun
    | .claim i item => some (i, item)
    | _             => none

def releases (log : List (Event ι α)) : ℕ :=
  log.countP fun
    | .release => true
    | _        => false

def popped (log : List (Event ι α)) : List (Option α) :=
  log.filterMap fun
    | .popped item => some item
    | _            => none

-- What has left the queue, one way or the other.
def removed (log : List (Event ι α)) : List (Option α) :=
  log.filterMap fun
    | .popped item  => some item
    | .discard item => some item
    | _             => none

variable [DecidableEq ι]

def claimed (i : ι) (log : List (Event ι α)) : List α :=
  ((claims log).filter fun y => y.1 = i).map Prod.snd

-- What the calls of one producer pushed, in the order of its calls.
def accepted (i : ι) (log : List (Event ι α)) : List α :=
  log.filterMap fun
    | .accept j item => if j = i then some item else none
    | _              => none

-- How many positions have been claimed since the producer last loaded the write position.
def lag (i : ι) (log : List (Event ι α)) : ℕ :=
  log.foldl (fun
    | n, .load j   => if j = i then 0 else n
    | n, .claim .. => n + 1
    | n, _         => n) 0

def Event.Ends (i : ι) : Event ι α → Prop
  | .accept j _ => j = i
  | .refuse j _ => j = i
  | _           => False

-- A log `l₀` as it was at some moment of the call of `i` that the log `l₁` ends within.
def Within (i : ι) (l₀ l₁ : List (Event ι α)) : Prop :=
  ∃ l l' l'' x, l₀ = l ++ .enter i x :: l' ∧ l₁ = l₀ ++ l'' ∧ ∀ e ∈ l' ++ l'', ¬e.Ends i

end Record

end Cpp.RingBuffer.Steps
