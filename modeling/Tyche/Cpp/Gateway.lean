import Tyche.Cpp.RingBuffer

namespace Cpp

-- The ring buffer is asked for this capacity, which is a power of two.
def optionRingCapacity : ℕ :=
  65536

def batchSize : ℕ :=
  64

namespace Gateway

-- Where `on_quote_received` is. Ticks of options are pushed, those of futures are sent.
inductive Callback (τ : Type)
  | idle
  | pushing (tick : τ)
  | overwriting (tick : τ)
  | dropping
  | sending
  | sent
  | counting

-- Where `option_dispatch_loop` is, with the ticks that it has popped and yet to deal with.
inductive Dispatch (τ : Type)
  | polling
  | popping (batch : List τ)
  | sending (batch : List τ)
  | sent (batch : List τ)
  | failed (batch : List τ)
  | draining
  | taking
  | drainSending (tick : τ)
  | drainSent
  | finished

end Gateway

-- What is known of the ticks that were published and of those that were given up in the drain is
-- not kept by the code.
structure Gateway (τ : Type) where
  ring          : Fifo τ
  running       : Bool
  callback      : Gateway.Callback τ
  dispatch      : Gateway.Dispatch τ
  ticksReceived : BitVec 64
  ticksSent     : BitVec 64
  droppedCount  : BitVec 32
  errCount      : BitVec 32
  published     : List τ
  ignored       : ℕ

namespace Gateway

variable {τ : Type}

def start : Gateway τ where
  ring          := .empty
  running       := true
  callback      := .idle
  dispatch      := .polling
  ticksReceived := 0
  ticksSent     := 0
  droppedCount  := 0
  errCount      := 0
  published     := []
  ignored       := 0

-- A tick is received, which is given for an option only. A thread makes its next step, with a flag
-- that tells if a `send_event` succeeds.
inductive Action (τ : Type)
  | receive (tick : Option τ)
  | callback (succeeds : Bool)
  | dispatch (succeeds : Bool)
  | stop

-- An exception of `send_event` leaves the callback.
def runCallback (g : Gateway τ) (succeeds : Bool) : Callback τ → Option (Gateway τ)
  | .idle             => none
  | .pushing tick     =>
    some <| if g.ring.size < optionRingCapacity then
      { g with ring := g.ring.offer tick, callback := .counting }
    else
      { g with callback := .overwriting tick }
  | .overwriting tick =>
    let ring := RingBuffer.specOverwrite optionRingCapacity g.ring tick
    some { g with ring := ring, callback := .dropping }
  | .dropping         =>
    some { g with droppedCount := g.droppedCount + 1, callback := .counting }
  | .sending          => some { g with callback := if succeeds then .sent else .idle }
  | .sent             => some { g with ticksSent := g.ticksSent + 1, callback := .counting }
  | .counting         => some { g with ticksReceived := g.ticksReceived + 1, callback := .idle }

def runDispatch (g : Gateway τ) (succeeds : Bool) : Dispatch τ → Option (Gateway τ)
  | .polling              =>
    some { g with dispatch := if g.running then .popping [] else .draining }
  | .popping batch        =>
    if batch.length < batchSize then
      match g.ring.front? with
      | some tick => some { g with ring := g.ring.take, dispatch := .popping (batch ++ [tick]) }
      | none      => some { g with dispatch := .sending batch }
    else
      some { g with dispatch := .sending batch }
  | .sending []           => some { g with dispatch := .polling }
  | .sending (tick :: ts) =>
    some <| if succeeds then
      { g with published := g.published ++ [tick], dispatch := .sent ts }
    else
      { g with dispatch := .failed ts }
  | .sent ts              => some { g with ticksSent := g.ticksSent + 1, dispatch := .sending ts }
  | .failed ts            => some { g with errCount := g.errCount + 1, dispatch := .sending ts }
  | .draining             =>
    some { g with dispatch := if g.ring.size = 0 then .finished else .taking }
  | .taking               =>
    match g.ring.front? with
    | some tick => some { g with ring := g.ring.take, dispatch := .drainSending tick }
    | none      => some { g with dispatch := .finished }
  | .drainSending tick    =>
    some <| if succeeds then
      { g with published := g.published ++ [tick], dispatch := .drainSent }
    else
      { g with ignored := g.ignored + 1, dispatch := .draining }
  | .drainSent            => some { g with ticksSent := g.ticksSent + 1, dispatch := .draining }
  | .finished             => none

def step (g : Gateway τ) : Action τ → Option (Gateway τ)
  | .receive tick      =>
    match g.callback with
    | .idle => some { g with callback := (tick.map Callback.pushing).getD .sending }
    | _     => none
  | .callback succeeds => g.runCallback succeeds g.callback
  | .dispatch succeeds => g.runDispatch succeeds g.dispatch
  | .stop              => some { g with running := false }

abbrev machine (τ : Type) : Machine (Gateway τ) (Action τ) where
  step := step

end Gateway

end Cpp
