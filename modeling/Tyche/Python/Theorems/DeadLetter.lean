import Tyche.Python.DeadLetter
import Tyche.Python.Theorems.Json

namespace Python.DeadLetterStore

open Calendar JsonText

variable {l : Letter} {ls ps : List Letter} {topic : Option Bytes} {results : List Value}

-- The lines that are written for a letter.
def records (l : Letter) : List Bytes :=
  (dumps l.record).toList

def IsKept (topic : Option Bytes) (l : Letter) : Prop :=
  (dumps l.record).isSome ∧ ∀ t ∈ topic, l.topic = t

instance {topic : Option Bytes} : DecidablePred (IsKept topic) :=
  fun _ => inferInstanceAs <| Decidable (_ ∧ _)

def kept (topic : Option Bytes) (ls : List Letter) : List Value :=
  (ls.filter <| IsKept topic).map fun l => l.record.anonymous

namespace Sample

def tokens (payload : List Msgpack.Token) : List Msgpack.Token :=
  [.map 4, .str <| utf8 "msg_type", .str <| utf8 "evt", .str <| utf8 "sender", .str <| utf8 "a",
    .str <| utf8 "event", .str <| utf8 "t", .str <| utf8 "payload"] ++ payload

def message (payload : Value) : FullMessage where
  msgType       := .event
  sender        := .str <| utf8 "a"
  event         := .str <| utf8 "t"
  payload       := payload
  recipient     := .none
  durability    := .asyncFlush
  timestamp     := .none
  correlationId := .none
  waitTimeout   := .none
  runTimeout    := .none

def price : Value :=
  .decimal (.fin <| Decimal.value ⟨false, 1, 0⟩) 0

end Sample

end Python.DeadLetterStore
