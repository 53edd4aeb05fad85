import Mathlib.Data.List.DropRight
import Tyche.Calendar
import Tyche.Journal
import Tyche.Python.Json

namespace Python.DeadLetterStore

open Calendar

def messageToDict (msg : FullMessage) : Value :=
  .dict [
    (.str <| utf8 "msg_type", .str <| messageTypeValue msg.msgType),
    (.str <| utf8 "sender", msg.sender),
    (.str <| utf8 "event", msg.event),
    (.str <| utf8 "payload", msg.payload),
    (.str <| utf8 "recipient", msg.recipient),
    (.str <| utf8 "durability", .int msg.durability.number),
    (.str <| utf8 "timestamp", msg.timestamp),
    (.str <| utf8 "correlation_id", msg.correlationId),
    (.str <| utf8 "wait_timeout", msg.waitTimeout),
    (.str <| utf8 "run_timeout", msg.runTimeout)]

-- A call of `persist`, with the day and the time at which it is made.
structure Letter where
  date      : Date
  timestamp : ℚ
  isDouble  : Floating.double timestamp = .fin timestamp
  message   : FullMessage
  topic     : Bytes
  reason    : Bytes

def Letter.record (l : Letter) : Value :=
  .dict [
    (.str <| utf8 "timestamp", .float (.fin l.timestamp) 0),
    (.str <| utf8 "topic", .str l.topic),
    (.str <| utf8 "reason", .str l.reason),
    (.str <| utf8 "message", messageToDict l.message)]

-- The files of the store, the names of which are the texts of their days.
abbrev Directory :=
  List (Date × Bytes)

-- The file is opened before the record is encoded. An exception is only logged.
def persist (l : Letter) (dir : Directory) : Directory :=
  let text :=
    match dumps l.record with
    | some s => s ++ utf8 "\n"
    | none   => []
  Journal.append l.date text dir

-- The ends of lines in a text that is read.
def universalNewlines : Bytes → Bytes
  | []            => []
  | 13 :: 10 :: s => 10 :: universalNewlines s
  | 13 :: s       => 10 :: universalNewlines s
  | c :: s        => c :: universalNewlines s

-- The spaces around a line that are not in ASCII are not taken into account. What is no dictionary
-- has no topic to look up, which ends the reading of the file.
def readLines (topic : Option Bytes) (results : List Value) : List Bytes → List Value
  | []         => results
  | line :: ls =>
    let line := Decimal.strip line
    if line = [] then readLines topic results ls
    else
      match loads line with
      | none        => readLines topic results ls
      | some record =>
        match topic with
        | none       => readLines topic (results ++ [record]) ls
        | some topic =>
          match record.get (.str <| utf8 "topic") .none >>= (Value.equals (.str topic) ·) with
          | .ok true  => readLines (some topic) (results ++ [record]) ls
          | .ok false => readLines (some topic) results ls
          | .error _  => results

-- Files of an earlier day are left out.
def isBefore (since : Option Date) (date : Date) : Bool :=
  since.any fun since => !decide (since.Upto date)

def readFiles (topic : Option Bytes) (since : Option Date) (results : List Value) :
    Directory → List Value
  | []               => results
  | (date, b) :: dir =>
    if isBefore since date then readFiles topic since results dir
    else
      readFiles topic since (readLines topic results <| Journal.lines <| universalNewlines b) dir

end Python.DeadLetterStore
