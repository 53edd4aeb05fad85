import Tyche.Calendar
import Tyche.Cpp.Serialization
import Tyche.Format
import Tyche.Journal

namespace Cpp.DeadLetterStore

open Calendar Digits

-- The comparison is one of unsigned bytes.
def escapeByte (c : UInt8) : Bytes :=
  if c = 34 then utf8 "\\\""
  else if c = 92 then utf8 "\\\\"
  else if c = 10 then utf8 "\\n"
  else if c = 13 then utf8 "\\r"
  else if c = 9 then utf8 "\\t"
  else if c = 8 then utf8 "\\b"
  else if c = 12 then utf8 "\\f"
  else if c < 0x20 then utf8 "\\u00" ++ [hexDigit (c.toNat / 16), hexDigit (c.toNat % 16)]
  else [c]

def escapeJsonString (s : Bytes) : Bytes :=
  s.flatMap escapeByte

def quoted (s : Bytes) : Bytes :=
  utf8 "\"" ++ escapeJsonString s ++ utf8 "\""

-- A key of an object and what it stands for.
def member (key : Bytes) (value : Bytes) : Bytes :=
  utf8 "\"" ++ key ++ utf8 "\": " ++ value

def toString (i : ℤ) : Bytes :=
  (if i < 0 then utf8 "-" else []) ++ text i.natAbs

-- The texts of `double` and of `float` have 17 and 9 digits. Without a point and an exponent they
-- would be those of integers.
def floatingToJson (n : ℕ) (x : Floating) : Bytes :=
  match x with
  | .fin _ =>
    let s := x.general n
    if 46 ∉ s ∧ 101 ∉ s then s ++ utf8 ".0" else s
  | _      => utf8 "null"

mutual

-- There is no branch for vectors of strings.
def anyToJson : Any → Bytes
  | .empty     => utf8 "null"
  | .string s  => quoted s
  | .cstring s => quoted s
  | .bool b    => if b then utf8 "true" else utf8 "false"
  | .int i     => toString i.toInt
  | .int64 i   => toString i.toInt
  | .uint64 n  => toString n.toNat
  | .double x  => floatingToJson 16 x
  | .float x   => floatingToJson 8 x
  | .payload m =>
    if m.isEmpty then utf8 "\x7b\x7d"
    else utf8 "\x7b" ++ entriesToJson true m ++ utf8 "\x7d"
  | .anys l    => utf8 "[" ++ anysToJson true l ++ utf8 "]"
  | .strings _ => utf8 "null"

def entriesToJson (first : Bool) : List (Bytes × Any) → Bytes
  | []          => []
  | (k, v) :: m =>
    (if first then [] else utf8 ", ") ++ member (escapeJsonString k) (anyToJson v) ++
      entriesToJson false m

def anysToJson (first : Bool) : List Any → Bytes
  | []     => []
  | v :: l => (if first then [] else utf8 ", ") ++ anyToJson v ++ anysToJson false l

end

-- The entries of a payload are in the order that the map is walked in.
def payloadToJson (payload : Payload) : Bytes :=
  anyToJson (.payload payload)

def nullable {α} (toJson : α → Bytes) (value : Option α) : Bytes :=
  (value.map toJson).getD (utf8 "null")

def messageToJson (msg : Message) : Bytes :=
  utf8 "\x7b" ++
    member (utf8 "msg_type") (utf8 "\"" ++ messageTypeToStr msg.msgType ++ utf8 "\"") ++ utf8 ", " ++
    member (utf8 "sender") (quoted msg.sender) ++ utf8 ", " ++
    member (utf8 "event") (quoted msg.event) ++ utf8 ", " ++
    member (utf8 "payload") (payloadToJson msg.payload) ++ utf8 ", " ++
    member (utf8 "recipient") (nullable quoted msg.recipient) ++ utf8 ", " ++
    member (utf8 "durability") (toString msg.durability.toInt) ++ utf8 ", " ++
    member (utf8 "timestamp") (nullable (Floating.general 16) msg.timestamp) ++ utf8 ", " ++
    member (utf8 "correlation_id") (nullable quoted msg.correlationId) ++ utf8 ", " ++
    member (utf8 "wait_timeout") (nullable (Floating.general 16) msg.waitTimeout) ++ utf8 ", " ++
    member (utf8 "run_timeout") (nullable (Floating.general 16) msg.runTimeout) ++
    utf8 "\x7d"

def record (timestamp : ℚ) (msg : Message) (topic reason : Bytes) : Bytes :=
  utf8 "\x7b" ++
    member (utf8 "timestamp") (Floating.general 16 (.fin timestamp)) ++ utf8 ", " ++
    member (utf8 "topic") (quoted topic) ++ utf8 ", " ++
    member (utf8 "reason") (quoted reason) ++ utf8 ", " ++
    member (utf8 "message") (messageToJson msg) ++
    utf8 "\x7d"

-- What is appended to the file of the day.
def line (timestamp : ℚ) (msg : Message) (topic reason : Bytes) : Bytes :=
  record timestamp msg topic reason ++ utf8 "\n"

-- A call of `persist`, with the day and the time at which it is made.
structure Letter where
  date      : Date
  timestamp : ℚ
  message   : Message
  topic     : Bytes
  reason    : Bytes

def Letter.record (l : Letter) : Bytes :=
  DeadLetterStore.record l.timestamp l.message l.topic l.reason

-- The files of the store by their stems.
abbrev Directory :=
  List (Bytes × Bytes)

def persist (l : Letter) (dir : Directory) : Directory :=
  Journal.append l.date.text (line l.timestamp l.message l.topic l.reason) dir

-- The topic is looked for as it is.
def HasTopic (topic line : Bytes) : Prop :=
  utf8 "\"topic\": \"" ++ topic ++ utf8 "\"" <:+: line ∨
    utf8 "\"topic\":\"" ++ topic ++ utf8 "\"" <:+: line

instance {topic line : Bytes} : Decidable (HasTopic topic line) :=
  inferInstanceAs <| Decidable (_ ∨ _)

def Passes (topicFilter : Option Bytes) (line : Bytes) : Prop :=
  ∀ topic ∈ topicFilter, HasTopic topic line

instance {topicFilter : Option Bytes} {line : Bytes} : Decidable (Passes topicFilter line) :=
  match topicFilter with
  | none       => isTrue nofun
  | some topic => decidable_of_iff (HasTopic topic line) (by simp [Passes])

def readLines (topicFilter : Option Bytes) (maxCount : ℕ) (results : List Bytes) :
    List Bytes → List Bytes
  | []      => results
  | l :: ls =>
    if results.length < maxCount then
      if l = [] ∨ ¬Passes topicFilter l then readLines topicFilter maxCount results ls
      else readLines topicFilter maxCount (results ++ [l]) ls
    else results

-- Whether a file is of an earlier day.
def isBefore (sinceDate : Option Bytes) (stem : Bytes) : Bool :=
  sinceDate.any fun since => !decide (TextLe since stem)

def readFiles (topicFilter sinceDate : Option Bytes) (maxCount : ℕ) (results : List Bytes) :
    Directory → List Bytes
  | []                => results
  | (stem, b) :: dir  =>
    if maxCount ≤ results.length then results
    else if isBefore sinceDate stem then readFiles topicFilter sinceDate maxCount results dir
    else
      readFiles topicFilter sinceDate maxCount
        (readLines topicFilter maxCount results (Journal.lines b)) dir

end Cpp.DeadLetterStore
