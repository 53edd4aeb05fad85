import Tyche.Cpp.Message
import Tyche.Json
import Tyche.Msgpack

namespace Cpp

open Msgpack

-- What the packer makes of a floating-point number. Some versions write it as an integer when its
-- value is one.
variable (packDouble : Floating → Token)

mutual

def packAny : Any → List Token
  | .empty     => [.nil]
  | .double x  => [packDouble x]
  | .string s  => [.str s]
  | .int i     => [.ofInt <| i.signExtend 64]
  | .int64 i   => [.ofInt i]
  | .uint64 n  => [.uint n]
  | .float x   => [packDouble x]
  | .bool b    => [.bool b]
  | .cstring s => [.str s]
  | .payload m => .map (.ofNat 32 m.length) :: packEntries m
  | .strings v => .array (.ofNat 32 v.length) :: v.map .str
  | .anys v    => .array (.ofNat 32 v.length) :: packAnys v

def packEntries : List (Bytes × Any) → List Token
  | []          => []
  | (k, v) :: m => .str k :: packAny v ++ packEntries m

def packAnys : List Any → List Token
  | []     => []
  | v :: l => packAny v ++ packAnys l

end

-- `map[key] = value`
def Payload.set (key : Bytes) (value : Any) : Payload → Payload
  | []     => [(key, value)]
  | e :: m => if e.1 = key then (key, value) :: m else e :: Payload.set key value m

def allStrings : List Object → Option (List Bytes)
  | []           => some []
  | .str s :: os => (allStrings os).map (s :: ·)
  | _            => none

mutual

-- A key of a map is read as a string without a look at its type, which is not defined for others.
def unpackObject : Object → Option Any
  | .nil     => some .empty
  | .bool b  => some <| .bool b
  | .uint n  => some <| .int (n.setWidth 32)
  | .int i   => some <| .int (i.setWidth 32)
  | .float x => some <| .double x
  | .str s   => some <| .string s
  | .map kvs => (unpackMap [] kvs).map .payload
  | .array l =>
    match l, allStrings l with
    | _ :: _, some ss => some <| .strings ss
    | _, _            => (unpackArray l).map .anys
  | .bin _ | .ext .. => some .empty

def unpackMap (m : Payload) : List (Object × Object) → Option Payload
  | []                 => some m
  | (.str k, o) :: kvs =>
    match unpackObject o with
    | some v => unpackMap (.set k v m) kvs
    | none   => none
  | _ :: _             => none

def unpackArray : List Object → Option (List Any)
  | []     => some []
  | o :: l =>
    match unpackObject o, unpackArray l with
    | some v, some vs => some (v :: vs)
    | _, _            => none

end

def messageTypeToStr : MessageType → Bytes
  | .command   => utf8 "cmd"
  | .event     => utf8 "evt"
  | .heartbeat => utf8 "hbt"
  | .register  => utf8 "reg"
  | .ack       => utf8 "ack"
  | .response  => utf8 "resp"
  | .request   => utf8 "req"

def messageTypeFromStr (s : Bytes) : MessageType :=
  if s = utf8 "cmd" then .command
  else if s = utf8 "evt" then .event
  else if s = utf8 "hbt" then .heartbeat
  else if s = utf8 "reg" then .register
  else if s = utf8 "ack" then .ack
  else if s = utf8 "resp" then .response
  else if s = utf8 "req" then .request
  else .event

def packString? : Option Bytes → Token
  | some s => .str s
  | none   => .nil

def packDouble? : Option Floating → Token
  | some x => packDouble x
  | none   => .nil

def packKey (key : String) : Token :=
  .str <| utf8 key

def serialize (msg : Message) : List Token :=
  [.map 10,
    packKey "msg_type", .str <| messageTypeToStr msg.msgType,
    packKey "sender", .str msg.sender,
    packKey "event", .str msg.event,
    packKey "payload", .map <| .ofNat 32 msg.payload.length] ++
  packEntries packDouble msg.payload ++
  [packKey "recipient", packString? msg.recipient,
    packKey "durability", .ofInt <| msg.durability.signExtend 64,
    packKey "timestamp", packDouble? packDouble msg.timestamp,
    packKey "correlation_id", packString? msg.correlationId,
    packKey "wait_timeout", packDouble? packDouble msg.waitTimeout,
    packKey "run_timeout", packDouble? packDouble msg.runTimeout]

-- The conversions of a number to `double` and to `float`.
def unpackDouble : Object → Option Floating
  | .float x => some x
  | .uint n  => some <| .double n.toNat
  | _        => none

def unpackSingle : Object → Option Floating
  | .float x => some x.toSingle
  | .uint n  => some <| .single n.toNat
  | _        => none

def unpackDurability : Object → Option DurabilityLevel
  | .uint n => some <| n.setWidth 32
  | .int i  => some <| i.setWidth 32
  | _       => none

def unpackString : Object → Option Bytes
  | .str s => some s
  | _      => none

-- The entries of a map whose keys are strings are added to the payload.
def unpackPayload (m : Payload) : List (Object × Object) → Option Payload
  | []                 => some m
  | (.str k, o) :: kvs =>
    match unpackObject o with
    | some v => unpackPayload (.set k v m) kvs
    | none   => none
  | _ :: kvs           => unpackPayload m kvs

-- One entry of the map that a message is. A value of another type leaves the field as it is.
def readField (msg : Message) : Object × Object → Option Message
  | (.str key, val) =>
    if key = utf8 "msg_type" then
      some { msg with msgType := ((unpackString val).map messageTypeFromStr).getD msg.msgType }
    else if key = utf8 "sender" then
      some { msg with sender := (unpackString val).getD msg.sender }
    else if key = utf8 "event" then
      some { msg with event := (unpackString val).getD msg.event }
    else if key = utf8 "payload" then
      match val with
      | .map kvs => (unpackPayload msg.payload kvs).map fun m => { msg with payload := m }
      | _        => some msg
    else if key = utf8 "recipient" then
      some { msg with recipient := (unpackString val).or msg.recipient }
    else if key = utf8 "run_timeout" then
      some { msg with runTimeout := (unpackSingle val).or msg.runTimeout }
    else if key = utf8 "durability" then
      some { msg with durability := (unpackDurability val).getD msg.durability }
    else if key = utf8 "correlation_id" then
      some { msg with correlationId := (unpackString val).or msg.correlationId }
    else if key = utf8 "timestamp" then
      some { msg with timestamp := (unpackDouble val).or msg.timestamp }
    else if key = utf8 "wait_timeout" then
      some { msg with waitTimeout := (unpackSingle val).or msg.waitTimeout }
    else
      some msg
  | _ => some msg

-- A stream that does not begin with a complete object is an exception.
def deserialize (ts : List Token) : Option Message :=
  match unpack ts with
  | none            => none
  | some (.map kvs) => kvs.foldlM readField {}
  | some _          => some {}

namespace Any

mutual

def json : Any → Json
  | .empty     => .null
  | .bool b    => .bool b
  | .int i     => .number <| .fin i.toInt
  | .int64 i   => .number <| .fin i.toInt
  | .uint64 n  => .number <| .fin n.toNat
  | .float x   => .number x
  | .double x  => .number x
  | .string s  => .string s
  | .cstring s => .string s
  | .payload m => .object (jsonEntries m)
  | .strings v => .array (v.map .string)
  | .anys v    => .array (jsons v)

def jsonEntries : List (Bytes × Any) → List (Bytes × Json)
  | []          => []
  | (k, v) :: m => (k, v.json) :: jsonEntries m

def jsons : List Any → List Json
  | []     => []
  | v :: l => v.json :: jsons l

end

end Any

namespace Message

def json (msg : Message) : Json :=
  .object [
    (utf8 "msg_type", .string <| messageTypeToStr msg.msgType),
    (utf8 "sender", .string msg.sender),
    (utf8 "event", .string msg.event),
    (utf8 "payload", .object <| Any.jsonEntries msg.payload),
    (utf8 "recipient", msg.recipient.elim .null .string),
    (utf8 "durability", .number <| .fin msg.durability.toInt),
    (utf8 "timestamp", msg.timestamp.elim .null .number),
    (utf8 "correlation_id", msg.correlationId.elim .null .string),
    (utf8 "wait_timeout", msg.waitTimeout.elim .null .number),
    (utf8 "run_timeout", msg.runTimeout.elim .null .number)]

end Message

end Cpp
