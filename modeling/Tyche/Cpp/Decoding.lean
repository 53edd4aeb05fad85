import Tyche.Cpp.Serialization

-- The decoder with each read of a member of the union that an object consists of besides its type.
namespace Cpp.Decoding

open Msgpack

-- `msgpack::type`, with one value for the two of floating-point numbers
inductive Tag
  | nil
  | boolean
  | positiveInteger
  | negativeInteger
  | float
  | str
  | bin
  | ext
  | array
  | map
deriving DecidableEq

def type : Object → Tag
  | .nil     => .nil
  | .bool _  => .boolean
  | .uint _  => .positiveInteger
  | .int _   => .negativeInteger
  | .float _ => .float
  | .str _   => .str
  | .bin _   => .bin
  | .ext ..  => .ext
  | .array _ => .array
  | .map _   => .map

-- A member of `via` that was read where it is not the active one.
inductive Misread
  | boolean
  | u64
  | i64
  | f64
  | str
  | array
  | map
deriving DecidableEq

def viaBoolean : Object → Except Misread Bool
  | .bool b => .ok b
  | _       => .error .boolean

def viaU64 : Object → Except Misread (BitVec 64)
  | .uint n => .ok n
  | _       => .error .u64

def viaI64 : Object → Except Misread (BitVec 64)
  | .int i => .ok i
  | _      => .error .i64

def viaF64 : Object → Except Misread Floating
  | .float x => .ok x
  | _        => .error .f64

def viaStr : Object → Except Misread Bytes
  | .str s => .ok s
  | _      => .error .str

def viaArray : Object → Except Misread (List Object)
  | .array l => .ok l
  | _        => .error .array

def viaMap : Object → Except Misread (List (Object × Object))
  | .map kvs => .ok kvs
  | _        => .error .map

def viaStrs : List Object → Except Misread (List Bytes)
  | []      => .ok []
  | o :: os => do
    let s ← viaStr o
    let ss ← viaStrs os
    return s :: ss

-- The test for a non-empty array of strings.
def allStr (os : List Object) : Bool :=
  !os.isEmpty && os.all (type · = .str)

mutual

-- The cases are those of the switch on the type. No type is looked at before a key is read.
def unpackObject : Object → Except Misread Any
  | .nil     => return .empty
  | .bool b  => return .bool (← viaBoolean (.bool b))
  | .uint n  => return .int ((← viaU64 (.uint n)).setWidth 32)
  | .int i   => return .int ((← viaI64 (.int i)).setWidth 32)
  | .float x => return .double (← viaF64 (.float x))
  | .str s   => return .string (← viaStr (.str s))
  | .map kvs => return .payload (← unpackMap [] kvs)
  | .array l => do
    if allStr l then
      return .strings (← viaStrs l)
    else
      return .anys (← unpackArray l)
  | .bin _ | .ext .. => return .empty

def unpackMap (m : Payload) : List (Object × Object) → Except Misread Payload
  | []            => return m
  | (k, o) :: kvs => do
    let key ← viaStr k
    let value ← unpackObject o
    unpackMap (.set key value m) kvs

def unpackArray : List Object → Except Misread (List Any)
  | []     => return []
  | o :: l => do
    let v ← unpackObject o
    let vs ← unpackArray l
    return v :: vs

end

-- The reads of the values of fields, which each follow a test of the type.
def readString (val : Object) : Except Misread (Option Bytes) := do
  if type val = .str then
    return some (← viaStr val)
  else
    return none

def readSingle (val : Object) : Except Misread (Option Floating) := do
  if type val = .float then
    return some (← viaF64 val).toSingle
  else if type val = .positiveInteger then
    return some <| .single (← viaU64 val).toNat
  else
    return none

def readDouble (val : Object) : Except Misread (Option Floating) := do
  if type val = .float then
    return some (← viaF64 val)
  else if type val = .positiveInteger then
    return some <| .double (← viaU64 val).toNat
  else
    return none

def readDurability (val : Object) : Except Misread (Option DurabilityLevel) := do
  if type val = .positiveInteger ∨ type val = .negativeInteger then
    if type val = .positiveInteger then
      return some <| (← viaU64 val).setWidth 32
    else
      return some <| (← viaI64 val).setWidth 32
  else
    return none

def readPayload (m : Payload) : List (Object × Object) → Except Misread Payload
  | []            => return m
  | (k, o) :: kvs => do
    if type k = .str then
      let pkey ← viaStr k
      let value ← unpackObject o
      readPayload (.set pkey value m) kvs
    else
      readPayload m kvs

def readValue (msg : Message) (key : Bytes) (val : Object) : Except Misread Message := do
  if key = utf8 "msg_type" then
    return { msg with msgType := ((← readString val).map messageTypeFromStr).getD msg.msgType }
  else if key = utf8 "sender" then
    return { msg with sender := (← readString val).getD msg.sender }
  else if key = utf8 "event" then
    return { msg with event := (← readString val).getD msg.event }
  else if key = utf8 "payload" then
    if type val = .map then
      return { msg with payload := ← readPayload msg.payload (← viaMap val) }
    else
      return msg
  else if key = utf8 "recipient" then
    return { msg with recipient := (← readString val).or msg.recipient }
  else if key = utf8 "run_timeout" then
    return { msg with runTimeout := (← readSingle val).or msg.runTimeout }
  else if key = utf8 "durability" then
    return { msg with durability := (← readDurability val).getD msg.durability }
  else if key = utf8 "correlation_id" then
    return { msg with correlationId := (← readString val).or msg.correlationId }
  else if key = utf8 "timestamp" then
    return { msg with timestamp := (← readDouble val).or msg.timestamp }
  else if key = utf8 "wait_timeout" then
    return { msg with waitTimeout := (← readSingle val).or msg.waitTimeout }
  else
    return msg

def readFields (msg : Message) : List (Object × Object) → Except Misread Message
  | []              => return msg
  | (k, val) :: kvs => do
    if type k = .str then
      readFields (← readValue msg (← viaStr k) val) kvs
    else
      readFields msg kvs

def decode (obj : Object) : Except Misread Message := do
  if type obj = .map then
    readFields {} (← viaMap obj)
  else
    return {}

-- What `msgpack::unpack` does not accept is an exception.
def deserialize (ts : List Token) : Option (Except Misread Message) :=
  (unpack ts).map decode

end Cpp.Decoding
