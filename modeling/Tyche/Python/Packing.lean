import Tyche.Python.Message

namespace Python

open Msgpack

-- The objects that the packer tells apart. A string is given by its UTF-8 form, which it does not
-- have if it contains a lone surrogate, a decimal by its text, and a member of an enumeration by its
-- value. Tuples are lists, and `other` is an object of a type that nothing can pack.
inductive Obj
  | none
  | bool (value : Bool)
  | int (value : ℤ)
  | float (value : Floating)
  | str (value : Option Bytes)
  | bytes (value : Bytes)
  | ext (code : UInt8) (data : Bytes)
  | timestamp (seconds : ℤ) (nanoseconds : ℕ)
  | list (items : List Obj)
  | dict (entries : List (Obj × Obj))
  | decimal (text : Bytes)
  | enum (value : Obj)
  | other

def bigEndianBytes (size n : ℕ) : Bytes :=
  (List.range size).reverse.map fun i => .ofNat <| n / 256 ^ i

-- The shortest of the three forms of a timestamp that it fits in.
def packTimestamp (seconds : ℤ) (nanoseconds : ℕ) : Option Token :=
  if -2 ^ 63 ≤ seconds ∧ seconds < 2 ^ 63 then
    some <| .ext 255 <|
      if 0 ≤ seconds ∧ seconds < 2 ^ 34 then
        let data := nanoseconds * 2 ^ 34 + seconds.toNat
        if data < 2 ^ 32 then bigEndianBytes 4 data else bigEndianBytes 8 data
      else
        bigEndianBytes 4 nanoseconds ++ bigEndianBytes 8 (BitVec.ofInt 64 seconds).toNat
  else
    none

def packBin (b : Bytes) : Option Token :=
  if b.length < 2 ^ 32 then some <| .bin b else none

def packExt (code : UInt8) (data : Bytes) : Option Token :=
  if data.length < 2 ^ 32 then some <| .ext code data else none

namespace Obj

def text (s : String) : Obj :=
  .str <| utf8 s

-- What the packer calls for an object that it does not know.
def encodeDecimal : Obj → Option Obj
  | .decimal s  => some <| .dict [(text "__decimal__", .str s)]
  | .enum value => some value
  | .bytes b    => if IsUtf8 b then some <| .str b else Option.none
  | _           => Option.none

-- The depth to which objects may be nested in each other.
def nestLimit : ℕ :=
  511

def packText (s : Bytes) (depth : ℕ) : Option (List Token) :=
  if depth ≤ nestLimit then (packStr s).map ([·]) else Option.none

mutual

-- `msgpack.packb` with `_encode_decimal`, which is used at most once for an object: what it returns
-- has to be something that the packer knows.
def pack (usable : Bool) (depth : ℕ) (o : Obj) : Option (List Token) :=
  if depth ≤ nestLimit then
    match o with
    | .none          => some [.nil]
    | .bool b        => some [.bool b]
    | .int i         => (packInt i).map ([·])
    | .float x       => some [.float x]
    | .str s         => s.bind fun s => (packStr s).map ([·])
    | .bytes b       => (packBin b).map ([·])
    | .ext c d       => (packExt c d).map ([·])
    | .timestamp s n => (packTimestamp s n).map ([·])
    | .list l        => do
      let ts ← packItems (depth + 1) l
      if l.length < 2 ^ 32 then some <| .array (.ofNat 32 l.length) :: ts else Option.none
    | .dict es       => do
      let ts ← packEntries (depth + 1) es
      if es.length < 2 ^ 32 then some <| .map (.ofNat 32 es.length) :: ts else Option.none
    | .decimal s     =>
      if usable then do
        let t ← packText (utf8 "__decimal__") (depth + 1)
        let u ← packText s (depth + 1)
        return .map 1 :: (t ++ u)
      else Option.none
    | .enum value    => if usable then value.pack false depth else Option.none
    | .other         => Option.none
  else Option.none

def packItems (depth : ℕ) : List Obj → Option (List Token)
  | []     => some []
  | o :: l => do
    let ts ← o.pack true depth
    let us ← packItems depth l
    return ts ++ us

def packEntries (depth : ℕ) : List (Obj × Obj) → Option (List Token)
  | []           => some []
  | (k, o) :: es => do
    let ts ← k.pack true depth
    let us ← o.pack true depth
    let vs ← packEntries depth es
    return ts ++ us ++ vs

end

end Obj

-- A message whose fields may hold any objects.
structure ObjMessage where
  msgType       : MessageType
  sender        : Obj
  event         : Obj
  payload       : Obj
  recipient     : Obj := .none
  durability    : DurabilityLevel := .asyncFlush
  timestamp     : Obj := .none
  correlationId : Obj := .none
  waitTimeout   : Obj := .none
  runTimeout    : Obj := .none

namespace ObjMessage

def data (msg : ObjMessage) : Obj :=
  .dict [
    (.text "msg_type", .enum <| .str <| messageTypeValue msg.msgType),
    (.text "sender", msg.sender),
    (.text "event", msg.event),
    (.text "payload", msg.payload),
    (.text "recipient", msg.recipient),
    (.text "durability", .enum <| .int msg.durability.number),
    (.text "timestamp", msg.timestamp),
    (.text "correlation_id", msg.correlationId),
    (.text "wait_timeout", msg.waitTimeout),
    (.text "run_timeout", msg.runTimeout)]

def serialize (msg : ObjMessage) : Option (List Token) :=
  msg.data.pack true 0

end ObjMessage

end Python
