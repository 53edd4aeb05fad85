import Tyche.Decimal
import Tyche.Dict
import Tyche.Msgpack
import Tyche.Python.Types

namespace Python

open Msgpack

-- A message with all of its fields.
structure FullMessage extends Message where
  recipient   : Value
  durability  : DurabilityLevel
  timestamp   : Value
  waitTimeout : Value
  runTimeout  : Value

namespace Value

-- A float and a decimal of which it matters which object they are are only those that are not equal
-- to themselves.
def ofFloating (n : ℕ) (x : Floating) : Value :=
  .float x <| if x = .nan then n else 0

def ofDecimal (n : ℕ) (x : Floating) : Value :=
  .decimal x <| if x = .nan then n else 0

def ofReading (n : ℕ) : Decimal.Reading → Value
  | .finite d     => ofDecimal n <| .fin d.value
  | .infinity neg => ofDecimal n <| .inf neg
  | .nan          => ofDecimal n .nan
  | .signalingNaN => .signalingNaN

def digit? (v : Value) : Option ℕ :=
  v.index?.bind fun i => if 0 ≤ i ∧ i ≤ 9 then some i.toNat else Option.none

def ofTuple (n : ℕ) (sign : Value) (digits : List Value) (exponent : Value) : Option Value := do
  let s ← sign.index?
  let ds ← digits.mapM digit?
  if s = 0 ∨ s = 1 then
    match exponent with
    | .str t =>
      if t = utf8 "F" then some <| ofDecimal n <| .inf (s = 1)
      else if t = utf8 "n" then some <| ofDecimal n .nan
      else if t = utf8 "N" then some .signalingNaN
      else Option.none
    | _      =>
      let e ← exponent.index?
      some <| ofDecimal n <| .fin <| Decimal.value ⟨s = 1, ds.foldl (10 * · + ·) 0, e⟩
  else
    Option.none

-- `Decimal(v)`, as the new object `n`.
def decimalOf (n : ℕ) : Value → Except Error Value
  | .str s        =>
    match Decimal.ofText s with
    | some r      => .ok <| ofReading n r
    | Option.none => .error .invalidOperation
  | .bool b       => .ok <| ofDecimal n <| .fin b.toNat
  | .int i        => .ok <| ofDecimal n <| .fin i
  | .float x _    => .ok <| ofDecimal n x
  | .decimal x o  => .ok <| .decimal x o
  | .signalingNaN => .ok .signalingNaN
  | .list [sign, .list digits, exponent] =>
    match ofTuple n sign digits exponent with
    | some v      => .ok v
    | Option.none => .error .valueError
  | .list _ | .ext .. => .error .valueError
  | _ => .error .typeError

end Value

def decimalTag : Key :=
  .str <| utf8 "__decimal__"

-- The `object_hook`.
def decodeDecimal (n : ℕ) (entries : List (Key × Value)) : Except Error Value :=
  match entries.lookup decimalTag with
  | some v => v.decimalOf n
  | none   => .ok <| .dict entries

def dictOf (entries : List (Key × Value)) : List (Key × Value) :=
  (entries.foldl (fun d e => d.set e.1 e.2) (∅ : Dict Key Value)).entries

def bigEndian (b : Bytes) : ℕ :=
  b.foldl (fun n c => 256 * n + c.toNat) 0

-- The extension type -1 is for timestamps.
def decodeExt (code : UInt8) (data : Bytes) : Except Error Value :=
  let timestamp (seconds : ℤ) (nanoseconds : ℕ) : Except Error Value :=
    if nanoseconds < 10 ^ 9 then .ok <| .timestamp seconds nanoseconds else .error .valueError
  if code < 128 then .ok <| .ext code.toNat data
  else if code = 255 then
    match data.length with
    | 4  => timestamp (bigEndian data) 0
    | 8  => timestamp (bigEndian data % 2 ^ 34 : ℕ) (bigEndian data / 2 ^ 34)
    | 12 => timestamp (BitVec.ofNat 64 <| bigEndian <| data.drop 4).toInt (bigEndian <| data.take 4)
    | _  => .error .valueError
  else .error .valueError

-- Only strings and bytes may be keys.
def mapKey : Value → Except Error Key
  | .str s   => .ok <| .str s
  | .bytes b => .ok <| .bytes b
  | _        => .error .valueError

mutual

-- The objects that are made for the parts of an object have the numbers from `n` on.
def decodeObject (n : ℕ) : Object → Except Error Value
  | .nil     => .ok .none
  | .bool b  => .ok <| .bool b
  | .uint i  => .ok <| .int i.toNat
  | .int i   => .ok <| .int i.toInt
  | .float x => .ok <| .ofFloating n x
  | .str s   => if IsUtf8 s then .ok <| .str s else .error .valueError
  | .bin b   => .ok <| .bytes b
  | .ext c b => decodeExt c b
  | .array l => do
    let vs ← decodeItems (n + 1) l
    return .list vs
  | .map kvs => do
    let es ← decodeEntries (n + 1) kvs
    decodeDecimal n <| dictOf es

def decodeItems (n : ℕ) : List Object → Except Error (List Value)
  | []     => .ok []
  | o :: l => do
    let v ← decodeObject n o
    let vs ← decodeItems (n + o.weight) l
    return v :: vs

def decodeEntries (n : ℕ) : List (Object × Object) → Except Error (List (Key × Value))
  | []            => .ok []
  | (k, o) :: kvs => do
    let k' ← decodeObject n k
    let v ← decodeObject (n + k.weight) o
    let key ← mapKey k'
    let es ← decodeEntries (n + k.weight + o.weight) kvs
    return (key, v) :: es

end

def unpackb (ts : List Token) : Except Error Object :=
  match parse ts with
  | [some o] => .ok o
  | _        => .error .valueError

def messageTypeValue : MessageType → Bytes
  | .command   => utf8 "cmd"
  | .event     => utf8 "evt"
  | .heartbeat => utf8 "hbt"
  | .register  => utf8 "reg"
  | .ack       => utf8 "ack"
  | .response  => utf8 "resp"
  | .request   => utf8 "req"

def messageTypes : List MessageType :=
  [.command, .event, .heartbeat, .register, .ack, .response, .request]

-- The member of an enumeration that has the value.
def member {α : Type} (key : α → Key) (members : List α) (v : Value) : Except Error α :=
  match v.hash with
  | .error _ => .error .valueError
  | .ok k    =>
    match members.find? (key · = k) with
    | some a => .ok a
    | none   => .error .valueError

def messageType : Value → Except Error MessageType :=
  member (.str <| messageTypeValue ·) messageTypes

def durabilityLevel : Value → Except Error DurabilityLevel :=
  member (.number ·.number) [.bestEffort, .asyncFlush, .syncFlush]

-- `obj[key]` for a string.
def subscript (key : String) : Value → Except Error Value
  | .dict d =>
    match d.lookup (.str <| utf8 key) with
    | some v => .ok v
    | none   => .error <| .keyError none
  | _       => .error .typeError

def get (key : String) (obj : Value) : Except Error Value :=
  obj.get (.str <| utf8 key) .none

-- `v or default`
def Value.or (v default : Value) : Value :=
  if v.truthy then v else default

def deserializeObject (obj : Value) : Except Error FullMessage := do
  let msgType ← messageType (← subscript "msg_type" obj)
  let sender ← subscript "sender" obj
  let event ← subscript "event" obj
  let payload ← subscript "payload" obj
  let recipient ← get "recipient" obj
  let durability ← get "durability" obj
  let durability ← durabilityLevel <| durability.or <| .int 1
  let timestamp ← get "timestamp" obj
  let correlationId ← get "correlation_id" obj
  let waitTimeout ← get "wait_timeout" obj
  let runTimeout ← get "run_timeout" obj
  return {
    msgType, sender, event, payload, recipient, durability, timestamp, correlationId, waitTimeout,
    runTimeout }

def deserialize (n : ℕ) (ts : List Token) : Except Error FullMessage := do
  let o ← unpackb ts
  let obj ← decodeObject n o
  deserializeObject obj

-- What the payload of a message is made of. Strings are given by their UTF-8 form, and floats are
-- finite.
inductive Datum
  | none
  | bool (value : Bool)
  | int (value : ℤ)
  | float (value : ℚ)
  | decimal (value : Decimal)
  | str (value : Bytes)
  | list (items : List Datum)
  | dict (entries : List (Bytes × Datum))

def packInt (i : ℤ) : Option Token :=
  if 0 ≤ i ∧ i < 2 ^ 64 then some <| .uint <| .ofInt 64 i
  else if -2 ^ 63 ≤ i ∧ i < 0 then some <| .int <| .ofInt 64 i
  else none

def packStr (s : Bytes) : Option Token :=
  if s.length < 2 ^ 32 then some <| .str s else none

-- `msgpack.packb` with `_encode_decimal` for what it does not know. A number or a length that is too
-- large is an exception.
mutual

def Datum.pack : Datum → Option (List Token)
  | .none      => some [.nil]
  | .bool b    => some [.bool b]
  | .int i     => (packInt i).map ([·])
  | .float x   => some [.float <| .fin x]
  | .decimal d => (packStr d.str).map ([.map 1, .str <| utf8 "__decimal__", ·])
  | .str s     => (packStr s).map ([·])
  | .list l    => do
    let ts ← packItems l
    if l.length < 2 ^ 32 then some <| .array (.ofNat 32 l.length) :: ts else Option.none
  | .dict es   => do
    let ts ← packEntries es
    if es.length < 2 ^ 32 then some <| .map (.ofNat 32 es.length) :: ts else Option.none

def Datum.packItems : List Datum → Option (List Token)
  | []     => some []
  | d :: l => do
    let ts ← d.pack
    let us ← packItems l
    return ts ++ us

def Datum.packEntries : List (Bytes × Datum) → Option (List Token)
  | []           => some []
  | (k, d) :: es => do
    let t ← packStr k
    let ts ← d.pack
    let us ← packEntries es
    return t :: ts ++ us

end

-- The fields have the types that they are annotated with.
structure TypedMessage where
  msgType       : MessageType
  sender        : Bytes
  event         : Bytes
  payload       : List (Bytes × Datum)
  recipient     : Option Bytes
  durability    : DurabilityLevel
  timestamp     : Option Floating
  correlationId : Option Bytes
  waitTimeout   : Option Floating
  runTimeout    : Option Floating

def packStr? : Option Bytes → Option Token
  | none   => some .nil
  | some s => packStr s

def packFloat? : Option Floating → Token
  | none   => .nil
  | some x => .float x

def packKey (key : String) : Token :=
  .str <| utf8 key

def serialize (msg : TypedMessage) : Option (List Token) := do
  let sender ← packStr msg.sender
  let event ← packStr msg.event
  let payload ← (Datum.dict msg.payload).pack
  let recipient ← packStr? msg.recipient
  let correlationId ← packStr? msg.correlationId
  return [.map 10,
      packKey "msg_type", .str <| messageTypeValue msg.msgType,
      packKey "sender", sender,
      packKey "event", event,
      packKey "payload"] ++ payload ++ [
      packKey "recipient", recipient,
      packKey "durability", .uint <| .ofNat 64 msg.durability.number,
      packKey "timestamp", packFloat? msg.timestamp,
      packKey "correlation_id", correlationId,
      packKey "wait_timeout", packFloat? msg.waitTimeout,
      packKey "run_timeout", packFloat? msg.runTimeout]

end Python
