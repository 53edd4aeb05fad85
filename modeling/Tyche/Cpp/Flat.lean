import Tyche.Memory

-- The binary form of a message for modules in C++. Sizes are those of data in memory, so that their
-- sums do not wrap around.
namespace Cpp.Flat

-- The types that `std::any` is tested for, that of a payload that was not decoded, and all others.
inductive Value
  | string (value : Bytes)
  | double (value : BitVec 64)
  | int (value : BitVec 32)
  | int64 (value : BitVec 64)
  | uint64 (value : BitVec 64)
  | float (value : BitVec 32)
  | bool (value : Bool)
  | bytes (value : Bytes)
  | other
deriving DecidableEq

-- The enumerations have the underlying type `int`, all of whose values can be cast to them.
abbrev MessageType := BitVec 32

def MessageType.command : MessageType :=
  0

def MessageType.event : MessageType :=
  1

abbrev DurabilityLevel := BitVec 32

def DurabilityLevel.asyncFlush : DurabilityLevel :=
  1

-- Floating-point numbers are the bits that they consist of.
structure Message where
  msgType    : MessageType := .event
  sender     : Bytes := []
  event      : Bytes := []
  payload    : List (Bytes × Value) := []
  durability : DurabilityLevel := .asyncFlush
  timestamp  : Option (BitVec 64) := none
deriving DecidableEq

-- `sizeof(FlatMessageHeader)`, and where its fields are
def headerSize : ℕ :=
  24

namespace Header

def msgType : ℕ :=
  0

def durability : ℕ :=
  1

def senderLen : ℕ :=
  2

def eventLen : ℕ :=
  4

def payloadLen : ℕ :=
  6

def totalSize : ℕ :=
  8

def timestamp : ℕ :=
  12

end Header

def valueSize : Value → ℕ
  | .string s => 4 + s.length
  | .double _ => 8
  | .int _    => 4
  | .int64 _  => 8
  | .uint64 _ => 8
  | .float _  => 4
  | .bool _   => 1
  | _         => 0

def payloadLen (payload : List (Bytes × Value)) : ℕ :=
  if payload.isEmpty then 0
  else payload.foldl (fun len e => len + (4 + e.1.length) + 1 + valueSize e.2) 4

def totalSize (msg : Message) : ℕ :=
  headerSize + msg.sender.length + msg.event.length + payloadLen msg.payload

-- The memory at the buffer, and the pointer at which it is written.
structure Cursor where
  mem : Bytes
  p   : ℕ

-- A write that leaves the memory has no meaning.
abbrev Write := StateT Cursor Option Unit

def setField (offset : ℕ) (bytes : Bytes) : Write := fun c =>
  (Memory.store c.mem offset bytes).map fun mem => ((), { c with mem })

def memcpy (bytes : Bytes) : Write := fun c =>
  (Memory.store c.mem c.p bytes).map fun mem => ((), { c with mem })

def advance (n : ℕ) : Write := fun c =>
  some ((), { c with p := c.p + n })

-- `*p++ = byte`
def push (byte : UInt8) : Write := do
  memcpy [byte]
  advance 1

def writeValue : Value → Write
  | .string s => do
    push 0x01
    memcpy (littleEndian 4 s.length)
    advance 4
    memcpy s
    advance s.length
  | .double d => do
    push 0x02
    memcpy (littleEndian 8 d.toNat)
    advance 8
  | .int i    => do
    push 0x03
    memcpy (littleEndian 4 i.toNat)
    advance 4
  | .int64 i  => do
    push 0x04
    memcpy (littleEndian 8 i.toNat)
    advance 8
  | .uint64 n => do
    push 0x05
    memcpy (littleEndian 8 n.toNat)
    advance 8
  | .float f  => do
    push 0x06
    memcpy (littleEndian 4 f.toNat)
    advance 4
  | .bool b   => do
    push 0x07
    push (if b then 1 else 0)
  | _         => push 0x00

def writeEntries : List (Bytes × Value) → Write
  | []           => return ()
  | (k, v) :: es => do
    memcpy (littleEndian 4 k.length)
    advance 4
    memcpy k
    advance k.length
    writeValue v
    writeEntries es

def writeString (s : Bytes) : Write := do
  if 0 < s.length then
    memcpy s
    advance s.length
  else
    return ()

def writePayload (payload : List (Bytes × Value)) : Write := do
  if payload.isEmpty then
    return ()
  else
    memcpy (littleEndian 4 payload.length)
    advance 4
    writeEntries payload

def writeHeader (msg : Message) : Write := do
  setField Header.msgType (littleEndian 1 msg.msgType.toNat)
  setField Header.durability (littleEndian 1 msg.durability.toNat)
  setField Header.senderLen (littleEndian 2 msg.sender.length)
  setField Header.eventLen (littleEndian 2 msg.event.length)
  setField Header.payloadLen <|
    littleEndian 2 (if 65535 < payloadLen msg.payload then 65535 else payloadLen msg.payload)
  setField Header.totalSize (littleEndian 4 (totalSize msg))
  setField Header.timestamp (littleEndian 8 (msg.timestamp.getD 0).toNat)
  advance headerSize

def writeMessage (msg : Message) : Write := do
  writeHeader msg
  writeString msg.sender
  writeString msg.event
  writePayload msg.payload

-- The result comes with the memory at the buffer.
def serializeFlat (msg : Message) (capacity : ℕ) : Option Bytes → Option (ℕ × Option Bytes)
  | none     => return (0, none)
  | some mem => do
    if capacity < headerSize then
      return (0, some mem)
    else if capacity < totalSize msg then
      return (0, some mem)
    else
      let (_, c) ← (writeMessage msg).run { mem, p := 0 }
      return (totalSize msg, some c.mem)

def errorMarker : Message :=
  { msgType := .command }

def readField (data : Bytes) (offset size : ℕ) : Option ℕ :=
  (Memory.load data offset size).map ofLittleEndian

-- A string that does not fit is skipped.
def readString (data : Bytes) (len p : ℕ) : Option (Bytes × ℕ) := do
  if 0 < len ∧ p + len ≤ data.length then
    return (← Memory.load data p len, p + len)
  else
    return ([], p)

def readPayload (data : Bytes) (len p : ℕ) : Option (List (Bytes × Value)) := do
  let remaining := data.length - p
  if 0 < remaining ∧ 0 < len then
    return [(utf8 "__flat__", .bytes (← Memory.load data p (min len remaining)))]
  else
    return []

-- A read outside of the data has no meaning.
def deserializeFlat : Option Bytes → Option Message
  | none      => return errorMarker
  | some data => do
    if data.length < headerSize then
      return errorMarker
    else
      let totalSize ← readField data Header.totalSize 4
      if data.length < totalSize then
        return errorMarker
      else
        let msgType ← readField data Header.msgType 1
        let durability ← readField data Header.durability 1
        let timestamp ← readField data Header.timestamp 8
        let senderLen ← readField data Header.senderLen 2
        let (sender, p) ← readString data senderLen headerSize
        let eventLen ← readField data Header.eventLen 2
        let (event, p) ← readString data eventLen p
        let payloadLen ← readField data Header.payloadLen 2
        let payload ← readPayload data payloadLen p
        return {
          msgType    := .ofNat 32 msgType
          durability := .ofNat 32 durability
          timestamp  := some (.ofNat 64 timestamp)
          sender
          event
          payload }

end Cpp.Flat
