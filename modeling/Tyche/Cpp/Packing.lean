import Tyche.Cpp.Serialization
import Tyche.Packer

-- The encoders of a message with the buffers of bytes that they fill. An exception is none, be it
-- thrown to the caller or the end of the process.
namespace Cpp.Packing

open Msgpack (Packer)

abbrev Pack := StateT Bytes Option Unit

def append (bytes : Bytes) : Pack :=
  modify (· ++ bytes)

section

variable (p : Packer)

def packNil : Pack :=
  append p.nil

def packInt64 (i : BitVec 64) : Pack :=
  append <| if i.msb then p.negative i else p.positive i

def packInt (i : BitVec 32) : Pack :=
  packInt64 p (i.signExtend 64)

def packDouble (x : Floating) : Pack :=
  append (p.double x)

-- The size of a string that needs more than 32 bits is an exception.
def packString (s : Bytes) : Pack := do
  if s.length < 2 ^ 32 then
    append <| p.str (.ofNat 32 s.length)
    append s
  else
    failure

def packMap (size : BitVec 32) : Pack :=
  append (p.map size)

def packArray (size : BitVec 32) : Pack :=
  append (p.array size)

def packStrings : List Bytes → Pack
  | []     => return ()
  | s :: l => do
    packString p s
    packStrings l

mutual

def packAny : Any → Pack
  | .empty     => packNil p
  | .double x  => packDouble p x
  | .string s  => packString p s
  | .int i     => packInt p i
  | .int64 i   => packInt64 p i
  | .uint64 n  => append (p.positive n)
  | .float x   => packDouble p x
  | .bool b    => append (p.boolean b)
  | .cstring s => packString p s
  | .payload m => do
    packMap p (.ofNat 32 m.length)
    packEntries m
  | .strings v => do
    packArray p (.ofNat 32 v.length)
    packStrings p v
  | .anys v    => do
    packArray p (.ofNat 32 v.length)
    packAnys v

def packEntries : List (Bytes × Any) → Pack
  | []          => return ()
  | (k, v) :: m => do
    packString p k
    packAny v
    packEntries m

def packAnys : List Any → Pack
  | []     => return ()
  | v :: l => do
    packAny v
    packAnys l

end

def packString? : Option Bytes → Pack
  | some s => packString p s
  | none   => packNil p

def packDouble? : Option Floating → Pack
  | some x => packDouble p x
  | none   => packNil p

def packKey (key : String) (len : BitVec 32) : Pack := do
  append (p.str len)
  append <| (utf8 key).take len.toNat

end

-- The memory that a buffer begins with. What `malloc` is never able to give is an exception.
def sbuffer (initsz : BitVec 64) : Option Bytes :=
  if initsz.toNat < 2 ^ 63 then some [] else none

def clear (_ : Bytes) : Bytes :=
  []

-- Nothing is copied past the end of the memory.
def memcpy (mem bytes : Bytes) : Option Bytes :=
  if bytes.length ≤ mem.length then some (bytes ++ mem.drop bytes.length) else none

variable (p : Packer)

def serialize (msg : Message) : Option Bytes := do
  let buffer ← sbuffer 512
  let (_, buffer) ← StateT.run (s := buffer) do
    packMap p 10
    packKey p "msg_type" 8
    packString p (messageTypeToStr msg.msgType)
    packKey p "sender" 6
    packString p msg.sender
    packKey p "event" 5
    packString p msg.event
    packKey p "payload" 7
    packMap p (.ofNat 32 msg.payload.length)
    packEntries p msg.payload
    packKey p "recipient" 9
    packString? p msg.recipient
    packKey p "durability" 10
    packInt p msg.durability
    packKey p "timestamp" 9
    packDouble? p msg.timestamp
    packKey p "correlation_id" 14
    packString? p msg.correlationId
    packKey p "wait_timeout" 12
    packDouble? p msg.waitTimeout
    packKey p "run_timeout" 11
    packDouble? p msg.runTimeout
  return buffer

-- The buffer of the thread has what was written last.
def serializeTls (tlsBuffer : Bytes) (msg : Message) : Option Bytes := do
  let (_, tlsBuffer) ← StateT.run (s := clear tlsBuffer) do
    packMap p 10
    packString p (utf8 "msg_type")
    packString p (messageTypeToStr msg.msgType)
    packString p (utf8 "sender")
    packString p msg.sender
    packString p (utf8 "event")
    packString p msg.event
    packString p (utf8 "payload")
    packMap p (.ofNat 32 msg.payload.length)
    packEntries p msg.payload
    packString p (utf8 "recipient")
    packString? p msg.recipient
    packString p (utf8 "durability")
    packInt p msg.durability
    packString p (utf8 "timestamp")
    packDouble? p msg.timestamp
    packString p (utf8 "correlation_id")
    packString? p msg.correlationId
    packString p (utf8 "wait_timeout")
    packDouble? p msg.waitTimeout
    packString p (utf8 "run_timeout")
    packDouble? p msg.runTimeout
  return tlsBuffer

-- The result comes with the memory at the buffer. The initial size of the packer's own buffer goes
-- through an `int`.
def serializeInto (msg : Message) (capacity : BitVec 64) :
    Option Bytes → Option (ℕ × Option Bytes)
  | none     => return (0, none)
  | some mem => do
    if capacity = 0 then
      return (0, some mem)
    else
      let sbuf ← sbuffer <| if capacity < 512 then 512 else (capacity.setWidth 32).signExtend 64
      let (_, sbuf) ← StateT.run (s := sbuf) do
        packMap p 10
        packString p (utf8 "msg_type")
        packString p (messageTypeToStr msg.msgType)
        packString p (utf8 "sender")
        packString p msg.sender
        packString p (utf8 "event")
        packString p msg.event
        packString p (utf8 "payload")
        packMap p (.ofNat 32 msg.payload.length)
        packEntries p msg.payload
        packString p (utf8 "recipient")
        packString? p msg.recipient
        packString p (utf8 "durability")
        packInt p msg.durability
        packString p (utf8 "timestamp")
        packDouble? p msg.timestamp
        packString p (utf8 "correlation_id")
        packString? p msg.correlationId
        packString p (utf8 "wait_timeout")
        packDouble? p msg.waitTimeout
        packString p (utf8 "run_timeout")
        packDouble? p msg.runTimeout
      if capacity.toNat < sbuf.length then
        return (0, some mem)
      else
        let mem ← memcpy mem sbuf
        return (sbuf.length, some mem)

end Cpp.Packing
