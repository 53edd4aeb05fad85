import Tyche.Python.Packing

namespace Python

open Msgpack

structure Envelope (α : Type) where
  identity     : Bytes
  message      : α
  routingStack : List Bytes := []

-- How the packer's tokens are written as bytes, and how bytes are read as tokens.
variable (encode : List Token → Bytes) (decode : Bytes → List Token)

def ObjMessage.packed (msg : ObjMessage) : Option Bytes :=
  msg.serialize.map encode

def unpacked (n : ℕ) (data : Bytes) : Except Error FullMessage :=
  deserialize n (decode data)

-- What cannot be packed is an exception.
def serializeEnvelope (envelope : Envelope ObjMessage) : Option (List Bytes) := do
  let frames := envelope.routingStack
  let frames := if envelope.routingStack.isEmpty then frames else frames ++ [[]]
  let frames := frames ++ [envelope.identity]
  return frames ++ [← envelope.message.packed encode]

namespace Envelope

-- `frames.index(frame)`
def index (frames : List Bytes) (frame : Bytes) : Except Error ℕ :=
  match frames.findIdx? (· = frame) with
  | some i => .ok i
  | none   => .error .valueError

-- `frames[i]`
def item (frames : List Bytes) (i : ℕ) : Except Error Bytes :=
  match frames[i]? with
  | some frame => .ok frame
  | none       => .error .indexError

-- The routing stack, the identity and the data of the message.
def delimited (frames : List Bytes) : Except Error (List Bytes × Bytes × Bytes) := do
  let delimIdx ← index frames []
  let routingStack := frames.take delimIdx
  let identity ← item frames (delimIdx + 1)
  let msgData ← item frames (delimIdx + 2)
  return (routingStack, identity, msgData)

def simple (frames : List Bytes) : Except Error (List Bytes × Bytes × Bytes) := do
  let identity ← item frames 0
  let msgData ← item frames 1
  return ([], identity, msgData)

def split (frames : List Bytes) : Except Error (List Bytes × Bytes × Bytes) :=
  match delimited frames with
  | .error .valueError => simple frames
  | .error .indexError => simple frames
  | result             => result

end Envelope

def deserializeEnvelope (n : ℕ) (frames : List Bytes) : Except Error (Envelope FullMessage) := do
  let (routingStack, identity, msgData) ← Envelope.split frames
  let message ← unpacked decode n msgData
  return { identity, message, routingStack }

end Python
