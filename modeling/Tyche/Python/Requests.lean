import Tyche.Proc
import Tyche.Python.Packing

namespace Python.Requests

open Proc

inductive Exception
  | runtimeError
  | unicodeEncodeError
  | packError
  | sendError
  | overflowError
  | timeoutError
  | typeError

-- The part of a module that requests use. The table holds the objects with the results, of which
-- `created` have been made so far. What the receiver cannot find it only logs.
structure Module where
  moduleId        : Bytes
  connected       : Bool
  pendingRequests : Dict Key ℕ
  result          : ℕ → Value
  isSet           : ℕ → Bool
  created         : ℕ

-- The sections under the lock, and what a thread does without it.
inductive Op : Type → Type
  | isConnected : Op Bool
  | newRequest : Op ℕ
  | insert (c : Key) (r : ℕ) : Op Unit
  | moduleId : Op Bytes
  | sendMultipart (frames : List Bytes) (message : List Msgpack.Token) : Op Unit
  | wait (r : ℕ) : Op Bool
  | pop (c : Key) : Op (Option ℕ)
  | result (r : ℕ) : Op Value
  | get (c : Key) : Op (Option ℕ)
  | setResult (r : ℕ) (payload : Value) : Op Unit
  | set (r : ℕ) : Op Unit
  | disconnect : Op Unit

-- How the wait for an event ends that is not set yet. A timeout that is too large is refused.
inductive Waiting
  | untilSet
  | elapses
  | refused
deriving DecidableEq

-- What the code does not determine: whether the socket is still there and can send the message, and
-- how the wait ends.
structure Surroundings where
  sends : Bool
  waits : Waiting

namespace Module

def exec (x : Surroundings) : ∀ {β : Type}, Op β → Module → Except Exception β × Module
  | _, .isConnected, s       => (.ok s.connected, s)
  | _, .newRequest, s        =>
    (.ok s.created, { s with
      result  := Function.update s.result s.created .none
      isSet   := Function.update s.isSet s.created false
      created := s.created + 1 })
  | _, .insert c r, s        => (.ok (), { s with pendingRequests := s.pendingRequests.set c r })
  | _, .moduleId, s          => (.ok s.moduleId, s)
  | _, .sendMultipart _ _, s =>
    (if x.sends then .ok () else .error .sendError, s)
  | _, .wait r, s            =>
    (match x.waits with
      | .elapses  => .ok false
      | .untilSet => .ok (s.isSet r)
      | .refused  => if s.isSet r then .ok true else .error .overflowError, s)
  | _, .pop c, s             =>
    (.ok <| s.pendingRequests.get? c, { s with pendingRequests := s.pendingRequests.erase c })
  | _, .result r, s          => (.ok (s.result r), s)
  | _, .get c, s             => (.ok <| s.pendingRequests.get? c, s)
  | _, .setResult r v, s     => (.ok (), { s with result := Function.update s.result r v })
  | _, .set r, s             => (.ok (), { s with isSet := Function.update s.isSet r true })
  | _, .disconnect, s        => (.ok (), { s with connected := false })

end Module

abbrev PyModule :=
  Proc Op Exception

def request (moduleId c : Bytes) (event : Option Bytes) (payload : Obj) : ObjMessage where
  msgType       := .request
  sender        := .str moduleId
  event         := .str event
  payload       := payload
  correlationId := .str c

def encode : Option Bytes → Except Exception Bytes
  | some s => .ok s
  | none   => .error .unicodeEncodeError

def serialize (msg : ObjMessage) : Except Exception (List Msgpack.Token) :=
  match msg.serialize with
  | some ts => .ok ts
  | none    => .error .packError

-- `c` is the correlation id that is drawn.
def requestEvent (c : Bytes) (event : Option Bytes) (payload : Obj) : PyModule Value := do
  if ← op .isConnected then
    let moduleId ← op .moduleId
    let r ← op .newRequest
    op <| .insert (.str c) r
    let topic ← lift <| encode event
    let message ← lift <| serialize <| request moduleId c event payload
    op <| .sendMultipart [[], topic] message
    if ← op <| .wait r then
      match ← op <| .pop (.str c) with
      | some r => op <| .result r
      | none   => return .dict []
    else
      let _ ← op <| .pop (.str c)
      raise .timeoutError
  else
    raise .runtimeError

def handleJobResponse (correlationId payload : Value) : PyModule Unit := do
  if correlationId.truthy then
    match correlationId.hash with
    | .error _ => raise .typeError
    | .ok c    =>
      match ← op <| .get c with
      | none   => return ()
      | some r =>
        op <| .setResult r payload
        op <| .set r

end Python.Requests
