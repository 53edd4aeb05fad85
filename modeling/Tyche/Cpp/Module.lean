import Tyche.Cpp.Message
import Tyche.Dict
import Tyche.Threads

namespace Cpp

open Proc

inductive ModuleThread
  | caller (n : ℕ)
  | receiver
  | stopper (n : ℕ)
deriving DecidableEq

-- What `recv_multipart` on the job socket may return, as far as it is decoded.
inductive Incoming
  | nothing
  | request
  | response (payload : Payload) (correlationId : Option Bytes)

-- The requests are objects that their callers and the table share, of which `created` have been
-- made so far. The rest are logs: the requests that could not be sent, the correlation id of the
-- response that the receiver has yet to look up, the requests that were ever registered, the
-- responses that arrived for them after that, and what their callers returned.
structure TycheModule where
  running         : Bool
  connected       : Bool
  pendingRequests : Dict Bytes ℕ
  result          : ℕ → Payload
  ready           : ℕ → Bool
  created         : ℕ
  failed          : List ℕ
  handling        : Option Bytes
  registered      : List (Bytes × ℕ)
  received        : List (ℕ × Payload)
  returned        : List (ℕ × Payload)

namespace TycheModule

-- The module runs and is connected.
def start : TycheModule where
  running         := true
  connected       := true
  pendingRequests := ∅
  result _        := []
  ready _         := false
  created         := 0
  failed          := []
  handling        := none
  registered      := []
  received        := []
  returned        := []

def setRequest (s : TycheModule) (r : ℕ) (result : Payload) (ready : Bool) : TycheModule :=
  { s with
    result := Function.update s.result r result
    ready  := Function.update s.ready r ready }

def register (s : TycheModule) (c : Bytes) (r : ℕ) : TycheModule :=
  { s with
    pendingRequests := s.pendingRequests.set c r
    registered      := (c, r) :: s.registered }

def erase (s : TycheModule) (c : Bytes) : TycheModule :=
  { s with pendingRequests := s.pendingRequests.erase c }

def fail (s : TycheModule) (r : ℕ) : TycheModule :=
  { s with failed := r :: s.failed }

def receive (s : TycheModule) : Incoming → TycheModule
  | .response payload (some c) =>
    { s with
      handling := c
      received := (s.registered.filter (·.1 = c)).map (fun e => (e.2, payload)) ++ s.received }
  | _                          => { s with handling := none }

def respond (s : TycheModule) (c : Bytes) (payload : Payload) : TycheModule :=
  match s.pendingRequests.get? c with
  | none   => { s with handling := none }
  | some r => { s.setRequest r payload true with handling := none }

-- The results of the requests stay as they are.
def wakeUp (s : TycheModule) : TycheModule :=
  { s with
    ready           := fun r => s.ready r || s.pendingRequests.entries.any (·.2 = r)
    pendingRequests := ∅ }

end TycheModule

-- The sections under a lock, each of which is atomic, and what a thread does without a lock.
inductive ModuleOp : Type → Type
  | isConnected : ModuleOp Bool
  | newRequest : ModuleOp ℕ
  | insert (c : Bytes) (r : ℕ) : ModuleOp Unit
  | sendRequest (r : ℕ) : ModuleOp Bool
  | tryWait (c : Bytes) (r : ℕ) : ModuleOp Bool
  | expire (c : Bytes) (r : ℕ) : ModuleOp Bool
  | result (r : ℕ) : ModuleOp Payload
  | answer (r : ℕ) (payload : Payload) : ModuleOp Unit
  | receive (m : Incoming) : ModuleOp Unit
  | sendResponse : ModuleOp Unit
  | respond (c : Bytes) (payload : Payload) : ModuleOp Unit
  | stopRunning : ModuleOp Unit
  | wakeUp : ModuleOp Unit
  | disconnect : ModuleOp Unit

-- `works` tells whether a message can be sent.
def TycheModule.exec (works : Bool) :
    ∀ {β : Type}, ModuleOp β → TycheModule → Except Empty β × TycheModule
  | _, .isConnected, s   => (.ok (s.connected && s.running), s)
  | _, .newRequest, s    =>
    (.ok s.created, { s.setRequest s.created [] false with created := s.created + 1 })
  | _, .insert c r, s    => (.ok (), s.register c r)
  | _, .sendRequest r, s => (.ok works, if works then s else s.fail r)
  | _, .tryWait c r, s   => (.ok (s.ready r), if s.ready r then s.erase c else s)
  | _, .expire c r, s    => (.ok (s.ready r), s.erase c)
  | _, .result r, s      => (.ok (s.result r), s)
  | _, .answer r p, s    => (.ok (), { s with returned := (r, p) :: s.returned })
  | _, .receive m, s     => (.ok (), s.receive m)
  | _, .sendResponse, s  => (.ok (), s)
  | _, .respond c p, s   => (.ok (), s.respond c p)
  | _, .stopRunning, s   => (.ok (), { s with running := false })
  | _, .wakeUp, s        => (.ok (), s.wakeUp)
  | _, .disconnect, s    => (.ok (), { s with connected := false })

abbrev CppModule :=
  Proc ModuleOp Empty

-- `wait_for` returns whether the request is ready, in the section in which the request is erased.
-- The thread wakes up a number of times before that because of a notification, or for no reason.
def waitFor (c : Bytes) (r : ℕ) : ℕ → CppModule Bool
  | 0     => op (.expire c r)
  | n + 1 => do
    if ← op (.tryWait c r) then
      return true
    else
      waitFor c r n

def requestEvent (c : Bytes) (wakeUps : ℕ) : CppModule Unit := do
  if ← op .isConnected then
    let r ← op .newRequest
    op (.insert c r)
    if ← op (.sendRequest r) then
      if ← waitFor c r wakeUps then
        let p ← op (.result r)
        op (.answer r p)

def handleJobResponse (payload : Payload) : Option Bytes → CppModule Unit
  | none   => return ()
  | some c => op (.respond c payload)

-- One round of the loop of the job receiver.
def receiveJob (m : Incoming) : CppModule Unit := do
  op (.receive m)
  match m with
  | .nothing            => return ()
  | .request            => op .sendResponse
  | .response payload c => handleJobResponse payload c

-- The threads that are joined may go on for longer.
def stop : CppModule Unit := do
  op .stopRunning
  op .wakeUp
  op .disconnect

inductive ModuleTask
  | request (c : Bytes) (wakeUps : ℕ)
  | receive (m : Incoming)
  | stop

def TycheModule.enter : ModuleThread → ModuleTask → TycheModule →
    Option (TycheModule × CppModule Unit)
  | .caller _, .request c wakeUps, s => some (s, requestEvent c wakeUps)
  | .receiver, .receive m, s         => some (s, receiveJob m)
  | .stopper _, .stop, s             => some (s, Cpp.stop)
  | _, _, _                          => none

def modules : Threads.System ModuleOp Empty TycheModule ModuleThread ModuleTask Bool where
  enter            := TycheModule.enter
  exec _ works o s := some (TycheModule.exec works o s)

end Cpp
