import Tyche.Bytes
import Tyche.Dict
import Tyche.Json
import Tyche.Threads

namespace Rust

open Proc

-- The mutexes of a module, and the one in each request for its result.
inductive Mutex
  | moduleId
  | stopSenders
  | threads
  | pubSocket
  | subSocket
  | heartbeatSocket
  | context
  | jobSocket
  | socket
  | pendingRequests
  | result (r : ℕ)
deriving DecidableEq

inductive ModuleThread
  | caller (n : ℕ)
  | receiver
  | stopper (n : ℕ)
deriving DecidableEq

-- What `recv_multipart` on the job socket may return, as far as it is decoded.
inductive Incoming
  | nothing
  | request
  | response (correlationId : Option Bytes) (payload : Json)

-- The requests are objects that their callers and the table share, of which `created` have been
-- made so far. The rest are logs: the requests whose callers have run out of time and still hold
-- their results, the request whose result the holder of the table is about to set, the correlation
-- id of the response that the receiver has yet to look up, the requests that were ever registered,
-- the responses that arrived for them after that, and what their callers returned.
structure Module where
  owner           : Mutex → Option ModuleThread
  running         : Bool
  connected       : Bool
  pendingRequests : Dict Bytes ℕ
  results         : ℕ → Option Json
  created         : ℕ
  gaveUp          : List ℕ
  target          : Option ℕ
  handling        : Option Bytes
  registered      : List (Bytes × ℕ)
  received        : List (ℕ × Json)
  returned        : List (ℕ × Json)

namespace Module

-- The module runs and is connected.
def start : Module where
  owner _         := none
  running         := true
  connected       := true
  pendingRequests := ∅
  results _       := none
  created         := 0
  gaveUp          := []
  target          := none
  handling        := none
  registered      := []
  received        := []
  returned        := []

def own (s : Module) (m : Mutex) (o : Option ModuleThread) : Module :=
  { s with owner := fun n => if n = m then o else s.owner n }

def setResult (s : Module) (r : ℕ) (v : Option Json) : Module :=
  { s with results := fun p => if p = r then v else s.results p }

def unlock (s : Module) : Mutex → Module
  | .result r         => { s.own (.result r) none with gaveUp := s.gaveUp.filter (· ≠ r) }
  | .pendingRequests  => { s.own .pendingRequests none with target := none }
  | m                 => s.own m none

def register (s : Module) (c : Bytes) (r : ℕ) : Module :=
  { s with
    pendingRequests := s.pendingRequests.set c r
    registered      := (c, r) :: s.registered }

def receive (s : Module) : Incoming → Module
  | .response (some c) payload =>
    { s with
      handling := c
      received := (s.registered.filter (·.1 = c)).map (fun e => (e.2, payload)) ++ s.received }
  | _                          => { s with handling := none }

def lookUp (s : Module) (c : Bytes) : Module :=
  { s with target := s.pendingRequests.get? c, handling := none }

end Module

-- A thread that waits for a condition variable may wake up at any time, so that notifications make
-- no difference.
inductive ModuleOp : Type → Type
  | lock (m : Mutex) : ModuleOp Unit
  | unlock (m : Mutex) : ModuleOp Unit
  | isConnected : ModuleOp Bool
  | newRequest : ModuleOp ℕ
  | insert (c : Bytes) (r : ℕ) : ModuleOp Unit
  | remove (c : Bytes) : ModuleOp Unit
  | send : ModuleOp Bool
  | isNone (r : ℕ) : ModuleOp Bool
  | wait (r : ℕ) : ModuleOp Unit
  | expire (r : ℕ) : ModuleOp Unit
  | take (r : ℕ) : ModuleOp Json
  | answer (r : ℕ) (v : Json) : ModuleOp Unit
  | receive (m : Incoming) : ModuleOp Unit
  | get (c : Bytes) : ModuleOp (Option ℕ)
  | set (r : ℕ) (v : Json) : ModuleOp Unit
  | isRunning : ModuleOp Bool
  | stopRunning : ModuleOp Unit
  | disconnect : ModuleOp Unit
  | requests : ModuleOp (List ℕ)
  | clear : ModuleOp Unit

namespace Module

-- `works` tells whether a message can be sent.
def exec (i : ModuleThread) (works : Bool) :
    ∀ {β : Type}, ModuleOp β → Module → Except Empty β × Module
  | _, .lock m, s       => (.ok (), s.own m (some i))
  | _, .unlock m, s     => (.ok (), s.unlock m)
  | _, .isConnected, s  => (.ok s.connected, s)
  | _, .newRequest, s   =>
    (.ok s.created, { s.setResult s.created none with created := s.created + 1 })
  | _, .insert c r, s   => (.ok (), s.register c r)
  | _, .remove c, s     => (.ok (), { s with pendingRequests := s.pendingRequests.erase c })
  | _, .send, s         => (.ok works, s)
  | _, .isNone r, s     => (.ok (s.results r).isNone, s)
  | _, .wait r, s       => (.ok (), s.own (.result r) none)
  | _, .expire r, s     => (.ok (), { s with gaveUp := r :: s.gaveUp })
  | _, .take r, s       => (.ok <| (s.results r).getD .null, s.setResult r none)
  | _, .answer r v, s   => (.ok (), { s with returned := (r, v) :: s.returned })
  | _, .receive m, s    => (.ok (), s.receive m)
  | _, .get c, s        => (.ok <| s.pendingRequests.get? c, s.lookUp c)
  | _, .set r v, s      => (.ok (), s.setResult r v)
  | _, .isRunning, s    => (.ok s.running, s)
  | _, .stopRunning, s  => (.ok (), { s with running := false })
  | _, .disconnect, s   => (.ok (), { s with connected := false })
  | _, .requests, s     => (.ok <| s.pendingRequests.entries.map Prod.snd, s)
  | _, .clear, s        => (.ok (), { s with pendingRequests := ∅ })

def Blocked {β : Type} (s : Module) : ModuleOp β → Prop
  | .lock m => s.owner m ≠ none
  | _       => False

instance {β : Type} {s : Module} : ∀ o : ModuleOp β, Decidable (s.Blocked o)
  | .lock _ => inferInstanceAs <| Decidable (_ ≠ none)
  | .unlock _ | .isConnected | .newRequest | .insert .. | .remove _ | .send | .isNone _ | .wait _
  | .expire _ | .take _ | .answer .. | .receive _ | .get _ | .set .. | .isRunning | .stopRunning
  | .disconnect | .requests | .clear => isFalse id

end Module

abbrev RustModule :=
  Proc ModuleOp Empty

-- `wait_timeout_while`, which returns whether the time ran out. That it does is noticed after a
-- number of times that the thread wakes up without a result.
def waitTimeoutWhile (r : ℕ) : ℕ → RustModule Bool
  | 0     => do
    if ← op (.isNone r) then
      op (.expire r)
      return true
    else
      return false
  | n + 1 => do
    if ← op (.isNone r) then
      op (.wait r)
      op (.lock <| .result r)
      waitTimeoutWhile r n
    else
      return false

-- The mutex of the job socket is held for the whole of the call.
def requestEvent (c : Bytes) (wakeUps : ℕ) : RustModule Unit := do
  op (.lock .moduleId)
  op (.unlock .moduleId)
  op (.lock .jobSocket)
  if ← op .isConnected then
    let r ← op .newRequest
    op (.lock .pendingRequests)
    op (.insert c r)
    op (.unlock .pendingRequests)
    op (.lock .socket)
    let sent ← op .send
    op (.unlock .socket)
    if sent then
      op (.lock <| .result r)
      let timedOut ← waitTimeoutWhile r wakeUps
      if ← (if timedOut then op (.isNone r) else pure false) then
        op (.lock .pendingRequests)
        op (.remove c)
        op (.unlock .pendingRequests)
        op (.unlock <| .result r)
      else
        let v ← op (.take r)
        op (.unlock <| .result r)
        op (.lock .pendingRequests)
        op (.remove c)
        op (.unlock .pendingRequests)
        op (.answer r v)
  op (.unlock .jobSocket)

def handleJobRequest : RustModule Unit := do
  op (.lock .socket)
  let _ ← op .send
  op (.unlock .socket)

def handleJobResponse (correlationId : Option Bytes) (payload : Json) : RustModule Unit :=
  match correlationId with
  | none   => return ()
  | some c => do
    op (.lock .pendingRequests)
    match ← op (.get c) with
    | none   => pure ()
    | some r =>
      op (.lock <| .result r)
      op (.set r payload)
      op (.unlock <| .result r)
    op (.unlock .pendingRequests)

-- One round of the loop of the job receiver.
def receiveJob (m : Incoming) : RustModule Unit := do
  op (.lock .socket)
  op (.receive m)
  op (.unlock .socket)
  match m with
  | .nothing            => return ()
  | .request            => handleJobRequest
  | .response c payload => handleJobResponse c payload

-- `*self.m.lock().unwrap() = None`
def reset (m : Mutex) : RustModule Unit := do
  op (.lock m)
  op (.unlock m)

-- The threads that are joined may go on for longer.
def stop : RustModule Unit := do
  if ← op .isRunning then
    op .stopRunning
    reset .stopSenders
    reset .threads
    reset .pubSocket
    reset .subSocket
    reset .heartbeatSocket
    op (.lock .jobSocket)
    op .disconnect
    op (.unlock .jobSocket)
    op (.lock .pendingRequests)
    let requests ← op .requests
    each (fun r => do
      op (.lock <| .result r)
      op (.set r .null)
      op (.unlock <| .result r)) requests
    op (.unlock .pendingRequests)
    op (.lock .pendingRequests)
    op .clear
    op (.unlock .pendingRequests)
    reset .context

inductive ModuleTask
  | request (c : Bytes) (wakeUps : ℕ)
  | receive (m : Incoming)
  | stop

def Module.enter : ModuleThread → ModuleTask → Module → Option (Module × RustModule Unit)
  | .caller _, .request c wakeUps, s => some (s, requestEvent c wakeUps)
  | .receiver, .receive m, s         => some (s, receiveJob m)
  | .stopper _, .stop, s             => some (s, Rust.stop)
  | _, _, _                          => none

def modules : Threads.System ModuleOp Empty Module ModuleThread ModuleTask Bool where
  enter            := Module.enter
  exec i works o s := if s.Blocked o then none else some (Module.exec i works o s)

end Rust
