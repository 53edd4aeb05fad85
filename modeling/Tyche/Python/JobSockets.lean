import Tyche.Multipart
import Tyche.Python.Envelope
import Tyche.Python.JobReceiver
import Tyche.Python.JobThreads
import Tyche.Python.Requests

namespace Python

open Msgpack Proc

-- The frames of what leaves the job router. The engine's own messages are given by `tell`.
def Output.frames (tell : Output → Bytes) : Output → Option (List Bytes)
  | .dispatch _ handler _ topicFrame messageFrame =>
    some [handler.val, [], topicFrame, messageFrame]
  | .response _ identity topicFrame messageFrame  =>
    some [identity, [], topicFrame, messageFrame]
  | .noHandler c identity topicFrame topic        =>
    some [identity, [], topicFrame, tell <| .noHandler c identity topicFrame topic]
  | .timedOut c reason identity topicFrame topic  =>
    some [identity, [], topicFrame, tell <| .timedOut c reason identity topicFrame topic]
  | .answer .. | .deadLetter ..                   =>
    none

inductive RouterThread
  | job (i : JobThread)
  | admin (n : ℕ)
deriving DecidableEq

-- A call of an admin handler comes with the correlation id that is drawn.
inductive RouterTask
  | job (k : JobTask)
  | setAdminHandlers (m : ModuleId) (handlers : Value)
  | popAdminHandlers (m : ModuleId)
  | invokeAdminHandler (m : ModuleId) (handlerName c : Bytes)

inductive AdminOp : Type → Type
  | isRegistered (m : ModuleId) : AdminOp Bool
  | getAdminHandlers (m : ModuleId) : AdminOp Value
  | hasRouter : AdminOp Bool
  | sendMultipart (frames : List Bytes) : AdminOp Unit

abbrev RouterOp (β : Type) : Type :=
  Op β ⊕ AdminOp β

def RouterOp.frames (tell : Output → Bytes) {β : Type} : RouterOp β → Option (List Bytes)
  | .inl (.send o)               => o.frames tell
  | .inr (.sendMultipart frames) => some frames
  | _                            => none

def adminRequest (topic handlerName c : Bytes) : ObjMessage where
  msgType       := .request
  sender        := .text "engine"
  event         := .str topic
  payload       := .dict [(.text "command", .str handlerName)]
  correlationId := .str c

-- The correlation id of what was sent.
def invokeAdminHandler (encode : List Token → Bytes) (m : ModuleId) (handlerName c : Bytes) :
    Proc RouterOp Error (Option Bytes) := do
  if ← op <| .inr <| .isRegistered m then
    let handlers ← op <| .inr <| .getAdminHandlers m
    if ← lift <| handlers.contains ⟨.str handlerName, .str handlerName, rfl⟩ then
      let topic := utf8 "admin." ++ handlerName
      match (adminRequest topic handlerName c).packed encode with
      | none       => raise .valueError
      | some frame =>
        Proc.catching (do
          if ← op <| .inr .hasRouter then
            op <| .inr <| .sendMultipart [m.val, [], topic, frame]
            return some c
          else
            return none) fun _ => return none
    else
      return none
  else
    return none

-- What the threads that use the job router share.
structure JobRouter where
  routing       : Routing
  adminHandlers : Dict ModuleId Value

namespace JobRouter

def start (now : ℚ) : JobRouter where
  routing       := .start now
  adminHandlers := ∅

-- Whoever calls an admin handler may go on after an exception.
def enter (deserialize : Bytes → Option Message) (encode : List Token → Bytes) :
    RouterThread → RouterTask → JobRouter → Option (JobRouter × Proc RouterOp Error Unit)
  | .job i, .job k, s                                =>
    (s.routing.enter deserialize i k).map fun (t, p) =>
      ({ s with routing := t }, p.subst fun o => op <| .inl o)
  | .job .registration, .setAdminHandlers m hs, s    =>
    some ({ s with adminHandlers := s.adminHandlers.set m hs }, return ())
  | .job .registration, .popAdminHandlers m, s       =>
    some ({ s with adminHandlers := s.adminHandlers.erase m }, return ())
  | .admin _, .invokeAdminHandler m handlerName c, s =>
    some (s, Proc.catching (do let _ ← invokeAdminHandler encode m handlerName c)
      fun _ => return ())
  | _, _, _                                          => none

def exec (deserialize : Bytes → Option Message) (works : Bool) :
    ∀ {β : Type}, RouterOp β → JobRouter → Except Error β × JobRouter
  | _, .inl o, s                     =>
    let (r, t) := s.routing.exec deserialize works o
    (r, { s with routing := t })
  | _, .inr (.isRegistered m), s     => (.ok (m ∈ s.adminHandlers), s)
  | _, .inr (.getAdminHandlers m), s =>
    match s.adminHandlers.get? m with
    | some hs => (.ok hs, s)
    | none    => (.error <| .keyError none, s)
  | _, .inr .hasRouter, s            => (.ok works, s)
  | _, .inr (.sendMultipart _), s    => (if works then .ok () else .error .zmqError, s)

end JobRouter

def routerThreads (deserialize : Bytes → Option Message) (encode : List Token → Bytes) :
    Threads.System RouterOp Error JobRouter RouterThread RouterTask Bool where
  enter            := JobRouter.enter deserialize encode
  exec _ works o s := some <| s.exec deserialize works o

-- The threads of the engine that send on the job router, in any order of their frames.
def jobRouter (deserialize : Bytes → Option Message) (encode : List Token → Bytes)
    (tell : Output → Bytes) : Threads.System (Multipart.Sending RouterOp Bytes) Error
      (JobRouter × Multipart RouterThread Bytes) RouterThread RouterTask Bool :=
  Multipart.system (routerThreads deserialize encode) (RouterOp.frames tell)

inductive SocketThread
  | caller (n : ℕ)
  | receiver
deriving DecidableEq

-- A request comes with the correlation id that is drawn, and a response with what is decoded.
inductive SocketTask
  | requestEvent (c : Bytes) (event : Option Bytes) (payload : Obj)
  | receive (frames : List Bytes)
  | response (correlationId payload : Value)

inductive ReceiverOp : Type → Type
  | handle (frames : List Bytes) : ReceiverOp (List JobReceiver.Sent)
  | respond (sent : JobReceiver.Sent) : ReceiverOp Unit

abbrev SocketOp (β : Type) : Type :=
  Requests.Op β ⊕ ReceiverOp β

def SocketOp.frames (encode : List Token → Bytes) {β : Type} : SocketOp β → Option (List Bytes)
  | .inl (.sendMultipart frames message) => some <| frames ++ [encode message]
  | .inr (.respond sent)                 => some [[], sent.topic, encode sent.frame]
  | _                                    => none

-- What the threads of a module that use its job socket share.
structure JobSocket (η : Type) where
  requests : Requests.Module
  receiver : JobReceiver.State η

def jobReceiver (frames : List Bytes) : Proc SocketOp Requests.Exception Unit := do
  let sent ← op <| .inr <| .handle frames
  each (fun s => op <| .inr <| .respond s) sent

namespace JobSocket

variable {η : Type}

def start (s : TycheModule η) : JobSocket η where
  requests := {
    moduleId        := s.moduleId
    connected       := true
    pendingRequests := ∅
    result _        := .none
    isSet _         := false
    created         := 0 }
  receiver := ⟨s, []⟩

-- The receiver ignores all exceptions. Any thread may call `request_event`, also the receiver in
-- the code of a handler, and it may go on after an exception.
def enter : SocketThread → SocketTask → JobSocket η →
    Option (JobSocket η × Proc SocketOp Requests.Exception Unit)
  | _, .requestEvent c event payload, s => some (s, Proc.catching
      ((do let _ ← Requests.requestEvent c event payload).subst fun o => op <| .inl o)
      fun _ => return ())
  | .receiver, .receive frames, s       => some (s, Proc.catching
      (jobReceiver frames) fun _ => return ())
  | .receiver, .response v payload, s   => some (s, Proc.catching
      ((Requests.handleJobResponse v payload).subst fun o => op <| .inl o) fun _ => return ())
  | _, _, _                             => none

-- The code of a handler is a single step. The receiver has yet to send the response.
def exec (code : JobReceiver.Code η) (x : Requests.Surroundings) :
    ∀ {β : Type}, SocketOp β → JobSocket η → Except Requests.Exception β × JobSocket η
  | _, .inl o, s                =>
    let (r, m) := s.requests.exec x o
    (r, { s with requests := m })
  | _, .inr (.handle frames), s =>
    let t := s.receiver.receive code frames
    (.ok <| t.sent.drop s.receiver.sent.length, { s with receiver := t })
  | _, .inr (.respond _), s     => (if x.sends then .ok () else .error .sendError, s)

end JobSocket

def socketThreads {η : Type} (code : JobReceiver.Code η) :
    Threads.System SocketOp Requests.Exception (JobSocket η) SocketThread SocketTask
      Requests.Surroundings where
  enter        := JobSocket.enter
  exec _ x o s := some <| s.exec code x o

-- The threads of a module that send on its job socket, in any order of their frames.
def jobSocket {η : Type} (code : JobReceiver.Code η) (encode : List Token → Bytes) :
    Threads.System (Multipart.Sending SocketOp Bytes) Requests.Exception
      (JobSocket η × Multipart SocketThread Bytes) SocketThread SocketTask Requests.Surroundings :=
  Multipart.system (socketThreads code) (SocketOp.frames encode)

end Python
