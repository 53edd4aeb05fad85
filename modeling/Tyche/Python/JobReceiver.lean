import Tyche.Python.Module
import Tyche.Python.Packing

namespace Python.JobReceiver

-- What the code of a handler comes to. An exception has a text, unless `str` raises for it as well.
inductive Outcome
  | returned (result : Obj)
  | raised (text : Option (Option Bytes))

-- What the frames are decoded to, and the code of the handlers, which may change the module.
structure Code (η : Type) where
  deserialize : Bytes → Option ObjMessage
  admin       : Bytes → TycheModule η → Outcome × TycheModule η
  handle      : η → Obj → TycheModule η → Outcome × TycheModule η

-- The message of a multipart message and the frames after the empty one.
structure Sent where
  message : ObjMessage
  topic   : Bytes
  frame   : List Msgpack.Token

structure State (η : Type) where
  module : TycheModule η
  sent   : List Sent

def Outcome.payload? : Outcome → Option Obj
  | .returned result => some <| .dict [(.text "result", result)]
  | .raised text     => text.map fun text => .dict [(.text "error", .str text)]

def noHandler (event : Bytes) : Outcome :=
  .raised <| some <| some <| utf8 "No handler for job '" ++ event ++ utf8 "'"

namespace State

variable {η : Type}

def response (s : State η) (msg : ObjMessage) (payload : Obj) : ObjMessage where
  msgType       := .response
  sender        := .str s.module.moduleId
  event         := msg.event
  payload       := payload
  correlationId := msg.correlationId

-- A response that cannot be serialized is an exception. The loop of the receiver logs it and goes on.
def respond (s : State η) (msg : ObjMessage) (event : Bytes) (outcome : Outcome) : State η :=
  match outcome.payload? with
  | none         => s
  | some payload =>
    match (s.response msg payload).serialize with
    | none       => s
    | some frame => { s with sent := s.sent ++ [⟨s.response msg payload, event, frame⟩] }

-- The number of jobs that the handler has in progress is counted down again whatever happens.
def call (code : Code η) (s : State η) (msg : ObjMessage) (event : Bytes) (handler : η) : State η :=
  let r := code.handle handler msg.payload <| s.module.count event 1
  { s with module := r.2.count event (-1) }.respond msg event r.1

def handleJobRequest (code : Code η) (s : State η) (msg : ObjMessage) : State η :=
  match msg.event with
  | .str (some event) =>
    match TycheModule.adminCommand? event with
    | some command =>
      let r := code.admin command s.module
      { s with module := r.2 }.respond msg event r.1
    | none         =>
      match s.module.handlers.get? event with
      | none         => s.respond msg event <| noHandler event
      | some handler => s.call code msg event handler.1
  -- Other objects lack the methods of a string, and a string that was decoded has a UTF-8 form.
  | _ => s

-- One round of the loop. The responses to requests of this module are handled elsewhere.
def receive (code : Code η) (s : State η) : List Bytes → State η
  | _ :: _ :: frame :: _ =>
    match code.deserialize frame with
    | none     => s
    | some msg =>
      match msg.msgType with
      | .request => s.handleJobRequest code msg
      | _        => s
  | _ => s

end State

end Python.JobReceiver
