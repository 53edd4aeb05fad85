import Tyche.Python.Types

namespace Python

-- A bound method of a module. The handlers are of any type.
structure Method (η : Type) where
  name       : Bytes
  handler    : η
  qualname   : Bytes
  isAbstract : Bool

-- `inspect.getmembers` sorts the methods by their names.
structure ModuleClass (η : Type) where
  methods : List (Method η)
  sorted  : methods.Pairwise fun m n => m.name < n.name

structure HandlerBuffer where
  maxDepth : ℕ := 10
  current  : ℤ := 0

structure TycheModule (η : Type) where
  moduleId       : Bytes
  interfaces     : List NamedInterface
  handlers       : Dict Bytes (η × InterfacePattern)
  handlerBuffers : Dict Bytes HandlerBuffer

-- The arguments of `_register_handler`.
structure Registration (η : Type) where
  name       : Bytes
  handler    : η
  pattern    : InterfacePattern := .on
  durability : DurabilityLevel := .asyncFlush

def patternForName (name : Bytes) : Option InterfacePattern :=
  if utf8 "on_" <+: name then some .on
  else if utf8 "send_" <+: name then some .send
  else if utf8 "handle_" <+: name then some .handle
  else if utf8 "request_" <+: name then some .request
  else none

-- The methods that discovery passes over.
def Method.Skipped {η : Type} (m : Method η) : Prop :=
  utf8 "TycheModule." <+: m.qualname ∨ m.isAbstract

instance {η : Type} {m : Method η} : Decidable m.Skipped :=
  inferInstanceAs <| Decidable (_ ∨ _)

def Registration.bareName {η : Type} (r : Registration η) : Bytes :=
  if utf8 "on_" <+: r.name then r.name.drop 3
  else if utf8 "handle_" <+: r.name then r.name.drop 7
  else r.name

def producedEvent (name : Bytes) : Bytes :=
  if utf8 "send_" <+: name then name.drop 5
  else if utf8 "request_" <+: name then name.drop 8
  else name

namespace TycheModule

variable {η : Type}

def registerHandler (s : TycheModule η) (r : Registration η) : TycheModule η :=
  { s with
    handlers       := s.handlers.set r.bareName (r.handler, r.pattern)
    handlerBuffers :=
      if r.pattern = .handle then s.handlerBuffers.set r.bareName {} else s.handlerBuffers
    interfaces     := s.interfaces ++ [{
      name       := .str r.name
      pattern    := r.pattern
      eventType  := .str r.bareName
      durability := r.durability }] }

def registerProducer (s : TycheModule η) (name : Bytes) (pattern : InterfacePattern) :
    TycheModule η :=
  { s with
    interfaces := s.interfaces ++ [{
      name      := .str name
      pattern   := pattern
      eventType := .str <| producedEvent name }] }

def discover (s : TycheModule η) (m : Method η) : TycheModule η :=
  match patternForName m.name with
  | none   => s
  | some p =>
    if m.Skipped then s
    else match p with
      | .send | .request => s.registerProducer m.name p
      | .on | .handle    => s.registerHandler { name := m.name, handler := m.handler, pattern := p }

def start (familyName : Bytes) (C : ModuleClass η) : TycheModule η :=
  C.methods.foldl discover ⟨familyName, [], ∅, ∅⟩

-- What is called with the payload of a message.
structure Call (η : Type) where
  handler : η
  pattern : InterfacePattern
  payload : Value

def Call.ofEntry (payload : Value) (entry : η × InterfacePattern) : Call η :=
  ⟨entry.1, entry.2, payload⟩

def lookupTopic (topic : Bytes) : Bytes :=
  if utf8 "on_" <+: topic then topic.drop 3 else topic

-- The handler that is called for an event. Its result and its exceptions are ignored.
def dispatch (s : TycheModule η) (topic : Bytes) (msg : Message) : Option (Call η) :=
  (s.handlers.get? <| lookupTopic topic).map <| .ofEntry msg.payload

def adminHandlers : List Bytes :=
  [utf8 "health_check", utf8 "availability_check", utf8 "respawn", utf8 "decommission"]

-- What the handlers return, or the texts of the exceptions that they raise.
structure Results (η : Type) where
  admin  : Bytes → Except Bytes Value
  handle : Call η → Except Bytes Value

def responsePayload : Except Bytes Value → Value
  | .ok result  => .dict [(.str <| utf8 "result", result)]
  | .error text => .dict [(.str <| utf8 "error", .str text)]

def respond (s : TycheModule η) (msg : Message) (payload : Value) : Message where
  msgType       := .response
  sender        := .str s.moduleId
  event         := msg.event
  payload       := payload
  correlationId := msg.correlationId

def count (s : TycheModule η) (name : Bytes) (n : ℤ) : TycheModule η :=
  match s.handlerBuffers.get? name with
  | none   => s
  | some b =>
    { s with handlerBuffers := s.handlerBuffers.set name { b with current := b.current + n } }

def adminCommand? (event : Bytes) : Option Bytes :=
  if utf8 "admin." <+: event ∧ event.drop 6 ∈ adminHandlers then some <| event.drop 6 else none

-- The job handler that is called, if any, and the response.
structure JobOutcome (η : Type) where
  called   : Option (Call η)
  response : Message
  module   : TycheModule η

def handleJobRequest (results : Results η) (s : TycheModule η) (msg : Message) :
    Except Error (JobOutcome η) :=
  match msg.event with
  | .str event =>
    match adminCommand? event with
    | some command => .ok ⟨none, s.respond msg <| responsePayload <| results.admin command, s⟩
    | none         =>
      match s.handlers.get? event with
      | none       => .ok ⟨none, s.respond msg <| responsePayload <| .error <|
          utf8 "No handler for job '" ++ event ++ utf8 "'", s⟩
      | some entry =>
        let call := Call.ofEntry msg.payload entry
        .ok ⟨some call, s.respond msg <| responsePayload <| results.handle call,
          (s.count event 1).count event (-1)⟩
  | .bytes _   => .error .typeError
  | _          => .error .attributeError

end TycheModule

-- What happens to a module once it is made.
inductive ModuleAction (η : Type)
  | register (r : Registration η)
  | event (topic : Bytes) (msg : Message)
  | request (msg : Message)

namespace TycheModule

variable {η : Type}

-- A request that raises leaves the module as it is.
def perform (results : Results η) (s : TycheModule η) : ModuleAction η → TycheModule η
  | .register r  => s.registerHandler r
  | .event ..    => s
  | .request msg =>
    match s.handleJobRequest results msg with
    | .ok outcome => outcome.module
    | .error _    => s

def performAll (results : Results η) (s : TycheModule η) (as : List (ModuleAction η)) :
    TycheModule η :=
  as.foldl (perform results) s

end TycheModule

end Python
