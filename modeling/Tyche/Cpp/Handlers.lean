import Tyche.Cpp.Registry

namespace Cpp

def invalidInternId : InternId :=
  0

def StringIntern.lookup (s : StringIntern) (sv : Bytes) : InternId :=
  (s.stringToId.get? sv).getD invalidInternId

namespace Handlers

-- The arguments of the three functions that register an interface. A `std::function` may be empty.
inductive Registration (η : Type)
  | handler (name : Bytes) (handler : Option η) (pattern : InterfacePattern := .on)
      (durability : DurabilityLevel := .asyncFlush)
  | jobHandler (name : Bytes) (handler : Option η) (durability : DurabilityLevel := .asyncFlush)
  | producer (name : Bytes) (pattern : InterfacePattern := .send)
      (durability : DurabilityLevel := .asyncFlush)

structure Module (η : Type) where
  intern      : StringIntern
  handlers    : Dict InternId (Option η × InterfacePattern)
  jobHandlers : Dict InternId (Option η)
  interfaces  : List Registry.Interface

def bareName (name : Bytes) : Bytes :=
  if utf8 "on_" <+: name then name.drop 3
  else if utf8 "handle_" <+: name then name.drop 7
  else name

def jobName (name : Bytes) : Bytes :=
  if utf8 "handle_" <+: name then name.drop 7 else name

def producedEvent (name : Bytes) : Bytes :=
  if utf8 "send_" <+: name then name.drop 5
  else if utf8 "request_" <+: name then name.drop 8
  else name

namespace Module

variable {η : Type}

def start : Module η where
  intern      := .start
  handlers    := ∅
  jobHandlers := ∅
  interfaces  := []

def addInterface (s : Module η) (name eventType : Bytes) (pattern : InterfacePattern)
    (durability : DurabilityLevel) : Module η :=
  { s with interfaces := s.interfaces ++ [{ name, pattern, eventType, durability }] }

def registerHandler (s : Module η) (name : Bytes) (handler : Option η)
    (pattern : InterfacePattern) (durability : DurabilityLevel) : Module η :=
  let (id, intern) := s.intern.intern <| bareName name
  { s with intern := intern, handlers := s.handlers.set id (handler, pattern) }.addInterface
    name (bareName name) pattern durability

def registerJobHandler (s : Module η) (name : Bytes) (handler : Option η)
    (durability : DurabilityLevel) : Module η :=
  let (id, intern) := s.intern.intern <| jobName name
  { s with intern := intern, jobHandlers := s.jobHandlers.set id handler }.addInterface
    name (jobName name) .handle durability

def registerProducer (s : Module η) (name : Bytes) (pattern : InterfacePattern)
    (durability : DurabilityLevel) : Module η :=
  s.addInterface name (producedEvent name) pattern durability

def register (s : Module η) : Registration η → Module η
  | .handler name handler pattern durability => s.registerHandler name handler pattern durability
  | .jobHandler name handler durability      => s.registerJobHandler name handler durability
  | .producer name pattern durability        => s.registerProducer name pattern durability

def registerAll (rs : List (Registration η)) : Module η :=
  rs.foldl register start

-- The handler that is called with the payload of an event. Its exceptions are swallowed.
def dispatch (s : Module η) (topic : Bytes) : Option η :=
  let id := s.intern.lookup <| if utf8 "on_" <+: topic then topic.drop 3 else topic
  if id = invalidInternId then none
  else match s.handlers.get? id with
    | none            => none
    | some (handler, _) => handler

end Module

end Handlers

end Cpp
