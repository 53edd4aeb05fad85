import Tyche.Python.Events
import Tyche.Python.Message
import Tyche.Python.Module

namespace Python

open Msgpack

def interfacePatternValue : InterfacePattern → Bytes
  | .on      => utf8 "on"
  | .send    => utf8 "send"
  | .handle  => utf8 "handle"
  | .request => utf8 "request"

def interfacePattern : Value → Except Error InterfacePattern :=
  member (.str <| interfacePatternValue ·) [.on, .send, .handle, .request]

def backpressureStrategyValue : BackpressureStrategy → Bytes
  | .dropOldest    => utf8 "drop_oldest"
  | .dropNewest    => utf8 "drop_newest"
  | .blockProducer => utf8 "block_producer"

def backpressureStrategy : Value → Except Error BackpressureStrategy :=
  member (.str <| backpressureStrategyValue ·) [.dropOldest, .dropNewest, .blockProducer]

def Key.value : Key → Value
  | .none          => .none
  | .number x      => .float (.fin x) 0
  | .infinity neg  => .float (.inf neg) 0
  | .nan o         => .float .nan o
  | .str s         => .str s
  | .bytes b       => .bytes b
  | .ext c d       => .ext c d
  | .timestamp s n => .timestamp s n

-- The values that `for` goes through. Those of a string are its characters.
def Value.iterate : Value → Except Error (List Value)
  | .list l  => .ok l
  | .dict d  => .ok <| d.map (·.1.value)
  | .str s   => .ok <| (s.splitBy fun _ c => 128 ≤ c ∧ c < 192).map .str
  | .bytes b => .ok <| b.map fun c => .int c.toNat
  | .ext c d => .ok [.int c, .bytes d]
  | _        => .error .typeError

def createInterface (i : Value) : Except Error NamedInterface := do
  let name ← subscript "name" i
  let pattern ← interfacePattern (← subscript "pattern" i)
  let eventType ← i.get (.str <| utf8 "event_type") name
  let durability ← durabilityLevel (← i.get (.str <| utf8 "durability") (.int 1))
  let backpressure ← backpressureStrategy
    (← i.get (.str <| utf8 "backpressure") (.str <| backpressureStrategyValue .dropOldest))
  let maxQueueDepth ← i.get (.str <| utf8 "max_queue_depth") (.int 10000)
  let waitTimeout ← get "wait_timeout" i
  return { name, pattern, eventType, durability, backpressure, maxQueueDepth, waitTimeout }

-- A module info with the names and the durability of its interfaces.
structure NamedModuleInfo where
  moduleId      : ModuleId
  interfaces    : List NamedInterface
  metadata      : Value
  familyName    : Value
  adminHandlers : Value

def NamedModuleInfo.info (info : NamedModuleInfo) : ModuleInfo where
  moduleId   := info.moduleId
  interfaces := info.interfaces.map (·.toInterface)

-- The id is made from the name of the family. The admin handlers are stored in the engine.
def createModuleInfo (generate : Value → ModuleId) (msg : FullMessage) :
    Except Error NamedModuleInfo := do
  let familyName ← get "family_name" msg.payload
  let familyName := (familyName.or msg.sender).or <| .str <| utf8 "unknown"
  let interfacesData ← msg.payload.get (.str <| utf8 "interfaces") (.list [])
  let interfaces ← (← interfacesData.iterate).mapM createInterface
  let adminHandlers ← msg.payload.get (.str <| utf8 "admin_handlers") (.list [])
  let metadata ← msg.payload.get (.str <| utf8 "metadata") (.dict [])
  return { moduleId := generate familyName, interfaces, metadata, familyName, adminHandlers }

-- A registration is accepted if a module info is recorded for it.
def processRegistration (generate : Value → ModuleId) (s : Events) (n : ℕ) (ts : List Token) :
    Except Error (Option NamedModuleInfo) × Events :=
  match deserialize n ts with
  | .error e => (.error e, s)
  | .ok msg  =>
    if msg.msgType = .register then
      match createModuleInfo generate msg with
      | .error e => (.error e, s)
      | .ok info =>
        match s.registerModule info.info with
        | (.ok _, s)    => (.ok <| some info, s)
        | (.error e, s) => (.error e, s)
    else
      (.ok none, s)

-- The ports that the sockets of the engine are bound to.
structure Ports where
  eventPub         : UInt16
  eventSub         : UInt16
  job              : UInt16
  heartbeatReceive : UInt16

def Ports.data (p : Ports) : List (Bytes × Datum) := [
  (utf8 "event_pub_port",      .int p.eventPub.toNat),
  (utf8 "event_sub_port",      .int p.eventSub.toNat),
  (utf8 "job_port",            .int p.job.toNat),
  (utf8 "heartbeat_recv_port", .int p.heartbeatReceive.toNat)]

-- The reply to a registration that was accepted.
def registerAck (p : Ports) (m : ModuleId) : TypedMessage where
  msgType       := .ack
  sender        := utf8 "engine"
  event         := utf8 "register_ack"
  payload       := (utf8 "status", .str <| utf8 "ok") :: (utf8 "module_id", .str m.val) :: p.data
  recipient     := none
  durability    := .asyncFlush
  timestamp     := none
  correlationId := none
  waitTimeout   := none
  runTimeout    := none

namespace TycheModule

variable {η : Type}

-- The name and the event type of an interface of a module are strings.
def interfaceData (i : NamedInterface) : Option Datum :=
  match i.name, i.eventType with
  | .str name, .str eventType => some <| .dict [
      (utf8 "name",       .str name),
      (utf8 "pattern",    .str <| interfacePatternValue i.pattern),
      (utf8 "event_type", .str eventType),
      (utf8 "durability", .int i.durability.number)]
  | _, _                      => none

def registerMessage (familyName : Bytes) (interfacesData : List Datum) : TypedMessage where
  msgType       := .register
  sender        := familyName
  event         := utf8 "register"
  payload       := [
    (utf8 "family_name",    .str familyName),
    (utf8 "interfaces",     .list interfacesData),
    (utf8 "admin_handlers", .list <| adminHandlers.map .str),
    (utf8 "metadata",       .dict [])]
  recipient     := none
  durability    := .asyncFlush
  timestamp     := none
  correlationId := none
  waitTimeout   := none
  runTimeout    := none

-- What a module sends to be registered.
def register (s : TycheModule η) (familyName : Bytes) : Option (List Token) := do
  let interfacesData ← s.interfaces.mapM interfaceData
  serialize <| registerMessage familyName interfacesData

-- What a module learns from the reply to its registration.
structure Registered where
  moduleId                : Value
  enginePubPort           : Value
  engineSubPort           : Value
  engineJobPort           : Value
  engineHeartbeatRecvPort : Value

-- A reply that is not an acknowledgement is passed over.
def registerReply (familyName : Bytes) (n : ℕ) (ts : List Token) :
    Except Error (Option Registered) := do
  let reply ← deserialize n ts
  if reply.msgType = .ack then
    let moduleId ← reply.payload.get (.str <| utf8 "module_id") (.str familyName)
    let enginePubPort ← get "event_pub_port" reply.payload
    let engineSubPort ← get "event_sub_port" reply.payload
    let engineJobPort ← get "job_port" reply.payload
    let engineHeartbeatRecvPort ← get "heartbeat_recv_port" reply.payload
    return some { moduleId, enginePubPort, engineSubPort, engineJobPort, engineHeartbeatRecvPort }
  else
    return none

end TycheModule

end Python
