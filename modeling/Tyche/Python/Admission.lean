import Tyche.Python.Registration
import Tyche.Python.Registry

namespace Python.Admission

open Msgpack

-- A string is formatted as it is, and other values in a way that does not matter here.
def formatted (format : Value → Bytes) : Value → Bytes
  | .str s => s
  | v      => format v

-- The id for a family, of which the six digits are drawn at random.
def generate (format : Value → Bytes) (suffix : Fin (2 ^ 24)) (family : Value) : ModuleId :=
  .generate (formatted format family) suffix

-- What is stored about a module.
structure Record where
  moduleId   : ModuleId
  interfaces : List NamedInterface
  metadata   : Value
  familyName : Value

def record (info : NamedModuleInfo) : Record where
  moduleId   := info.moduleId
  interfaces := info.interfaces
  metadata   := info.metadata
  familyName := info.familyName

-- The tables that a registration writes to.
structure Tables where
  modules           : Dict ModuleId Record
  adminHandlers     : Dict ModuleId Value
  interfaces        : Dict Key (List (ModuleId × NamedInterface))
  topicEventMap     : Dict Key Key
  topicBackpressure : Dict Key BackpressureStrategy
  topicMaxDepth     : Dict Key Value
  topicTtl          : Dict Key Value
  topicQueues       : Dict Key TopicQueue
  topicSubscribers  : Dict Key (List ModuleId)
  topicProducers    : Dict Key (List ModuleId)
  jobHandlers       : Dict Key (List ModuleId)
  jobRoundRobin     : Dict Key ℕ
  monitors          : Dict Key HeartbeatMonitor
  registerCount     : ℕ

namespace Tables

def empty : Tables where
  modules           := ∅
  adminHandlers     := ∅
  interfaces        := ∅
  topicEventMap     := ∅
  topicBackpressure := ∅
  topicMaxDepth     := ∅
  topicTtl          := ∅
  topicQueues       := ∅
  topicSubscribers  := ∅
  topicProducers    := ∅
  jobHandlers       := ∅
  jobRoundRobin     := ∅
  monitors          := ∅
  registerCount     := 0

def configure (s : Tables) (m : ModuleId) (i : NamedInterface) (topic : Key) : Tables :=
  { s with
    interfaces        := s.interfaces.set topic <| s.interfaces.getD topic [] ++ [(m, i)]
    topicEventMap     := s.topicEventMap.set topic topic
    topicBackpressure := s.topicBackpressure.set topic i.backpressure
    topicMaxDepth     := s.topicMaxDepth.set topic i.maxQueueDepth
    topicTtl          := match i.waitTimeout with
      | .none => s.topicTtl
      | v     => s.topicTtl.set topic v
    topicQueues       :=
      if topic ∈ s.topicQueues then s.topicQueues
      else s.topicQueues.set topic <| .new i.maxQueueDepth }

def registerInterface (s : Tables) (m : ModuleId) (i : NamedInterface) (topic : Key) : Tables :=
  let s := s.configure m i topic
  match i.pattern with
  | .on              => { s with topicSubscribers := addTo s.topicSubscribers topic m }
  | .send | .request => { s with topicProducers := addTo s.topicProducers topic m }
  | .handle          =>
    { s with
      jobHandlers   := addTo s.jobHandlers topic m
      jobRoundRobin :=
        if topic ∈ s.jobRoundRobin then s.jobRoundRobin else s.jobRoundRobin.set topic 0 }

-- An event type that cannot be hashed raises where it is first looked up.
def registerInterfaces (m : ModuleId) : List NamedInterface → Tables → Except Error Unit × Tables
  | [], s      => (.ok (), s)
  | i :: is, s =>
    match i.eventType.hash with
    | .error e  => (.error e, s)
    | .ok topic => registerInterfaces m is <| s.registerInterface m i topic

def enter (s : Tables) (record : Record) : Tables :=
  { s with modules := s.modules.set record.moduleId record }

-- `HeartbeatManager.register`
def watch (s : Tables) (m : ModuleId) : Tables :=
  { s with monitors := s.monitors.set (.ofModule m) .new }

def registerModule (s : Tables) (record : Record) : Except Error Unit × Tables :=
  match registerInterfaces record.moduleId record.interfaces (s.enter record) with
  | (.ok _, s)    => (.ok (), s.watch record.moduleId)
  | (.error e, s) => (.error e, s)

def storeAdminHandlers (s : Tables) (info : NamedModuleInfo) : Tables :=
  { s with adminHandlers := s.adminHandlers.set info.moduleId info.adminHandlers }

-- A message of another type is ignored. The admin handlers are stored when the module info is
-- made: what is read from the payload after them is read from the same dictionary, and is there by
-- default. The acknowledgement is left aside.
def processRegistration (generate : Value → ModuleId) (s : Tables) (n : ℕ) (ts : List Token) :
    Except Error (Option ModuleId) × Tables :=
  match deserialize n ts with
  | .error e => (.error e, s)
  | .ok msg  =>
    if msg.msgType = .register then
      match createModuleInfo generate msg with
      | .error e => (.error e, s)
      | .ok info =>
        match (s.storeAdminHandlers info).registerModule (record info) with
        | (.ok _, s)    =>
          (.ok <| some info.moduleId, { s with registerCount := s.registerCount + 1 })
        | (.error e, s) => (.error e, s)
    else
      (.ok none, s)

end Tables

end Python.Admission
