import Tyche.Cpp.Message
import Tyche.Cpp.RingBuffer
import Tyche.Machine
import Tyche.Roster

namespace Cpp

abbrev InternId := BitVec 32

-- The id 0 is reserved for what is not found.
structure StringIntern where
  stringToId : Dict Bytes InternId
  nextId     : InternId

namespace StringIntern

def start : StringIntern where
  stringToId := ∅
  nextId     := 1

def intern (s : StringIntern) (sv : Bytes) : InternId × StringIntern :=
  match s.stringToId.get? sv with
  | some id => (id, s)
  | none    => (s.nextId, { stringToId := s.stringToId.set sv s.nextId, nextId := s.nextId + 1 })

end StringIntern

namespace Registry

structure Interface where
  name          : Bytes := []
  pattern       : InterfacePattern := .on
  eventType     : Bytes := []
  durability    : DurabilityLevel := .asyncFlush
  backpressure  : BackpressureStrategy := .dropOldest
  maxQueueDepth : BitVec 32 := 10000
deriving DecidableEq

structure ModuleInfo where
  moduleId   : Bytes
  interfaces : List Interface
deriving DecidableEq

end Registry

-- The tables of the engine that a registration fills. A topic queue is given by the capacity that it
-- was made for, as all of them drop their oldest item when they are full.
structure Registry where
  queueCapacity    : BitVec 32
  intern           : StringIntern
  modules          : Dict Bytes Registry.ModuleInfo
  topicSubscribers : Roster InternId Bytes
  topicProducers   : Roster InternId Bytes
  jobHandlers      : Roster InternId Bytes
  jobRoundRobin    : Dict InternId ℕ
  topicQueues      : Dict Bytes (BitVec 64)

namespace Registry

def start (queueCapacity : BitVec 32) : Registry where
  queueCapacity    := queueCapacity
  intern           := .start
  modules          := ∅
  topicSubscribers := ∅
  topicProducers   := ∅
  jobHandlers      := ∅
  jobRoundRobin    := ∅
  topicQueues      := ∅

def internTopic (s : Registry) (topic : Bytes) : InternId × Registry :=
  let (id, intern) := s.intern.intern topic
  (id, { s with intern := intern })

def getOrCreateQueue (s : Registry) (topic : Bytes) : Registry :=
  { s with
    topicQueues :=
      if topic ∈ s.topicQueues then s.topicQueues
      else s.topicQueues.set topic <| s.queueCapacity.signExtend 64 }

def addSubscriber (s : Registry) (id : InternId) (moduleId : Bytes) : Registry :=
  { s with topicSubscribers := s.topicSubscribers.enter id moduleId }

def addProducer (s : Registry) (id : InternId) (moduleId : Bytes) : Registry :=
  { s with topicProducers := s.topicProducers.enter id moduleId }

def addHandler (s : Registry) (id : InternId) (moduleId : Bytes) : Registry :=
  { s with
    jobHandlers   := s.jobHandlers.enter id moduleId
    jobRoundRobin := if id ∈ s.jobRoundRobin then s.jobRoundRobin else s.jobRoundRobin.set id 0 }

def registerInterface (s : Registry) (moduleId : Bytes) (i : Interface) : Registry :=
  let (id, s) := s.internTopic i.eventType
  let s := s.getOrCreateQueue i.eventType
  match i.pattern with
  | .on      => s.addSubscriber id moduleId
  | .send    => s.addProducer id moduleId
  | .handle  => s.addHandler id moduleId
  | .request => s.addProducer id moduleId

def registerModule (s : Registry) (info : ModuleInfo) : Registry :=
  info.interfaces.foldl (·.registerInterface info.moduleId ·)
    { s with modules := s.modules.set info.moduleId info }

def unregisterModule (s : Registry) (moduleId : Bytes) : Registry :=
  if moduleId ∈ s.modules then
    { s with
      topicSubscribers := s.topicSubscribers.strike moduleId
      topicProducers   := s.topicProducers.strike moduleId
      jobHandlers      := s.jobHandlers.strike moduleId
      modules          := s.modules.erase moduleId }
  else
    s

inductive Action
  | register (info : ModuleInfo)
  | unregister (moduleId : Bytes)

def Action.moduleId : Action → Bytes
  | register info => info.moduleId
  | unregister m  => m

def apply (s : Registry) : Action → Registry
  | .register info => s.registerModule info
  | .unregister m  => s.unregisterModule m

end Registry

def registry : Machine Registry Registry.Action where
  step s a := some (s.apply a)

end Cpp
