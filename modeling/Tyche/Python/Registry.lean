import Tyche.Machine
import Tyche.Python.Events
import Tyche.Python.Workers

namespace Python

def heartbeatLiveness : ℤ :=
  3

structure HeartbeatMonitor where
  liveness : ℤ

namespace HeartbeatMonitor

-- A peer that is new has more time until its first heartbeat.
def new : HeartbeatMonitor where
  liveness := heartbeatLiveness * 2

def update (_ : HeartbeatMonitor) : HeartbeatMonitor where
  liveness := heartbeatLiveness

def tick (m : HeartbeatMonitor) : HeartbeatMonitor where
  liveness := m.liveness - 1

def IsExpired (m : HeartbeatMonitor) : Prop :=
  m.liveness ≤ 0

instance {m : HeartbeatMonitor} : Decidable m.IsExpired :=
  inferInstanceAs <| Decidable (_ ≤ _)

end HeartbeatMonitor

-- The tables in which the engine keeps account of the modules. Those of the job handlers, of their
-- availability and of the jobs are in the part of the engine that routes jobs.
structure Registry where
  engine           : TycheEngine
  modules          : Dict ModuleId ModuleInfo
  interfaces       : Dict Key (List (ModuleId × Interface))
  topicSubscribers : Dict Key (List ModuleId)
  topicProducers   : Dict Key (List ModuleId)
  adminHandlers    : Dict ModuleId Value
  monitors         : Dict Key HeartbeatMonitor

def Key.moduleId? : Key → Option ModuleId
  | .str id => if h : id ≠ [] then some ⟨id, h⟩ else Option.none
  | _       => Option.none

def addTo (d : Dict Key (List ModuleId)) (topic : Key) (m : ModuleId) : Dict Key (List ModuleId) :=
  let l := d.getD topic []
  d.set topic <| if m ∈ l then l else l ++ [m]

namespace Registry

def start (now : ℚ) : Registry where
  engine           := .start now
  modules          := ∅
  interfaces       := ∅
  topicSubscribers := ∅
  topicProducers   := ∅
  adminHandlers    := ∅
  monitors         := ∅

def addInterface (s : Registry) (m : ModuleId) (i : Interface) (topic : Key) : Registry :=
  let s := { s with
    interfaces := s.interfaces.set topic <| s.interfaces.getD topic [] ++ [(m, i)] }
  match i.pattern with
  | .on              => { s with topicSubscribers := addTo s.topicSubscribers topic m }
  | .send | .request => { s with topicProducers := addTo s.topicProducers topic m }
  | .handle          => { s with engine := s.engine.addHandler m topic }

def addInterfaces (m : ModuleId) : List Interface → Registry → Except Error Unit × Registry
  | [], s      => (.ok (), s)
  | i :: is, s =>
    match i.eventType.hash with
    | .error e  => (.error e, s)
    | .ok topic => addInterfaces m is <| s.addInterface m i topic

def enter (s : Registry) (info : ModuleInfo) : Registry :=
  { s with
    engine  := { s.engine with modules := s.engine.modules.insert info.moduleId }
    modules := s.modules.set info.moduleId info }

def watch (s : Registry) (m : ModuleId) : Registry :=
  { s with monitors := s.monitors.set (.ofModule m) .new }

def registerModule (s : Registry) (info : ModuleInfo) : Except Error Unit × Registry :=
  match addInterfaces info.moduleId info.interfaces (s.enter info) with
  | (.ok _, s)    => (.ok (), s.watch info.moduleId)
  | (.error e, s) => (.error e, s)

-- The engine makes the module info of a registration that arrives, and keeps its admin handlers.
def createModuleInfo (s : Registry) (m : ModuleId) (adminHandlers : Option Value) : Registry :=
  match adminHandlers with
  | some v => { s with adminHandlers := s.adminHandlers.set m v }
  | none   => s

def removeInterface (s : Registry) (m : ModuleId) (topic : Key) : Registry :=
  { s with
    interfaces       :=
      if topic ∈ s.interfaces then
        s.interfaces.set topic <| (s.interfaces.getD topic []).filter (·.1 ≠ m)
      else s.interfaces
    topicSubscribers := Events.removeFrom s.topicSubscribers topic m
    topicProducers   := Events.removeFrom s.topicProducers topic m }

def removeInterfaces (m : ModuleId) : List Interface → Registry → Except Error Unit × Registry
  | [], s      => (.ok (), s)
  | i :: is, s =>
    match i.eventType.hash with
    | .error e  => (.error e, s)
    | .ok topic => removeInterfaces m is <| s.removeInterface m topic

def leave (s : Registry) (m : ModuleId) : Registry :=
  { s with
    engine        := s.engine.unregisterModule m
    modules       := s.modules.erase m
    adminHandlers := s.adminHandlers.erase m
    monitors      := s.monitors.erase (.ofModule m) }

def unregisterModule (s : Registry) (m : ModuleId) : Except Error Unit × Registry :=
  match s.modules.get? m with
  | none      => (.ok (), s)
  | some info =>
    match removeInterfaces m info.interfaces s with
    | (.ok _, s)    => (.ok (), s.leave m)
    | (.error e, s) => (.error e, s)

-- `HeartbeatManager.update`
def updateMonitor (s : Registry) (peerId : Key) : Registry :=
  { s with
    monitors := s.monitors.set peerId <|
      (s.monitors.get? peerId).elim .new HeartbeatMonitor.update }

-- A heartbeat whose sender is not hashable raises before anything is done about it.
def heartbeat (s : Registry) (deserialize : Bytes → Option Message) (works : Output → Bool)
    (msg : Message) : Registry :=
  match msg.sender.hash with
  | .error _ => s
  | .ok peer =>
    { s.updateMonitor peer with engine := (s.engine.perform deserialize works (.heartbeat msg)).2 }

def tickAll (s : Registry) : Registry :=
  { s with monitors := s.monitors.mapVal HeartbeatMonitor.tick }

def expired (s : Registry) : List Key :=
  (s.monitors.entries.filter fun e => e.2.IsExpired).map Prod.fst

def unregisterAll : List Key → Registry → Except Error Unit × Registry
  | [], s      => (.ok (), s)
  | k :: ks, s =>
    match k.moduleId?.elim (.ok (), s) s.unregisterModule with
    | (.ok _, s)    => unregisterAll ks s
    | (.error e, s) => (.error e, s)

-- What one iteration of the monitor does about modules.
def monitor (s : Registry) : Registry :=
  (unregisterAll s.tickAll.expired s.tickAll).2

inductive Action
  | tick (duration : ℚ)
  | register (info : ModuleInfo) (adminHandlers : Option Value)
  | unregister (m : ModuleId)
  | heartbeat (msg : Message) (works : Output → Bool)
  | receive (i : Incoming) (works : Output → Bool)
  | timeout (c : Key) (reason : Reason) (works : Output → Bool)
  | monitor

def call (s : Registry) (deserialize : Bytes → Option Message) (works : Output → Bool) (c : Call) :
    Registry :=
  { s with engine := (s.engine.perform deserialize works c).2 }

def step (deserialize : Bytes → Option Message) (s : Registry) : Action → Option Registry
  | .tick duration                => some <| s.call deserialize (fun _ => true) (.tick duration)
  | .register info admins         =>
    some ((s.createModuleInfo info.moduleId admins).registerModule info).2
  | .unregister m                 => some (s.unregisterModule m).2
  | .heartbeat msg works          => some <| s.heartbeat deserialize works msg
  | .receive i works              => some <| s.call deserialize works (.receive i)
  | .timeout c reason works       => some <| s.call deserialize works (.timeout c reason)
  | .monitor                      => some s.monitor

end Registry

def registry (deserialize : Bytes → Option Message) : Machine Registry Registry.Action where
  step := Registry.step deserialize

end Python
