import Tyche.Dict
import Tyche.Python.Registry

namespace Python.Heartbeat

structure HeartbeatMonitor where
  liveness : ℤ

namespace HeartbeatMonitor

def new (liveness : ℤ) (initialGracePeriod : Bool) : HeartbeatMonitor where
  liveness := if initialGracePeriod then liveness * 2 else liveness

def update (_ : HeartbeatMonitor) : HeartbeatMonitor where
  liveness := heartbeatLiveness

def tick (m : HeartbeatMonitor) : HeartbeatMonitor where
  liveness := m.liveness - 1

def IsExpired (m : HeartbeatMonitor) : Prop :=
  m.liveness ≤ 0

instance {m : HeartbeatMonitor} : Decidable m.IsExpired :=
  inferInstanceAs <| Decidable (_ ≤ _)

end HeartbeatMonitor

structure HeartbeatManager where
  liveness : ℤ
  monitors : Dict String HeartbeatMonitor

inductive Op
  | register (peerId : String)
  | unregister (peerId : String)
  | update (peerId : String)
  | tickAll
deriving DecidableEq

namespace HeartbeatManager

def new (liveness : ℤ) : HeartbeatManager where
  liveness := liveness
  monitors := ∅

def register (s : HeartbeatManager) (peerId : String) : HeartbeatManager :=
  { s with monitors := s.monitors.set peerId <| .new s.liveness true }

def unregister (s : HeartbeatManager) (peerId : String) : HeartbeatManager :=
  { s with monitors := s.monitors.erase peerId }

def update (s : HeartbeatManager) (peerId : String) : HeartbeatManager :=
  match s.monitors.get? peerId with
  | some m => { s with monitors := s.monitors.set peerId m.update }
  | none   => { s with monitors := s.monitors.set peerId <| .new s.liveness true }

-- A monitor is looked at as soon as it has been ticked, which the others have no part in.
def tickAll (s : HeartbeatManager) : List String × HeartbeatManager :=
  let monitors := s.monitors.mapVal HeartbeatMonitor.tick
  ((monitors.entries.filter (·.2.IsExpired)).map Prod.fst, { s with monitors := monitors })

def call (s : HeartbeatManager) : Op → HeartbeatManager
  | .register p   => s.register p
  | .unregister p => s.unregister p
  | .update p     => s.update p
  | .tickAll      => s.tickAll.2

def run (s : HeartbeatManager) (ops : List Op) : HeartbeatManager :=
  ops.foldl call s

end HeartbeatManager

-- The peers that a `tick_all` after these operations reports.
def reported (liveness : ℤ) (ops : List Op) : List String :=
  ((HeartbeatManager.new liveness).run ops).tickAll.1

section Spec

variable {p : String} {ops : List Op}

def Op.Concerns (p : String) : Op → Prop
  | .register q | .unregister q | .update q => q = p
  | .tickAll                                => False

instance : ∀ op, Decidable (Op.Concerns p op)
  | .register _ | .unregister _ | .update _ => inferInstanceAs <| Decidable (_ = _)
  | .tickAll                                => inferInstanceAs <| Decidable False

def ticks (ops : List Op) : ℕ :=
  ops.count .tickAll

-- The peer has been registered and not been unregistered since.
def Registered (p : String) (ops : List Op) : Prop :=
  (ops.filter fun o => o = .register p ∨ o = .unregister p).getLast? = some (.register p)

instance : Decidable (Registered p ops) :=
  inferInstanceAs <| Decidable (_ = _)

-- The operations end with a `tick_all`, which is the `k`th after an operation on the peer that is
-- the last one on it.
structure Ticks (ops : List Op) (p : String) (past : List Op) (op : Op) (rest : List Op) (k : ℕ) :
    Prop where
  history : (past ++ op :: rest) ++ [.tickAll] <+: ops
  quiet   : ∀ o ∈ rest, ¬o.Concerns p
  count   : k = ticks rest + 1

-- A peer is first reported by the `tick_all` of that number, if `k` is the number of this one.
def FirstAt (n k : ℕ) (reported : Prop) : Prop :=
  (reported → n ≤ k) ∧ (k = n → reported)

structure Exact (liveness : ℕ) (ops : List Op) : Prop where
  register : ∀ p past rest k, Ticks ops p past (.register p) rest k →
    FirstAt (2 * liveness) k (p ∈ reported liveness (past ++ .register p :: rest))
  update   : ∀ p past rest k, Ticks ops p past (.update p) rest k → Registered p past →
    FirstAt liveness k (p ∈ reported liveness (past ++ .update p :: rest))
  frame    : ∀ p past, past ++ [.tickAll] <+: ops → (p ∈ reported liveness past ↔
    p ∈ reported liveness (past.filter fun o => o.Concerns p ∨ o = .tickAll))

end Spec

end Python.Heartbeat
