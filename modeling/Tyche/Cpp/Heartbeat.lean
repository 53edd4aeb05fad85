import Mathlib.Algebra.Order.Ring.Int
import Mathlib.Logic.Function.Basic
import Tyche.Dict
import Tyche.Machine

namespace Cpp.Heartbeat

structure HeartbeatMonitor where
  liveness : ℤ

namespace HeartbeatMonitor

def tick (m : HeartbeatMonitor) : HeartbeatMonitor where
  liveness := m.liveness - 1

def update (_ : HeartbeatMonitor) (resetLiveness : ℤ) : HeartbeatMonitor where
  liveness := resetLiveness

def IsExpired (m : HeartbeatMonitor) : Prop :=
  m.liveness ≤ 0

instance {m : HeartbeatMonitor} : Decidable m.IsExpired :=
  inferInstanceAs <| Decidable (_ ≤ _)

end HeartbeatMonitor

def INT_MAX : ℤ :=
  2 ^ 31 - 1

structure HeartbeatManager where
  liveness : ℤ
  monitors : Dict String HeartbeatMonitor

inductive Op
  | registerModule (moduleId : String)
  | update (moduleId : String)
  | tickAll
  | unregister (moduleId : String)

namespace HeartbeatManager

def new (liveness : ℤ) : HeartbeatManager where
  liveness := liveness
  monitors := ∅

-- An `int` that overflows has no result. A monitor that is there already stays.
def registerModule (s : HeartbeatManager) (moduleId : String) : Option HeartbeatManager :=
  if INT_MAX < s.liveness * 2 then
    none
  else if moduleId ∈ s.monitors then
    some s
  else
    some { s with monitors := s.monitors.set moduleId ⟨s.liveness * 2⟩ }

def update (s : HeartbeatManager) (moduleId : String) : HeartbeatManager :=
  match s.monitors.get? moduleId with
  | some m => { s with monitors := s.monitors.set moduleId <| m.update s.liveness }
  | none   => s

-- The order of the identifiers is that of a hash map, and nobody relies on it.
def tickAll (s : HeartbeatManager) : List String × HeartbeatManager :=
  let monitors := s.monitors.mapVal HeartbeatMonitor.tick
  let expired := (monitors.entries.filter (·.2.IsExpired)).map Prod.fst
  (expired, { s with monitors := expired.foldl Dict.erase monitors })

def unregister (s : HeartbeatManager) (moduleId : String) : HeartbeatManager :=
  { s with monitors := s.monitors.erase moduleId }

-- What an operation reports, and what it leaves.
def call (s : HeartbeatManager) : Op → Option (List String × HeartbeatManager)
  | .registerModule m => (s.registerModule m).map fun s' => ([], s')
  | .update m         => some ([], s.update m)
  | .tickAll          => some s.tickAll
  | .unregister m     => some ([], s.unregister m)

end HeartbeatManager

-- The purpose of the manager: every module that is known has a number of ticks left.
abbrev Budgets :=
  String → Option ℕ

namespace Budgets

def empty : Budgets :=
  fun _ => none

def call (liveness : ℕ) (b : Budgets) : Op → Budgets
  | .registerModule m => Function.update b m (some (2 * liveness))
  | .update m         => if b m = none then b else Function.update b m (some liveness)
  | .tickAll          => fun m => (b m).bind fun n => if n ≤ 1 then none else some (n - 1)
  | .unregister m     => Function.update b m none

def machine (liveness : ℕ) : Machine Budgets Op where
  step b op := some <| b.call liveness op

-- The modules whose budget runs out.
def Reports (b : Budgets) (op : Op) (m : String) : Prop :=
  op = .tickAll ∧ b m = some 1

end Budgets

-- The manager knows the modules that have a budget, and how much of it is left.
def HeartbeatManager.Keeps (s : HeartbeatManager) (b : Budgets) : Prop :=
  ∀ m, (s.monitors.get? m).map HeartbeatMonitor.liveness = (b m).map Nat.cast

-- Each operation keeps to the budgets, and reports each module once when its budget runs out.
def Conforms (liveness : ℕ) : HeartbeatManager → Budgets → List Op → Prop
  | _, _, []        => True
  | s, b, op :: ops => ∃ expired s', s.call op = some (expired, s') ∧
    s'.Keeps (b.call liveness op) ∧ expired.Nodup ∧ (∀ m, m ∈ expired ↔ b.Reports op m) ∧
    Conforms liveness s' (b.call liveness op) ops

end Cpp.Heartbeat
