import Tyche.Python.Workers
import Tyche.Threads

namespace Python

inductive JobThread
  | router
  | timeout
  | heartbeat
  | registration
  | clock
deriving DecidableEq

inductive JobTask
  | receive (frames : List Bytes)
  | checkTimeouts
  | heartbeat (frames : List Bytes)
  | register (info : ModuleInfo)
  | unregister (m : ModuleId)
  | tick (duration : ℚ)

-- The engine, and for the record the job whose response the router has begun to forward.
structure Routing where
  engine     : TycheEngine
  forwarding : Option Key

namespace Routing

def start (now : ℚ) : Routing where
  engine     := .start now
  forwarding := none

def setEngine (s : Routing) (e : TycheEngine) : Routing :=
  { s with engine := e }

-- A registration is a single step. The receiver of heartbeats ignores all exceptions.
def enter (deserialize : Bytes → Option Message) :
    JobThread → JobTask → Routing → Option (Routing × Py Unit)
  | .router, .receive frames, s         =>
    match incoming deserialize frames with
    | none   => some (s, return ())
    | some i => some (s.setEngine <| s.engine.arrive i, route i)
  | .timeout, .checkTimeouts, s         => some (s, Python.checkTimeouts)
  | .heartbeat, .heartbeat frames, s    =>
    match heartbeat? deserialize frames with
    | none     => some (s, return ())
    | some msg => some (s, (handleHeartbeat msg).catching fun _ => return ())
  | .registration, .register info, s    =>
    some (s.setEngine (s.engine.registerModule info).2, return ())
  | .registration, .unregister m, s     => some (s.setEngine <| s.engine.unregisterModule m, return ())
  | .clock, .tick duration, s           =>
    if 0 ≤ duration then some (s.setEngine <| s.engine.elapse duration, return ()) else none
  | _, _, _                             => none

-- Only `_handle_job_response` looks up and deletes what is pending.
def nextForwarding {β : Type} (s : Routing) : Op β → Option Key
  | .getPending c => if c ∈ s.engine.pendingJobs then some c else none
  | .delPending _ => none
  | _             => s.forwarding

def exec (deserialize : Bytes → Option Message) (works : Bool) {β : Type} (o : Op β) (s : Routing) :
    Except Error β × Routing :=
  let (r, e) := s.engine.exec deserialize (fun _ => works) o
  (r, ⟨e, s.nextForwarding o⟩)

end Routing

-- The threads of the engine that deal with jobs, in any order of their operations.
def routing (deserialize : Bytes → Option Message) :
    Threads.System Op Error Routing JobThread JobTask Bool where
  enter            := Routing.enter deserialize
  exec _ works o s := some <| s.exec deserialize works o

end Python
