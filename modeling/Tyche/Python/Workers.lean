import Tyche.Machine
import Tyche.Python.JobRouter

namespace Python

def run (deserialize : Bytes → Option Message) (works : Output → Bool) {α : Type} (p : Py α)
    (s : TycheEngine) : Except Error α × TycheEngine :=
  p.run (TycheEngine.exec deserialize works) s

-- What the engine's threads call one after the other where none of them interrupts another.
inductive Call
  | tick (duration : ℚ)
  | receive (i : Incoming)
  | timeout (c : Key) (reason : Reason)
  | heartbeat (msg : Message)
  | register (info : ModuleInfo)
  | unregister (moduleId : ModuleId)

namespace TycheEngine

def elapse (s : TycheEngine) (duration : ℚ) : TycheEngine :=
  { s with now := s.now + duration }

-- What arrives is logged under the correlation id by which it is kept.
def arrive (s : TycheEngine) (i : Incoming) : TycheEngine :=
  match i.msg.msgType, i.msg.correlationId.hash with
  | .request,  .ok c => s.logRequest c
  | .response, .ok c => s.emit <| .answer c i.identity
  | _,         _     => s

def perform (deserialize : Bytes → Option Message) (works : Output → Bool) (s : TycheEngine) :
    Call → Except Error Unit × TycheEngine
  | .tick duration    => (.ok (), s.elapse duration)
  | .receive i        => run deserialize works (route i) (s.arrive i)
  | .timeout c reason => run deserialize works (handleJobTimeout c reason) s
  | .heartbeat msg    => run deserialize works (handleHeartbeat msg) s
  | .register info    => s.registerModule info
  | .unregister m     => (.ok (), s.unregisterModule m)

end TycheEngine

-- The threads of the engine that take part in job routing. The timeout worker has yet to handle
-- the jobs that it found `timedOut`. An exception ends the loop of the router or of the timeout
-- worker. The receivers of heartbeats and registrations go on.
structure Workers where
  engine       : TycheEngine
  timedOut     : List (Key × Reason)
  routerEnded  : Bool
  timeoutEnded : Bool

inductive Action
  | tick (duration : ℚ)
  | receive (frames : List Bytes) (works : Output → Bool)
  | scan
  | timeout (works : Output → Bool)
  | heartbeat (frames : List Bytes) (works : Output → Bool)
  | register (info : ModuleInfo)
  | unregister (moduleId : ModuleId)

def raised {α : Type} : Except Error α → Bool
  | .ok _    => false
  | .error _ => true

namespace Workers

def start (now : ℚ) : Workers where
  engine       := .start now
  timedOut     := []
  routerEnded  := false
  timeoutEnded := false

def route (deserialize : Bytes → Option Message) (works : Output → Bool) (s : Workers)
    (i : Incoming) : Workers :=
  let (r, e) := s.engine.perform deserialize works (.receive i)
  { s with engine := e, routerEnded := raised r }

def scan (s : Workers) : Workers :=
  match timedOutJobs s.engine.now s.engine.tracked with
  | .ok jobs => { s with timedOut := jobs }
  | .error _ => { s with timeoutEnded := true }

def timeout (deserialize : Bytes → Option Message) (works : Output → Bool) (s : Workers)
    (job : Key × Reason) : Workers :=
  let (r, e) := s.engine.perform deserialize works (.timeout job.1 job.2)
  { s with engine := e, timedOut := s.timedOut.tail, timeoutEnded := raised r }

def receive (deserialize : Bytes → Option Message) (works : Output → Bool) (s : Workers)
    (frames : List Bytes) : Workers :=
  (incoming deserialize frames).elim s (s.route deserialize works)

-- A call whose exceptions are caught by its thread.
def calling (deserialize : Bytes → Option Message) (works : Output → Bool) (s : Workers)
    (c : Call) : Workers :=
  { s with engine := (s.engine.perform deserialize works c).2 }

def step (deserialize : Bytes → Option Message) (s : Workers) : Action → Option Workers
  | .tick duration =>
    if 0 ≤ duration then some <| s.calling deserialize (fun _ => true) (.tick duration) else none
  | .receive frames works =>
    if s.routerEnded then none else some <| s.receive deserialize works frames
  | .scan =>
    if s.timeoutEnded ∨ s.timedOut ≠ [] then none else some s.scan
  | .timeout works =>
    if s.timeoutEnded then none else s.timedOut.head?.map (s.timeout deserialize works)
  | .heartbeat frames works =>
    some <| (heartbeat? deserialize frames).elim s (s.calling deserialize works <| .heartbeat ·)
  | .register info => some <| s.calling deserialize (fun _ => true) (.register info)
  | .unregister m => some <| s.calling deserialize (fun _ => true) (.unregister m)

end Workers

def workers (deserialize : Bytes → Option Message) : Machine Workers Action where
  step := Workers.step deserialize

end Python
