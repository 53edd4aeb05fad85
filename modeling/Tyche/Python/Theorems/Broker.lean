import Tyche.Broker
import Tyche.Python.Theorems.Jobs
import Tyche.Sample

namespace Python

namespace Workers

variable {deserialize : Bytes → Option Message} {s s' : Workers} {a : Action} {c : Key}

-- The call of the engine that an action makes, and which of its outputs succeed.
def call? (deserialize : Bytes → Option Message) (s : Workers) :
    Action → Option (Call × (Output → Bool))
  | .tick duration          => some (.tick duration, fun _ => true)
  | .receive frames works   => (incoming deserialize frames).map (.receive ·, works)
  | .scan                   => none
  | .timeout works          => s.timedOut.head?.map fun job => (.timeout job.1 job.2, works)
  | .heartbeat frames works => (heartbeat? deserialize frames).map (.heartbeat ·, works)
  | .register info          => some (.register info, fun _ => true)
  | .unregister m           => some (.unregister m, fun _ => true)

theorem step_engine (e : s.step deserialize a = some s') : s'.engine =
    (s.call? deserialize a).elim s.engine fun c => (s.engine.perform deserialize c.2 c.1).2 := by
  cases a <;> simp only [step, Option.ite_none_right_eq_some, Option.ite_none_left_eq_some,
    Option.some.injEq] at e
  case tick       => exact e.right ▸ rfl
  case receive    =>
    rw [← e.right, receive, call?]
    cases incoming deserialize _ <;> rfl
  case scan       =>
    rw [← e.right, scan]
    split <;> rfl
  case timeout    =>
    obtain ⟨job, hj, e⟩ := Option.map_eq_some_iff.mp e.right
    rw [← e, call?, hj]
    rfl
  case heartbeat  =>
    rw [← e, call?]
    cases heartbeat? deserialize _ <;> rfl
  case register   => exact e ▸ rfl
  case unregister => exact e ▸ rfl

def job (s : Workers) (c : Key) : Job ℚ Bytes ModuleId :=
  s.engine.job c

def event (deserialize : Bytes → Option Message) (s : Workers) (a : Action) (c : Key) :
    Job.Event Bytes :=
  (s.call? deserialize a).elim .other fun call =>
    s.engine.callEvent deserialize call.2 call.1 c

theorem step_job (e : s.step deserialize a = some s') :
    (s.job c).Step s.engine.now (s.event deserialize a c) (s'.job c) := by
  rw [event, job, job, step_engine e]
  cases s.call? deserialize a
  case none => exact .stay _
  case some => exact TycheEngine.perform_job

-- The correlation id under which a request is kept.
def requestId (deserialize : Bytes → Option Message) : Action → Option Key
  | .receive frames _ =>
    (incoming deserialize frames).bind fun i =>
      if i.msg.msgType = .request then i.msg.correlationId.hash.toOption else none
  | _ => none

theorem event_eq_request {r : Bytes} (h : s.event deserialize a c = .request r) :
    requestId deserialize a = some c := by
  have ⟨call, hc, h⟩ : ∃ call ∈ s.call? deserialize a,
      s.engine.callEvent deserialize call.2 call.1 c = .request r := by
    rw [event] at h
    cases hc : s.call? deserialize a <;> simp_all
  have ⟨i, hi, hm, hk⟩ := TycheEngine.callEvent_eq_request h
  cases a <;> simp only [call?, Option.mem_def, Option.some.injEq, Option.map_eq_some_iff,
    reduceCtorEq] at hc
  case receive frames works =>
    obtain ⟨_, hf, rfl⟩ := hc
    cases hi
    rw [requestId, hf, Option.bind_some, if_pos hm, hk]
    rfl
  case tick | register | unregister => subst hc; cases hi
  case timeout | heartbeat          => obtain ⟨_, _, rfl⟩ := hc; cases hi

theorem duration_nonneg (e : s.step deserialize a = some s') :
    ∀ call ∈ s.call? deserialize a, 0 ≤ call.1.duration := by
  intro call hc
  cases a <;> simp only [call?, Option.mem_def, Option.some.injEq, Option.map_eq_some_iff,
    reduceCtorEq] at hc
  case tick =>
    rw [step, Option.ite_none_right_eq_some] at e
    exact hc ▸ e.left
  case register | unregister => exact hc ▸ le_refl _
  all_goals obtain ⟨_, _, rfl⟩ := hc; exact le_refl _

theorem step_now_le (e : s.step deserialize a = some s') : s.engine.now ≤ s'.engine.now := by
  have hd := duration_nonneg e
  rw [step_engine e]
  cases hc : s.call? deserialize a
  case none      => exact le_refl _
  case some call =>
    rw [Option.elim_some, TycheEngine.perform_now]
    exact le_add_of_nonneg_right <| hd call hc

end Workers

def broker (deserialize : Bytes → Option Message) :
    Broker Workers Action Key ℚ Bytes ModuleId where
  toMachine := workers deserialize
  now s     := s.engine.now
  job       := Workers.job
  event     := Workers.event deserialize
  now_le    := Workers.step_now_le
  job_step e _ := Workers.step_job e

namespace Sample

def message (msgType : MessageType) (corrId : Value) : Message where
  msgType       := msgType
  sender        := .str <| utf8 "s"
  event         := .str <| utf8 "t"
  payload       := .dict []
  correlationId := corrId

def unpack (frame : Bytes) : Option Message :=
  if frame = Sample.packed "req" "c" then some <| message .request <| .str <| utf8 "c"
  else if frame = Sample.packed "resp" "c" then some <| message .response <| .str <| utf8 "c"
  else none

def register (m : ModuleId) : Action :=
  .register { moduleId := m, interfaces := [{ pattern := .handle, eventType := .str <| utf8 "t" }] }

def request (identity : Bytes) : Action :=
  .receive (Sample.frames identity "req" "c") fun _ => true

def response (identity : Bytes) : Action :=
  .receive (Sample.frames identity "resp" "c") fun _ => true

end Sample

end Python
