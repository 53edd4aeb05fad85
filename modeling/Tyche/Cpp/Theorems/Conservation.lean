import Tyche.Cpp.Theorems.Jobs

namespace Cpp

namespace TycheEngine

variable {deserialize : Bytes → Option Message} {s s' : TycheEngine} {as : List Action}
variable {c : Bytes} {now : ℚ}

def tracked (s : TycheEngine) (c : Bytes) : ℕ :=
  if c ∈ s.jobTracking then 1 else 0

def forwarded (s : TycheEngine) (c : Bytes) : ℕ :=
  (s.outOf c).countP Output.IsForward

def failed (s : TycheEngine) (c : Bytes) : ℕ :=
  (s.outOf c).countP Output.IsError

def replies (s : TycheEngine) (c : Bytes) : ℕ :=
  (s.outOf c).countP Output.IsReply

-- No request is lost and none is answered twice.
structure Conserved (s : TycheEngine) : Prop where
  keys    : ∀ c, c ∈ s.pendingJobs ↔ c ∈ s.jobTracking
  once    : ∀ c ∈ s.received, s.tracked c + s.forwarded c + s.failed c = 1
  replies : ∀ c, s.replies c ≤ 1

theorem mem_jobTracking_iff : c ∈ s.jobTracking ↔ (s.job c).entry.isSome := by
  rw [Dict.mem_iff, Option.isSome_iff_exists]
  exact ⟨fun ⟨i, hi⟩ => ⟨i.entry, job_entry_iff.mpr ⟨i, hi, rfl⟩⟩,
    fun ⟨_, he⟩ => have ⟨i, hi, _⟩ := job_entry_iff.mp he; ⟨i, hi⟩⟩

theorem mem_pendingJobs_iff : c ∈ s.pendingJobs ↔ (s.job c).owner.isSome := by
  rw [Dict.mem_iff, Option.isSome_iff_exists]
  rfl

theorem tracked_eq : s.tracked c = (s.job c).tracked := by
  rw [tracked, Job.tracked]
  exact if_congr mem_jobTracking_iff rfl rfl

theorem replies_eq : s.replies c = s.forwarded c + s.failed c := by
  rw [replies, forwarded, failed]
  induction s.outOf c
  case nil => rfl
  case cons o os hi =>
    simp only [List.countP_cons, hi]
    cases o <;> simp [Output.IsReply, Output.IsForward, Output.IsError] <;> omega

theorem Conserved.of_jobs (ho : ∀ c, (s.job c).Owned) (hc : ∀ c, (s.job c).Conserved)
    (hr : s.received.Nodup) : s.Conserved where
  keys c := by
    rw [mem_jobTracking_iff, mem_pendingJobs_iff, ho c, Option.isSome_map]
  once c hm := by
    rw [tracked_eq, ← List.count_eq_one_of_mem hr hm]
    exact hc c
  replies c := by
    have hj : s.tracked c + s.forwarded c + s.failed c = s.received.count c := tracked_eq ▸ hc c
    have hl : s.received.count c ≤ 1 := List.nodup_iff_count_le_one.mp hr c
    rw [replies_eq]
    omega

theorem event_ne_lost {a : Action} :
    s.event deserialize a c ≠ .lost ∧ s.event deserialize a c ≠ .dropped := by
  cases a <;> simp only [event]
  case receive frames =>
    cases incoming deserialize frames
    case none => simp
    case some i =>
      simp only [Option.map_some, Option.getD_some, incomingEvent, requestEvent]
      split_ifs <;> simp
  all_goals first | (split <;> simp) | simp

end TycheEngine

namespace broker

open TycheEngine

variable {deserialize : Bytes → Option Message} {s s' : TycheEngine} {as : List Action}
variable {now : ℚ}

theorem start_owned : (broker deserialize).Owned (.start now) :=
  fun _ => Job.idle_owned

theorem start_conserved : (broker deserialize).Conserved (.start now) :=
  fun _ => Job.idle_conserved

theorem along_lossless :
    (broker deserialize).Along (broker deserialize).Lossless s as :=
  Machine.along_true.mono fun _ _ _ _ => event_ne_lost

theorem received_step {a : Action} (e : (broker deserialize).step s a = some s') :
    s'.received = s.received ++ (requestId deserialize a).toList :=
  (step_inputs e).received

-- The ids of the requests that have arrived stay distinct from those still to come.
theorem nodup_step {a : Action} (e : (broker deserialize).step s a = some s')
    (h : (s.received ++ (a :: as).filterMap (requestId deserialize)).Nodup) :
    (s'.received ++ as.filterMap (requestId deserialize)).Nodup := by
  rw [received_step e]
  cases hr : requestId deserialize a <;> simpa [List.filterMap_cons, hr] using h

theorem always_received_nodup
    (h : (s.received ++ as.filterMap (requestId deserialize)).Nodup) :
    (broker deserialize).Always (·.received.Nodup) s as := by
  induction as generalizing s
  case nil => exact h.of_append_left
  case cons a as hi => exact ⟨h.of_append_left, fun _ e => hi <| nodup_step e h⟩

theorem along_fresh (h : (s.received ++ as.filterMap (requestId deserialize)).Nodup) :
    (broker deserialize).Along (broker deserialize).Fresh s as := by
  induction as generalizing s
  case nil => trivial
  case cons a as hi =>
    refine ⟨fun c hv => ?_, fun _ e => hi <| nodup_step e h⟩
    rw [List.filterMap_cons_some (event_eq_request hv)] at h
    exact List.count_eq_zero.mpr fun hm =>
      List.disjoint_of_nodup_append h hm List.mem_cons_self

-- Distinct requests are conserved, whatever the threads of the engine do and in whatever order.
theorem always_requests_conserved (h : (as.filterMap (requestId deserialize)).Nodup) :
    (broker deserialize).Always TycheEngine.Conserved (.start now) as := by
  have hs : (broker deserialize).Owned (.start now) := start_owned
  have ho : (broker deserialize).Always (broker deserialize).Owned (.start now) as :=
    Broker.always_owned hs along_lossless
  have hc : (broker deserialize).Always (broker deserialize).Conserved (.start now) as :=
    Broker.always_conserved hs start_conserved (along_fresh h) along_lossless
  have hr := always_received_nodup (s := .start now) h
  exact ((ho.and hc).and hr).mono fun _ ⟨⟨ho, hc⟩, hr⟩ => .of_jobs ho hc hr

def orphanedJob : List Action :=
  [Sample.register (Sample.worker 1), Sample.request (utf8 "a"), .unregister (Sample.worker 1),
    Sample.response (Sample.worker 1).val]

theorem always_one_request_conserved :
    orphanedJob.filterMap (requestId Sample.unpack) = [utf8 "c"] ∧
    (broker Sample.unpack).Always TycheEngine.Conserved (.start 0) orphanedJob :=
  ⟨by decide +kernel, always_requests_conserved (by decide +kernel)⟩

end broker

end Cpp
