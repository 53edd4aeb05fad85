import Tyche.Cpp.JobWorkers
import Tyche.Cpp.Theorems.Jobs

namespace Cpp

open Proc Threads

variable {deserialize : Bytes → Option Message} {β : Type} {s : Jobs} {m : ModuleId}
variable {order : List Bytes} {e : TycheEngine}

-- The job router knows nothing about the module.
structure TycheEngine.Clean (s : TycheEngine) (m : ModuleId) : Prop where
  jobs    : ∀ c info, s.jobTracking.get? c = some info → info.handlerId ≠ some m
  marks   : m.val ∉ s.unavailableHandlers
  reports : m.val ∉ s.moduleAvailability

theorem TycheEngine.clean_iff {s : TycheEngine} :
    (∀ e ∈ s.jobTracking.entries, e.2.handlerId ≠ some m) ∧ m.val ∉ s.unavailableHandlers ∧
      m.val ∉ s.moduleAvailability ↔ s.Clean m := by
  constructor
  case mp =>
    rintro ⟨hj, hm, hr⟩
    exact ⟨fun c info hi => hj _ <| Dict.get?_eq_some_iff.mp hi, hm, hr⟩
  case mpr =>
    rintro ⟨hj, hm, hr⟩
    exact ⟨fun e he => hj e.1 e.2 <| Dict.get?_eq_some_iff.mpr he, hm, hr⟩

instance {s : TycheEngine} : Decidable (s.Clean m) :=
  decidable_of_iff _ s.clean_iff

-- What is written about a module is not about one that was unregistered.
def JobOp.Known : ∀ {β : Type}, JobOp β → Jobs → Prop
  | _, .track _ info, s | _, .accept _ info, s => ∀ h ∈ info.handlerId, h ∉ s.unregistered
  | _, .markUnavailable h _, s                 => h ∉ s.removed
  | _, .setAvailability m _, s                 => ∀ h ∈ s.removed, h.val ≠ m
  | _, .remove m, s                            => m ∈ s.engine.modules ∨ s.engine.Clean m
  | _, _, _                                    => True

instance : ∀ {β} (o : JobOp β), Decidable (o.Known s)
  | _, .track .. | _, .accept ..  => inferInstanceAs <| Decidable (∀ _ ∈ _, _)
  | _, .markUnavailable ..        => inferInstanceAs <| Decidable (_ ∉ _)
  | _, .setAvailability ..        => inferInstanceAs <| Decidable (∀ _ ∈ _, _)
  | _, .remove _                  => inferInstanceAs <| Decidable (_ ∨ _)
  | _, .time | _, .send _ | _, .persist _ | _, .handlers _ | _, .select .. | _, .takePending _
  | _, .takeTracked _ | _, .untrack _ | _, .erasePending _ | _, .waitingJobs _
  | _, .takeTimeouts | _, .takeRecoveries | _, .scan _ | _, .pushTimeouts _ | _, .takeMarks _
  | _, .pushRecovery _ | _, .orphan _ => isTrue trivial

namespace Jobs

def known : Condition JobOp Jobs JobThread JobTask (List Bytes) where
  enter _ _ _    := True
  exec _ _ _ o s := o.Known s

instance {i : JobThread} {k : JobTask} : Decidable (known.enter i k s) :=
  isTrue trivial

instance {i : JobThread} {k : Option JobTask} {o : JobOp β} :
    Decidable (known.exec i k order o s) :=
  inferInstanceAs <| Decidable (o.Known s)

-- Nothing is left of the modules that were unregistered.
def Final (s : Jobs) : Prop :=
  ∀ m ∈ s.unregistered, s.engine.Clean m

-- With nothing in between, the two sections are the whole of the unregistration.
theorem run_unregisterModule :
    ((unregisterModule m).run (exec order) s).2.engine = s.engine.unregisterModule m := by
  simp only [unregisterModule, run_bind, run_op, Jobs.exec, Jobs.remove]
  by_cases hm : m ∈ s.engine.modules
  case pos => simp [hm, TycheEngine.unregisterModule_eq, Jobs.exec, Jobs.orphan]
  case neg => simp [hm, TycheEngine.unregisterModule]

structure Inv (s : Jobs) : Prop where
  removed : ∀ m ∈ s.removed, m.val ∉ s.engine.unavailableHandlers ∧
    m.val ∉ s.engine.moduleAvailability
  unregistered : ∀ m ∈ s.unregistered, m ∈ s.removed ∧
    ∀ c info, s.engine.jobTracking.get? c = some info → info.handlerId ≠ some m

theorem Inv.final (h : s.Inv) : s.Final := by
  intro m hm
  have ⟨hr, hj⟩ := h.unregistered m hm
  exact ⟨hj, (h.removed m hr).left, (h.removed m hr).right⟩

-- Whatever the engine learns anew is not about the modules that were unregistered.
theorem Inv.update (h : s.Inv)
    (hj : ∀ c info, e.jobTracking.get? c = some info →
      s.engine.jobTracking.get? c = some info ∨ ∀ m ∈ info.handlerId, m ∉ s.unregistered)
    (hm : ∀ m ∈ s.removed, m.val ∈ e.unavailableHandlers → m.val ∈ s.engine.unavailableHandlers)
    (hr : ∀ m ∈ s.removed, m.val ∈ e.moduleAvailability → m.val ∈ s.engine.moduleAvailability) :
    Inv { s with engine := e } where
  removed m hs      := ⟨fun hn => (h.removed m hs).left <| hm m hs hn,
    fun hn => (h.removed m hs).right <| hr m hs hn⟩
  unregistered m hs := by
    have ⟨hs', hc⟩ := h.unregistered m hs
    refine ⟨hs', fun c info hi he => ?_⟩
    obtain hi | hn := hj c info hi
    · exact hc c info hi he
    · exact hn m he hs

-- The tables of modules stay as they are, and no more jobs are tracked.
theorem Inv.same (h : s.Inv)
    (hj : ∀ c info, e.jobTracking.get? c = some info → s.engine.jobTracking.get? c = some info)
    (hm : e.unavailableHandlers = s.engine.unavailableHandlers)
    (hr : e.moduleAvailability = s.engine.moduleAvailability) : Inv { s with engine := e } :=
  h.update (fun c info hi => .inl <| hj c info hi) (fun _ _ hn => hm ▸ hn) fun _ _ hn => hr ▸ hn

theorem Inv.track {c : Bytes} {info : JobTrackingInfo} (h : s.Inv)
    (hk : ∀ h ∈ info.handlerId, h ∉ s.unregistered)
    (hj : e.jobTracking = s.engine.jobTracking.set c info)
    (hm : e.unavailableHandlers = s.engine.unavailableHandlers)
    (hr : e.moduleAvailability = s.engine.moduleAvailability) : Inv { s with engine := e } := by
  refine h.update (fun d i hi => ?_) (fun _ _ hn => hm ▸ hn) fun _ _ hn => hr ▸ hn
  rw [hj, Dict.get?_set] at hi
  split at hi
  · cases hi; exact .inr hk
  · exact .inl hi

theorem get?_untrack {s : TycheEngine} {c d : Bytes} {info : JobTrackingInfo}
    (h : (s.untrack c).jobTracking.get? d = some info) : s.jobTracking.get? d = some info := by
  simp only [TycheEngine.untrack, Dict.get?_erase] at h
  split at h
  · cases h
  · exact h

theorem Inv.remove (h : s.Inv) (hk : m ∈ s.engine.modules ∨ s.engine.Clean m) :
    (s.remove m).2.Inv := by
  unfold Jobs.remove
  split
  case isTrue  =>
    constructor
    case removed =>
      intro m' hm
      simp only [TycheEngine.removeModule, Dict.mem_erase, not_and]
      by_cases he : m' = m
      case pos => subst he; simp
      case neg =>
        have ⟨hu, ha⟩ := h.removed m' <| List.mem_of_ne_of_mem he hm
        exact ⟨fun _ => hu, fun _ => ha⟩
    case unregistered =>
      intro m' hm
      have ⟨hr, hj⟩ := h.unregistered m' (List.mem_filter.mp hm).left
      exact ⟨List.mem_cons_of_mem _ hr, hj⟩
  case isFalse hn =>
    obtain ⟨hj, hm, hr⟩ := hk.resolve_left hn
    constructor
    case removed =>
      intro m' hm'
      obtain rfl | hm' := List.mem_cons.mp hm'
      · exact ⟨hm, hr⟩
      · exact h.removed m' hm'
    case unregistered =>
      intro m' hm'
      obtain rfl | hm' := List.mem_cons.mp hm'
      · exact ⟨List.mem_cons_self, hj⟩
      · exact ⟨List.mem_cons_of_mem _ (h.unregistered m' hm').left, (h.unregistered m' hm').right⟩

theorem Inv.orphan (h : s.Inv) : (s.orphan m).Inv := by
  have hj (m' : ModuleId) (hc : m' = m ∨ ∀ c info, s.engine.jobTracking.get? c = some info →
      info.handlerId ≠ some m') (c : Bytes) (info : JobTrackingInfo)
      (hi : (s.engine.orphanJobs m).jobTracking.get? c = some info) :
      info.handlerId ≠ some m' := by
    simp only [TycheEngine.orphanJobs, Dict.get?_mapVal, Option.map_eq_some_iff] at hi
    obtain ⟨i, hi, rfl⟩ := hi
    unfold TycheEngine.orphan
    split
    case isTrue     => simp
    case isFalse hn =>
      obtain rfl | hc := hc
      · exact hn
      · exact hc c i hi
  constructor
  case removed      => exact h.removed
  case unregistered =>
    intro m' hm
    simp only [Jobs.orphan] at hm
    split at hm
    case isTrue hr  =>
      obtain rfl | hm := List.mem_cons.mp hm
      · exact ⟨hr, hj _ <| .inl rfl⟩
      · exact ⟨(h.unregistered m' hm).left, hj _ <| .inr (h.unregistered m' hm).right⟩
    case isFalse    =>
      exact ⟨(h.unregistered m' hm).left, hj _ <| .inr (h.unregistered m' hm).right⟩

theorem Inv.register {info : ModuleInfo} (h : s.Inv) : (s.register info).Inv := by
  have ht (l : List Interface) (e : TycheEngine) :
      let e' := l.foldl (·.addHandler info.moduleId) e
      e'.jobTracking = e.jobTracking ∧ e'.unavailableHandlers = e.unavailableHandlers ∧
        e'.moduleAvailability = e.moduleAvailability := by
    induction l generalizing e
    case nil         => exact ⟨rfl, rfl, rfl⟩
    case cons i l hi =>
      obtain ⟨hj, hm, hr⟩ := hi <| e.addHandler info.moduleId i
      refine ⟨hj.trans ?_, hm.trans ?_, hr.trans ?_⟩
      all_goals
        unfold TycheEngine.addHandler
        split <;> rfl
  obtain ⟨hj, hm, hr⟩ := ht info.interfaces
    { s.engine with modules := s.engine.modules.insert info.moduleId }
  constructor
  case removed      =>
    intro m hs
    simp only [Jobs.register, TycheEngine.registerModule, hm, hr]
    exact h.removed m (List.mem_filter.mp hs).left
  case unregistered =>
    intro m hs
    obtain ⟨hs, hn⟩ := List.mem_filter.mp hs
    simp only [Jobs.register, TycheEngine.registerModule, hj]
    exact ⟨List.mem_filter.mpr ⟨(h.unregistered m hs).left, hn⟩, (h.unregistered m hs).right⟩

theorem Inv.exec {o : JobOp β} (h : s.Inv) (hk : o.Known s) : (exec order o s).2.Inv := by
  cases o
  case time | handlers | waitingJobs | scan => exact h
  case send | persist | select | erasePending | takeTimeouts | takeRecoveries | pushTimeouts
    | pushRecovery                   => exact h.same (fun _ _ hi => hi) rfl rfl
  case track c info                  => exact h.track hk rfl rfl rfl
  case accept c info                 => exact h.track hk rfl rfl rfl
  case takeTracked | untrack         => exact h.same (fun _ _ => get?_untrack) rfl rfl
  case remove m                      => exact h.remove hk
  case orphan m                      => exact h.orphan
  case takePending c                 =>
    simp only [Jobs.exec, Jobs.update, TycheEngine.takePending]
    split
    case isTrue  => exact h.same (fun _ _ => get?_untrack) rfl rfl
    case isFalse => exact h
  case markUnavailable m topic       =>
    refine h.update (fun _ _ hi => .inl hi) (fun m' hm hn => ?_) fun _ _ hn => hn
    obtain he | hn := Dict.mem_set.mp hn
    · exact absurd (Subtype.ext he ▸ hm) hk
    · exact hn
  case setAvailability m avail       =>
    refine h.update (fun _ _ hi => .inl hi) (fun _ _ hn => hn) fun m' hm hn => ?_
    obtain he | hn := Dict.mem_set.mp hn
    · exact absurd he <| hk m' hm
    · exact hn
  case takeMarks m                   =>
    simp only [Jobs.exec, Jobs.update, TycheEngine.takeMarks]
    split
    case isTrue  => exact h
    case isFalse =>
      exact h.update (fun _ _ hi => .inl hi) (fun _ _ hn => (Dict.mem_erase.mp hn).right)
        fun _ _ hn => hn

theorem start_inv {now : ℚ} : (start now).Inv where
  removed _ hm      := absurd hm List.not_mem_nil
  unregistered _ hm := absurd hm List.not_mem_nil

end Jobs

namespace jobs

variable {now : ℚ} {as : List (Threads.Action JobThread JobTask (List Bytes))}

-- In every run in which the threads write nothing about modules that have been unregistered, the
-- unregistration of a module is final.
theorem always_final_of_known
    (c : (machine (jobs deserialize)).Along (Meets Jobs.known) (.start <| .start now) as) :
    (machine (jobs deserialize)).Always (fun t => t.shared.Final) (.start <| .start now) as := by
  have h : (machine (jobs deserialize)).Always (fun t => t.shared.Inv)
      (.start <| .start now) as := by
    refine always_shared (fun i k s s' p h _ e => ?_) (fun _ _ order o s r s' h hk e => ?_)
      Jobs.start_inv c
    case refine_1 =>
      simp only [jobs, Jobs.enter] at e
      split at e
      case h_6 => cases e; exact h.register
      case h_8 =>
        split at e <;> cases e
        exact h.same (fun _ _ hi => hi) rfl rfl
      case h_5 => split at e <;> cases e <;> exact h
      all_goals cases e; try exact h
    case refine_2 =>
      simp only [jobs] at e
      split at e
      case isTrue  =>
        have hs : (Jobs.exec order o s).2 = s' := congrArg Prod.snd <| Option.some.inj e
        exact hs ▸ h.exec hk
      case isFalse => cases e
  exact h.mono fun _ h => h.final

end jobs

namespace Sample

def jobSteps (i : JobThread) (n : ℕ) : List (Threads.Action JobThread JobTask (List Bytes)) :=
  .replicate n <| .next i [utf8 "c"]

def registration (n : ℕ) : Threads.Action JobThread JobTask (List Bytes) :=
  .start (.caller 0) <| .register
    { moduleId   := Sample.worker n
      interfaces := [{ pattern := .handle, eventType := utf8 "t" }] }

def unregistration (n : ℕ) : Threads.Action JobThread JobTask (List Bytes) :=
  .start (.caller 0) <| .unregister <| Sample.worker n

def jobRequest : Threads.Action JobThread JobTask (List Bytes) :=
  .start .router <| .receive <| Sample.frames (utf8 "a") "req" "c"

end Sample

namespace jobs

-- A job loses its handler and times out.
theorem always_final_sample :
    (machine (jobs Sample.unpack)).Always (fun t => t.shared.Final) (.start <| .start 0) (
      [Sample.registration 1, Sample.jobRequest] ++ Sample.jobSteps .router 5 ++
      [Sample.unregistration 1] ++ Sample.jobSteps (.caller 0) 2 ++
      [.start .clock <| .tick 31, .start .timeout .scan] ++ Sample.jobSteps .timeout 3 ++
      [.start .router .timeouts] ++ Sample.jobSteps .router 5) :=
  always_final_of_known <| by decide +kernel

-- The router has selected a handler, which is unregistered before the router tracks the job.
theorem not_always_final : ¬∀ as t, (machine (jobs Sample.unpack)).exec (.start <| .start 0) as =
    some t → (machine (jobs Sample.unpack)).Always (fun t => t.shared.Final) (.start <| .start 0)
      as := by
  intro h
  have hr : ∃ t ∈ (machine (jobs Sample.unpack)).exec (.start <| .start 0)
      ([Sample.registration 1, Sample.jobRequest] ++ Sample.jobSteps .router 3 ++
        [Sample.unregistration 1] ++ Sample.jobSteps (.caller 0) 2 ++ Sample.jobSteps .router 1),
      Sample.worker 1 ∈ t.shared.unregistered ∧ ¬t.shared.engine.Clean (Sample.worker 1) := by
    decide +kernel
  obtain ⟨t, ht, hm, hn⟩ := hr
  exact hn <| (h _ t ht).exec ht _ hm

end jobs

end Cpp
