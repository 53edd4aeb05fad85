import Tyche.Python.Theorems.Idle

namespace Python

open Proc

namespace TycheEngine

variable {deserialize : Bytes → Option Message} {works : Output → Bool} {s s' : TycheEngine}
variable {m h : ModuleId} {topic : Hashed} {t c k : Key} {ref : Ref} {o : Output}
variable {info : TrackingInfo} {call : Call} {M : ModuleId → Prop} {r : Reason}

-- Only modules of a given kind handle jobs and are taken into account for that.
structure Serves (M : ModuleId → Prop) (s : TycheEngine) : Prop where
  handlers : ∀ t, ∀ h ∈ s.handlers t, M h
  reports  : ∀ m, Key.ofModule m ∈ s.moduleAvailability → M m
  marks    : ∀ m, Key.ofModule m ∈ s.unavailableHandlers → M m
  tracked  : ∀ c, ∀ info ∈ s.tracking? c, ∀ h ∈ info.handlerId, M h

-- The handler of the job is a module of the kind.
def Manned (M : ModuleId → Prop) (s : TycheEngine) (ref : Ref) : Prop :=
  ∀ h ∈ (s.infos ref).handlerId, M h

theorem selectHandler_mem (e : s.selectHandler topic = .ok (some (h, s'))) :
    h ∈ s.handlers topic.key := by
  unfold selectHandler at e
  split at e <;> cases e
  case h_3 ha => exact ((chosen_eq_ok ha).right _).mp (List.get_mem ..) |>.left

namespace Serves

theorem of_tables (hs : s.Serves M) (ht : s'.tables = s.tables)
    (hi : ∀ c, ∀ info ∈ s'.tracking? c, info ∈ s.tracking? c ∨ ∀ h ∈ info.handlerId, M h) :
    s'.Serves M where
  handlers t h hh := hs.handlers t h <| handlers_of_tables ht ▸ hh
  reports m hm    := hs.reports m <| (congrArg (fun x => Key.ofModule m ∈ x.2.2) ht).mp hm
  marks m hm      := hs.marks m <| (congrArg (fun x => Key.ofModule m ∈ x.2.1) ht).mp hm
  tracked c info h := (hi c info h).elim (hs.tracked c info) id

theorem of_tracking (hs : s.Serves M) (ht : s'.tables = s.tables)
    (hi : ∀ c, s'.tracking? c = s.tracking? c) : s'.Serves M :=
  hs.of_tables ht fun c _ h => .inl <| hi c ▸ h

theorem emit (hs : s.Serves M) : (s.emit o).Serves M :=
  hs.of_tracking rfl fun _ => rfl

theorem setRoundRobin (hs : s.Serves M) {n : ℕ} : (s.setRoundRobin t n).Serves M :=
  hs.of_tracking rfl fun _ => rfl

theorem setPending (hs : s.Serves M) {i : Bytes} : (s.setPending c i).Serves M :=
  hs.of_tracking rfl fun _ => rfl

theorem erasePending (hs : s.Serves M) : (s.erasePending c).Serves M :=
  hs.of_tracking rfl fun _ => rfl

theorem trying (hs : s.Serves M) : (s.trying works o).Serves M := by
  unfold TycheEngine.trying
  split
  · exact hs.emit
  · exact hs

theorem untrack (hs : s.Serves M) : (s.untrack k).Serves M := by
  refine hs.of_tables rfl fun c info hi => ?_
  rw [tracking?_untrack] at hi
  split at hi
  · cases hi
  · exact .inl hi

theorem track (hs : s.Serves M) (hm : ∀ h ∈ info.handlerId, M h) :
    (s.track k info).Serves M := by
  refine hs.of_tables rfl fun c i hi => ?_
  rw [tracking?_track] at hi
  split at hi
  · cases hi; exact .inr hm
  · exact .inl hi

theorem retrack (hs : s.Serves M) (hm : ∀ h ∈ info.handlerId, M h) :
    ((s.setInfo ref info).retrack ref).Serves M := by
  refine hs.of_tables rfl fun c i hi => ?_
  rw [tracking?_retrack] at hi
  split at hi
  · cases hi; exact .inr hm
  · exact .inl hi

theorem retrack_self (hs : s.Serves M) (hm : ∀ h ∈ (s.infos ref).handlerId, M h) :
    (s.retrack ref).Serves M := by
  have h : ((s.setInfo ref _).retrack ref).Serves M := hs.retrack hm
  simpa [setInfo_self] using h

theorem mark (hs : s.Serves M) (hm : M h) : (s.mark (.ofModule h) t).Serves M where
  handlers   := hs.handlers
  reports    := hs.reports
  marks m hk := by
    have hk : Key.ofModule m ∈ s.unavailableHandlers.set (.ofModule h) _ := hk
    obtain hk | hk := Dict.mem_set.mp hk
    case inl => exact (Subtype.ext <| Key.str.inj hk : m = h) ▸ hm
    case inr => exact hs.marks m hk
  tracked    := hs.tracked

theorem retryJob (hs : s.Serves M) :
    ((Python.retryJob ref).run (exec deserialize works) s).2.Serves M := by
  rw [run_retryJob]
  cases hh : s.selectHandler (s.infos ref).topic
  case error => exact hs
  case ok x  =>
    cases x
    case none   => exact hs
    case some x =>
      obtain ⟨h, s'⟩ := x
      have hm := hs.handlers _ _ <| selectHandler_mem hh
      obtain ⟨_, n, rfl⟩ := selectHandler_eq_some hh
      dsimp only
      split
      case isFalse => exact hs.setRoundRobin
      case isTrue  =>
        refine hs.setRoundRobin.emit.retrack ?_
        rintro _ ⟨⟩
        exact hm

theorem fail (hs : s.Serves M) : (s.fail deserialize works ref r).Serves M :=
  hs.of_tracking fail_tables fun _ => fail_tracking?

theorem release (hs : s.Serves M) : (s.release ref).Serves M :=
  hs.retrack <| by rintro _ ⟨⟩

theorem handleJobTimeout (hs : s.Serves M) :
    ((Python.handleJobTimeout c r).run (exec deserialize works) s).2.Serves M := by
  rw [run_handleJobTimeout]
  cases hn : s.jobTracking.get? c
  case none   => exact hs
  case some n =>
    dsimp only
    split
    case h_2      => exact hs.untrack.fail
    case h_1 h hh =>
      have hm : M h := hs.tracked c _ (tracking?_eq_some hn) h hh
      have ht := (hs.untrack (k := c)).mark (t := (s.infos ⟨c, n⟩).topic.key) hm
      have hr : ((Python.retryJob ⟨c, n⟩).run (exec deserialize works) _).2.Serves M := ht.retryJob
      split
      case h_1 he => rw [he] at hr; exact hr
      case h_2 he => rw [he] at hr; exact hr
      case h_3 he => rw [he] at hr; exact hr.release

theorem handleJobRequest (hs : s.Serves M) {i tf mf : Bytes} {msg : Message} :
    ((Python.handleJobRequest i tf mf msg).run (exec deserialize works) s).2.Serves M := by
  rw [run_handleJobRequest]
  cases request msg
  case error => exact hs
  case ok q  =>
    dsimp only
    cases hh : s.selectHandler q.topic
    case error => exact hs
    case ok x  =>
      cases x
      case none   =>
        dsimp only
        split
        · exact hs.trying
        · cases msg.correlationId.hash
          · exact hs
          · exact (hs.track <| by rintro _ ⟨⟩).setPending
      case some x =>
        obtain ⟨h, s'⟩ := x
        have hm := hs.handlers _ _ <| selectHandler_mem hh
        obtain ⟨_, n, rfl⟩ := selectHandler_eq_some hh
        cases msg.correlationId.hash
        case error => exact hs.setRoundRobin
        case ok c  =>
          dsimp only
          split
          case isTrue  =>
            refine (hs.setRoundRobin.setPending.track ?_).emit
            rintro _ ⟨⟩
            exact hm
          case isFalse =>
            refine (hs.setRoundRobin.setPending.track ?_).erasePending.untrack
            rintro _ ⟨⟩
            exact hm

theorem handleJobResponse (hs : s.Serves M) {tf mf : Bytes} {msg : Message} :
    ((Python.handleJobResponse tf mf msg).run (exec deserialize works) s).2.Serves M := by
  rw [run_handleJobResponse]
  cases msg.correlationId.hash
  case error => exact hs
  case ok c  =>
    dsimp only
    split
    · exact hs
    · exact hs.untrack.trying.erasePending

theorem arrive {i : Incoming} (hs : s.Serves M) : (s.arrive i).Serves M :=
  hs.of_tracking arrive_tables fun _ => arrive_tracking?

theorem retryJob_manned (hs : s.Serves M) {ref' : Ref} (hr : s.Manned M ref') :
    ((Python.retryJob ref).run (exec deserialize works) s).2.Manned M ref' := by
  rw [run_retryJob]
  cases hh : s.selectHandler (s.infos ref).topic
  case error => exact hr
  case ok x  =>
    cases x
    case none   => exact hr
    case some x =>
      obtain ⟨h, s'⟩ := x
      have hm := hs.handlers _ _ <| selectHandler_mem hh
      obtain ⟨_, n, rfl⟩ := selectHandler_eq_some hh
      dsimp only
      split
      case isFalse => exact hr
      case isTrue  =>
        intro h' hh'
        simp [assign, TycheEngine.retrack, setInfo] at hh'
        split at hh'
        · cases hh'; exact hm
        · exact hr h' hh'

theorem recoverJob_manned (hs : s.Serves M) {ref' : Ref} (hr : s.Manned M ref') :
    ((Python.recoverJob ref).run (exec deserialize works) s).2.Manned M ref' := by
  rw [run_recoverJob]
  have hi : ((Python.retryJob ref).run (exec deserialize works) (s.untrack ref.corrId)).2.Manned M
    ref' := hs.untrack.retryJob_manned hr
  split
  case h_1 he => rw [he] at hi; exact hi
  case h_2 he => rw [he] at hi; exact hi
  case h_3 he => rw [he] at hi; exact hi

theorem recoverJob (hs : s.Serves M) (hr : s.Manned M ref) :
    ((Python.recoverJob ref).run (exec deserialize works) s).2.Serves M := by
  rw [run_recoverJob]
  have ht : ((Python.retryJob ref).run (exec deserialize works) _).2.Serves M :=
    (hs.untrack (k := ref.corrId)).retryJob
  have hi : ((Python.retryJob ref).run (exec deserialize works) (s.untrack ref.corrId)).2.Manned M
    ref := hs.untrack.retryJob_manned hr
  split
  case h_1 he => rw [he] at ht; exact ht
  case h_2 he => rw [he] at ht; exact ht
  case h_3 he => rw [he] at ht hi; exact ht.retrack_self hi

theorem recoverJobs {refs : List Ref} (hs : s.Serves M) (hr : ∀ ref ∈ refs, s.Manned M ref) :
    ((each Python.recoverJob refs).run (exec deserialize works) s).2.Serves M := by
  induction refs generalizing s
  case nil              => exact hs
  case cons ref refs hi =>
    have ht : ((Python.recoverJob ref).run (exec deserialize works) s).2.Serves M :=
      hs.recoverJob <| hr ref List.mem_cons_self
    have hm : ∀ ref' ∈ refs,
        ((Python.recoverJob ref).run (exec deserialize works) s).2.Manned M ref' :=
      fun ref' hr' => hs.recoverJob_manned <| hr ref' <| List.mem_cons_of_mem _ hr'
    rw [run_each_cons]
    split
    case h_1 he => rw [he] at ht hm; exact hi ht hm
    case h_2 he => rw [he] at ht; exact ht

theorem eraseMarks (hs : s.Serves M) : (s.eraseMarks k).Serves M where
  handlers   := hs.handlers
  reports    := hs.reports
  marks m hk := hs.marks m (Dict.mem_erase.mp hk).right
  tracked    := hs.tracked

theorem setReport (hs : s.Serves M) {v : Value} (hk : ∀ m, Key.ofModule m = k → M m) :
    (s.setReport k v).Serves M where
  handlers     := hs.handlers
  reports m hm := (Dict.mem_set.mp hm).elim (hk m) (hs.reports m)
  marks        := hs.marks
  tracked      := hs.tracked

theorem handleHeartbeat {msg : Message} (hs : s.Serves M)
    (hk : ∀ m, msg.sender.hash = .ok (.ofModule m) → M m) :
    ((Python.handleHeartbeat msg).run (exec deserialize works) s).2.Serves M := by
  rw [run_handleHeartbeat]
  split
  case h_1          => exact hs
  case h_2          => exact hs
  case h_3 k v he _ =>
    have hv : (v.elim s (s.setReport k)).Serves M := by
      cases v
      case none   => exact hs
      case some v => exact hs.setReport fun m hm => hk m <| hm ▸ he
    rw [run_recoverHandler]
    refine hv.eraseMarks.recoverJobs fun ref hr => ?_
    intro h hh
    cases (mem_waiting.mp hr).right.left.symm.trans hh

theorem unregisterModule (hs : s.Serves M) (hm : m ∈ s.modules) :
    (s.unregisterModule m).Serves fun h => M h ∧ h ≠ m where
  handlers t h hh := by
    simp [unregisterModule_handlers hm] at hh
    exact ⟨hs.handlers t h hh.left, hh.right⟩
  reports h hk    := by
    simp [TycheEngine.unregisterModule, hm] at hk
    exact ⟨hs.reports h hk.right, fun he => hk.left <| he ▸ rfl⟩
  marks h hk      := by
    simp [TycheEngine.unregisterModule, hm] at hk
    exact ⟨hs.marks h hk.right, fun he => hk.left <| he ▸ rfl⟩
  tracked c info hi h hh := by
    simp [unregisterModule_tracking? hm] at hi
    obtain ⟨info', hi, rfl⟩ := hi
    unfold orphaned at hh
    split at hh
    case isTrue     => cases hh
    case isFalse hn => exact ⟨hs.tracked c info' hi h hh, fun he => hn <| he ▸ hh⟩

end Serves

-- No operation of the job router registers modules or handlers.
theorem run_jobHandlers {α : Type} {p : Py α} :
    (p.run (exec deserialize works) s).2.jobHandlers = s.jobHandlers := by
  refine all_true.run (I := fun s' : TycheEngine => s'.jobHandlers = s.jobHandlers) ?_ rfl
  intro _ o s' _ h
  cases o <;> simp only [exec] <;> (try split) <;> (try split) <;> exact h

theorem run_modules {α : Type} {p : Py α} :
    (p.run (exec deserialize works) s).2.modules = s.modules := by
  refine all_true.run (I := fun s' : TycheEngine => s'.modules = s.modules) ?_ rfl
  intro _ o s' _ h
  cases o <;> simp only [exec] <;> (try split) <;> (try split) <;> exact h

end TycheEngine

end Python
