import Tyche.Python.Theorems.Broker

namespace Python

open Proc

-- The calls of the engine, one after the other, with everything that they send going out. A call
-- that raises is not a complete one.
def calls (deserialize : Bytes → Option Message) : Machine TycheEngine Call where
  step s call :=
    match s.perform deserialize (fun _ => true) call with
    | (.ok _, s')   => some s'
    | (.error _, _) => none

-- The topics that a module is a handler for.
def ModuleInfo.handled (info : ModuleInfo) : List Key :=
  info.interfaces.filterMap fun i =>
    if i.pattern = .handle then i.eventType.hash.toOption else none

-- The availability that a heartbeat reports.
def Message.report (msg : Message) : Option Value :=
  (TycheEngine.reported msg.payload).toOption.join

namespace TycheEngine

variable {deserialize : Bytes → Option Message} {works : Output → Bool} {s s' : TycheEngine}
variable {m h : ModuleId} {topic : Hashed} {t c k : Key} {ref : Ref} {o : Output}
variable {info : TrackingInfo} {call : Call} {r : Except Error Unit}

-- What the availability of the handlers is read from.
abbrev Tables :=
  Dict Key (List ModuleId) × Dict Key (List Key) × Dict Key Value

def tables (s : TycheEngine) : Tables :=
  (s.jobHandlers, s.unavailableHandlers, s.moduleAvailability)

-- No handler of the topic is available.
def Unserved (s : TycheEngine) (topic : Hashed) : Prop :=
  ∀ m ∈ s.handlers topic.key, s.isHandlerAvailable m topic ≠ .ok true

-- No job waits that an available handler could take.
def Busy (s : TycheEngine) : Prop :=
  ∀ c, ∀ info ∈ s.tracking? c, info.handlerId = none → s.Unserved info.topic

theorem handlers_of_tables (ht : s'.tables = s.tables) : s'.handlers t = s.handlers t :=
  congrArg (fun x => x.1.getD t []) ht

theorem isHandlerAvailable_of_tables (ht : s'.tables = s.tables) :
    s'.isHandlerAvailable m topic = s.isHandlerAvailable m topic :=
  congrArg (fun x : Tables => if topic.key ∈ x.2.1.getD (.ofModule m) [] then Except.ok false
    else (x.2.2.getD (.ofModule m) (.dict [])).allows topic) ht

theorem Unserved.of_tables (hu : s.Unserved topic) (ht : s'.tables = s.tables) :
    s'.Unserved topic := by
  intro m hm
  rw [handlers_of_tables ht] at hm
  rw [isHandlerAvailable_of_tables ht]
  exact hu m hm

theorem unserved_of_selectHandler (hs : s.selectHandler topic = .ok none) : s.Unserved topic := by
  rw [selectHandler] at hs
  split at hs
  case h_1   => cases hs
  case h_2 e =>
    intro m hm ha
    exact absurd (((chosen_eq_ok e).right m).mpr ⟨hm, ha⟩) List.not_mem_nil
  case h_3   => cases hs

-- A job that waits after a step was waiting before, or nobody serves it.
theorem Busy.of_tables (hb : s.Busy) (ht : s'.tables = s.tables)
    (hw : ∀ c, ∀ info ∈ s'.tracking? c, info.handlerId = none →
      info ∈ s.tracking? c ∨ s.Unserved info.topic) : s'.Busy := by
  intro c info hi hn
  rcases hw c info hi hn with hi | hu
  case inl => exact (hb c info hi hn).of_tables ht
  case inr => exact hu.of_tables ht

theorem tracking?_track : (s.track k info).tracking? c =
    if c = k then some info else s.tracking? c := by
  have h : ((s.setInfo ⟨k, s.created⟩ info).retrack ⟨k, s.created⟩).tracking? c = _ :=
    tracking?_retrack
  exact h

theorem Busy.of_same (hb : s.Busy) (ht : s'.tables = s.tables)
    (hi : s'.tracking? = s.tracking?) : s'.Busy :=
  hb.of_tables ht fun _ _ h _ => .inl <| hi ▸ h

theorem Busy.emit {o : Output} (hb : s.Busy) : (s.emit o).Busy :=
  hb.of_same rfl rfl

-- A job that is tracked does not wait, or nobody serves it.
theorem Busy.track {info : TrackingInfo} (hb : s.Busy)
    (hw : info.handlerId = none → s.Unserved info.topic) : (s.track k info).Busy := by
  refine hb.of_tables rfl fun c info' hi hn => ?_
  rw [tracking?_track] at hi
  split at hi
  case isTrue  => cases hi; exact .inr <| hw hn
  case isFalse => exact .inl hi

theorem arrive_tables {i : Incoming} : (s.arrive i).tables = s.tables := by
  rw [arrive]
  split <;> rfl

theorem arrive_tracking? {i : Incoming} : (s.arrive i).tracking? c = s.tracking? c := by
  rw [arrive]
  split <;> rfl

theorem arrive_busy {i : Incoming} (hb : s.Busy) : (s.arrive i).Busy :=
  hb.of_tables arrive_tables fun _ _ hi _ => .inl <| arrive_tracking? ▸ hi

theorem handleJobRequest_busy {i tf mf : Bytes} {msg : Message} (hb : s.Busy)
    (hr : ((handleJobRequest i tf mf msg).run (exec deserialize fun _ => true) s).1 = .ok ()) :
    ((handleJobRequest i tf mf msg).run (exec deserialize fun _ => true) s).2.Busy := by
  rw [run_handleJobRequest] at hr ⊢
  cases hq : request msg
  case error => rw [hq] at hr; cases hr
  case ok q  =>
    rw [hq] at hr
    dsimp only at hr ⊢
    cases hs : s.selectHandler q.topic
    case error => rw [hs] at hr; cases hr
    case ok x  =>
      rw [hs] at hr
      cases x
      case none =>
        dsimp only at hr ⊢
        split
        case isTrue => exact hb.of_tables rfl fun _ _ hi _ => .inl hi
        case isFalse hn =>
          rw [if_neg hn] at hr
          cases hc : msg.correlationId.hash
          case error => rw [hc] at hr; cases hr
          case ok c  =>
            exact (hb.track fun _ => unserved_of_selectHandler hs).of_same rfl rfl
      case some x =>
        obtain ⟨h, s₁⟩ := x
        obtain ⟨_, n, rfl⟩ := selectHandler_eq_some hs
        dsimp only at hr ⊢
        cases hc : msg.correlationId.hash
        case error => rw [hc] at hr; cases hr
        case ok c  =>
          simp only [if_true]
          have hb : ((s.setRoundRobin q.topic.key n).setPending c i).Busy := hb.of_same rfl rfl
          exact Busy.emit <| hb.track nofun

theorem handleJobResponse_busy {tf mf : Bytes} {msg : Message} (hb : s.Busy) :
    ((handleJobResponse tf mf msg).run (exec deserialize fun _ => true) s).2.Busy := by
  rw [run_handleJobResponse]
  split
  case h_1 => exact hb
  case h_2 k _ =>
    split
    case h_1 => exact hb
    case h_2 =>
      refine hb.of_tables rfl fun c info hi _ => ?_
      have hi : info ∈ (s.untrack k).tracking? c := hi
      rw [tracking?_untrack] at hi
      split at hi
      case isTrue  => cases hi
      case isFalse => exact .inl hi

theorem receive_busy {i : Incoming} (hb : s.Busy)
    (hr : (s.perform deserialize (fun _ => true) (.receive i)).1 = .ok ()) :
    (s.perform deserialize (fun _ => true) (.receive i)).2.Busy := by
  rw [perform, Python.run, Python.route] at hr ⊢
  split
  case h_1 hm => rw [hm] at hr; exact handleJobRequest_busy (arrive_busy hb) hr
  case h_2    => exact handleJobResponse_busy (arrive_busy hb)
  case h_3    => exact arrive_busy hb

-- A mark only ever makes a handler unavailable.
theorem Unserved.mark (hu : s.Unserved topic) : (s.mark k t).Unserved topic := by
  intro m hm
  have ha := hu m hm
  rw [isHandlerAvailable] at ha ⊢
  split
  case isTrue     => simp
  case isFalse hn =>
    have hs : topic.key ∉ s.marks m := by
      intro hs
      refine hn ?_
      rw [marks, Dict.getD, TycheEngine.mark, setMarks, Dict.get?_set]
      split
      case isTrue hk => exact List.mem_insert_of_mem (hk ▸ hs)
      case isFalse   => exact hs
    rwa [if_neg hs] at ha

theorem fail_tables {reason : Reason} :
    (s.fail deserialize works ref reason).tables = s.tables := by
  have ht {s : TycheEngine} {o : Output} : (s.trying works o).tables = s.tables := by
    rw [trying]
    split <;> rfl
  rw [fail, ht]
  split
  case isTrue =>
    rw [persisting]
    split
    · rfl
    · exact ht
  case isFalse => rfl

theorem fail_tracking? {reason : Reason} :
    (s.fail deserialize works ref reason).tracking? c = s.tracking? c := by
  have ht {s : TycheEngine} {o : Output} : (s.trying works o).tracking? c = s.tracking? c := by
    rw [trying]
    split <;> rfl
  rw [fail, ht]
  split
  case isTrue =>
    rw [persisting]
    split
    · rfl
    · exact ht
  case isFalse => rfl

theorem tracking?_of_release : (s.release ref).tracking? c =
    if c = ref.corrId then some { s.infos ref with handlerId := none, dispatchTime := none }
    else s.tracking? c :=
  tracking?_retrack

theorem tracking?_of_assign : (s.assign ref h).tracking? c =
    if c = ref.corrId then
      some { s.infos ref with handlerId := some h, dispatchTime := some s.now }
    else s.tracking? c :=
  tracking?_retrack

-- What a retry leaves of a job that was taken out of the tracking table.
inductive Retried (s : TycheEngine) (ref : Ref) : Except Error Bool × TycheEngine → Prop
  | raise (e : Error) (s' : TycheEngine) : Retried s ref (.error e, s')
  | refuse : s.Unserved (s.infos ref).topic → Retried s ref (.ok false, s)
  | accept (h : ModuleId) (s' : TycheEngine) : s'.tables = s.tables →
      (∀ c, s'.tracking? c = if c = ref.corrId then
        some { s.infos ref with handlerId := some h, dispatchTime := some s.now }
        else s.tracking? c) → Retried s ref (.ok true, s')

theorem retryJob_retried :
    Retried s ref ((retryJob ref).run (exec deserialize fun _ => true) s) := by
  rw [run_retryJob]
  cases hs : s.selectHandler (s.infos ref).topic
  case error e => exact .raise ..
  case ok x    =>
    cases x
    case none   => exact .refuse <| unserved_of_selectHandler hs
    case some x =>
      obtain ⟨h, s₁⟩ := x
      obtain ⟨_, n, rfl⟩ := selectHandler_eq_some hs
      simp only [if_true]
      exact .accept h _ rfl fun c => tracking?_of_assign

theorem untrack_busy (hb : s.Busy) : (s.untrack k).Busy := by
  refine hb.of_tables rfl fun c info hi _ => ?_
  rw [tracking?_untrack] at hi
  split at hi
  case isTrue  => cases hi
  case isFalse => exact .inl hi

theorem mark_busy (hb : s.Busy) : (s.mark k t).Busy :=
  fun c info hi hn => (hb c info hi hn).mark

theorem handleJobTimeout_busy {reason : Reason} (hb : s.Busy) (hr : ((handleJobTimeout k reason).run
      (exec deserialize fun _ => true) s).1 = .ok ()) :
    ((handleJobTimeout k reason).run (exec deserialize fun _ => true) s).2.Busy := by
  rw [run_handleJobTimeout] at hr ⊢
  cases hn : s.jobTracking.get? k
  case none   => exact hb
  case some n =>
    rw [hn] at hr
    have hf {r : Reason} : ((s.untrack k).fail deserialize (fun _ => true) ⟨k, n⟩ r).Busy :=
      (untrack_busy hb).of_tables fail_tables fun _ _ hi _ => .inl <| fail_tracking? ▸ hi
    dsimp only at hr ⊢
    split
    case h_1 h hh =>
      rw [hh] at hr
      dsimp only at hr ⊢
      generalize hs : (s.untrack k).mark (.ofModule h) (s.infos ⟨k, n⟩).topic.key = s₁ at hr ⊢
      have hb₁ : s₁.Busy := hs ▸ mark_busy (untrack_busy hb)
      have ht : Retried s₁ ⟨k, n⟩ ((retryJob ⟨k, n⟩).run (exec deserialize fun _ => true) s₁) :=
        retryJob_retried
      generalize (retryJob ⟨k, n⟩).run (exec deserialize fun _ => true) s₁ = x at hr ht ⊢
      cases ht
      case raise                => cases hr
      case refuse hu            =>
        refine hb₁.of_tables rfl fun c info hi _ => ?_
        rw [tracking?_of_release] at hi
        split at hi
        case isTrue  => cases hi; exact .inr hu
        case isFalse => exact .inl hi
      case accept s₂ htab htr   =>
        refine hb₁.of_tables htab fun c info hi hn => ?_
        rw [htr] at hi
        split at hi
        case isTrue  => cases hi; cases hn
        case isFalse => exact .inl hi
    case h_2 => exact hf

-- What the recovery of jobs leaves of them.
structure Recovers (cs : List Key) (s s' : TycheEngine) : Prop where
  tables  : s'.tables = s.tables
  waiting : ∀ c ∈ cs, ∀ info ∈ s'.tracking? c, info.handlerId = none →
    info ∈ s.tracking? c ∧ s.Unserved info.topic
  others  : ∀ c ∉ cs, s'.tracking? c = s.tracking? c

theorem Recovers.trans {s₁ : TycheEngine} {cs : List Key} (h₁ : Recovers [k] s s₁)
    (h₂ : Recovers cs s₁ s') (hk : k ∉ cs) : Recovers (k :: cs) s s' where
  tables  := h₂.tables.trans h₁.tables
  waiting := by
    intro c hc info hi hn
    rcases List.mem_cons.mp hc with rfl | hc
    case inl =>
      rw [h₂.others c hk] at hi
      exact h₁.waiting c (List.mem_singleton_self c) info hi hn
    case inr =>
      have hne : c ∉ [k] := fun h => hk <| List.mem_singleton.mp h ▸ hc
      have ⟨hi, hu⟩ := h₂.waiting c hc info hi hn
      exact ⟨h₁.others c hne ▸ hi, hu.of_tables h₁.tables.symm⟩
  others  := by
    intro c hc
    rw [List.mem_cons, not_or] at hc
    exact (h₂.others c hc.right).trans <| h₁.others c <| List.mem_singleton.not.mpr hc.left

theorem recoverJob_recovers (hi : s.tracking? ref.corrId = some (s.infos ref))
    (hr : ((recoverJob ref).run (exec deserialize fun _ => true) s).1 = .ok ()) :
    Recovers [ref.corrId] s ((recoverJob ref).run (exec deserialize fun _ => true) s).2 := by
  have ho : ∀ c ∉ [ref.corrId],
      ((recoverJob ref).run (exec deserialize fun _ => true) s).2.tracking? c = s.tracking? c :=
    fun c hc => (recoverJob_untouched <| List.mem_singleton.not.mp hc).tracking?
  rw [run_recoverJob] at hr ho ⊢
  have ht : Retried (s.untrack ref.corrId) ref
      ((retryJob ref).run (exec deserialize fun _ => true) (s.untrack ref.corrId)) :=
    retryJob_retried
  generalize (retryJob ref).run (exec deserialize fun _ => true) (s.untrack ref.corrId) = x
    at hr ho ht ⊢
  cases ht
  case raise               => cases hr
  case refuse hu           =>
    refine ⟨rfl, fun c hc info hi' _ => ?_, ho⟩
    cases List.mem_singleton.mp hc
    have hi' : info ∈ ((s.untrack ref.corrId).retrack ref).tracking? ref.corrId := hi'
    have hs : (s.untrack ref.corrId).setInfo ref ((s.untrack ref.corrId).infos ref) = _ :=
      setInfo_self
    rw [← hs, tracking?_retrack, if_pos rfl] at hi'
    cases hi'
    exact ⟨hi, hu⟩
  case accept h s' htab htr =>
    refine ⟨htab, fun c hc info hi' hn => ?_, ho⟩
    cases List.mem_singleton.mp hc
    rw [htr, if_pos rfl] at hi'
    cases hi'
    cases hn

theorem recoverJobs_recovers {refs : List Ref} (hn : (refs.map Ref.corrId).Nodup)
    (hi : ∀ ref ∈ refs, s.tracking? ref.corrId = some (s.infos ref))
    (hr : ((each recoverJob refs).run (exec deserialize fun _ => true) s).1 = .ok ()) :
    Recovers (refs.map Ref.corrId) s
      ((each recoverJob refs).run (exec deserialize fun _ => true) s).2 := by
  induction refs generalizing s
  case nil => exact ⟨rfl, fun _ hc => absurd hc List.not_mem_nil, fun _ _ => rfl⟩
  case cons ref refs ih =>
    rw [List.map_cons, List.nodup_cons] at hn
    have hj := @recoverJob_recovers deserialize _ _ <| hi ref List.mem_cons_self
    have hu : ∀ c ≠ ref.corrId, Untouched c s
      ((recoverJob ref).run (exec deserialize fun _ => true) s).2 := fun _ => recoverJob_untouched
    rw [run_each_cons] at hr ⊢
    generalize (recoverJob ref).run (exec deserialize fun _ => true) s = x at hr hj hu ⊢
    obtain ⟨r, s₁⟩ := x
    cases r
    case error => cases hr
    case ok    =>
      refine (hj rfl).trans (ih hn.right (fun i hm => ?_) hr) hn.left
      have hne : i.corrId ≠ ref.corrId := fun e => hn.left <| e ▸ List.mem_map_of_mem hm
      rw [(hu _ hne).tracking?, hi i <| List.mem_cons_of_mem _ hm]
      exact congrArg some ((hu _ hne).infos i.number).symm

-- The engine after it has taken the report and the marks of the sender of a heartbeat.
def alive (s : TycheEngine) (k : Key) (v : Option Value) : TycheEngine :=
  (v.elim s (s.setReport k)).eraseMarks k

theorem alive_handlers {v : Option Value} : (s.alive k v).handlers t = s.handlers t := by
  cases v <;> rfl

theorem alive_marks_self {v : Option Value} : (s.alive (.ofModule m) v).marks m = [] := by
  rw [marks, Dict.getD, alive, eraseMarks, Dict.get?_erase_self]
  rfl

theorem alive_report_self {v : Value} : (s.alive (.ofModule m) (some v)).report m = v := by
  rw [report, Dict.getD, alive, eraseMarks, Option.elim_some, setReport, Dict.get?_set_self]
  rfl

theorem alive_isHandlerAvailable_self {v : Value} :
    (s.alive (.ofModule m) (some v)).isHandlerAvailable m topic = v.allows topic := by
  rw [isHandlerAvailable, alive_marks_self, if_neg List.not_mem_nil, alive_report_self]

theorem alive_isHandlerAvailable_ne {v : Option Value} (hk : .ofModule m ≠ k) :
    (s.alive k v).isHandlerAvailable m topic = s.isHandlerAvailable m topic := by
  have hm : (s.alive k v).marks m = s.marks m := by
    rw [marks, Dict.getD, alive, eraseMarks, Dict.get?_erase_ne hk]
    cases v <;> rfl
  have hr : (s.alive k v).report m = s.report m := by
    rw [report, Dict.getD, alive, eraseMarks]
    cases v
    case none   => rfl
    case some v => rw [Option.elim_some, setReport, Dict.get?_set_ne hk]; rfl
  rw [isHandlerAvailable, isHandlerAvailable, hm, hr]

theorem alive_isHandlerAvailable_none (ht : topic.key ∉ s.marks m) :
    (s.alive (.ofModule m) none).isHandlerAvailable m topic = s.isHandlerAvailable m topic := by
  rw [isHandlerAvailable, isHandlerAvailable, alive_marks_self, if_neg List.not_mem_nil, if_neg ht]
  rfl

theorem run_heartbeat_alive {msg : Message} {v : Option Value} (hk : msg.sender.hash = .ok k)
    (hv : reported msg.payload = .ok v) :
    (handleHeartbeat msg).run (exec deserialize works) s =
      (each recoverJob <| s.waiting <| s.unavailableHandlers.getD k []).run
        (exec deserialize works) (s.alive k v) := by
  rw [run_handleHeartbeat, hk, hv]
  dsimp only
  rw [run_recoverHandler]
  cases v <;> rfl

-- The heartbeat makes its sender available for a topic that the sender is not marked for.
def Frees (s : TycheEngine) (msg : Message) (topic : Hashed) : Prop :=
  ∃ m ∈ s.handlers topic.key, msg.sender.hash = .ok (.ofModule m) ∧ topic.key ∉ s.marks m ∧
    ∃ v ∈ msg.report, v.allows topic = .ok true

-- The call makes no handler available for a job that it leaves waiting.
def Attentive (s : TycheEngine) : Call → Prop
  | .heartbeat msg => ∀ c, ∀ info ∈ s.tracking? c, info.handlerId = none → ¬s.Frees msg info.topic
  | .register i    => ∀ c, ∀ info ∈ s.tracking? c, info.handlerId = none →
      info.topic.key ∈ i.handled → s.isHandlerAvailable i.moduleId info.topic ≠ .ok true
  | .unregister m  => m ∈ s.modules → ∀ c, ∀ info ∈ s.tracking? c, info.handlerId = some m →
      ∀ h ∈ s.handlers info.topic.key, h ≠ m → s.isHandlerAvailable h info.topic ≠ .ok true
  | _              => True

instance : Decidable (s.Unserved topic) :=
  inferInstanceAs <| Decidable (∀ _ ∈ _, _)

instance : Decidable s.Busy :=
  inferInstanceAs <| Decidable (∀ c, ∀ info ∈ s.tracking? c, _)

instance {msg : Message} : Decidable (s.Frees msg topic) :=
  inferInstanceAs <| Decidable (∃ _ ∈ _, _)

instance : ∀ call, Decidable (s.Attentive call)
  | .heartbeat _  => inferInstanceAs <| Decidable (∀ c, ∀ info ∈ s.tracking? c, _)
  | .register _   => inferInstanceAs <| Decidable (∀ c, ∀ info ∈ s.tracking? c, _)
  | .unregister _ => inferInstanceAs <| Decidable (_ → ∀ c, ∀ info ∈ s.tracking? c, _)
  | .tick _       => isTrue trivial
  | .receive _    => isTrue trivial
  | .timeout _ _  => isTrue trivial

theorem alive_tracking? {v : Option Value} : (s.alive k v).tracking? c = s.tracking? c := by
  cases v <;> rfl

theorem mem_waiting_keys {ts : List Key} : c ∈ (s.waiting ts).map Ref.corrId ↔
    ∃ info ∈ s.tracking? c, info.handlerId = none ∧ info.topic.key ∈ ts := by
  simp only [List.mem_map, mem_waiting]
  constructor
  case mp =>
    rintro ⟨ref, ⟨hn, hw, ht⟩, rfl⟩
    exact ⟨_, tracking?_eq_some hn, hw, ht⟩
  case mpr =>
    rintro ⟨info, hi, hw, ht⟩
    obtain ⟨n, hn, rfl⟩ := Option.map_eq_some_iff.mp hi
    exact ⟨⟨c, n⟩, ⟨hn, hw, ht⟩, rfl⟩

theorem heartbeat_busy_iff {msg : Message} (hb : s.Busy)
    (hr : (s.perform deserialize (fun _ => true) (.heartbeat msg)).1 = .ok ()) :
    (s.perform deserialize (fun _ => true) (.heartbeat msg)).2.Busy ↔
      s.Attentive (.heartbeat msg) := by
  rw [perform, Python.run] at hr ⊢
  cases hk : msg.sender.hash
  case error => rw [run_handleHeartbeat, hk] at hr; cases hr
  case ok k  =>
    cases hv : reported msg.payload
    case error => rw [run_handleHeartbeat, hk, hv] at hr; cases hr
    case ok v  =>
      rw [run_heartbeat_alive hk hv] at hr ⊢
      have hw : ∀ ref ∈ s.waiting (s.unavailableHandlers.getD k []),
          (s.alive k v).tracking? ref.corrId = some ((s.alive k v).infos ref) := by
        intro ref hm
        have hm := tracking?_eq_some (mem_waiting.mp hm).left
        cases v <;> exact hm
      have hs := recoverJobs_recovers waiting_nodup hw hr
      generalize ((each recoverJob <| s.waiting <| s.unavailableHandlers.getD k []).run
        (exec deserialize fun _ => true) (s.alive k v)).2 = s' at hs ⊢
      constructor
      case mp =>
        rintro hb' c info hi hn ⟨m, hm, hk', ht, w, hr', ha⟩
        cases hk.symm.trans hk'
        rw [Message.report, hv] at hr'
        cases hr'
        have hc : c ∉ (s.waiting (s.unavailableHandlers.getD (.ofModule m) [])).map Ref.corrId := by
          rw [mem_waiting_keys]
          rintro ⟨_, hi', _, ht'⟩
          exact ht <| Option.mem_unique hi' hi ▸ ht'
        have hi' : info ∈ s'.tracking? c := by rwa [hs.others c hc, alive_tracking?]
        have hu := (hb' c info hi' hn).of_tables hs.tables.symm
        refine hu m ((alive_handlers (s := s)).symm ▸ hm) ?_
        rwa [alive_isHandlerAvailable_self]
      case mpr =>
        intro ha c info hi hn
        by_cases hc : c ∈ (s.waiting (s.unavailableHandlers.getD k [])).map Ref.corrId
        case pos => exact (hs.waiting c hc info hi hn).right.of_tables hs.tables
        case neg =>
          rw [hs.others c hc, alive_tracking?] at hi
          refine Unserved.of_tables (fun m hm => ?_) hs.tables
          rw [alive_handlers] at hm
          by_cases hk' : .ofModule m = k
          case neg =>
            rw [alive_isHandlerAvailable_ne hk']
            exact hb c info hi hn m hm
          case pos =>
            subst hk'
            have ht : info.topic.key ∉ s.marks m :=
              fun ht => hc <| mem_waiting_keys.mpr ⟨info, hi, hn, ht⟩
            cases v
            case none   => exact alive_isHandlerAvailable_none ht ▸ hb c info hi hn m hm
            case some w =>
              have hr' : w ∈ msg.report := by rw [Message.report, hv]; rfl
              rw [alive_isHandlerAvailable_self]
              exact fun hw => ha c info hi hn ⟨m, hm, hk, ht, w, hr', hw⟩

theorem mem_addHandler {h' : ModuleId} :
    h' ∈ (s.addHandler m k).handlers t ↔ h' ∈ s.handlers t ∨ (h' = m ∧ t = k) := by
  by_cases ht : t = k
  case neg =>
    have hs : (s.addHandler m k).handlers t = s.handlers t :=
      congrArg (Option.getD · []) (Dict.get?_set_ne ht)
    simp [hs, ht]
  case pos =>
    subst ht
    have hs : (s.addHandler m t).handlers t =
        if m ∈ s.handlers t then s.handlers t else s.handlers t ++ [m] :=
      congrArg (Option.getD · []) Dict.get?_set_self
    rw [hs]
    split
    case isTrue hm => exact ⟨.inl, fun h => h.elim id fun e => e.left ▸ hm⟩
    case isFalse   => simp

-- What the registration of interfaces leaves of the engine.
structure Registers (m : ModuleId) (ts : List Key) (s s' : TycheEngine) : Prop where
  handlers  : ∀ h t, h ∈ s'.handlers t ↔ h ∈ s.handlers t ∨ (h = m ∧ t ∈ ts)
  available : ∀ h topic, s'.isHandlerAvailable h topic = s.isHandlerAvailable h topic
  tracking? : ∀ c, s'.tracking? c = s.tracking? c

theorem addInterfaces_registers {is : List Interface} (hr : (addInterfaces m is s).1 = .ok ()) :
    Registers m (is.filterMap fun i =>
      if i.pattern = .handle then i.eventType.hash.toOption else none) s (addInterfaces m is s).2 := by
  induction is generalizing s
  case nil => exact ⟨by simp [addInterfaces], fun _ _ => rfl, fun _ => rfl⟩
  case cons i is ih =>
    rw [addInterfaces] at hr ⊢
    cases ht : i.eventType.hash
    case error => rw [ht] at hr; cases hr
    case ok t  =>
      rw [ht] at hr
      dsimp only at hr ⊢
      have hi := ih hr
      rw [List.filterMap_cons, ht]
      by_cases hp : i.pattern = .handle
      case neg =>
        simp only [hp, if_false] at hi ⊢
        exact hi
      case pos =>
        simp only [hp, if_true] at hi ⊢
        refine ⟨fun h t' => ?_, hi.available, hi.tracking?⟩
        rw [hi.handlers, mem_addHandler]
        simp only [Except.toOption, List.mem_cons]
        tauto

theorem register_busy_iff {i : ModuleInfo} (hb : s.Busy)
    (hr : (s.perform deserialize works (.register i)).1 = .ok ()) :
    (s.perform deserialize works (.register i)).2.Busy ↔ s.Attentive (.register i) := by
  have hs : Registers i.moduleId i.handled s (s.registerModule i).2 :=
    have h := addInterfaces_registers hr
    ⟨h.handlers, h.available, h.tracking?⟩
  have hj : (s.perform deserialize works (.register i)).2 = (s.registerModule i).2 := rfl
  rw [hj]
  generalize (s.registerModule i).2 = s' at hs
  constructor
  case mp =>
    intro hb' c info hi hn ht
    rw [← hs.available]
    exact hb' c info (hs.tracking? c ▸ hi) hn _ <| (hs.handlers ..).mpr <| .inr ⟨rfl, ht⟩
  case mpr =>
    intro ha c info hi hn m hm
    rw [hs.tracking?] at hi
    rw [hs.available]
    rcases (hs.handlers ..).mp hm with hm | ⟨rfl, ht⟩
    case inl => exact hb c info hi hn m hm
    case inr => exact ha c info hi hn ht

theorem unregisterModule_handlers (hm : m ∈ s.modules) :
    (s.unregisterModule m).handlers t = (s.handlers t).filter (· ≠ m) := by
  rw [handlers, Dict.getD, unregisterModule, if_pos hm]
  simp only [Dict.get?_mapVal, handlers, Dict.getD]
  cases s.jobHandlers.get? t <;> rfl

theorem unregisterModule_isHandlerAvailable (hh : h ≠ m) :
    (s.unregisterModule m).isHandlerAvailable h topic = s.isHandlerAvailable h topic := by
  rw [unregisterModule]
  split
  case isFalse => rfl
  case isTrue  =>
    have hk : Key.ofModule h ≠ .ofModule m := fun e => hh <| Subtype.ext <| Key.str.inj e
    have hm {s' : TycheEngine}
        (he : s'.unavailableHandlers = s.unavailableHandlers.erase (.ofModule m)) :
        s'.marks h = s.marks h := by
      rw [marks, marks, Dict.getD, he, Dict.get?_erase_ne hk, Dict.getD]
    have hr {s' : TycheEngine}
        (he : s'.moduleAvailability = s.moduleAvailability.erase (.ofModule m)) :
        s'.report h = s.report h := by
      rw [report, report, Dict.getD, he, Dict.get?_erase_ne hk, Dict.getD]
    rw [isHandlerAvailable, isHandlerAvailable, hm rfl, hr rfl]

theorem unregister_busy_iff (hb : s.Busy) :
    (s.unregisterModule m).Busy ↔ s.Attentive (.unregister m) := by
  by_cases hm : m ∈ s.modules
  case neg =>
    rw [unregisterModule, if_neg hm]
    exact ⟨fun _ h => absurd h hm, fun _ => hb⟩
  case pos =>
    have ht {c : Key} := unregisterModule_tracking? (c := c) hm
    constructor
    case mp =>
      intro hb' _ c info hi hn h hh hne
      have hi' : orphaned m info ∈ (s.unregisterModule m).tracking? c := by
        rw [ht, hi]
        rfl
      have ho : orphaned m info = { info with handlerId := none, dispatchTime := none } :=
        if_pos hn
      have hu := hb' c _ hi' (by rw [ho])
      rw [ho] at hu
      rw [← unregisterModule_isHandlerAvailable hne]
      refine hu h ?_
      rw [unregisterModule_handlers hm, List.mem_filter]
      exact ⟨hh, decide_eq_true hne⟩
    case mpr =>
      intro ha c info hi hn h hh
      rw [ht, Option.mem_def, Option.map_eq_some_iff] at hi
      obtain ⟨info', hi, rfl⟩ := hi
      rw [unregisterModule_handlers hm, List.mem_filter, decide_eq_true_eq] at hh
      rw [unregisterModule_isHandlerAvailable hh.right]
      rw [orphaned] at hn hh ⊢
      split at hn
      case isTrue hm' =>
        rw [if_pos hm'] at hh ⊢
        exact ha hm c info' hi hm' h hh.left hh.right
      case isFalse hm' =>
        rw [if_neg hm'] at hh ⊢
        exact hb c info' hi hn h hh.left

theorem busy_iff_attentive (hb : s.Busy)
    (hs : (calls deserialize).step s call = some s') : s'.Busy ↔ s.Attentive call := by
  have ⟨hr, hs⟩ : (s.perform deserialize (fun _ => true) call).1 = .ok () ∧
      (s.perform deserialize (fun _ => true) call).2 = s' := by
    simp only [calls] at hs
    split at hs <;> simp_all
  rw [← hs]
  cases call
  case tick       => exact ⟨fun _ => trivial, fun _ => hb⟩
  case receive    => exact ⟨fun _ => trivial, fun _ => receive_busy hb hr⟩
  case timeout    => exact ⟨fun _ => trivial, fun _ => handleJobTimeout_busy hb hr⟩
  case heartbeat  => exact heartbeat_busy_iff hb hr
  case register   => exact register_busy_iff hb hr
  case unregister => exact unregister_busy_iff hb

end TycheEngine

namespace calls

variable {deserialize : Bytes → Option Message} {as : List Call} {now : ℚ} {s : TycheEngine}

-- Exactly the attentive runs never leave a job waiting that a handler could take.
theorem always_busy_iff (h : (calls deserialize).exec (.start now) as = some s) :
    (calls deserialize).Always TycheEngine.Busy (.start now) as ↔
      (calls deserialize).Along TycheEngine.Attentive (.start now) as :=
  Machine.always_iff_along (I := fun _ => True) (fun _ _ _ _ _ => trivial)
    (fun _ _ _ _ hb hs => TycheEngine.busy_iff_attentive hb hs) trivial (fun _ _ hi => nomatch hi) h

end calls

namespace Sample

def report (available : Bool) : Message where
  msgType       := .heartbeat
  sender        := .str (Sample.worker 1).val
  event         := .none
  payload       := .dict [(.str <| utf8 "availability", .dict [(.str <| utf8 "t", .bool available)])]
  correlationId := .none

def incoming (msgType : MessageType) : Incoming where
  identity     := utf8 "a"
  topicFrame   := utf8 "t"
  messageFrame := []
  msg          := message msgType <| .str <| utf8 "c"

def handler : ModuleInfo where
  moduleId   := Sample.worker 1
  interfaces := [{ pattern := .handle, eventType := .str <| utf8 "t" }]

end Sample

namespace calls

-- A job that no longer has a handler goes to the same one when it recovers.
theorem always_busy_recovery :
    (calls Sample.unpack).Always TycheEngine.Busy (.start 0)
      [.register Sample.handler, .receive (Sample.incoming .request),
        .timeout (.str <| utf8 "c") .runTimeout, .heartbeat (Sample.report true)] := by
  have h : ∃ s, (calls Sample.unpack).exec (.start 0)
      [.register Sample.handler, .receive (Sample.incoming .request),
        .timeout (.str <| utf8 "c") .runTimeout, .heartbeat (Sample.report true)] = some s :=
    Option.isSome_iff_exists.mp <| by decide +kernel
  obtain ⟨s, h⟩ := h
  exact (always_busy_iff h).mpr <| by decide +kernel

-- The only handler of a job reports itself as unavailable, the job arrives, and the report that the
-- handler is available again does not lead to a dispatch.
theorem not_always_busy : ¬∀ as s, (calls Sample.unpack).exec (.start 0) as = some s →
    (calls Sample.unpack).Always TycheEngine.Busy (.start 0) as := by
  intro hb
  have h : ∃ s, (calls Sample.unpack).exec (.start 0)
      [.register Sample.handler, .heartbeat (Sample.report false),
        .receive (Sample.incoming .request), .heartbeat (Sample.report true)] = some s :=
    Option.isSome_iff_exists.mp <| by decide +kernel
  obtain ⟨s, h⟩ := h
  have hn : ∃ s ∈ (calls Sample.unpack).exec (.start 0)
      [.register Sample.handler, .heartbeat (Sample.report false),
        .receive (Sample.incoming .request), .heartbeat (Sample.report true)], ¬s.Busy := by
    decide +kernel
  obtain ⟨s', h', hn⟩ := hn
  exact hn <| (hb _ s h).exec h'

end calls

end Python
