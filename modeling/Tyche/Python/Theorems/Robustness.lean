import Tyche.Python.Theorems.Idle
import Tyche.Python.Theorems.Values

namespace Python

open Proc

theorem chosen_ok_iff {α : Type} {q : α → Except Error Bool} {as : List α} :
    (∃ bs, chosen q as = .ok bs) ↔ ∀ a ∈ as, ∃ b, q a = .ok b := by
  constructor
  case mp  => exact fun ⟨_, h⟩ => (chosen_eq_ok h).left
  case mpr =>
    intro h
    cases hc : chosen q as
    case ok bs => exact ⟨bs, rfl⟩
    case error =>
      obtain ⟨a, hm, hq⟩ := chosen_eq_error hc
      obtain ⟨_, hb⟩ := h a hm
      cases hq.symm.trans hb

-- The time of the dispatch of a job is kept with its handler.
def TrackingInfo.Timed (info : TrackingInfo) : Prop :=
  info.handlerId.isSome → info.dispatchTime.isSome

-- The timeout that the scan applies to the job can be compared with a time.
def TrackingInfo.Comparable (info : TrackingInfo) : Prop :=
  (info.handlerId.isSome → info.runTimeout.Comparable) ∧
    (info.handlerId = none → info.waitTimeout.Comparable)

instance {info : TrackingInfo} : Decidable info.Comparable :=
  inferInstanceAs <| Decidable (_ ∧ _)

theorem not_ok {α : Type} {e : Error} : ¬∃ a : α, (.error e : Except Error α) = .ok a := by
  rintro ⟨_, ⟨⟩⟩

theorem test_ok_iff {α : Type} {x : Except Error Bool} {a b : α} :
    (∃ r, (do if ← x then return a else return b) = .ok r) ↔ ∃ b, x = .ok b := by
  cases x
  case error => exact iff_of_false not_ok not_ok
  case ok c  => cases c <;> exact iff_of_true ⟨_, rfl⟩ ⟨_, rfl⟩

theorem timedOut_ok_iff {info : TrackingInfo} {t : ℚ} (ht : info.Timed) :
    (∃ r, timedOut t info = .ok r) ↔ info.Comparable := by
  rw [timedOut, TrackingInfo.Comparable]
  split
  case h_1 hh _  => rw [test_ok_iff, Value.exceededBy_ok_iff]; simp [hh]
  case h_2 hh hd => simp [TrackingInfo.Timed, hh, hd] at ht
  case h_3 hh    => rw [test_ok_iff, Value.exceededBy_ok_iff]; simp [hh]

theorem timedOutJobs_ok_iff {t : ℚ} {js : List (Key × TrackingInfo)} :
    (∃ found, timedOutJobs t js = .ok found) ↔ ∀ j ∈ js, ∃ r, timedOut t j.2 = .ok r := by
  induction js
  case nil => simp [timedOutJobs]
  case cons j js hi =>
    obtain ⟨c, info⟩ := j
    rw [timedOutJobs, List.forall_mem_cons, ← hi]
    cases timedOut t info
    case error => exact iff_of_false not_ok (not_ok ·.left)
    case ok    =>
      cases timedOutJobs t js
      case error => exact iff_of_false not_ok (not_ok ·.right)
      case ok    => exact iff_of_true ⟨_, rfl⟩ ⟨⟨_, rfl⟩, _, rfl⟩

namespace TycheEngine

variable {deserialize : Bytes → Option Message} {works : Output → Bool} {s s' : TycheEngine}
variable {m h : ModuleId} {topic : Hashed} {t c k : Key} {ref : Ref} {info : TrackingInfo}
variable {r : Reason} {i : Incoming}

-- Whether the module is available for the topic can be looked up.
def Answers (s : TycheEngine) (m : ModuleId) (topic : Hashed) : Prop :=
  topic.key ∈ s.marks m ∨ ∃ b, (s.report m).allows topic = .ok b

theorem isHandlerAvailable_ok_iff :
    (∃ b, s.isHandlerAvailable m topic = .ok b) ↔ s.Answers m topic := by
  rw [isHandlerAvailable, Answers]
  by_cases hm : topic.key ∈ s.marks m <;> simp [hm]

theorem selectHandler_ok_iff : (∃ x, s.selectHandler topic = .ok x) ↔
    ∀ m ∈ s.handlers topic.key, s.Answers m topic := by
  simp only [← isHandlerAvailable_ok_iff]
  refine Iff.trans ?_ chosen_ok_iff
  rw [selectHandler, available]
  cases chosen (s.isHandlerAvailable · topic) (s.handlers topic.key)
  case error => simp
  case ok l  => cases l <;> simp

-- The router can deal with what arrives.
def Acceptable (s : TycheEngine) (i : Incoming) : Prop :=
  match i.msg.msgType with
  | .request  => (i.msg.payload.truthy → i.msg.payload.IsDict) ∧ i.msg.event.Hashable ∧
    ∀ topic, i.msg.event.hashed = .ok topic →
      (∀ m ∈ s.handlers topic.key, s.Answers m topic) ∧
      (s.handlers topic.key ≠ [] → i.msg.correlationId.Hashable)
  | .response => i.msg.correlationId.Hashable
  | _         => True

-- The job can be given to another handler when its handler takes too long.
def Retriable (s : TycheEngine) (c : Key) (r : Reason) : Prop :=
  r = .runTimeout → ∀ info ∈ s.tracking? c, ∀ h ∈ info.handlerId,
    ∀ m ∈ s.handlers info.topic.key, m ≠ h → s.Answers m info.topic

theorem raised_eq_false_iff {α : Type} {x : Except Error α} :
    raised x = false ↔ ∃ a, x = .ok a := by
  cases x <;> simp [raised]

theorem request_ok_iff {msg : Message} : (∃ q, request msg = .ok q) ↔
    (msg.payload.truthy → msg.payload.IsDict) ∧ msg.event.Hashable := by
  have hw : (∃ w, Python.timeout msg.payload "wait_timeout" 30 = .ok w) ↔ _ := Value.timeout_ok_iff
  have hr : (∃ r, Python.timeout msg.payload "run_timeout" 60 = .ok r) ↔ _ := Value.timeout_ok_iff
  rw [← Value.hashed_ok_iff, ← hr]
  rw [← hr] at hw
  rw [request]
  generalize Python.timeout msg.payload "wait_timeout" 30 = w at hw ⊢
  generalize Python.timeout msg.payload "run_timeout" 60 = r at hw ⊢
  cases w
  case error =>
    exact iff_of_false not_ok fun h => not_ok <| hw.mpr h.left
  case ok    =>
    obtain ⟨_, rfl⟩ := hw.mp ⟨_, rfl⟩
    cases msg.event.hashed <;> simp

theorem request_topic {msg : Message} {q : Request} (h : request msg = .ok q) :
    msg.event.hashed = .ok q.topic := by
  rw [request] at h
  split at h <;> cases h
  case h_1 ht => exact ht

theorem handleJobRequest_ok_iff {identity tf mf : Bytes} {msg : Message} :
    (∃ u, ((handleJobRequest identity tf mf msg).run (exec deserialize works) s).1 = .ok u) ↔
      (msg.payload.truthy → msg.payload.IsDict) ∧ msg.event.Hashable ∧
        ∀ topic, msg.event.hashed = .ok topic →
          (∀ m ∈ s.handlers topic.key, s.Answers m topic) ∧
          (s.handlers topic.key ≠ [] → msg.correlationId.Hashable) := by
  rw [run_handleJobRequest, ← and_assoc, ← request_ok_iff]
  cases hq : request msg
  case error => exact iff_of_false not_ok (not_ok ·.left)
  case ok q  =>
    rw [and_iff_right ⟨q, rfl⟩, request_topic hq]
    simp only [Except.ok.injEq, forall_eq', ← selectHandler_ok_iff]
    cases hs : s.selectHandler q.topic
    case error => simp
    case ok x  =>
      rw [and_iff_right ⟨_, rfl⟩, Value.Hashable]
      cases x
      case none =>
        by_cases hn : s.handlers q.topic.key = []
        case pos => simp [hn]
        case neg => cases msg.correlationId.hash <;> simp [hn]
      case some x =>
        have hn := (selectHandler_eq_some hs).left
        cases msg.correlationId.hash
        case error => simp [hn]
        case ok    => dsimp only; split <;> simp

theorem handleJobResponse_ok_iff {tf mf : Bytes} {msg : Message} :
    (∃ u, ((handleJobResponse tf mf msg).run (exec deserialize works) s).1 = .ok u) ↔
      msg.correlationId.Hashable := by
  rw [run_handleJobResponse, Value.Hashable]
  cases msg.correlationId.hash
  case error => exact iff_of_false not_ok not_ok
  case ok c  =>
    refine iff_of_true ?_ ⟨c, rfl⟩
    dsimp only
    cases s.pendingJobs.get? c <;> exact ⟨_, rfl⟩

theorem Answers.of_tables (ht : s'.tables = s.tables) : s'.Answers m topic ↔ s.Answers m topic := by
  rw [← isHandlerAvailable_ok_iff, ← isHandlerAvailable_ok_iff, isHandlerAvailable_of_tables ht]

theorem arrive_ok_iff :
    (∃ u, (s.perform deserialize works (.receive i)).1 = .ok u) ↔ s.Acceptable i := by
  rw [perform, Python.route, Acceptable]
  cases i.msg.msgType
  case request  =>
    refine handleJobRequest_ok_iff.trans ?_
    simp only [handlers_of_tables arrive_tables, Answers.of_tables arrive_tables]
  case response => exact handleJobResponse_ok_iff
  all_goals exact iff_of_true ⟨_, rfl⟩ trivial

theorem retryJob_ok_iff : (∃ b, ((retryJob ref).run (exec deserialize works) s).1 = .ok b) ↔
    ∀ m ∈ s.handlers (s.infos ref).topic.key, s.Answers m (s.infos ref).topic := by
  rw [run_retryJob, ← selectHandler_ok_iff]
  cases s.selectHandler (s.infos ref).topic
  case error => simp
  case ok x  =>
    refine iff_of_true ?_ ⟨x, rfl⟩
    cases x
    case none   => exact ⟨_, rfl⟩
    case some x => dsimp only; split <;> exact ⟨_, rfl⟩

-- A handler that is marked for a topic can be looked up, and a mark is all that it changes.
theorem answers_mark : (s.mark (.ofModule h) topic.key).Answers m topic ↔
    m = h ∨ s.Answers m topic := by
  have hk : Key.ofModule m = .ofModule h ↔ m = h :=
    ⟨fun e => Subtype.ext <| Key.str.inj e, congrArg _⟩
  rw [Answers, Answers, marks, marks, report, report, TycheEngine.mark, setMarks, Dict.getD,
    Dict.get?_set]
  by_cases hm : m = h
  case pos => simp [hm]
  case neg => simp [hk, hm, Dict.getD]

theorem retryJob_mark_ok_iff {ref : Ref} : (∃ b, ((retryJob ref).run (exec deserialize works)
      (s.mark (.ofModule h) (s.infos ref).topic.key)).1 = .ok b) ↔
    ∀ m ∈ s.handlers (s.infos ref).topic.key, m ≠ h → s.Answers m (s.infos ref).topic := by
  rw [retryJob_ok_iff]
  exact forall₂_congr fun m _ => answers_mark.trans or_iff_not_imp_left

theorem timeout_ok_iff :
    (∃ u, (s.perform deserialize works (.timeout c r)).1 = .ok u) ↔ s.Retriable c r := by
  rw [perform, Python.run, run_handleJobTimeout, Retriable, tracking?]
  cases s.jobTracking.get? c
  case none   => simp
  case some n =>
    dsimp only
    split
    case h_2 hr =>
      refine iff_of_true ⟨_, rfl⟩ ?_
      rintro rfl info ⟨⟩ h hh
      exact absurd hh <| hr h rfl
    case h_1 h hh =>
      have hs : (∃ b, ((retryJob ⟨c, n⟩).run (exec deserialize works)
          ((s.untrack c).mark (.ofModule h) (s.infos ⟨c, n⟩).topic.key)).1 = .ok b) ↔
          ∀ m ∈ s.handlers (s.infos ⟨c, n⟩).topic.key, m ≠ h → s.Answers m (s.infos ⟨c, n⟩).topic :=
        retryJob_mark_ok_iff (s := s.untrack c)
      simp only [Option.map_some, Option.mem_def, Option.some.injEq, forall_eq', forall_const, hh]
      rw [← hs]
      obtain ⟨_ | _ | _, _⟩ := (retryJob ⟨c, n⟩).run (exec deserialize works)
        ((s.untrack c).mark (.ofModule h) (s.infos ⟨c, n⟩).topic.key)
      all_goals simp

-- What was stored about a job by anyone satisfies the form that the scan relies on.
def Timed (s : TycheEngine) : Prop :=
  ∀ ref, (s.infos ref).Timed

theorem Timed.setInfo (hs : s.Timed) (hi : info.Timed) : (s.setInfo ref info).Timed := by
  intro r
  rw [TycheEngine.setInfo]
  dsimp only
  split
  · exact hi
  · exact hs r

theorem Timed.track (hs : s.Timed) (hi : info.Timed) : (s.track c info).Timed :=
  hs.setInfo hi

theorem Timed.of_infos (hs : s.Timed) (hi : s'.infos = s.infos) : s'.Timed :=
  fun ref => congrFun hi ref ▸ hs ref

theorem Timed.trying {o : Output} (hs : s.Timed) : (s.trying works o).Timed := by
  rw [TycheEngine.trying]
  split <;> exact hs

theorem Timed.persisting (hs : s.Timed) : (s.persisting deserialize works ref).Timed := by
  rw [TycheEngine.persisting]
  split
  · exact hs
  · exact hs.trying

theorem Timed.fail (hs : s.Timed) : (s.fail deserialize works ref r).Timed := by
  rw [TycheEngine.fail]
  refine Timed.trying ?_
  split
  · exact hs.persisting
  · exact hs

theorem handleJobRequest_timed {identity tf mf : Bytes} {msg : Message} (hs : s.Timed) :
    ((handleJobRequest identity tf mf msg).run (exec deserialize works) s).2.Timed := by
  rw [run_handleJobRequest]
  cases request msg
  case error => exact hs
  case ok q  =>
    dsimp only
    cases he : s.selectHandler q.topic
    case error => exact hs
    case ok x  =>
      cases x
      case none =>
        dsimp only
        split
        · exact hs.trying
        · split
          · exact hs
          · refine Timed.of_infos (s := s.track _ _) ?_ rfl
            exact hs.track fun h => nomatch h
      case some x =>
        obtain ⟨h, s₁⟩ := x
        obtain ⟨_, _, rfl⟩ := selectHandler_eq_some he
        dsimp only
        split
        · exact hs
        · split
          all_goals
            refine Timed.of_infos (s := track _ _ _) ?_ rfl
            exact Timed.track (hs.of_infos rfl) fun _ => rfl

theorem handleJobResponse_timed {tf mf : Bytes} {msg : Message} (hs : s.Timed) :
    ((handleJobResponse tf mf msg).run (exec deserialize works) s).2.Timed := by
  rw [run_handleJobResponse]
  split
  · exact hs
  · split
    · exact hs
    · exact Timed.trying (s := s.untrack _) hs

theorem retryJob_timed (hs : s.Timed) :
    ((retryJob ref).run (exec deserialize works) s).2.Timed := by
  rw [run_retryJob]
  cases he : s.selectHandler (s.infos ref).topic
  case error => exact hs
  case ok x  =>
    cases x
    case none   => exact hs
    case some x =>
      obtain ⟨h, s₁⟩ := x
      obtain ⟨_, _, rfl⟩ := selectHandler_eq_some he
      dsimp only
      split
      · exact hs.setInfo fun _ => rfl
      · exact hs

theorem handleJobTimeout_timed (hs : s.Timed) :
    ((handleJobTimeout c r).run (exec deserialize works) s).2.Timed := by
  rw [run_handleJobTimeout]
  cases s.jobTracking.get? c
  case none   => exact hs
  case some n =>
    dsimp only
    split
    case h_2     => exact Timed.fail (s := s.untrack c) hs
    case h_1 h _ =>
      have ht : ((retryJob ⟨c, n⟩).run (exec deserialize works)
        ((s.untrack c).mark (.ofModule h) (s.infos ⟨c, n⟩).topic.key)).2.Timed := retryJob_timed hs
      split
      case h_1 e | h_2 e => rw [e] at ht; exact ht
      case h_3 e         => rw [e] at ht; exact ht.setInfo fun h => nomatch h

theorem recoverJob_timed (hs : s.Timed) :
    ((recoverJob ref).run (exec deserialize works) s).2.Timed := by
  have ht : ((retryJob ref).run (exec deserialize works) (s.untrack ref.corrId)).2.Timed :=
    retryJob_timed hs
  rw [run_recoverJob]
  split
  case h_1 e | h_2 e | h_3 e => rw [e] at ht; exact ht

theorem recoverJobs_timed {refs : List Ref} (hs : s.Timed) :
    ((each recoverJob refs).run (exec deserialize works) s).2.Timed := by
  induction refs generalizing s
  case nil            => exact hs
  case cons ref _ hi =>
    have ht : ((recoverJob ref).run (exec deserialize works) s).2.Timed := recoverJob_timed hs
    rw [run_each_cons]
    split
    case h_1 e => rw [e] at ht; exact hi ht
    case h_2 e => rw [e] at ht; exact ht

theorem handleHeartbeat_timed {msg : Message} (hs : s.Timed) :
    ((handleHeartbeat msg).run (exec deserialize works) s).2.Timed := by
  rw [run_handleHeartbeat]
  split
  case h_3 v _ _ =>
    rw [run_recoverHandler]
    refine recoverJobs_timed ?_
    cases v <;> exact hs
  all_goals exact hs

theorem addInterfaces_timed {is : List Interface} (hs : s.Timed) :
    (addInterfaces m is s).2.Timed := by
  induction is generalizing s
  case nil => exact hs
  case cons i is hi =>
    rw [addInterfaces]
    split
    · exact hs
    · exact hi <| by split <;> exact hs

theorem unregisterModule_timed (hs : s.Timed) : (s.unregisterModule m).Timed := by
  rw [unregisterModule]
  split
  case isFalse => exact hs
  case isTrue  =>
    intro ref
    dsimp only
    rw [orphan]
    split
    · rintro ⟨⟩
    · exact hs ref

theorem arrive_infos : (s.arrive i).infos = s.infos := by
  rw [arrive]
  split <;> rfl

theorem perform_timed {call : Call} (hs : s.Timed) :
    (s.perform deserialize works call).2.Timed := by
  cases call
  case tick        => exact hs
  case receive i   =>
    have ha : (s.arrive i).Timed := fun ref => by rw [arrive_infos]; exact hs ref
    rw [perform, Python.route]
    split
    · exact handleJobRequest_timed ha
    · exact handleJobResponse_timed ha
    · exact ha
  case timeout     => exact handleJobTimeout_timed hs
  case heartbeat   => exact handleHeartbeat_timed hs
  case register    => exact addInterfaces_timed (m := _) hs
  case unregister  => exact unregisterModule_timed hs

-- The timeouts of all jobs can be compared with a time.
def Scannable (s : TycheEngine) : Prop :=
  ∀ c, ∀ info ∈ s.tracking? c, info.Comparable

theorem scan_ok_iff {t : ℚ} (hs : s.Timed) :
    (∃ found, timedOutJobs t s.tracked = .ok found) ↔ s.Scannable := by
  rw [timedOutJobs_ok_iff, Scannable, ← forall_tracked_iff]
  refine forall₂_congr fun j hj => timedOut_ok_iff ?_
  obtain ⟨_, _, rfl⟩ := List.mem_map.mp hj
  exact hs _

instance : Decidable s.Scannable :=
  inferInstanceAs <| Decidable (∀ c, ∀ info ∈ s.tracking? c, TrackingInfo.Comparable info)

instance : Decidable (s.Acceptable i) :=
  decidable_of_iff (raised (s.perform (fun _ => none) (fun _ => true) (.receive i)).1 = false) <|
    raised_eq_false_iff.trans arrive_ok_iff

instance : Decidable (s.Retriable c r) :=
  decidable_of_iff (raised (s.perform (fun _ => none) (fun _ => true) (.timeout c r)).1 = false) <|
    raised_eq_false_iff.trans timeout_ok_iff

end TycheEngine

namespace Workers

variable {deserialize : Bytes → Option Message} {works : Output → Bool} {s s' : Workers}
variable {a : Action}

def Alive (s : Workers) : Prop :=
  s.routerEnded = false ∧ s.timeoutEnded = false

-- The workers can deal with what arrives for them and with what has been stored for them.
def Tolerable (deserialize : Bytes → Option Message) (s : Workers) : Action → Prop
  | .receive frames _ => ∀ i ∈ incoming deserialize frames, s.engine.Acceptable i
  | .scan             => s.engine.Scannable
  | .timeout _        => ∀ job ∈ s.timedOut.head?, s.engine.Retriable job.1 job.2
  | _                 => True

instance : ∀ a, Decidable (s.Tolerable deserialize a)
  | .receive ..   => inferInstanceAs <| Decidable (∀ i ∈ incoming _ _, _)
  | .scan         => inferInstanceAs <| Decidable (TycheEngine.Scannable _)
  | .timeout ..   => inferInstanceAs <| Decidable (∀ job ∈ List.head? _, _)
  | .tick _       => isTrue trivial
  | .heartbeat .. => isTrue trivial
  | .register _   => isTrue trivial
  | .unregister _ => isTrue trivial

theorem step_timed (hs : s.engine.Timed) (e : s.step deserialize a = some s') :
    s'.engine.Timed := by
  rw [step_engine e]
  cases s.call? deserialize a
  case none => exact hs
  case some => exact TycheEngine.perform_timed hs

theorem step_alive_iff (hs : s.engine.Timed) (ha : s.Alive) (e : s.step deserialize a = some s') :
    s'.Alive ↔ s.Tolerable deserialize a := by
  cases a <;> simp only [step, Option.ite_none_right_eq_some, Option.ite_none_left_eq_some,
    Option.some.injEq] at e
  case receive frames works =>
    rw [← e.right, receive, Tolerable]
    cases incoming deserialize frames
    case none   => simp [ha]
    case some i =>
      have hr : raised (s.engine.perform deserialize works (.receive i)).1 = false ↔
        s.engine.Acceptable i := TycheEngine.raised_eq_false_iff.trans TycheEngine.arrive_ok_iff
      simp [Alive, route, hr, ha.right]
  case scan =>
    have hf := TycheEngine.scan_ok_iff (t := s.engine.now) hs
    rw [← e.right, scan, Tolerable, ← hf]
    cases timedOutJobs s.engine.now s.engine.tracked
    case error => simp [Alive]
    case ok    => exact iff_of_true ha ⟨_, rfl⟩
  case timeout works =>
    obtain ⟨job, hj, rfl⟩ := Option.map_eq_some_iff.mp e.right
    have hr : raised (s.engine.perform deserialize works (.timeout job.1 job.2)).1 = false ↔
      s.engine.Retriable job.1 job.2 :=
        TycheEngine.raised_eq_false_iff.trans TycheEngine.timeout_ok_iff
    simp [Tolerable, Alive, timeout, hj, hr, ha.left]
  case heartbeat frames works =>
    rw [← e]
    refine iff_of_true ?_ trivial
    cases heartbeat? deserialize frames <;> exact ha
  case tick     => exact iff_of_true (e.right ▸ ha) trivial
  case register => exact iff_of_true (e ▸ ha) trivial
  case unregister => exact iff_of_true (e ▸ ha) trivial

end Workers

namespace workers

variable {deserialize : Bytes → Option Message} {as : List Action} {now : ℚ} {s : Workers}

theorem always_alive_iff (h : (workers deserialize).exec (.start now) as = some s) :
    (workers deserialize).Always Workers.Alive (.start now) as ↔
      (workers deserialize).Along (Workers.Tolerable deserialize) (.start now) as :=
  Machine.always_iff_along (I := fun s : Workers => s.engine.Timed)
    (fun _ _ _ hs => Workers.step_timed hs) (fun _ _ _ hs => Workers.step_alive_iff hs)
    (fun _ h => nomatch h) ⟨rfl, rfl⟩ h

end workers

namespace Sample

-- A request whose event is an empty list.
def unhashable : Bytes :=
  [0x85] ++ Sample.packedString "msg_type" ++ Sample.packedString "req" ++
  Sample.packedString "sender" ++ Sample.packedString "s" ++
  Sample.packedString "event" ++ [0x90] ++ Sample.packedString "payload" ++ [0x80] ++
  Sample.packedString "correlation_id" ++ Sample.packedString "c"

def unpackUnhashable (frame : Bytes) : Option Message :=
  if frame = unhashable then
    some { message .request <| .str <| utf8 "c" with event := .list [] }
  else
    none

end Sample

namespace workers

theorem always_alive_answered :
    (workers Sample.unpack).Always Workers.Alive (.start 0)
      [Sample.register (Sample.worker 1), Sample.request (utf8 "a"), .tick 90, .scan,
        .timeout fun _ => true, .tick 90, .scan, Sample.response (Sample.worker 1).val] := by
  have h : ∃ s, (workers Sample.unpack).exec (.start 0)
      [Sample.register (Sample.worker 1), Sample.request (utf8 "a"), .tick 90, .scan,
        .timeout fun _ => true, .tick 90, .scan, Sample.response (Sample.worker 1).val] = some s :=
    Option.isSome_iff_exists.mp <| by decide +kernel
  obtain ⟨s, h⟩ := h
  exact (always_alive_iff h).mpr <| by decide +kernel

theorem not_always_alive : ¬∀ as s, (workers Sample.unpackUnhashable).exec (.start 0) as = some s →
    (workers Sample.unpackUnhashable).Always Workers.Alive (.start 0) as := by
  intro ha
  have h : ∃ s ∈ (workers Sample.unpackUnhashable).exec (.start 0)
      [.receive [utf8 "a", [], utf8 "t", Sample.unhashable] fun _ => true],
      s.routerEnded = true := by
    decide +kernel
  obtain ⟨s, h, hs⟩ := h
  exact Bool.false_ne_true <| ((ha _ s h).exec h).left.symm.trans hs

end workers

end Python
