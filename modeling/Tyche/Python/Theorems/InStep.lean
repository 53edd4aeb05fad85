import Tyche.Python.Theorems.Broker
import Tyche.Python.Theorems.Robustness

namespace Python

open Proc

-- What a job keeps of its request.
structure Frames where
  requesterId  : Bytes
  topicFrame   : Bytes
  messageFrame : Bytes
deriving DecidableEq

def TrackingInfo.frames (info : TrackingInfo) : Frames where
  requesterId  := info.requesterId
  topicFrame   := info.topicFrame
  messageFrame := info.messageFrame

def Incoming.frames (i : Incoming) : Frames where
  requesterId  := i.identity
  topicFrame   := i.topicFrame
  messageFrame := i.messageFrame

theorem Value.IsDict.allows {v : Value} {topic : Hashed} (h : v.IsDict) :
    ∃ b, v.allows topic = .ok b := by
  cases v <;> try cases h
  case dict entries =>
    simp only [Value.allows, contains, getItem]
    cases entries.lookup topic.key
    case none   => exact ⟨_, rfl⟩
    case some v => exact ⟨_, rfl⟩

namespace Call

-- The frames of the request that arrives for the job with the correlation id.
def request? (c : Key) : Call → Option Frames
  | receive i =>
    if i.msg.msgType = .request ∧ i.msg.correlationId.hash = .ok c then some i.frames else none
  | _ => none

-- An availability that is reported is a dictionary.
def Reports : Call → Prop
  | heartbeat msg => ∀ v ∈ msg.report, v.IsDict
  | _             => True

end Call

-- The job handlers of the engine run one after the other, in any order. What comes with each call
-- tells which of its outputs succeed.
def engine (deserialize : Bytes → Option Message) :
    Machine TycheEngine (Call × (Output → Bool)) where
  step s a := some (s.perform deserialize a.2 a.1).2

namespace TycheEngine

variable {deserialize : Bytes → Option Message} {works : Output → Bool} {s s' : TycheEngine}
variable {m h : ModuleId} {topic : Hashed} {t c k : Key} {ref : Ref} {o : Output} {r : Reason}
variable {info : TrackingInfo} {call : Call} {R : Ref → Prop} {msg : Message} {i : Incoming}

-- Both tables have the same jobs, with the same requesters.
def InStep (s : TycheEngine) : Prop :=
  ∀ c, s.pendingJobs.get? c = (s.tracking? c).map TrackingInfo.requesterId

theorem inStep_iff_owned : s.InStep ↔ ∀ c, (s.job c).Owned := by
  simp only [InStep, Job.Owned, job, Option.map_map]
  rfl

def Tracked (s : TycheEngine) (ref : Ref) : Prop :=
  s.jobTracking.get? ref.corrId = some ref.number

-- The objects in the tracking table are known, and all reports are dictionaries.
structure Confined (R : Ref → Prop) (s : TycheEngine) : Prop where
  tracked : ∀ ref, s.Tracked ref → R ref
  reports : ∀ k, ∀ v ∈ s.moduleAvailability.get? k, v.IsDict

theorem report_eq {v : Option Value} (hv : reported msg.payload = .ok v) : msg.report = v := by
  rw [Message.report, hv]
  rfl

theorem arrive_jobTracking : (s.arrive i).jobTracking = s.jobTracking := by
  rw [arrive]
  split <;> rfl

theorem arrive_created : (s.arrive i).created = s.created := by
  rw [arrive]
  split <;> rfl

namespace Confined

theorem mono {R' : Ref → Prop} (hs : s.Confined R) (hr : ∀ ref, R ref → R' ref) :
    s.Confined R' where
  tracked ref ht := hr ref <| hs.tracked ref ht
  reports        := hs.reports

theorem of_tables (hs : s.Confined R) (ht : s'.jobTracking = s.jobTracking)
    (hr : s'.moduleAvailability = s.moduleAvailability) : s'.Confined R where
  tracked ref h := hs.tracked ref <|
    (congrArg (fun d : Dict Key ℕ => d.get? ref.corrId = some ref.number) ht).mp h
  reports k v h := hs.reports k v <|
    (congrArg (fun d : Dict Key Value => v ∈ d.get? k) hr).mp h

theorem setInfo (hs : s.Confined R) : (s.setInfo ref info).Confined R :=
  hs.of_tables rfl rfl

theorem setPending (hs : s.Confined R) {i : Bytes} : (s.setPending c i).Confined R :=
  hs.of_tables rfl rfl

theorem erasePending (hs : s.Confined R) : (s.erasePending c).Confined R :=
  hs.of_tables rfl rfl

theorem setRoundRobin (hs : s.Confined R) {n : ℕ} : (s.setRoundRobin t n).Confined R :=
  hs.of_tables rfl rfl

theorem emit (hs : s.Confined R) : (s.emit o).Confined R :=
  hs.of_tables rfl rfl

theorem trying (hs : s.Confined R) : (s.trying works o).Confined R := by
  unfold TycheEngine.trying
  split
  · exact hs.emit
  · exact hs

theorem untrack (hs : s.Confined R) : (s.untrack k).Confined R where
  tracked ref ht := by
    have ht : (s.jobTracking.erase k).get? ref.corrId = some ref.number := ht
    rw [Dict.get?_erase] at ht
    split at ht
    · cases ht
    · exact hs.tracked ref ht
  reports        := hs.reports

theorem retrack (hs : s.Confined R) (hr : R ref) : (s.retrack ref).Confined R where
  tracked ref' ht := by
    have ht : (s.jobTracking.set ref.corrId ref.number).get? ref'.corrId = some ref'.number := ht
    rw [Dict.get?_set] at ht
    split at ht
    case isTrue hc  =>
      obtain ⟨c, n⟩ := ref'
      cases hc
      cases ht
      exact hr
    case isFalse => exact hs.tracked ref' ht
  reports         := hs.reports

theorem track (hs : s.Confined R) (hr : R ⟨k, s.created⟩) : (s.track k info).Confined R := by
  have h : ((s.setInfo ⟨k, s.created⟩ info).retrack ⟨k, s.created⟩).Confined R :=
    hs.setInfo.retrack hr
  exact h.of_tables rfl rfl

-- The availability of every module can be looked up, so a handler can be selected.
theorem selectHandler (hs : s.Confined R) : ∃ x, s.selectHandler topic = .ok x := by
  refine selectHandler_ok_iff.mpr fun m _ => .inr ?_
  unfold report Dict.getD
  cases hv : s.moduleAvailability.get? (.ofModule m)
  case none   => exact Value.IsDict.allows (v := .dict []) trivial
  case some v => exact (hs.reports _ v hv).allows

theorem retryJob (hs : s.Confined R) (hr : R ref) :
    ((Python.retryJob ref).run (exec deserialize works) s).2.Confined R := by
  rw [run_retryJob]
  cases hh : s.selectHandler (s.infos ref).topic
  case error => exact hs
  case ok x  =>
    cases x
    case none   => exact hs
    case some x =>
      obtain ⟨h, s'⟩ := x
      obtain ⟨_, n, rfl⟩ := selectHandler_eq_some hh
      dsimp only
      split
      case isTrue  => exact hs.setRoundRobin.emit.setInfo.retrack hr
      case isFalse => exact hs.setRoundRobin

theorem fail (hs : s.Confined R) : (s.fail deserialize works ref r).Confined R := by
  have hp : (if r = .waitTimeout then s.persisting deserialize works ref else s).Confined R := by
    split
    case isTrue  =>
      unfold persisting
      split
      · exact hs
      · exact hs.trying
    case isFalse => exact hs
  exact hp.erasePending.trying

theorem handleJobTimeout (hs : s.Confined R) :
    ((Python.handleJobTimeout c r).run (exec deserialize works) s).2.Confined R := by
  rw [run_handleJobTimeout]
  cases hn : s.jobTracking.get? c
  case none   => exact hs
  case some n =>
    have hr : R ⟨c, n⟩ := hs.tracked ⟨c, n⟩ hn
    dsimp only
    split
    case h_2      => exact hs.untrack.fail
    case h_1 h hh =>
      have hm : Confined R ((s.untrack c).mark (.ofModule h) (s.infos ⟨c, n⟩).topic.key) :=
        hs.untrack.of_tables rfl rfl
      have hj : ((Python.retryJob ⟨c, n⟩).run (exec deserialize works) _).2.Confined R :=
        hm.retryJob hr
      split
      case h_1 he => rw [he] at hj; exact hj
      case h_2 he => rw [he] at hj; exact hj
      case h_3 he =>
        rw [he] at hj
        exact hj.setInfo.retrack hr

theorem recoverJob (hs : s.Confined R) (hr : R ref) :
    ((Python.recoverJob ref).run (exec deserialize works) s).2.Confined R := by
  have hj : ((Python.retryJob ref).run (exec deserialize works) _).2.Confined R :=
    (hs.untrack (k := ref.corrId)).retryJob hr
  rw [run_recoverJob]
  split
  case h_1 he => rw [he] at hj; exact hj
  case h_2 he => rw [he] at hj; exact hj
  case h_3 he => rw [he] at hj; exact hj.retrack hr

theorem handleJobResponse (hs : s.Confined R) {tf mf : Bytes} :
    ((Python.handleJobResponse tf mf msg).run (exec deserialize works) s).2.Confined R := by
  rw [run_handleJobResponse]
  split
  · exact hs
  · split
    · exact hs
    · exact hs.untrack.trying.erasePending

theorem handleJobRequest (hs : s.Confined R) {identity tf mf : Bytes}
    (hr : ∀ c, msg.correlationId.hash = .ok c → R ⟨c, s.created⟩) :
    ((Python.handleJobRequest identity tf mf msg).run (exec deserialize works) s).2.Confined R := by
  rw [run_handleJobRequest]
  cases request msg
  case error => exact hs
  case ok q  =>
    dsimp only
    cases hh : s.selectHandler q.topic
    case error => exact hs
    case ok x  =>
      cases x
      case none   =>
        dsimp only
        split
        · exact hs.trying
        · cases hc : msg.correlationId.hash
          case error => exact hs
          case ok c  => exact (hs.track <| hr c hc).setPending
      case some x =>
        obtain ⟨h, s'⟩ := x
        obtain ⟨_, n, rfl⟩ := selectHandler_eq_some hh
        cases hc : msg.correlationId.hash
        case error => exact hs.setRoundRobin
        case ok c  =>
          dsimp only
          split
          case isTrue  => exact (hs.setRoundRobin.setPending.track <| hr c hc).emit
          case isFalse =>
            exact (hs.setRoundRobin.setPending.track <| hr c hc).erasePending.untrack

theorem recoverJobs {refs : List Ref} (hs : s.Confined R) (hr : ∀ ref ∈ refs, R ref) :
    ((each Python.recoverJob refs).run (exec deserialize works) s).2.Confined R := by
  induction refs generalizing s
  case nil              => exact hs
  case cons ref refs hi =>
    have hj : ((Python.recoverJob ref).run (exec deserialize works) s).2.Confined R :=
      hs.recoverJob <| hr ref List.mem_cons_self
    rw [run_each_cons]
    split
    case h_1 he => rw [he] at hj; exact hi hj fun r hm => hr r <| List.mem_cons_of_mem _ hm
    case h_2 he => rw [he] at hj; exact hj

theorem setReport (hs : s.Confined R) {v : Value} (hv : v.IsDict) :
    (s.setReport k v).Confined R where
  tracked        := hs.tracked
  reports c w hw := by
    have hw : (s.moduleAvailability.set k v).get? c = some w := hw
    rw [Dict.get?_set] at hw
    split at hw
    · cases hw; exact hv
    · exact hs.reports c w hw

theorem alive (hs : s.Confined R) {v : Option Value} (hv : ∀ v' ∈ v, v'.IsDict) :
    (s.alive k v).Confined R := by
  cases v
  case none   => exact hs.of_tables rfl rfl
  case some v => exact (hs.setReport (k := k) <| hv v rfl).of_tables rfl rfl

theorem waiting {ts : List Key} (hs : s.Confined R) : ∀ ref ∈ s.waiting ts, R ref :=
  fun ref hm => hs.tracked ref (mem_waiting.mp hm).left

theorem unregisterModule (hs : s.Confined R) : (s.unregisterModule m).Confined R := by
  unfold TycheEngine.unregisterModule
  split
  case isFalse => exact hs
  case isTrue  =>
    refine ⟨hs.tracked, fun k v hv => hs.reports k v ?_⟩
    have hv : (s.moduleAvailability.erase (.ofModule m)).get? k = some v := hv
    rw [Dict.get?_erase] at hv
    split at hv
    · cases hv
    · exact hv

theorem addInterfaces {is : List Interface} (hs : s.Confined R) :
    (addInterfaces m is s).2.Confined R := by
  induction is generalizing s
  case nil          => exact hs
  case cons i is hi =>
    rw [TycheEngine.addInterfaces]
    cases i.eventType.hash
    case error => exact hs
    case ok    =>
      refine hi ?_
      split
      · exact hs.of_tables rfl rfl
      · exact hs

theorem arrive (hs : s.Confined R) : (s.arrive i).Confined R := by
  unfold TycheEngine.arrive
  split
  · exact hs.of_tables rfl rfl
  · exact hs.emit
  · exact hs

theorem handleHeartbeat (hs : s.Confined R) (hm : (Call.heartbeat msg).Reports) :
    ((Python.handleHeartbeat msg).run (exec deserialize works) s).2.Confined R := by
  cases hk : msg.sender.hash
  case error => rw [run_handleHeartbeat, hk]; exact hs
  case ok k  =>
    cases hv : reported msg.payload
    case error => rw [run_handleHeartbeat, hk, hv]; exact hs
    case ok v  =>
      rw [run_heartbeat_alive hk hv]
      exact (hs.alive <| report_eq hv ▸ hm).recoverJobs hs.waiting

theorem perform (hs : s.Confined R) (hm : call.Reports)
    (hr : ∀ c, (call.request? c).isSome → R ⟨c, s.created⟩) :
    (s.perform deserialize works call).2.Confined R := by
  cases call
  case tick       => exact hs.of_tables rfl rfl
  case timeout    => exact hs.handleJobTimeout
  case heartbeat  => exact hs.handleHeartbeat hm
  case register i =>
    have hr : Confined R { s with modules := s.modules.insert i.moduleId } := hs.of_tables rfl rfl
    exact hr.addInterfaces
  case unregister => exact hs.unregisterModule
  case receive i  =>
    have ha : ((route i).run (exec deserialize works) (s.arrive i)).2.Confined R := by
      unfold route
      cases ht : i.msg.msgType
      case request  =>
        refine hs.arrive.handleJobRequest fun c hc => ?_
        rw [arrive_created]
        exact hr c <| by simp [Call.request?, ht, hc]
      case response => exact hs.arrive.handleJobResponse
      all_goals exact hs.arrive
    exact ha

end Confined

theorem handleJobRequest_created {identity tf mf : Bytes} :
    ((handleJobRequest identity tf mf msg).run (exec deserialize works) s).2.created =
        s.created + 1 ∨
      ((handleJobRequest identity tf mf msg).run (exec deserialize works) s).2.jobTracking =
        s.jobTracking := by
  rw [run_handleJobRequest]
  cases request msg
  case error => exact .inr rfl
  case ok q  =>
    dsimp only
    cases hh : s.selectHandler q.topic
    case error => exact .inr rfl
    case ok x  =>
      cases x
      case none   =>
        dsimp only
        split
        case isTrue  => unfold trying; split <;> exact .inr rfl
        case isFalse =>
          cases msg.correlationId.hash
          case error => exact .inr rfl
          case ok    => exact .inl rfl
      case some x =>
        obtain ⟨h, s'⟩ := x
        obtain ⟨_, n, rfl⟩ := selectHandler_eq_some hh
        cases msg.correlationId.hash
        case error => exact .inr rfl
        case ok    => dsimp only; split <;> exact .inl rfl

-- The objects that `s` knows keep their frames, and `s'` knows them too.
structure Keeps (s s' : TycheEngine) : Prop where
  created : s.created ≤ s'.created
  frames  : ∀ ref, ref.number < s.created → (s'.infos ref).frames = (s.infos ref).frames

namespace Keeps

theorem refl : Keeps s s :=
  ⟨le_refl _, fun _ _ => rfl⟩

theorem trans {s₁ s₂ s₃ : TycheEngine} (h₁ : Keeps s₁ s₂) (h₂ : Keeps s₂ s₃) : Keeps s₁ s₃ where
  created       := h₁.created.trans h₂.created
  frames ref hr := (h₂.frames ref <| hr.trans_le h₁.created).trans <| h₁.frames ref hr

theorem of_eq (hc : s'.created = s.created) (hi : s'.infos = s.infos) : Keeps s s' where
  created       := hc.ge
  frames ref _  := congrArg (fun f : Ref → TrackingInfo => (f ref).frames) hi

theorem setInfo (h : info.frames = (s.infos ref).frames) : Keeps s (s.setInfo ref info) where
  created       := le_refl _
  frames ref' _ := by
    unfold TycheEngine.setInfo
    dsimp only
    split
    case isTrue he => rw [he, h]
    case isFalse   => rfl

theorem track : Keeps s (s.track k info) where
  created       := Nat.le_succ _
  frames ref hr := by
    have hn : ref ≠ ⟨k, s.created⟩ := fun he => hr.ne <| congrArg Ref.number he
    exact congrArg TrackingInfo.frames <| if_neg hn

theorem exec {β : Type} {o : Op β} : Keeps s (TycheEngine.exec deserialize works o s).2 := by
  cases o
  case track           => exact track
  case setHandler      => exact setInfo rfl
  case setDispatchTime => exact setInfo rfl
  all_goals
    simp only [TycheEngine.exec]
    repeat' split
    all_goals exact of_eq rfl rfl

theorem run {α : Type} {p : Py α} : Keeps s (p.run (TycheEngine.exec deserialize works) s).2 :=
  all_true.run (I := fun s' => Keeps s s') (fun _ _ _ h => h.trans exec) refl

theorem addInterfaces {is : List Interface} : Keeps s (addInterfaces m is s).2 := by
  induction is generalizing s
  case nil          => exact refl
  case cons i is hi =>
    rw [TycheEngine.addInterfaces]
    cases i.eventType.hash
    case error => exact refl
    case ok    =>
      refine trans ?_ hi
      split <;> exact of_eq rfl rfl

theorem unregisterModule : Keeps s (s.unregisterModule m) := by
  unfold TycheEngine.unregisterModule
  split
  case isFalse => exact refl
  case isTrue  =>
    refine ⟨le_refl _, fun ref _ => ?_⟩
    simp only [orphan]
    split <;> rfl

theorem perform : Keeps s (s.perform deserialize works call).2 := by
  cases call
  case tick       => exact of_eq rfl rfl
  case receive    => exact (of_eq arrive_created arrive_infos).trans run
  case timeout    => exact run
  case heartbeat  => exact run
  case register i =>
    have hr : Keeps s { s with modules := s.modules.insert i.moduleId } := of_eq rfl rfl
    exact hr.trans addInterfaces
  case unregister => exact unregisterModule

end Keeps

theorem handleJobRequest_frames {identity tf mf : Bytes} : ∀ info ∈
    ((handleJobRequest identity tf mf msg).run (exec deserialize works) s).2.tracking? c,
      info ∈ s.tracking? c ∨ msg.correlationId.hash = .ok c ∧ info.frames = ⟨identity, tf, mf⟩ := by
  rw [run_handleJobRequest]
  have ht {s : TycheEngine} {o : Output} : (s.trying works o).tracking? c = s.tracking? c := by
    unfold trying
    split <;> rfl
  cases request msg
  case error => exact fun _ => .inl
  case ok q  =>
    dsimp only
    cases hh : s.selectHandler q.topic
    case error => exact fun _ => .inl
    case ok x  =>
      cases x
      case none   =>
        dsimp only
        split
        case isTrue  => exact fun _ hi => .inl <| ht ▸ hi
        case isFalse =>
          cases hc : msg.correlationId.hash
          case error => exact fun _ => .inl
          case ok k  =>
            intro info hi
            have hi : info ∈ (s.track k <| q.info s.now identity tf mf).tracking? c := hi
            rw [tracking?_track] at hi
            split at hi
            case isTrue he => cases hi; exact .inr ⟨congrArg Except.ok he.symm, rfl⟩
            case isFalse   => exact .inl hi
      case some x =>
        obtain ⟨h, s'⟩ := x
        obtain ⟨_, n, rfl⟩ := selectHandler_eq_some hh
        cases hc : msg.correlationId.hash
        case error => exact fun _ => .inl
        case ok k  =>
          dsimp only
          split
          case isTrue  =>
            intro info hi
            have hi : info ∈ (track _ k { q.info s.now identity tf mf with
              handlerId := some h, dispatchTime := some s.now }).tracking? c := hi
            rw [tracking?_track] at hi
            split at hi
            case isTrue he => cases hi; exact .inr ⟨congrArg Except.ok he.symm, rfl⟩
            case isFalse   => exact .inl hi
          case isFalse =>
            intro info hi
            rw [tracking?_untrack] at hi
            split at hi
            case isTrue     => cases hi
            case isFalse hn =>
              have hi : info ∈ (track _ k _).tracking? c := hi
              rw [tracking?_track, if_neg hn] at hi
              exact .inl hi

-- The job that the call leaves in the tracking table has the frames of the request that the call
-- received for it, or those that it had before.
def Framed (s s' : TycheEngine) (call : Call) : Prop :=
  ∀ c, ∀ info ∈ s'.tracking? c,
    some info.frames = call.request? c ∨ ∃ info' ∈ s.tracking? c, info.frames = info'.frames

theorem framed_of_confined (hs : s.Confined (·.number < s.created)) (h : s'.Confined s.Tracked)
    (hk : Keeps s s') : Framed s s' call := by
  intro c info hi
  obtain ⟨n, hn, rfl⟩ := Option.map_eq_some_iff.mp hi
  have ht : s.Tracked ⟨c, n⟩ := h.tracked ⟨c, n⟩ hn
  exact .inr ⟨_, tracking?_eq_some ht, hk.frames _ <| hs.tracked _ ht⟩

theorem perform_framed (hs : s.Confined (·.number < s.created)) (hm : call.Reports) :
    Framed s (s.perform deserialize works call).2 call := by
  have hq : (∀ c, call.request? c = none) → Framed s (s.perform deserialize works call).2 call := by
    intro hn
    have hs' : s.Confined s.Tracked := ⟨fun _ => id, hs.reports⟩
    exact framed_of_confined hs (hs'.perform hm fun c hc => by simp [hn] at hc) Keeps.perform
  cases call
  case receive i =>
    by_cases ht : i.msg.msgType = .request
    case neg => exact hq fun c => if_neg fun h => ht h.left
    case pos =>
      intro c info hi
      have hi : info ∈ ((route i).run (exec deserialize works) (s.arrive i)).2.tracking? c := hi
      rw [route, ht] at hi
      obtain hi | ⟨hc, hf⟩ := handleJobRequest_frames info hi
      case inl => exact .inr ⟨info, arrive_tracking? ▸ hi, rfl⟩
      case inr => exact .inl <| (congrArg some hf).trans (if_pos ⟨ht, hc⟩).symm
  all_goals exact hq fun _ => rfl

-- No error makes the recovery of a job lose it.
theorem recoverJob_tracks (hs : s.Confined R) (hc : c ∈ s.jobTracking) :
    ∃ s', (recoverJob ref).run (exec deserialize works) s = (.ok (), s') ∧ c ∈ s'.jobTracking := by
  have ht {s' : TycheEngine} (h : s'.jobTracking = s.jobTracking.erase ref.corrId) :
      c ∈ (s'.retrack ref).jobTracking := by
    refine Dict.mem_set.mpr ?_
    rw [h, Dict.mem_erase]
    exact (em <| c = ref.corrId).imp_right fun hn => ⟨hn, hc⟩
  rw [run_recoverJob, run_retryJob]
  obtain ⟨x, hx⟩ : ∃ x, (s.untrack ref.corrId).selectHandler
    ((s.untrack ref.corrId).infos ref).topic = .ok x := hs.untrack.selectHandler
  rw [hx]
  cases x
  case none   => exact ⟨_, rfl, ht rfl⟩
  case some x =>
    obtain ⟨h, s'⟩ := x
    obtain ⟨_, n, rfl⟩ := selectHandler_eq_some hx
    dsimp only
    by_cases hw : works <| ((s.untrack ref.corrId).infos ref).dispatch ref.corrId h
    case pos => simp only [hw, if_true]; exact ⟨_, rfl, ht rfl⟩
    case neg => simp only [hw]; exact ⟨_, rfl, ht rfl⟩

theorem recoverJobs_tracks {refs : List Ref} (hs : s.Confined R) (hr : ∀ ref ∈ refs, R ref)
    (hc : c ∈ s.jobTracking) :
    c ∈ ((each recoverJob refs).run (exec deserialize works) s).2.jobTracking := by
  induction refs generalizing s
  case nil              => exact hc
  case cons ref refs hi =>
    obtain ⟨s', he, hc'⟩ : ∃ s', (recoverJob ref).run (exec deserialize works) s = (.ok (), s') ∧
        c ∈ s'.jobTracking :=
      recoverJob_tracks hs hc
    have hs' : ((recoverJob ref).run (exec deserialize works) s).2.Confined R :=
      hs.recoverJob <| hr ref List.mem_cons_self
    rw [run_each_cons, he]
    rw [he] at hs'
    exact hi hs' (fun r hm => hr r <| List.mem_cons_of_mem _ hm) hc'

theorem handleHeartbeat_tracks (hs : s.Confined R) (hm : (Call.heartbeat msg).Reports)
    (hc : c ∈ s.jobTracking) :
    c ∈ ((handleHeartbeat msg).run (exec deserialize works) s).2.jobTracking := by
  cases hk : msg.sender.hash
  case error => rw [run_handleHeartbeat, hk]; exact hc
  case ok k  =>
    cases hv : reported msg.payload
    case error => rw [run_handleHeartbeat, hk, hv]; exact hc
    case ok v  =>
      rw [run_heartbeat_alive hk hv]
      refine recoverJobs_tracks (hs.alive <| report_eq hv ▸ hm) hs.waiting ?_
      cases v <;> exact hc

theorem mem_jobTracking_iff : c ∈ s.jobTracking ↔ (s.job c).entry.isSome := by
  simp only [Dict.mem_iff, job, tracking?, Option.isSome_map, Option.isSome_iff_exists]

theorem callEvent_ne_dropped (hs : s.Confined R) (hm : call.Reports) :
    s.callEvent deserialize works call c ≠ .dropped := by
  cases call <;> simp only [callEvent]
  case tick | register => simp
  case receive i =>
    unfold incomingEvent requestEvent responseEvent
    repeat' split
    all_goals simp
  case timeout k r =>
    split
    case isFalse => simp
    case isTrue  =>
      unfold timeoutEvent
      split
      case h_1      => simp
      case h_2 info _ =>
        split
        case h_2   => split <;> simp
        case h_1 h hh =>
          have hm : Confined R ((s.untrack k).mark (.ofModule h) info.topic.key) :=
            hs.untrack.of_tables rfl rfl
          obtain ⟨x, hx⟩ : ∃ x, ((s.untrack k).mark (.ofModule h) info.topic.key).selectHandler
            info.topic = .ok x := hm.selectHandler
          rw [hx]
          cases x
          case none => simp
          case some => dsimp only; split <;> simp
  case heartbeat msg =>
    rw [heartbeatEvent, if_neg]
    · simp
    · rintro ⟨he, hn⟩
      have ht : c ∈ (s.perform deserialize works (.heartbeat msg)).2.jobTracking :=
        handleHeartbeat_tracks hs hm <| mem_jobTracking_iff.mpr he
      rw [mem_jobTracking_iff, hn] at ht
      cases ht
  case unregister => split <;> simp

-- Every object in the tracking table has been made, and all reports are dictionaries.
def Sound (s : TycheEngine) : Prop :=
  s.Confined (·.number < s.created)

theorem Sound.perform (hs : s.Sound) (hm : call.Reports) :
    (s.perform deserialize works call).2.Sound := by
  have hk : Keeps s (s.perform deserialize works call).2 := .perform
  have hs' : s.Confined (·.number < (s.perform deserialize works call).2.created) :=
    hs.mono fun _ h => h.trans_le hk.created
  have hq (hn : ∀ c, call.request? c = none) : (s.perform deserialize works call).2.Sound :=
    hs'.perform hm fun c hc => by simp [hn] at hc
  cases call
  case receive i =>
    by_cases ht : i.msg.msgType = .request
    case neg => exact hq fun c => if_neg fun h => ht h.left
    case pos =>
      have hr : (s.perform deserialize works (.receive i)).2.created = (s.arrive i).created + 1 ∨
          (s.perform deserialize works (.receive i)).2.jobTracking = (s.arrive i).jobTracking := by
        rw [TycheEngine.perform, run, route, ht]
        exact handleJobRequest_created
      rw [arrive_created, arrive_jobTracking] at hr
      obtain hc | hj := hr
      case inl => exact hs'.perform hm fun _ _ => hc ▸ Nat.lt_succ_self _
      case inr =>
        have hd : s.Confined fun _ => True := hs.mono fun _ _ => trivial
        refine ⟨fun ref hr => hs'.tracked ref ?_, (hd.perform hm fun _ _ => trivial).reports⟩
        exact (congrArg (fun d : Dict Key ℕ => d.get? ref.corrId = some ref.number) hj).mp hr
  all_goals exact hq fun _ => rfl

theorem start_sound {now : ℚ} : (start now).Sound where
  tracked _ h := by cases Dict.get?_empty.symm.trans h
  reports _ _ h := by cases Dict.get?_empty.symm.trans h

theorem start_inStep {now : ℚ} : (start now).InStep :=
  fun _ => rfl

theorem InStep.perform (hs : s.Sound) (hm : call.Reports) (h : s.InStep) :
    (s.perform deserialize works call).2.InStep := by
  rw [inStep_iff_owned] at h ⊢
  exact fun c => perform_job.preserves_owned (h c) <| callEvent_ne_dropped hs hm

end TycheEngine

namespace engine

variable {deserialize : Bytes → Option Message} {as : List (Call × (Output → Bool))} {now : ℚ}

def requests (as : List (Call × (Output → Bool))) (c : Key) : List Frames :=
  as.filterMap (·.1.request? c)

theorem always_sound {s : TycheEngine} (hs : s.Sound)
    (h : (engine deserialize).Along (fun _ a => a.1.Reports) s as) :
    (engine deserialize).Always TycheEngine.Sound s as :=
  Machine.always_of_step (fun _ _ _ hs hm e => Option.some.inj e ▸ hs.perform hm) hs h

theorem always_inStep {s : TycheEngine} (hs : s.Sound) (hi : s.InStep)
    (h : (engine deserialize).Along (fun _ a => a.1.Reports) s as) :
    (engine deserialize).Always TycheEngine.InStep s as := by
  have hi : (engine deserialize).Always (fun s => s.Sound ∧ s.InStep) s as :=
    Machine.always_of_step
      (fun _ _ _ hs hm e => Option.some.inj e ▸ ⟨hs.left.perform hm, hs.right.perform hs.left hm⟩)
      ⟨hs, hi⟩ h
  exact hi.mono fun _ => And.right

theorem along_framed {s : TycheEngine} (hs : s.Sound)
    (h : (engine deserialize).Along (fun _ a => a.1.Reports) s as) :
    (engine deserialize).Along
      (fun s a => TycheEngine.Framed s (s.perform deserialize a.2 a.1).2 a.1) s as :=
  (always_sound hs h).along h fun _ _ => TycheEngine.perform_framed

-- What is tracked at the end has the frames of a request of the run, or was tracked with them
-- before.
theorem frames_of_along {s s' : TycheEngine}
    (h : (engine deserialize).Along
      (fun s a => TycheEngine.Framed s (s.perform deserialize a.2 a.1).2 a.1) s as)
    (e : (engine deserialize).exec s as = some s') : ∀ c, ∀ info ∈ s'.tracking? c,
      info.frames ∈ requests as c ∨ ∃ info' ∈ s.tracking? c, info.frames = info'.frames := by
  induction as generalizing s
  case nil          => cases e; exact fun c info hi => .inr ⟨info, hi, rfl⟩
  case cons a as ih =>
    obtain ⟨s₁, e₁, e⟩ := Machine.exec_cons_eq_some_iff.mp e
    intro c info hi
    have hm {f : Frames} (hf : f ∈ requests as c) : f ∈ requests (a :: as) c := by
      obtain ⟨b, hb, hf⟩ := List.mem_filterMap.mp hf
      exact List.mem_filterMap.mpr ⟨b, List.mem_cons_of_mem _ hb, hf⟩
    obtain hf | ⟨info₁, hi₁, hf⟩ := ih (h.right s₁ e₁) e c info hi
    case inl => exact .inl <| hm hf
    case inr =>
      cases e₁
      obtain hq | ⟨info', hi', hf'⟩ := h.left c info₁ hi₁
      case inl => exact .inl <| List.mem_filterMap.mpr ⟨a, List.mem_cons_self, hf ▸ hq.symm⟩
      case inr => exact .inr ⟨info', hi', hf.trans hf'⟩

-- The two tables of the jobs stay in step and the jobs keep the frames of their requests.
theorem job_tables_in_step
    (h : (engine deserialize).Along (fun _ a => a.1.Reports) (.start now) as) :
    (engine deserialize).Always TycheEngine.InStep (.start now) as ∧
    (engine deserialize).Along
      (fun s a => TycheEngine.Framed s (s.perform deserialize a.2 a.1).2 a.1) (.start now) as ∧
    ∀ s, (engine deserialize).exec (.start now) as = some s →
      ∀ c, ∀ info ∈ s.tracking? c, info.frames ∈ requests as c := by
  have hf := along_framed TycheEngine.start_sound h
  refine ⟨always_inStep TycheEngine.start_sound TycheEngine.start_inStep h, hf, fun s e c i hi => ?_⟩
  obtain hm | ⟨_, hn, _⟩ := frames_of_along hf e c i hi
  case inl => exact hm
  case inr => cases hn

end engine

namespace Sample

-- A request whose dispatch fails, the request once more, its timeout, and the recovery.
def recovery : List (Call × (Output → Bool)) :=
  [(.register handler, fun _ => true), (.receive (incoming .request), fun _ => false),
    (.receive (incoming .request), fun _ => true),
    (.timeout (.str <| utf8 "c") .runTimeout, fun _ => true),
    (.heartbeat (report true), fun _ => true)]

end Sample

namespace engine

theorem job_tables_in_step_sample :
    (∃ s, (engine Sample.unpack).exec (.start 0) Sample.recovery = some s ∧
      s.pendingJobs.get? (.str <| utf8 "c") = some (utf8 "a")) ∧
    (engine Sample.unpack).Always TycheEngine.InStep (.start 0) Sample.recovery := by
  refine ⟨by decide +kernel, (job_tables_in_step ?_).left⟩
  refine ⟨trivial, fun _ _ => ⟨trivial, fun _ _ => ⟨trivial, fun _ _ => ⟨trivial, fun _ _ =>
    ⟨fun v hv => ?_, fun _ _ => trivial⟩⟩⟩⟩⟩
  have hr : (Sample.report true).report = some (.dict [(.str <| utf8 "t", .bool true)]) := rfl
  cases hr.symm.trans hv
  trivial

end engine

end Python
