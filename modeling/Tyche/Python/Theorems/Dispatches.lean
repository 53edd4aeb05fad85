import Tyche.Python.Theorems.Robustness
import Tyche.Python.Theorems.Waiting

namespace Python

open Proc

-- What a tracking info has from the request that it was made for.
structure Origin where
  requesterId  : Bytes
  topic        : Hashed
  topicFrame   : Bytes
  messageFrame : Bytes

def TrackingInfo.origin (info : TrackingInfo) : Origin where
  requesterId  := info.requesterId
  topic        := info.topic
  topicFrame   := info.topicFrame
  messageFrame := info.messageFrame

structure Origin.Of (o : Origin) (i : Incoming) : Prop where
  requesterId  : o.requesterId = i.identity
  topic        : i.msg.event.hashed = .ok o.topic
  topicFrame   : o.topicFrame = i.topicFrame
  messageFrame : o.messageFrame = i.messageFrame

def Output.IsDispatch : Output → Prop
  | dispatch .. => True
  | _           => False

namespace TycheEngine

variable {deserialize : Bytes → Option Message} {works : Output → Bool} {s s' s₁ s₂ : TycheEngine}
variable {m h : ModuleId} {topic : Hashed} {t c k : Key} {ref : Ref} {o : Output} {i : Incoming}
variable {info : TrackingInfo} {r : Reason} {lost : Hashed → Prop} {call : Call}

def index (s : TycheEngine) (t : Key) : ℕ :=
  s.jobRoundRobin.getD t 0

-- No job is new, and every job is still for the same request.
structure Retains (s s' : TycheEngine) : Prop where
  created  : s'.created = s.created
  tracking : ∀ c n, s'.jobTracking.get? c = some n → s.jobTracking.get? c = some n
  origin   : ∀ ref, (s'.infos ref).origin = (s.infos ref).origin

-- It is the turn of `h` among the available handlers of a topic.
structure Turn (s : TycheEngine) (topic : Hashed) (h : ModuleId) (s' : TycheEngine) : Prop where
  selects : ∃ hs, s.available topic = .ok hs ∧ hs[s.index topic.key % hs.length]? = some h ∧
    s'.index topic.key = s.index topic.key % hs.length + 1
  others  : ∀ t ≠ topic.key, s'.index t = s.index t

-- At most one job is sent to a handler. A turn may be lost for the topics in `lost`.
inductive Turns (lost : Hashed → Prop) (s s' : TycheEngine) : Prop
  | idle (index : ∀ t, s'.index t = s.index t)
      (out : Grows (fun o => ¬o.IsDispatch) s.out s'.out)
  | lose (topic : Hashed) (h : ModuleId) (lost : lost topic) (turn : s.Turn topic h s')
      (out : s'.out = s.out)
  | send (ref : Ref) (h : ModuleId) (turn : s.Turn (s'.infos ref).topic h s')
      (tracked : s'.jobTracking.get? ref.corrId = some ref.number)
      (out : s'.out = s.out ++ [(s'.infos ref).dispatch ref.corrId h])

structure Move (lost : Hashed → Prop) (s s' : TycheEngine) : Prop where
  tables : s'.tables = s.tables
  retains : s.Retains s'
  turns  : Turns lost s s'

-- A job is made for the request `i`.
structure Enters (lost : Hashed → Prop) (i : Incoming) (s s' : TycheEngine) : Prop where
  tables   : s'.tables = s.tables
  created  : s'.created = s.created + 1
  tracking : ∀ c n, s'.jobTracking.get? c = some n →
    (s.jobTracking.get? c = some n ∧ (s'.infos ⟨c, n⟩).origin = (s.infos ⟨c, n⟩).origin) ∨
    (n = s.created ∧ i.msg.correlationId.hash = .ok c ∧ (s'.infos ⟨c, n⟩).origin.Of i)
  turns    : Turns lost s s'

-- What comes before the first turn that is taken.
structure Prepares (s s' : TycheEngine) : Prop where
  retains : s.Retains s'
  index : ∀ t, s'.index t = s.index t
  out   : s'.out = s.out

namespace Retains

theorem refl : s.Retains s :=
  ⟨rfl, fun _ _ h => h, fun _ => rfl⟩

theorem trans (h : s.Retains s₁) (h' : s₁.Retains s₂) : s.Retains s₂ where
  created       := h'.created.trans h.created
  tracking c n  := h.tracking c n ∘ h'.tracking c n
  origin ref    := (h'.origin ref).trans <| h.origin ref

theorem untrack : s.Retains (s.untrack c) where
  created      := rfl
  tracking _ _ := Dict.mem_of_mem_erase
  origin _     := rfl

-- A job that was taken out of the tracking table is put back.
theorem retrack (hi : info.origin = (s.infos ref).origin)
    (hr : s.jobTracking.get? ref.corrId = some ref.number) :
    s.Retains (((s.untrack ref.corrId).setInfo ref info).retrack ref) where
  created      := rfl
  tracking c n h := by
    rw [TycheEngine.retrack, Dict.get?_set] at h
    split at h
    case isTrue hc  => cases hc; cases h; exact hr
    case isFalse hc => exact Dict.mem_of_mem_erase h
  origin ref'  := by
    have he : ((((s.untrack ref.corrId).setInfo ref info).retrack ref).infos ref').origin =
        (if ref' = ref then info else s.infos ref').origin := rfl
    rw [he]
    split
    case isTrue hc  => rw [hc, hi]
    case isFalse hc => rfl

end Retains

theorem Prepares.refl : s.Prepares s :=
  ⟨.refl, fun _ => rfl, rfl⟩

theorem index_setRoundRobin {n : ℕ} :
    (s.setRoundRobin k n).index t = if t = k then n else s.index t := by
  rw [index, setRoundRobin, Dict.getD, Dict.get?_set]
  split <;> rfl

theorem selectHandler_turn (hs : s.selectHandler topic = .ok (some (h, s'))) :
    s.Turn topic h s' := by
  rw [selectHandler] at hs
  split at hs <;> cases hs
  case h_3 m ms ha =>
    exact ⟨⟨m :: ms, ha, List.getElem?_eq_getElem _, index_setRoundRobin.trans <| if_pos rfl⟩,
      fun t ht => index_setRoundRobin.trans <| if_neg ht⟩

theorem Turn.of_robin (ht : s.Turn topic h s₁) (hr : s'.jobRoundRobin = s₁.jobRoundRobin) :
    s.Turn topic h s' := by
  have hi : s'.index = s₁.index := by
    funext t
    rw [index, index, hr]
  exact ⟨hi ▸ ht.selects, hi ▸ ht.others⟩

-- Some job cannot be sent to its handler.
def Fails (works : Output → Bool) (_ : Hashed) : Prop :=
  ∃ o : Output, o.IsDispatch ∧ works o = false

theorem fails_of_not (hw : ¬works (info.dispatch c h)) : Fails works topic :=
  ⟨info.dispatch c h, trivial, Bool.eq_false_iff.mpr hw⟩

-- What a retry comes to.
inductive Tried (works : Output → Bool) (s : TycheEngine) (ref : Ref) :
    Except Error Bool × TycheEngine → Prop
  | raise (e : Error) : Tried works s ref (.error e, s)
  | refuse : Tried works s ref (.ok false, s)
  | lose (h : ModuleId) (s' : TycheEngine) :
      s.selectHandler (s.infos ref).topic = .ok (some (h, s')) → Fails works (s.infos ref).topic →
      Tried works s ref (.ok false, s')
  | send (h : ModuleId) (s' : TycheEngine) :
      s.selectHandler (s.infos ref).topic = .ok (some (h, s')) →
      Tried works s ref (.ok true, (s'.emit <| (s.infos ref).dispatch ref.corrId h).assign ref h)

theorem retryJob_tried :
    Tried works s ref ((retryJob ref).run (exec deserialize works) s) := by
  rw [run_retryJob]
  match hs : s.selectHandler (s.infos ref).topic with
  | .error _           => exact .raise _
  | .ok none           => exact .refuse
  | .ok (some (h, s')) =>
    dsimp only
    split
    case isTrue     => exact .send h s' hs
    case isFalse hw => exact .lose h s' hs <| fails_of_not hw

theorem infos_assign : (s.assign ref h).infos ref =
    { s.infos ref with handlerId := some h, dispatchTime := some s.now } :=
  setInfo_infos

-- A tracked job that is taken out, tried again, and put back if that fails.
inductive Retries (s : TycheEngine) (ref : Ref) :
    Except Error Bool × TycheEngine → TycheEngine → Prop
  | raise (e : Error) (s' : TycheEngine) : Retries s ref (.error e, s') s'
  | accept (s' : TycheEngine) : Retries s ref (.ok true, s') s'
  | putBack (s' : TycheEngine) (info : TrackingInfo) : info.origin = (s.infos ref).origin →
      Retries s ref (.ok false, s') ((s'.setInfo ref info).retrack ref)

theorem retries_move {x : Except Error Bool × TycheEngine}
    (hn : s.jobTracking.get? ref.corrId = some ref.number)
    (hx : Tried works (s.untrack ref.corrId) ref x) (hr : Retries s ref x s') :
    Move (Fails works) s s' := by
  cases hx
  case raise e =>
    cases hr
    exact ⟨rfl, .untrack, .idle (fun _ => rfl) (.of_eq rfl)⟩
  case refuse =>
    cases hr
    case putBack hi => exact ⟨rfl, .retrack hi hn, .idle (fun _ => rfl) (.of_eq rfl)⟩
  case lose h s₁ hs hw =>
    have ht := selectHandler_turn hs
    obtain ⟨-, n, rfl⟩ := selectHandler_eq_some hs
    cases hr
    case putBack hi =>
      exact ⟨rfl, (Retains.retrack hi hn).trans ⟨rfl, fun _ _ h => h, fun _ => rfl⟩,
        .lose _ h hw ⟨ht.selects, ht.others⟩ rfl⟩
  case send h s₁ hs =>
    have ht := selectHandler_turn hs
    obtain ⟨-, n, rfl⟩ := selectHandler_eq_some hs
    cases hr
    case accept =>
      let info := { s.infos ref with handlerId := some h, dispatchTime := some s.now }
      have hk : s.Retains (((s.untrack ref.corrId).setInfo ref info).retrack ref) :=
        .retrack rfl hn
      refine ⟨rfl, ⟨hk.created, hk.tracking, hk.origin⟩, .send ref h ?_ Dict.get?_set_self ?_⟩
      · rw [infos_assign]
        exact ⟨ht.selects, ht.others⟩
      · rw [infos_assign]
        rfl

theorem Tried.infos {s' : TycheEngine} (h : Tried works s ref (.ok false, s')) :
    s'.infos = s.infos := by
  cases h
  case refuse => rfl
  case lose h hw hs =>
    obtain ⟨-, n, rfl⟩ := selectHandler_eq_some hs
    rfl

theorem recoverJob_move (hn : s.jobTracking.get? ref.corrId = some ref.number) :
    Move (Fails works) s ((recoverJob ref).run (exec deserialize works) s).2 := by
  have hx : Tried works (s.untrack ref.corrId) ref
    ((retryJob ref).run (exec deserialize works) (s.untrack ref.corrId)) := retryJob_tried
  rw [run_recoverJob]
  generalize (retryJob ref).run (exec deserialize works) (s.untrack ref.corrId) = x at hx ⊢
  match x with
  | (.error e, s')  => exact retries_move hn hx (.raise e s')
  | (.ok true, s')  => exact retries_move hn hx (.accept s')
  | (.ok false, s') =>
    have ho : (s'.infos ref).origin = (s.infos ref).origin :=
      congrArg (fun f => (f ref).origin) hx.infos
    have hm := retries_move hn hx <| .putBack s' _ ho
    rwa [setInfo_self] at hm

theorem trying_eq : ∃ os, s.trying works o = { s with out := os } := by
  rw [trying]
  split
  case isTrue  => exact ⟨_, rfl⟩
  case isFalse => exact ⟨_, rfl⟩

theorem persisting_eq : ∃ os, s.persisting deserialize works ref = { s with out := os } := by
  rw [persisting]
  split
  case h_1 => exact ⟨_, rfl⟩
  case h_2 => exact trying_eq

theorem fail_eq : ∃ os ps,
    s.fail deserialize works ref r = { s with out := os, pendingJobs := ps } := by
  rw [fail]
  obtain ⟨os, ho⟩ : ∃ os, (if r = .waitTimeout then s.persisting deserialize works ref else s) =
      { s with out := os } := by
    split
    case isTrue  => exact persisting_eq
    case isFalse => exact ⟨_, rfl⟩
  rw [ho]
  obtain ⟨os', ho'⟩ := @trying_eq works (erasePending { s with out := os } ref.corrId)
    (.timedOut ref.corrId r (s.infos ref).requesterId (s.infos ref).topicFrame
      (s.infos ref).topic.value)
  exact ⟨os', _, ho'⟩

-- The handler that is marked when a timeout is handled, and the topic that it is marked for.
def marked (s : TycheEngine) (c : Key) : Reason → Option (ModuleId × Key)
  | .waitTimeout => none
  | .runTimeout  =>
    (s.tracking? c).bind fun info => info.handlerId.map fun h => (h, info.topic.key)

-- The engine when a call has changed what the availability of the handlers is read from.
def prepared (s : TycheEngine) : Call → TycheEngine
  | .tick duration    => s.elapse duration
  | .receive i        => if i.msg.msgType = .request then s.arrive i else s
  | .timeout c reason => (s.marked c reason).elim s fun (h, t) => s.mark (.ofModule h) t
  | .heartbeat msg    =>
    match msg.sender.hash, reported msg.payload with
    | .ok k, .ok v => s.alive k v
    | _,     _     => s
  | .register info    => (s.registerModule info).2
  | .unregister m     => s.unregisterModule m

theorem handleJobTimeout_move : Move (Fails works) (s.prepared (.timeout c r))
    ((handleJobTimeout c r).run (exec deserialize works) s).2 := by
  rw [run_handleJobTimeout, prepared]
  cases hn : s.jobTracking.get? c
  case none =>
    have hm : s.marked c r = none := by cases r <;> simp [marked, tracking?, hn]
    rw [hm]
    exact ⟨rfl, .refl, .idle (fun _ => rfl) (.of_eq rfl)⟩
  case some n =>
    have hi : s.tracking? c = some (s.infos ⟨c, n⟩) := tracking?_eq_some hn
    have hf : Move (Fails works) s ((s.untrack c).fail deserialize works ⟨c, n⟩ r) := by
      have hg : Grows (fun o => ¬o.IsDispatch) s.out
          ((s.untrack c).fail deserialize works ⟨c, n⟩ r).out :=
        fail_grows (s := s.untrack c) ⟨c, n⟩ (fun _ _ _ => id) fun _ _ _ => id
      obtain ⟨os, ps, he⟩ := @fail_eq deserialize works (s.untrack c) ⟨c, n⟩ r
      rw [he] at hg ⊢
      exact ⟨rfl, ⟨rfl, Retains.untrack.tracking, fun _ => rfl⟩, .idle (fun _ => rfl) hg⟩
    cases r
    case waitTimeout => exact hf
    case runTimeout  =>
      cases hh : (s.infos ⟨c, n⟩).handlerId
      case none =>
        rw [marked, hi, Option.bind_some]
        simp only [hh]
        exact hf
      case some h =>
        rw [marked, hi, Option.bind_some]
        simp only [hh, Option.map_some, Option.elim_some]
        generalize hs : s.mark (.ofModule h) (s.infos ⟨c, n⟩).topic.key = s₁
        have hn : s₁.jobTracking.get? (Ref.mk c n).corrId = some (Ref.mk c n).number := hs ▸ hn
        have hx : Tried works (s₁.untrack c) ⟨c, n⟩
          ((retryJob ⟨c, n⟩).run (exec deserialize works) (s₁.untrack c)) := retryJob_tried
        rw [show (s.untrack c).mark (.ofModule h) (s.infos ⟨c, n⟩).topic.key = s₁.untrack c from
          hs ▸ rfl]
        generalize (retryJob ⟨c, n⟩).run (exec deserialize works) (s₁.untrack c) = x at hx ⊢
        obtain ⟨x, s'⟩ := x
        cases x
        case error e => exact retries_move hn hx (.raise e s')
        case ok b    =>
          cases b
          case true  => exact retries_move hn hx (.accept s')
          case false =>
            exact retries_move hn hx <| .putBack s' _ <|
              congrArg (fun f => (f ⟨c, n⟩).origin) hx.infos

theorem recoverJobs_moves {refs : List Ref} (hn : (refs.map Ref.corrId).Nodup)
    (hi : ∀ ref ∈ refs, s.jobTracking.get? ref.corrId = some ref.number) :
    Relation.ReflTransGen (Move (Fails works)) s
      ((each recoverJob refs).run (exec deserialize works) s).2 := by
  induction refs generalizing s
  case nil => exact .refl
  case cons ref refs ih =>
    rw [List.map_cons, List.nodup_cons] at hn
    have hm : Move (Fails works) s ((recoverJob ref).run (exec deserialize works) s).2 :=
      recoverJob_move <| hi ref List.mem_cons_self
    have hu : ∀ c ≠ ref.corrId, Untouched c s
      ((recoverJob ref).run (exec deserialize works) s).2 := fun _ => recoverJob_untouched
    rw [run_each_cons]
    generalize (recoverJob ref).run (exec deserialize works) s = x at hm hu ⊢
    obtain ⟨r, s₁⟩ := x
    cases r
    case error => exact .single hm
    case ok    =>
      refine .head hm <| ih hn.right fun i hm => ?_
      have hne : i.corrId ≠ ref.corrId := fun e => hn.left <| e ▸ List.mem_map_of_mem hm
      exact (hu _ hne).number.trans <| hi i <| List.mem_cons_of_mem _ hm

theorem handleHeartbeat_moves {msg : Message} :
    Relation.ReflTransGen (Move (Fails works)) (s.prepared (.heartbeat msg))
      ((handleHeartbeat msg).run (exec deserialize works) s).2 := by
  rw [prepared]
  cases hk : msg.sender.hash
  case error => rw [run_handleHeartbeat, hk]
  case ok k  =>
    cases hv : reported msg.payload
    case error => rw [run_handleHeartbeat, hk, hv]
    case ok v  =>
      rw [run_heartbeat_alive hk hv]
      refine recoverJobs_moves waiting_nodup fun ref hm => ?_
      have hm := (mem_waiting.mp hm).left
      cases v <;> exact hm

-- The turn that a request takes is lost if its job cannot be sent or cannot be tracked.
def Loses (works : Output → Bool) (i : Incoming) (topic : Hashed) : Prop :=
  Fails works topic ∨ i.msg.msgType = .request ∧
    (∃ q, request i.msg = .ok q ∧ q.topic = topic) ∧ ∃ e, i.msg.correlationId.hash = .error e

theorem tracking_track (hc : i.msg.correlationId.hash = .ok c) (ho : info.origin.Of i) (k : Key)
    (n : ℕ) (h : (s.track c info).jobTracking.get? k = some n) :
    (s.jobTracking.get? k = some n ∧
      ((s.track c info).infos ⟨k, n⟩).origin = (s.infos ⟨k, n⟩).origin) ∨
    (n = s.created ∧ i.msg.correlationId.hash = .ok k ∧
      ((s.track c info).infos ⟨k, n⟩).origin.Of i) := by
  have h : (s.jobTracking.set c s.created).get? k = some n := h
  have hi : (s.track c info).infos ⟨k, n⟩ =
    if Ref.mk k n = ⟨c, s.created⟩ then info else s.infos ⟨k, n⟩ := rfl
  rw [Dict.get?_set] at h
  split at h
  case isTrue hk =>
    cases h
    subst hk
    rw [hi, if_pos rfl]
    exact .inr ⟨rfl, hc, ho⟩
  case isFalse hk =>
    rw [hi, if_neg fun e => hk <| congrArg Ref.corrId e]
    exact .inl ⟨h, rfl⟩

theorem enters_wait {r : Bytes} (hc : i.msg.correlationId.hash = .ok c) (ho : info.origin.Of i) :
    Enters lost i s <| (s.track c info).setPending c r := by
  refine ⟨?_, rfl, tracking_track hc ho, .idle (fun _ => rfl) (.of_eq ?_)⟩
  · simp only [tables, track, retrack, setInfo, setPending]
  · simp only [track, retrack, setInfo, setPending]

theorem enters_send {n : ℕ} {r : Bytes} (hc : i.msg.correlationId.hash = .ok c)
    (ho : info.origin.Of i) (ht : s.Turn info.topic h (s.setRoundRobin k n)) :
    Enters lost i s <|
      (((s.setRoundRobin k n).setPending c r).track c info).emit <| info.dispatch c h := by
  have hi : ((((s.setRoundRobin k n).setPending c r).track c info).emit <|
      info.dispatch c h).infos ⟨c, s.created⟩ = info := if_pos rfl
  refine ⟨?_, rfl, tracking_track hc ho, .send ⟨c, s.created⟩ h ?_ Dict.get?_set_self ?_⟩
  · simp only [tables, emit, track, retrack, setInfo, setPending, setRoundRobin]
  · rw [hi]
    refine ht.of_robin ?_
    simp only [emit, track, retrack, setInfo, setPending]
  · rw [hi]
    simp only [emit, track, retrack, setInfo, setPending, setRoundRobin]

theorem enters_lose {n : ℕ} {r : Bytes} (hc : i.msg.correlationId.hash = .ok c)
    (ho : info.origin.Of i) (ht : s.Turn info.topic h (s.setRoundRobin k n))
    (hl : lost info.topic) : Enters lost i s <|
      ((((s.setRoundRobin k n).setPending c r).track c info).erasePending c).untrack c := by
  refine ⟨?_, rfl, fun k n hk => ?_, .lose info.topic h hl (ht.of_robin ?_) ?_⟩
  · simp only [tables, untrack, erasePending, track, retrack, setInfo, setPending, setRoundRobin]
  · exact tracking_track hc ho k n <| Dict.mem_of_mem_erase hk
  · simp only [untrack, erasePending, track, retrack, setInfo, setPending]
  · simp only [untrack, erasePending, track, retrack, setInfo, setPending, setRoundRobin]

theorem handleJobRequest_moves (hi : i.msg.msgType = .request) :
    let s' := ((handleJobRequest i.identity i.topicFrame i.messageFrame i.msg).run
      (exec deserialize works) s).2
    Move (Loses works i) s s' ∨ Enters (Loses works i) i s s' := by
  dsimp only
  have hm : Move (Loses works i) s s := ⟨rfl, .refl, .idle (fun _ => rfl) (.of_eq rfl)⟩
  rw [run_handleJobRequest]
  cases hq : request i.msg
  case error => exact .inl hm
  case ok q =>
    have ho : ∀ h t, ({ q.info s.now i.identity i.topicFrame i.messageFrame with
        handlerId := h, dispatchTime := t } : TrackingInfo).origin.Of i :=
      fun _ _ => ⟨rfl, request_topic hq, rfl, rfl⟩
    dsimp only
    match hs : s.selectHandler q.topic with
    | .error _  => exact .inl hm
    | .ok none  =>
      dsimp only
      split
      case isTrue =>
        have hg : Grows (fun o => ¬o.IsDispatch) s.out (s.trying works <|
            .noHandler i.msg.correlationId i.identity i.topicFrame i.msg.event).out :=
          trying_grows id
        obtain ⟨os, he⟩ := @trying_eq works s <|
          .noHandler i.msg.correlationId i.identity i.topicFrame i.msg.event
        rw [he] at hg ⊢
        exact .inl ⟨rfl, ⟨rfl, fun _ _ h => h, fun _ => rfl⟩, .idle (fun _ => rfl) hg⟩
      case isFalse =>
        cases hc : i.msg.correlationId.hash
        case error => exact .inl hm
        case ok c  => exact .inr <| enters_wait hc (ho none none)
    | .ok (some (h, s₁)) =>
      have ht := selectHandler_turn hs
      obtain ⟨-, n, rfl⟩ := selectHandler_eq_some hs
      dsimp only
      cases hc : i.msg.correlationId.hash
      case error e =>
        exact .inl ⟨rfl, ⟨rfl, fun _ _ h => h, fun _ => rfl⟩,
          .lose q.topic h (.inr ⟨hi, ⟨q, hq, rfl⟩, e, hc⟩) ht rfl⟩
      case ok c    =>
        dsimp only
        split
        case isTrue     => exact .inr <| enters_send hc (ho (some h) (some s.now)) ht
        case isFalse hw =>
          refine .inr <| enters_lose hc (ho (some h) (some s.now)) ht <| .inl ?_
          exact fails_of_not hw

theorem handleJobResponse_move {tf mf : Bytes} {msg : Message} :
    Move lost s ((handleJobResponse tf mf msg).run (exec deserialize works) s).2 := by
  have hm : Move lost s s := ⟨rfl, .refl, .idle (fun _ => rfl) (.of_eq rfl)⟩
  rw [run_handleJobResponse]
  cases msg.correlationId.hash
  case error => exact hm
  case ok c  =>
    dsimp only
    split
    case h_1 => exact hm
    case h_2 r _ =>
      have hg : Grows (fun o => ¬o.IsDispatch) s.out
          ((s.untrack c).trying works <| .response c r tf mf).out :=
        trying_grows (s := s.untrack c) id
      obtain ⟨os, he⟩ := @trying_eq works (s.untrack c) <| .response c r tf mf
      rw [he] at hg ⊢
      exact ⟨rfl, ⟨rfl, Retains.untrack.tracking, fun _ => rfl⟩, .idle (fun _ => rfl) hg⟩

theorem index_addHandler : (s.addHandler m k).index t = s.index t := by
  rw [addHandler, index, index]
  dsimp only
  split
  case isTrue  => rfl
  case isFalse hn =>
    rw [Dict.getD, Dict.get?_set]
    split
    case isTrue hk  => rw [hk, Dict.getD, Dict.get?_eq_none_iff.mpr hn]; rfl
    case isFalse hk => rfl

theorem Prepares.trans (h : s.Prepares s₁) (h' : s₁.Prepares s₂) : s.Prepares s₂ where
  retains := h.retains.trans h'.retains
  index t := (h'.index t).trans <| h.index t
  out     := h'.out.trans h.out

theorem addInterfaces_prepares {is : List Interface} : s.Prepares (addInterfaces m is s).2 := by
  induction is generalizing s
  case nil => exact .refl
  case cons i is hi =>
    rw [addInterfaces]
    split
    case h_1 => exact .refl
    case h_2 t _ =>
      refine Prepares.trans ?_ hi
      split
      case isTrue  => exact ⟨⟨rfl, fun _ _ h => h, fun _ => rfl⟩, fun _ => index_addHandler, rfl⟩
      case isFalse => exact .refl

theorem unregisterModule_prepares : s.Prepares (s.unregisterModule m) := by
  rw [unregisterModule]
  split
  case isFalse => exact .refl
  case isTrue  =>
    have ho : ∀ ref, (s.orphan m ref).origin = (s.infos ref).origin := by
      intro ref
      rw [orphan]
      split <;> rfl
    exact ⟨⟨rfl, fun _ _ h => h, ho⟩, fun _ => rfl, rfl⟩

theorem arrive_prepares (hi : i.msg.msgType = .request) : s.Prepares (s.arrive i) := by
  rw [arrive, hi]
  cases i.msg.correlationId.hash <;>
    exact ⟨⟨rfl, fun _ _ h => h, fun _ => rfl⟩, fun _ => rfl, rfl⟩

theorem arrive_move (hi : i.msg.msgType ≠ .request) : Move lost s (s.arrive i) := by
  have hg : Grows (fun o => ¬o.IsDispatch) s.out (s.arrive i).out := arrive_grows fun _ _ => id
  rw [arrive] at hg ⊢
  split at hg
  case h_1 h _ => exact absurd h hi
  case h_2     => exact ⟨rfl, ⟨rfl, fun _ _ h => h, fun _ => rfl⟩, .idle (fun _ => rfl) hg⟩
  case h_3     => exact ⟨rfl, .refl, .idle (fun _ => rfl) (.of_eq rfl)⟩

-- The topics for which a call may lose a turn.
def loses (works : Output → Bool) : Call → Hashed → Prop
  | .receive i => Loses works i
  | _          => Fails works

theorem prepares : s.Prepares (s.prepared call) := by
  cases call
  case tick       => exact ⟨⟨rfl, fun _ _ h => h, fun _ => rfl⟩, fun _ => rfl, rfl⟩
  case receive i  =>
    rw [prepared]
    split
    case isTrue hi => exact arrive_prepares hi
    case isFalse   => exact .refl
  case timeout c r =>
    rw [prepared]
    cases s.marked c r
    case none   => exact .refl
    case some x => exact ⟨⟨rfl, fun _ _ h => h, fun _ => rfl⟩, fun _ => rfl, rfl⟩
  case heartbeat  =>
    rw [prepared]
    split
    case h_1 v _ _ => cases v <;> exact ⟨⟨rfl, fun _ _ h => h, fun _ => rfl⟩, fun _ => rfl, rfl⟩
    case h_2       => exact .refl
  case register info =>
    have hp : s.Prepares { s with modules := s.modules.insert info.moduleId } :=
      ⟨⟨rfl, fun _ _ h => h, fun _ => rfl⟩, fun _ => rfl, rfl⟩
    exact hp.trans addInterfaces_prepares
  case unregister => exact unregisterModule_prepares

-- A call changes the tables, if it does, before it takes turns.
theorem perform_moves :
    Relation.ReflTransGen (Move (loses works call)) (s.prepared call)
      (s.perform deserialize works call).2 ∨
    ∃ i, call = .receive i ∧
      Enters (Loses works i) i (s.prepared call) (s.perform deserialize works call).2 := by
  cases call
  case tick => exact .inl .refl
  case receive i =>
    rw [perform, Python.run, Python.route, prepared]
    split
    case isTrue hi =>
      rw [hi]
      exact (handleJobRequest_moves hi).imp .single fun h => ⟨i, rfl, h⟩
    case isFalse hi =>
      split
      case h_1 he => exact absurd he hi
      case h_2    => exact .inl <| .head (arrive_move hi) <| .single handleJobResponse_move
      case h_3    => exact .inl <| .single <| arrive_move hi
  case timeout    => exact .inl <| .single handleJobTimeout_move
  case heartbeat  => exact .inl handleHeartbeat_moves
  case register   => exact .inl .refl
  case unregister => exact .inl .refl

end TycheEngine

end Python
