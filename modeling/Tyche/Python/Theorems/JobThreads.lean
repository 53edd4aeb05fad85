import Tyche.Python.JobThreads
import Tyche.Python.Theorems.Broker

namespace Python

open Proc Threads

-- An output that tells the requester of a job how it ended.
def Output.Replies (c : Key) : Output → Prop
  | .response d ..  => d = c
  | .timedOut d ..  => d = c
  | .noHandler v .. => v.hash = .ok c
  | _               => False

instance {c : Key} : ∀ o : Output, Decidable (o.Replies c)
  | .response d .. | .timedOut d .. => inferInstanceAs <| Decidable (d = c)
  | .noHandler v ..                 => inferInstanceAs <| Decidable (v.hash = .ok c)
  | .answer .. | .dispatch .. | .deadLetter .. => isFalse id

def TycheEngine.replies (s : TycheEngine) (c : Key) : ℕ :=
  s.out.countP fun o => o.Replies c

namespace Routing

variable {deserialize : Bytes → Option Message} {works : Bool} {α β : Type} {s s' : Routing}
variable {c d : Key} {i : JobThread} {k : Option JobTask} {topic : Hashed}

-- What a thread has to do with the reply to a job. The router has yet to keep the requester of a
-- request, or it has found the requester of a response, and before or after it forwards the response
-- has yet to forget the requester. The timeout worker has made the engine forget the requester whom
-- it has yet to tell.
inductive View
  | free
  | requesting (c : Key)
  | forwarding (c : Key)
  | forwarded (c : Key)
  | failing (c : Key)
deriving DecidableEq

def View.found : View → Option Key
  | .forwarding c | .forwarded c => some c
  | _                            => none

-- How many replies to the job there can still be: by its request, by its requester being known, or by
-- its failure.
def rights (s : Routing) (v : JobThread → View) (c : Key) : ℕ :=
  (if c ∈ s.engine.received then 0 else 1) +
  (if v .router = .requesting c then 1 else 0) +
  (if c ∈ s.engine.pendingJobs ∧ v .router ≠ .forwarded c then 1 else 0) +
  (if v .timeout = .failing c then 1 else 0)

structure Inv (s : Routing) (v : JobThread → View) : Prop where
  once    : ∀ c, s.engine.replies c + s.rights v c ≤ 1
  found   : s.forwarding = (v .router).found
  pending : ∀ c ∈ s.forwarding, c ∈ s.engine.pendingJobs

variable {v : JobThread → View}

-- A step after which there can be no more replies than before.
theorem Inv.fewer {v' : JobThread → View} (h : Inv s v)
    (hr : ∀ c, s'.engine.replies c + s'.rights v' c ≤ s.engine.replies c + s.rights v c)
    (hf : s'.forwarding = (v' .router).found) (hp : ∀ c ∈ s'.forwarding, c ∈ s'.engine.pendingJobs) :
    Inv s' v' where
  once c  := (hr c).trans <| h.once c
  found   := hf
  pending := hp

-- What replies to jobs depend on is the same.
structure Alike (s s' : Routing) : Prop where
  received   : s'.engine.received = s.engine.received
  pending    : s'.engine.pendingJobs = s.engine.pendingJobs
  replies    : ∀ c, s'.engine.replies c = s.engine.replies c
  forwarding : s'.forwarding = s.forwarding

theorem Inv.alike (h : Inv s v) (ha : Alike s s') : Inv s' v := by
  refine h.fewer (fun c => ?_) (ha.forwarding.trans h.found) fun c hc => ?_
  · rw [rights, rights, ha.received, ha.pending, ha.replies]
  · rw [ha.pending]
    exact h.pending c <| ha.forwarding ▸ hc

theorem replies_emit {e : TycheEngine} {o : Output} :
    (e.emit o).replies c = e.replies c + if o.Replies c then 1 else 0 := by
  simp [TycheEngine.replies, TycheEngine.emit, List.countP_append, List.countP_singleton]

theorem alike_emit {o : Output} (h : ∀ c, ¬o.Replies c) : Alike s (s.setEngine <| s.engine.emit o) where
  received   := rfl
  pending    := rfl
  replies c  := by rw [setEngine, replies_emit, if_neg (h c), Nat.add_zero]
  forwarding := rfl

-- The operations that have nothing to do with replies.
def Quiet : Op α → Prop
  | .getPending _ | .setPending .. | .popPending _ | .delPending _ => False
  | .send o => ∀ c, ¬o.Replies c
  | _       => True

-- The only table whose keys may be missing.
def Err (e : Error) : Prop :=
  ∀ t, e = .keyError (some t) → t = .unavailableHandlers

theorem alike_of_quiet {o : Op α} (ho : Quiet o) : Alike s (s.exec deserialize works o).2 := by
  have hs : Alike s s := ⟨rfl, rfl, fun _ => rfl, rfl⟩
  cases o
  case getPending | setPending | popPending | delPending => exact ho.elim
  case getMarks | addMark | popMarks =>
    simp only [exec, TycheEngine.exec]
    split <;> exact ⟨rfl, rfl, fun _ => rfl, rfl⟩
  case send o =>
    simp only [exec, TycheEngine.exec]
    split
    case isTrue  => exact alike_emit ho
    case isFalse => exact hs
  case persist c topic frame =>
    simp only [exec, TycheEngine.exec]
    cases deserialize frame
    case none     => exact hs
    case some msg =>
      dsimp only
      split
      case isTrue  => exact alike_emit fun _ => id
      case isFalse => exact hs
  all_goals exact ⟨rfl, rfl, fun _ => rfl, rfl⟩

theorem err_exceededBy {w : Value} {time : ℚ} {e : Error} (h : w.exceededBy time = .error e) :
    Err e := by
  rintro t rfl
  cases w
  case decimal x _ => cases x <;> cases h
  all_goals cases h

theorem err_timedOut {time : ℚ} {info : TrackingInfo} {e : Error}
    (h : timedOut time info = .error e) : Err e := by
  have hx {w : Value} {d : ℚ} {r : Reason}
      (h : (do if ← w.exceededBy d then return some r else return none) = .error e) : Err e := by
    cases hw : w.exceededBy d
    case error => rw [hw] at h; cases h; exact err_exceededBy hw
    case ok b  => rw [hw] at h; cases b <;> cases h
  rw [timedOut] at h
  split at h
  case h_1 => exact hx h
  case h_2 => cases h; rintro _ ⟨⟩
  case h_3 => exact hx h

theorem err_timedOutJobs {time : ℚ} {jobs : List (Key × TrackingInfo)} {e : Error}
    (h : timedOutJobs time jobs = .error e) : Err e := by
  induction jobs
  case nil            => cases h
  case cons j jobs hi =>
    rw [timedOutJobs] at h
    cases ht : timedOut time j.2
    case error => rw [ht] at h; cases h; exact err_timedOut ht
    case ok    =>
      rw [ht] at h
      cases hj : timedOutJobs time jobs
      case error => rw [hj] at h; cases h; exact hi hj
      case ok    => rw [hj] at h; cases h

theorem err_of_quiet {o : Op α} {e : Error} (ho : Quiet o)
    (h : (s.exec deserialize works o).1 = .error e) : Err e := by
  cases o
  case getPending | setPending | popPending | delPending => exact ho.elim
  case findTimedOut => exact err_timedOutJobs h
  case getMarks | addMark | popMarks =>
    simp only [exec, TycheEngine.exec] at h
    split at h <;> cases h
    rintro _ ⟨⟩
    rfl
  case send =>
    simp only [exec, TycheEngine.exec] at h
    split at h <;> cases h
    rintro _ ⟨⟩
  case persist frame =>
    simp only [exec, TycheEngine.exec] at h
    cases hd : deserialize frame
    case none     => rw [hd] at h; cases h; rintro _ ⟨⟩
    case some msg =>
      rw [hd] at h
      dsimp only at h
      split at h <;> cases h
      rintro _ ⟨⟩
  all_goals cases h

section Quiet

variable {handler topicKey : Key} {h : ModuleId} {hs : List ModuleId} {ref : Ref} {o : Output}

theorem quiet_isHandlerAvailable : (isHandlerAvailable h topic).All Quiet := by
  refine All.bind ?_ fun b => ?_
  case refine_1 =>
    refine (all_op trivial).bind fun b => ?_
    cases b
    case false => trivial
    case true  => exact (all_op trivial).bind fun _ => trivial
  case refine_2 =>
    cases b
    case true  => trivial
    case false =>
      refine (all_op trivial).bind fun _ => All.lift fun b _ => ?_
      cases b
      case false => trivial
      case true  => exact All.lift fun _ _ => trivial

theorem quiet_nextHandler : (nextHandler topicKey h hs).All Quiet := by
  refine (all_op trivial).bind fun _ => All.bind (all_op trivial) fun _ => ?_
  trivial

theorem quiet_trySend (ho : ∀ c, ¬o.Replies c) : (trySend o).All Quiet := by
  refine All.catching ((all_op ho).bind fun _ => ?_) fun _ => ?_
  all_goals trivial

theorem quiet_retryJob : (retryJob ref).All Quiet := by
  refine (all_op trivial).bind fun info => (all_op trivial).bind fun handlers => ?_
  refine (All.select fun _ => quiet_isHandlerAvailable).bind fun available => ?_
  cases available
  case nil       => trivial
  case cons h hs =>
    refine quiet_nextHandler.bind fun handler => (quiet_trySend fun _ => id).bind fun b => ?_
    cases b
    case false => trivial
    case true  =>
      exact (all_op trivial).bind fun _ => (all_op trivial).bind fun _ => (all_op trivial).bind
        fun _ => (all_op trivial).bind fun _ => trivial

theorem quiet_markUnavailable : (markUnavailable handler topicKey).All Quiet := by
  refine (all_op trivial).bind fun b => ?_
  cases b
  case true  => exact all_op trivial
  case false => exact (all_op trivial).bind fun _ => all_op trivial

theorem quiet_recoverJob : (recoverJob ref).All Quiet := by
  refine (all_op trivial).bind fun _ => quiet_retryJob.bind fun b => ?_
  cases b
  case true  => trivial
  case false => exact all_op trivial

theorem quiet_recoverHandler : (recoverHandler handler).All Quiet := by
  refine (all_op trivial).bind fun b => ?_
  cases b
  case false => trivial
  case true  =>
    refine (all_op trivial).bind fun topics => ?_
    split
    case isTrue  => trivial
    case isFalse => exact (all_op trivial).bind fun _ => All.each fun _ => quiet_recoverJob

theorem quiet_handleHeartbeat {msg : Message} : (handleHeartbeat msg).All Quiet := by
  refine All.lift fun _ _ => All.lift fun b _ => ?_
  cases b
  case false => exact quiet_recoverHandler
  case true  => exact All.lift fun _ _ => (all_op trivial).bind fun _ => quiet_recoverHandler

end Quiet

-- The correlation id under which a request is kept.
def requestId (deserialize : Bytes → Option Message) (frames : List Bytes) : Option Key :=
  (incoming deserialize frames).bind fun i =>
    if i.msg.msgType = .request then i.msg.correlationId.hash.toOption else none

-- A request has a correlation id of its own.
def Fresh (deserialize : Bytes → Option Message) (s : Routing) : JobTask → Prop
  | .receive frames => ∀ c ∈ requestId deserialize frames, c ∉ s.engine.received
  | _               => True

-- The timeout worker only withdraws a job whose requester is known, and to whom no response is being
-- forwarded.
def Undisputed (s : Routing) (i : JobThread) : Op α → Prop
  | .popPending c => i = .timeout → c ∈ s.engine.pendingJobs ∧ s.forwarding ≠ some c
  | _             => True

def distinct (deserialize : Bytes → Option Message) :
    Condition Op Routing JobThread JobTask Bool where
  enter _ k s    := s.Fresh deserialize k
  exec _ _ _ _ _ := True

def undisputed (deserialize : Bytes → Option Message) :
    Condition Op Routing JobThread JobTask Bool where
  enter _ k s    := s.Fresh deserialize k
  exec i _ _ o s := s.Undisputed i o

instance : ∀ k, Decidable (s.Fresh deserialize k)
  | .receive _ => inferInstanceAs <| Decidable (∀ _ ∈ _, _)
  | .checkTimeouts | .heartbeat _ | .register _ | .unregister _ | .tick _ => isTrue trivial

instance : ∀ o : Op α, Decidable (s.Undisputed i o)
  | .popPending _ => inferInstanceAs <| Decidable (_ → _ ∧ _)
  | .time | .getHandlers _ | .isMarked _ | .getMarks _ | .newMarks _ | .addMark .. | .popMarks _
  | .getReport _ | .setReport .. | .getRoundRobin _ | .setRoundRobin .. | .getPending _
  | .setPending .. | .delPending _ | .track .. | .untrack _ | .retrack _ | .read _ | .setHandler ..
  | .setDispatchTime .. | .findTimedOut _ | .findWaiting _ | .send _ | .persist .. => isTrue trivial

instance {k : JobTask} : Decidable ((distinct deserialize).enter i k s) :=
  inferInstanceAs <| Decidable (s.Fresh deserialize k)

instance {o : Op α} : Decidable ((distinct deserialize).exec i k works o s) :=
  isTrue trivial

instance {k : JobTask} : Decidable ((undisputed deserialize).enter i k s) :=
  inferInstanceAs <| Decidable (s.Fresh deserialize k)

instance {o : Op α} : Decidable ((undisputed deserialize).exec i k works o s) :=
  inferInstanceAs <| Decidable (s.Undisputed i o)

def outline (deserialize : Bytes → Option Message) : Outline (routing deserialize) View where
  Inv  := Inv
  cond := undisputed deserialize
  Err  := Err

-- A thread whose code raises takes no further steps.
def Ends (r : Except Error α) (g : View) : Prop :=
  ∀ a, r = .ok a → g = .free

variable {g : View} {o : Op α} {f : α → Py β}

theorem keeps_of_quiet {p : Py α} (hp : p.All Quiet) :
    Keeps (outline deserialize) i k (fun _ g' => g' = g) p g := by
  refine keeps_of_all hp fun o s v x r s' ho hI he => ?_
  obtain ⟨rfl, rfl⟩ : (s.exec deserialize x o).1 = r ∧ (s.exec deserialize x o).2 = s' := by
    cases he
    exact ⟨rfl, rfl⟩
  exact ⟨fun e => err_of_quiet ho, hI.alike <| alike_of_quiet ho⟩

theorem keeps_quiet {p : Py α} {f : α → Py β} (hp : p.All Quiet)
    (hf : ∀ a, Keeps (outline deserialize) i k Ends (f a) g) :
    Keeps (outline deserialize) i k Ends (p >>= f) g := by
  refine keeps_bind <| (keeps_of_quiet hp).mono fun r g' hg => ?_
  subst hg
  cases r
  case ok a    => exact hf a
  case error e => rintro a ⟨⟩

theorem keeps_last {p : Py α} (hp : p.All Quiet) :
    Keeps (outline deserialize) i k Ends p .free :=
  (keeps_of_quiet hp).mono fun _ _ hg _ _ => hg

-- An operation of a thread that gets another view by it.
theorem keeps_view {o : Op α} {Q : Except Error α → View → Prop}
    (h : ∀ s v works, v i = g → Inv s v → s.Undisputed i o →
      (∀ e, (s.exec deserialize works o).1 = .error e → Err e) ∧ ∃ g',
        Inv (s.exec deserialize works o).2 (Function.update v i g') ∧
          Q (s.exec deserialize works o).1 g') :
    Keeps (outline deserialize) i k Q (op o) g := by
  refine keeps_op fun s v x r s' hv hI hc he => ?_
  obtain ⟨rfl, rfl⟩ : (s.exec deserialize x o).1 = r ∧ (s.exec deserialize x o).2 = s' := by
    cases he
    exact ⟨rfl, rfl⟩
  exact h s v x hv hI hc

-- After sending something that is a reply to at most this job.
structure Tells (s : Routing) (c : Key) (e : TycheEngine) : Prop where
  replies  : ∀ d, e.replies d ≤ s.engine.replies d + if d = c then 1 else 0
  received : e.received = s.engine.received
  pending  : e.pendingJobs = s.engine.pendingJobs

namespace Inv

variable {r : Bytes} {e : TycheEngine}

-- The router keeps the requester of a request.
theorem setPending (h : Inv s v) (hv : v .router = .requesting c) :
    Inv (s.setEngine <| s.engine.setPending c r) (Function.update v .router .free) := by
  have hf : s.forwarding = none := by rw [h.found, hv]; rfl
  refine h.fewer (fun d => ?_) hf fun d hd => absurd (hf.symm.trans hd) (by simp)
  simp only [rights, setEngine, TycheEngine.setPending, Dict.mem_set, Function.update_self, hv]
  grind [TycheEngine.replies]

-- The router refuses a request, whether or not it can tell the requester.
theorem refuse (h : Inv s v) (hv : v .router = .requesting c) (ht : Tells s c e) :
    Inv (s.setEngine e) (Function.update v .router .free) := by
  have hf : s.forwarding = none := by rw [h.found, hv]; rfl
  refine h.fewer (fun d => ?_) hf fun d hd => absurd (hf.symm.trans hd) (by simp)
  have := ht.replies d
  simp only [rights, setEngine, ht.received, ht.pending, Function.update_self, hv]
  grind

-- The router gives up a job that it could not send to a handler.
theorem giveUp (h : Inv s v) (hv : v .router = .free) :
    Inv (s.setEngine <| s.engine.erasePending c) v := by
  have hf : s.forwarding = none := by rw [h.found, hv]; rfl
  refine h.fewer (fun d => ?_) h.found fun d hd => absurd (hf.symm.trans hd) (by simp)
  simp only [rights, setEngine, TycheEngine.erasePending, Dict.mem_erase, hv]
  grind [TycheEngine.replies]

-- The router finds the requester of a response.
theorem getPending (h : Inv s v) (hv : v .router = .free) (hc : c ∈ s.engine.pendingJobs) :
    Inv { s with forwarding := some c } (Function.update v .router (.forwarding c)) := by
  refine h.fewer (fun d => ?_) rfl fun d hd => Option.some.inj hd ▸ hc
  simp only [rights, Function.update_self, hv]
  grind

-- The router forwards a response, whether or not it succeeds.
theorem forward (h : Inv s v) (hv : v .router = .forwarding c) (ht : Tells s c e) :
    Inv (s.setEngine e) (Function.update v .router (.forwarded c)) := by
  have hf : s.forwarding = some c := by rw [h.found, hv]; rfl
  refine h.fewer (fun d => ?_) hf fun d hd => ht.pending ▸ h.pending d hd
  have := ht.replies d
  have := h.pending c hf
  simp only [rights, setEngine, ht.received, ht.pending, Function.update_self, hv]
  grind

theorem delPending (h : Inv s v) (hv : v .router = .forwarded c) :
    Inv ⟨s.engine.erasePending c, none⟩ (Function.update v .router .free) := by
  refine h.fewer (fun d => ?_) rfl (by simp)
  simp only [rights, TycheEngine.erasePending, Dict.mem_erase, Function.update_self, hv]
  grind [TycheEngine.replies]

-- The timeout worker withdraws a job that nobody disputes.
theorem withdraw (h : Inv s v) (hv : v .timeout = .free) (hc : c ∈ s.engine.pendingJobs)
    (hn : s.forwarding ≠ some c) :
    Inv (s.setEngine <| s.engine.erasePending c) (Function.update v .timeout (.failing c)) := by
  have hr : v .router ≠ .forwarded c := fun hr => hn <| by rw [h.found, hr]; rfl
  refine h.fewer (fun d => ?_) h.found fun d hd => ?_
  · simp only [rights, setEngine, TycheEngine.erasePending, Dict.mem_erase, Function.update_self, hv]
    grind [TycheEngine.replies]
  · exact Dict.mem_erase.mpr ⟨fun e => hn <| e ▸ hd, h.pending d hd⟩

-- The timeout worker tells the requester, whether or not it succeeds.
theorem fail (h : Inv s v) (hv : v .timeout = .failing c) (ht : Tells s c e) :
    Inv (s.setEngine e) (Function.update v .timeout .free) := by
  refine h.fewer (fun d => ?_) h.found fun d hd => ht.pending ▸ h.pending d hd
  have := ht.replies d
  simp only [rights, setEngine, ht.received, ht.pending, Function.update_self, hv]
  grind

-- A request arrives under a correlation id of its own.
theorem arrive (h : Inv s v) (hv : v .router = .free) (hc : c ∉ s.engine.received) :
    Inv (s.setEngine <| s.engine.logRequest c) (Function.update v .router (.requesting c)) := by
  have hf : s.forwarding = none := by rw [h.found, hv]; rfl
  refine h.fewer (fun d => ?_) hf fun d hd => absurd (hf.symm.trans hd) (by simp)
  simp only [rights, setEngine, TycheEngine.logRequest, List.mem_append, List.mem_singleton,
    Function.update_self, hv]
  grind [TycheEngine.replies]

end Inv

theorem tells_send {o : Output} (ho : ∀ d, o.Replies d → d = c) :
    ∃ e, (s.exec deserialize works (.send o)).2 = s.setEngine e ∧ Tells s c e := by
  simp only [exec, TycheEngine.exec]
  split
  case isFalse => exact ⟨s.engine, rfl, fun _ => Nat.le_add_right .., rfl, rfl⟩
  case isTrue  =>
    refine ⟨s.engine.emit o, rfl, fun d => ?_, rfl, rfl⟩
    rw [replies_emit]
    have := ho d
    split <;> simp_all

-- A thread sends a reply, whether or not it succeeds.
theorem keeps_trySend {o : Output} {g' : View} (ho : ∀ d, o.Replies d → d = c)
    (h : ∀ {s v e}, Inv s v → v i = g → Tells s c e → Inv (s.setEngine e) (Function.update v i g')) :
    Keeps (outline deserialize) i k (fun r g => g = g' ∧ ∃ b, r = .ok b) (trySend o) g := by
  refine keeps_catching <| keeps_bind <| keeps_view fun s v works hv hI _ => ?_
  obtain ⟨e, he, ht⟩ : ∃ e, (s.exec deserialize works (.send o)).2 = s.setEngine e ∧ Tells s c e :=
    tells_send ho
  rw [he]
  refine ⟨fun e he => ?_, g', h hI hv ht, ?_⟩
  · simp only [exec, TycheEngine.exec] at he
    split at he <;> cases he
    rintro _ ⟨⟩
  · cases (s.exec deserialize works (.send o)).1 <;> exact ⟨rfl, _, rfl⟩

theorem keeps_delPending : Keeps (outline deserialize) .router k Ends (op (.delPending c))
    (.forwarded c) := by
  refine keeps_view fun s v works hv hI _ => ?_
  have hc : c ∈ s.engine.pendingJobs := hI.pending c <| by rw [hI.found, hv]; rfl
  simp only [exec, TycheEngine.exec, if_pos hc]
  exact ⟨fun _ he => (by cases he), View.free, hI.delPending hv, fun _ _ => rfl⟩

theorem keeps_handleJobResponse {tf mf : Bytes} {msg : Message} :
    Keeps (outline deserialize) .router k Ends (handleJobResponse tf mf msg) .free := by
  refine keeps_quiet trivial fun c => keeps_bind <| keeps_view fun s v works hv hI _ => ?_
  refine ⟨fun _ he => (by cases he), ?_⟩
  simp only [exec, TycheEngine.exec, nextForwarding]
  cases hp : s.engine.pendingJobs.get? c
  case none   =>
    have hf : s.forwarding = none := by rw [hI.found, hv]; rfl
    rw [if_neg <| Dict.get?_eq_none_iff.mp hp, ← hf]
    exact ⟨.free, by rwa [← hv, Function.update_eq_self], fun _ _ => rfl⟩
  case some r =>
    have hc : c ∈ s.engine.pendingJobs := Dict.mem_of_get? hp
    rw [if_pos hc]
    refine ⟨.forwarding c, hI.getPending hv hc, keeps_quiet (all_op trivial) fun _ => ?_⟩
    refine keeps_bind <| (keeps_trySend ?_ Inv.forward).mono ?_
    case refine_1 => exact fun _ => Eq.symm
    case refine_2 =>
      rintro _ _ ⟨rfl, _, rfl⟩
      exact keeps_delPending

theorem keeps_failJob {ref : Ref} {reason : Reason} :
    Keeps (outline deserialize) .timeout k Ends (failJob ref reason) .free := by
  refine keeps_quiet (all_op trivial) fun info => ?_
  have hp : Keeps (outline deserialize) .timeout k Ends (do
      op (.popPending ref.corrId)
      let _ ← trySend (.timedOut ref.corrId reason info.requesterId info.topicFrame info.topic.value))
      .free := by
    refine keeps_bind <| keeps_view fun s v works hv hI hu => ?_
    obtain ⟨hc, hn⟩ := hu rfl
    refine ⟨fun _ he => (by cases he), .failing ref.corrId, hI.withdraw hv hc hn, ?_⟩
    refine keeps_bind <| (keeps_trySend ?_ Inv.fail).mono ?_
    case refine_1 => exact fun _ => Eq.symm
    case refine_2 =>
      rintro _ _ ⟨rfl, _, rfl⟩
      exact fun _ _ => rfl
  split
  case isTrue  =>
    refine keeps_quiet (All.catching (all_op trivial) fun _ => ?_) fun _ => hp
    trivial
  case isFalse => exact hp

theorem keeps_handleJobTimeout {reason : Reason} :
    Keeps (outline deserialize) .timeout k Ends (handleJobTimeout c reason) .free := by
  refine keeps_quiet (all_op trivial) fun found => ?_
  cases found
  case none     => exact fun _ _ => rfl
  case some ref =>
    refine keeps_quiet (all_op trivial) fun info => ?_
    split
    case isFalse => exact keeps_failJob
    case isTrue  =>
      refine keeps_last <| (all_op trivial).bind fun info => quiet_markUnavailable.bind fun _ =>
        quiet_retryJob.bind fun b => ?_
      cases b
      case true  => trivial
      case false =>
        exact (all_op trivial).bind fun _ => (all_op trivial).bind fun _ => all_op trivial

theorem keeps_checkTimeouts : Keeps (outline deserialize) .timeout k Ends checkTimeouts .free := by
  refine keeps_quiet (all_op trivial) fun now => keeps_quiet (all_op trivial) fun jobs => ?_
  refine keeps_each (fun job => keeps_handleJobTimeout.mono fun r g h => ?_) fun _ _ => rfl
  cases r
  case ok    => exact h () rfl
  case error => rintro _ ⟨⟩

-- The view of a router that begins with a request.
def requestView (msg : Message) : View :=
  match msg.correlationId.hash with
  | .ok c    => .requesting c
  | .error _ => .free

theorem keeps_setPending {r : Bytes} {Q : Except Error Unit → View → Prop} (hq : Q (.ok ()) .free) :
    Keeps (outline deserialize) .router k Q (op (.setPending c r)) (.requesting c) :=
  keeps_view fun _ _ _ hv hI _ => ⟨fun _ he => (by cases he), .free, hI.setPending hv, hq⟩

theorem keeps_popPending {Q : Except Error Unit → View → Prop} (hq : Q (.ok ()) .free) :
    Keeps (outline deserialize) .router k Q (op (.popPending c)) .free := by
  refine keeps_view fun s v works hv hI _ => ⟨fun _ he => (by cases he), .free, ?_, hq⟩
  rw [← hv, Function.update_eq_self]
  exact hI.giveUp hv

theorem keeps_noHandler {r tf : Bytes} {w : Value} {msg : Message} :
    Keeps (outline deserialize) .router k (fun _ g => g = .free)
      (trySend (.noHandler msg.correlationId r tf w)) (requestView msg) := by
  rw [requestView]
  cases hh : msg.correlationId.hash
  case ok c    =>
    refine (keeps_trySend (fun d hd => ?_) Inv.refuse).mono fun _ _ => And.left
    cases hh.symm.trans hd
    rfl
  case error e =>
    refine keeps_of_quiet <| quiet_trySend fun d hd => ?_
    cases hh.symm.trans hd

theorem keeps_handleJobRequest {identity tf mf : Bytes} {msg : Message} :
    Keeps (outline deserialize) .router k Ends (handleJobRequest identity tf mf msg)
      (requestView msg) := by
  refine keeps_quiet (all_op trivial) fun now => keeps_quiet trivial fun wait => ?_
  refine keeps_quiet trivial fun run => keeps_quiet trivial fun topic => ?_
  refine keeps_quiet (all_op trivial) fun handlers => ?_
  refine keeps_quiet (All.select fun _ => quiet_isHandlerAvailable) fun available => ?_
  have hl {f : Key → Py Unit}
      (hf : ∀ c, Keeps (outline deserialize) .router k Ends (f c) (.requesting c)) :
      Keeps (outline deserialize) .router k Ends (lift msg.correlationId.hash >>= f)
        (requestView msg) := by
    rw [requestView]
    cases msg.correlationId.hash
    case ok c    => exact hf c
    case error e => exact fun _ he => (by cases he)
  cases available
  case nil       =>
    dsimp only
    split
    case isTrue  =>
      refine keeps_bind <| keeps_noHandler.mono fun r g hg => ?_
      cases r
      case ok    => exact fun _ _ => hg
      case error => exact fun _ he => (by cases he)
    case isFalse =>
      exact hl fun c => keeps_quiet (all_op trivial) fun _ => keeps_setPending fun _ _ => rfl
  case cons h hs =>
    refine keeps_quiet quiet_nextHandler fun handler => hl fun c => ?_
    refine keeps_bind <| keeps_setPending <| keeps_quiet (all_op trivial) fun _ => ?_
    refine keeps_quiet (quiet_trySend fun _ => id) fun b => ?_
    cases b
    case true  => exact fun _ _ => rfl
    case false =>
      refine keeps_bind <| keeps_popPending <| keeps_last <| (all_op trivial).bind fun _ => ?_
      trivial

theorem Alike.of_eq {e : TycheEngine} (hc : e.received = s.engine.received)
    (hp : e.pendingJobs = s.engine.pendingJobs) (ho : e.out = s.engine.out) :
    Alike s (s.setEngine e) :=
  ⟨hc, hp, fun c => by rw [setEngine, TycheEngine.replies, ho, TycheEngine.replies], rfl⟩

theorem alike_addInterfaces {m : ModuleId} {is : List Interface} {e : TycheEngine}
    (h : Alike s (s.setEngine e)) : Alike s (s.setEngine (TycheEngine.addInterfaces m is e).2) := by
  induction is generalizing e
  case nil          => exact h
  case cons i is hi =>
    rw [TycheEngine.addInterfaces]
    cases i.eventType.hash
    case error => exact h
    case ok    =>
      refine hi ?_
      split
      case isTrue  => exact ⟨h.received, h.pending, h.replies, rfl⟩
      case isFalse => exact h

theorem alike_unregisterModule {m : ModuleId} :
    Alike s (s.setEngine <| s.engine.unregisterModule m) := by
  rw [TycheEngine.unregisterModule]
  split <;> exact .of_eq rfl rfl rfl

theorem keeps_catching_all {p : Py Unit} (hp : p.All Quiet) :
    Keeps (outline deserialize) i k Ends (p.catching fun _ => pure ()) .free := by
  refine keeps_last <| hp.catching fun _ => ?_
  trivial

theorem keeps_route (h : Inv s v) (hv : v .router = .free) {m : Incoming}
    (hc : ∀ c, m.msg.msgType = .request → m.msg.correlationId.hash = .ok c → c ∉ s.engine.received) :
    ∃ g, Inv (s.setEngine <| s.engine.arrive m) (Function.update v .router g) ∧
      Keeps (outline deserialize) .router k Ends (route m) g := by
  have hf {e : TycheEngine} (ha : Alike s (s.setEngine e)) :
      Inv (s.setEngine e) (Function.update v .router .free) := by
    rw [← hv, Function.update_eq_self]
    exact h.alike ha
  rw [route, TycheEngine.arrive]
  cases hm : m.msg.msgType
  case request  =>
    refine ⟨requestView m.msg, ?_, keeps_handleJobRequest⟩
    rw [requestView]
    cases hh : m.msg.correlationId.hash
    case ok c    => exact h.arrive hv <| hc c hm hh
    case error e => exact hf ⟨rfl, rfl, fun _ => rfl, rfl⟩
  case response =>
    refine ⟨.free, ?_, keeps_handleJobResponse⟩
    cases m.msg.correlationId.hash
    case ok c    => exact hf <| alike_emit fun _ => id
    case error e => exact hf ⟨rfl, rfl, fun _ => rfl, rfl⟩
  all_goals exact ⟨.free, hf ⟨rfl, rfl, fun _ => rfl, rfl⟩, fun _ _ => rfl⟩

theorem begins : Begins (outline deserialize) fun _ => Ends := by
  intro i k s v s' p hI hv hc he
  have hv : v i = .free := hv () rfl
  have hf {i : JobThread} {s' : Routing} {p : Py Unit} (hv : v i = .free) (ha : Alike s s')
      (hp : Keeps (outline deserialize) i (some k) Ends p .free) :
      ∃ g, Inv s' (Function.update v i g) ∧ Keeps (outline deserialize) i (some k) Ends p g := by
    refine ⟨.free, ?_, hp⟩
    rw [← hv, Function.update_eq_self]
    exact hI.alike ha
  have hs : Alike s s := ⟨rfl, rfl, fun _ => rfl, rfl⟩
  have hd {i : JobThread} : Keeps (outline deserialize) i (some k) Ends (pure ()) .free :=
    fun _ _ => rfl
  cases i <;> cases k <;> simp only [routing, enter, reduceCtorEq] at he
  case router.receive frames =>
    cases hm : incoming deserialize frames
    case none   => rw [hm] at he; cases he; exact hf hv hs hd
    case some m =>
      rw [hm] at he
      cases he
      refine keeps_route hI hv fun c hr hh => hc c ?_
      rw [requestId, hm, Option.bind_some, if_pos hr, hh]
      rfl
  case timeout.checkTimeouts =>
    cases he
    exact hf hv hs keeps_checkTimeouts
  case heartbeat.heartbeat frames =>
    cases hb : heartbeat? deserialize frames
    case none     => rw [hb] at he; cases he; exact hf hv hs hd
    case some msg => rw [hb] at he; cases he; exact hf hv hs <| keeps_catching_all quiet_handleHeartbeat
  case registration.register info =>
    cases he
    exact hf hv (alike_addInterfaces <| .of_eq rfl rfl rfl) hd
  case registration.unregister m =>
    cases he
    exact hf hv alike_unregisterModule hd
  case clock.tick d =>
    split at he <;> cases he
    exact hf hv (.of_eq rfl rfl rfl) hd

theorem start_sound {now : ℚ} : Sound (outline deserialize) (fun _ => Ends) (.start <| .start now) := by
  refine ⟨fun _ => .free, ⟨fun c => ?_, rfl, fun _ hc => by cases hc⟩, fun _ _ _ => rfl⟩
  simp [rights, Threads.start, start, TycheEngine.start, TycheEngine.replies]

end Routing

namespace routing

open Routing

variable {deserialize : Bytes → Option Message} {now : ℚ}
variable {as : List (Threads.Action JobThread JobTask Bool)}

-- No job is answered twice, and no step finds that a job is missing, if jobs are only withdrawn while
-- nobody disputes them.
theorem replies_once
    (c : (machine (routing deserialize)).Along (Meets (undisputed deserialize))
      (.start <| .start now) as) :
    (machine (routing deserialize)).Always (fun t => ∀ c, t.shared.engine.replies c ≤ 1)
      (.start <| .start now) as ∧
    (machine (routing deserialize)).Along (fun t a => ∀ table,
      Raises (routing deserialize) t (.keyError (some table)) a → table = .unavailableHandlers)
      (.start <| .start now) as := by
  constructor
  case left  =>
    refine (always_sound begins start_sound c).mono fun t ⟨v, hI, _⟩ c => ?_
    exact Nat.le_of_add_right_le <| hI.once c
  case right =>
    exact (along_raises begins start_sound c).mono fun t a h table hr => h _ hr table rfl

end routing

namespace Sample

def jobHandler : Threads.Action JobThread JobTask Bool :=
  .start .registration <| .register
    { moduleId := Sample.worker 1, interfaces := [{ pattern := .handle, eventType := .str <| utf8 "t" }] }

def jobSteps (i : JobThread) (n : ℕ) : List (Threads.Action JobThread JobTask Bool) :=
  .replicate n <| .next i true

-- A request is sent to a handler, which has it for too long.
def overdue : List (Threads.Action JobThread JobTask Bool) :=
  [jobHandler, .start .router <| .receive <| Sample.frames (utf8 "a") "req" "c"] ++
    jobSteps .router 9 ++ [.start .clock <| .tick 61, .start .timeout .checkTimeouts] ++
    jobSteps .timeout 15

def answered : Threads.Action JobThread JobTask Bool :=
  .start .router <| .receive <| Sample.frames (Sample.worker 1).val "resp" "c"

-- The router has found the requester of the response when the timeout worker withdraws the job.
def disputed : List (Threads.Action JobThread JobTask Bool) :=
  Sample.overdue ++ [Sample.answered, .next .router true, .start .timeout .checkTimeouts] ++
    jobSteps .timeout 8 ++ jobSteps .router 2

end Sample

namespace routing

open Routing

-- The response arrives before the job is found to have waited for too long.
theorem replies_once_sample :
    (machine (routing Sample.unpack)).Always (fun t => ∀ c, t.shared.engine.replies c ≤ 1)
      (.start <| .start 0)
      (Sample.overdue ++ Sample.answered :: Sample.jobSteps .router 4 ++
        .start .timeout .checkTimeouts :: Sample.jobSteps .timeout 2) ∧
    (machine (routing Sample.unpack)).Along (fun t a => ∀ table,
      Raises (routing Sample.unpack) t (.keyError (some table)) a → table = .unavailableHandlers)
      (.start <| .start 0)
      (Sample.overdue ++ Sample.answered :: Sample.jobSteps .router 4 ++
        .start .timeout .checkTimeouts :: Sample.jobSteps .timeout 2) :=
  replies_once <| by decide +kernel

-- The job fails and is answered, and then it is missing.
theorem not_replies_once :
    (¬∀ as, (machine (routing Sample.unpack)).Along (Meets (distinct Sample.unpack))
      (.start <| .start 0) as → (machine (routing Sample.unpack)).Always
        (fun t => ∀ c, t.shared.engine.replies c ≤ 1) (.start <| .start 0) as) ∧
    ¬∀ as, (machine (routing Sample.unpack)).Along (Meets (distinct Sample.unpack))
      (.start <| .start 0) as → (machine (routing Sample.unpack)).Along (fun t a => ∀ table,
        Raises (routing Sample.unpack) t (.keyError (some table)) a → table = .unavailableHandlers)
        (.start <| .start 0) as := by
  have hd : (machine (routing Sample.unpack)).Along (Meets (distinct Sample.unpack))
      (.start <| .start 0) (Sample.disputed ++ [.next .router true]) := by
    decide +kernel
  have hr : ∃ t ∈ (machine (routing Sample.unpack)).exec (.start <| .start 0) Sample.disputed,
      t.shared.engine.replies (.str <| utf8 "c") = 2 ∧
        Raises (routing Sample.unpack) t (.keyError <| some .pendingJobs) (.next .router true) := by
    decide +kernel
  obtain ⟨t, ht, h₂, hr⟩ := hr
  constructor
  case left  =>
    intro h
    have hc := (h _ hd.of_append).exec ht (.str <| utf8 "c")
    rw [h₂] at hc
    cases Nat.le_of_succ_le_succ hc
  case right =>
    intro h
    cases ((h _ hd).exec ht).left _ hr

end routing

end Python
