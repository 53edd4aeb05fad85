import Mathlib.Data.Countable.Basic
import Mathlib.Data.Rat.Encodable
import Mathlib.Logic.Equiv.List
import Mathlib.Tactic.DeriveCountable
import Tyche.Python.Theorems.Envelope
import Tyche.Python.Theorems.JobModules
import Tyche.Python.Theorems.JobThreads
import Tyche.Sample

namespace Python

open Msgpack Network Proc Threads

namespace JobSystem

section Router

variable {η : Type} {S : JobSystem η} {h h' : JobHistory η} {c d : Key} {identity data : Bytes}
variable {info : TrackingInfo} {ref : Ref}

variable (S h) in
-- The frame is a request that came from the socket with this identity.
def Asked (c : Key) (identity data : Bytes) : Prop :=
  ∃ (m : ModuleId) (b : Bytes), c = .str b ∧ identity = m.val ∧ S.Requested h m b data

variable (h) in
-- Who asked for the job.
def Owner (c : Key) (identity : Bytes) : Prop :=
  ∃ (m : ModuleId) (b : Bytes) (request : ObjMessage),
    c = .str b ∧ identity = m.val ∧ .drawn (some m) b request ∈ h

variable (S h) in
-- The frame is a response to the job by a module that handled it.
def AnswersKey (c : Key) (data : Bytes) : Prop :=
  ∃ (caller : Option ModuleId) (b : Bytes) (request : ObjMessage),
    c = .str b ∧ .drawn caller b request ∈ h ∧ S.Answers h request data

variable (S h) in
-- The frames carry a request of an admin handler.
def AdminRequest (frames : List Bytes) : Prop :=
  ∃ (m : ModuleId) (topic data c : Bytes) (request : ObjMessage),
    frames = [m.val, [], topic, data] ∧ .drawn none c request ∈ h ∧
      request.packed S.encode = some data

-- What a thread of the engine has learnt.
inductive Fact
  | asked (c : Key) (identity data : Bytes)
  | owner (c : Key) (identity : Bytes)
  | answer (c : Key) (data : Bytes)
  | ref (ref : Ref)
  | admin (frames : List Bytes)

variable (S h) in
def Tracks (c : Key) (info : TrackingInfo) : Prop :=
  S.Asked h c info.requesterId info.messageFrame

variable (S h) in
def Fact.Holds (e : TycheEngine) : Fact → Prop
  | .asked c identity data => S.Asked h c identity data
  | .owner c identity      => JobSystem.Owner h c identity
  | .answer c data         => S.AnswersKey h c data
  | .ref r                 => S.Tracks h r.corrId (e.infos r)
  | .admin frames          => S.AdminRequest h frames

-- What the router may send with what it knows.
def Sendable (g : Set Fact) : Output → Prop
  | .dispatch c _ identity _ data  => .asked c identity data ∈ g
  | .response c identity _ data    => .owner c identity ∈ g ∧ .answer c data ∈ g
  | .noHandler v identity _ _      => ∃ b data, v = .str b ∧ .asked (.str b) identity data ∈ g
  | .timedOut c _ identity _ _     => ∃ data, .asked c identity data ∈ g
  | .answer .. | .deadLetter ..    => True

def RouterMay (g : Set Fact) : ∀ {β : Type}, RouterOp β → Prop
  | _, .inl (.track c info)          => .asked c info.requesterId info.messageFrame ∈ g
  | _, .inl (.setPending c identity) => ∃ data, .asked c identity data ∈ g
  | _, .inl (.retrack r)             => .ref r ∈ g
  | _, .inl (.read r)                => .ref r ∈ g
  | _, .inl (.send o)                => Sendable g o
  | _, .inr (.sendMultipart frames)  => .admin frames ∈ g
  | _, _                             => True

def learn (g : Set Fact) : ∀ {β : Type}, RouterOp β → Except Error β → Set Fact
  | _, .inl (.untrack _),     .ok (some r)        => insert (.ref r) g
  | _, .inl (.read r),        .ok info            =>
    insert (.asked r.corrId info.requesterId info.messageFrame) g
  | _, .inl (.getPending c),  .ok (some identity) => insert (.owner c identity) g
  | _, .inl (.findWaiting _), .ok refs            => g ∪ {f | ∃ r ∈ refs, f = .ref r}
  | _, _,                     _                   => g

variable (S h) in
-- The requesters that the engine has on record are those that asked for the job.
structure Recorded (e : TycheEngine) : Prop where
  pending : ∀ {c identity}, e.pendingJobs.get? c = some identity → Owner h c identity
  tracked : ∀ {c n}, e.jobTracking.get? c = some n → S.Tracks h c (e.infos ⟨c, n⟩)

variable (S) in
def routerDiscipline : Discipline (S.router) (Set Fact) where
  May g o    := RouterMay g o
  next g o r := learn g o r
  Inv s vs   := S.InOrder s.2 ∧ S.Recorded s.2 s.1.routing.engine ∧
    ∀ i, ∀ f ∈ vs i, f.Holds S s.2 s.1.routing.engine
  cond       := routerNetwork

variable (S) in
-- The rules for code that only deals with jobs.
def routing :=
  S.routerDiscipline.through (O := Op) fun o => .inl o

-- The operations that need no knowledge and give none.
def Free {β : Type} : Op β → Prop
  | .track .. | .setPending .. | .retrack _ | .read _ | .send _ => False
  | .untrack _ | .getPending _ | .findWaiting _                 => False
  | _                                                          => True

section Obeys

variable {α β : Type} {g : Set Fact} {o : Op α} {p : Py α} {f : α → Py β} {out : Output}
variable {Q : Except Error β → Set Fact → Prop} {topic : Hashed} {topicKey handler : Key}
variable {m : ModuleId} {hs : List ModuleId}

theorem learn_error {o : RouterOp α} {e : Error} : learn g o (.error e) = g := by
  rcases o with o | o <;> cases o <;> rfl

theorem learn_free {y : Except Error α} (ho : Free o) : learn g (.inl o : RouterOp α) y = g := by
  cases o
  case untrack | read | getPending | findWaiting => exact ho.elim
  all_goals rfl

theorem may_free (ho : Free o) : RouterMay g (.inl o : RouterOp α) := by
  cases o
  case track | setPending | retrack | read | send => exact ho.elim
  all_goals trivial

theorem obeys_routing {o : Op α} (ho : RouterMay g (.inl o : RouterOp α))
    (hf : ∀ a, Obeys S.routing Q (f a) (learn g (.inl o : RouterOp α) (.ok a)))
    (hq : ∀ e, Q (.error e) g) : Obeys S.routing Q (op o >>= f) g := by
  refine obeys_bind <| obeys_op ho fun r => ?_
  cases r
  case ok a    => exact hf a
  case error e =>
    change Q (.error e) (learn g (.inl o : RouterOp α) (.error e))
    rw [learn_error]
    exact hq e

theorem obeys_free (hp : p.All Free) : Obeys S.routing (fun _ g' => g' = g) p g :=
  obeys_of_all hp fun _ ho => ⟨may_free ho, fun _ => learn_free ho⟩

theorem obeys_free_bind (hp : p.All Free) (hf : ∀ a, Obeys S.routing Q (f a) g)
    (hq : ∀ e, Q (.error e) g) : Obeys S.routing Q (p >>= f) g := by
  refine obeys_bind <| (obeys_free hp).mono fun r g' h => ?_
  subst h
  cases r
  case ok a    => exact hf a
  case error e => exact hq e

theorem free_isHandlerAvailable : (isHandlerAvailable m topic).All Free := by
  refine All.bind ?_ fun b => ?_
  case refine_1 =>
    refine (all_op trivial).bind fun b => ?_
    cases b
    case false => trivial
    case true  => exact (all_op trivial).bind fun _ => trivial
  case refine_2 =>
    cases b
    case true  => trivial
    case false =>
      refine (all_op trivial).bind fun _ => All.lift fun b _ => ?_
      cases b
      case false => trivial
      case true  => exact All.lift fun _ _ => trivial

theorem free_nextHandler : (nextHandler topicKey m hs).All Free := by
  refine (all_op trivial).bind fun _ => All.bind (all_op trivial) fun _ => ?_
  trivial

theorem free_markUnavailable : (markUnavailable handler topicKey).All Free := by
  refine (all_op trivial).bind fun b => ?_
  cases b
  case true  => exact all_op trivial
  case false => exact (all_op trivial).bind fun _ => all_op trivial

theorem obeys_trySend (ho : Sendable g out) :
    Obeys S.routing (fun _ g' => g' = g) (trySend out) g := by
  refine obeys_catching <| obeys_bind <| obeys_op ho fun r => ?_
  cases r
  case ok    => rfl
  case error => rfl

theorem obeys_trySend_bind {f : Bool → Py β} (ho : Sendable g out)
    (hf : ∀ b, Obeys S.routing Q (f b) g) (hq : ∀ e, Q (.error e) g) :
    Obeys S.routing Q (trySend out >>= f) g := by
  refine obeys_bind <| (obeys_trySend ho).mono fun r g' h => ?_
  subst h
  cases r
  case ok b    => exact hf b
  case error e => exact hq e

theorem obeys_retryJob (hr : .ref ref ∈ g) :
    Obeys S.routing (fun _ g' => g ⊆ g') (retryJob ref) g := by
  refine obeys_routing hr (fun info => ?_) fun _ => subset_rfl
  have hg : g ⊆ insert (.asked ref.corrId info.requesterId info.messageFrame) g :=
    Set.subset_insert ..
  refine obeys_free_bind (all_op trivial) (fun handlers => ?_) fun _ => hg
  refine obeys_free_bind (All.select fun _ => free_isHandlerAvailable) (fun available => ?_)
    fun _ => hg
  cases available
  case nil       => exact hg
  case cons h hs =>
    refine obeys_free_bind free_nextHandler (fun handler => ?_) fun _ => hg
    refine obeys_trySend_bind (Set.mem_insert ..) (fun b => ?_) fun _ => hg
    cases b
    case false => exact hg
    case true  =>
      refine obeys_free_bind (all_op trivial) (fun _ => ?_) fun _ => hg
      refine obeys_free_bind (all_op trivial) (fun now => ?_) fun _ => hg
      refine obeys_free_bind (all_op trivial) (fun _ => ?_) fun _ => hg
      exact obeys_routing (hg hr) (fun _ => hg) fun _ => hg

theorem obeys_retryJob_bind {f : Bool → Py β} (hr : .ref ref ∈ g)
    (hf : ∀ b g', g ⊆ g' → Obeys S.routing Q (f b) g') (hq : ∀ e g', g ⊆ g' → Q (.error e) g') :
    Obeys S.routing Q (retryJob ref >>= f) g := by
  refine obeys_bind <| (obeys_retryJob hr).mono fun r g' h => ?_
  cases r
  case ok b    => exact hf b g' h
  case error e => exact hq e g' h

theorem obeys_recoverJob (hr : .ref ref ∈ g) :
    Obeys S.routing (fun _ g' => g ⊆ g') (recoverJob ref) g := by
  refine obeys_routing trivial (fun r => ?_) fun _ => subset_rfl
  have hg : g ⊆ learn g (.inl (.untrack ref.corrId) : RouterOp _) (.ok r) := by
    cases r
    case none   => exact subset_rfl
    case some r => exact Set.subset_insert ..
  refine obeys_retryJob_bind (hg hr) (fun b g' h => ?_) fun _ g' h => hg.trans h
  cases b
  case true  => exact hg.trans h
  case false => exact obeys_op (h <| hg hr) fun r => by cases r <;> exact hg.trans h

theorem obeys_recoverHandler :
    Obeys S.routing (fun _ _ => True) (recoverHandler handler) g := by
  refine obeys_free_bind (all_op trivial) (fun b => ?_) fun _ => trivial
  cases b
  case false => trivial
  case true  =>
    refine obeys_free_bind (all_op trivial) (fun topics => ?_) fun _ => trivial
    split
    case isTrue  => trivial
    case isFalse =>
      refine obeys_routing trivial (fun refs => ?_) fun _ => trivial
      refine obeys_loop (P := fun g' => ∀ r ∈ refs, .ref r ∈ g') (fun r hr g' h => ?_)
        (fun _ _ => trivial) fun r hr => .inr ⟨r, hr, rfl⟩
      refine (obeys_recoverJob <| h r hr).mono fun y g'' hg => ?_
      cases y
      case ok    => exact fun r hr => hg <| h r hr
      case error => trivial

theorem obeys_handleHeartbeat {msg : Message} :
    Obeys S.routing (fun _ _ => True) (handleHeartbeat msg) g := by
  refine obeys_lift (fun _ _ => obeys_lift (fun b _ => ?_) fun _ _ => trivial) fun _ _ => trivial
  cases b
  case false => exact obeys_recoverHandler
  case true  =>
    refine obeys_lift (fun _ _ => ?_) fun _ _ => trivial
    exact obeys_free_bind (all_op trivial) (fun _ => obeys_recoverHandler) fun _ => trivial

theorem obeys_failJob {reason : Reason} (hr : .ref ref ∈ g) :
    Obeys S.routing (fun _ _ => True) (failJob ref reason) g := by
  refine obeys_routing hr (fun info => ?_) fun _ => trivial
  have hs : ∃ data, Fact.asked ref.corrId info.requesterId data ∈
      learn g (.inl (.read ref) : RouterOp _) (.ok info) := ⟨_, Set.mem_insert ..⟩
  have hd : (deadLetter ref info).All Free := All.catching (all_op trivial) fun _ => trivial
  have he : Obeys S.routing (fun _ _ => True) (do
      op (.popPending ref.corrId)
      let _ ← trySend <| .timedOut ref.corrId reason info.requesterId info.topicFrame
        info.topic.value)
      (learn g (.inl (.read ref) : RouterOp _) (.ok info)) :=
    obeys_free_bind (all_op trivial)
      (fun _ => obeys_trySend_bind hs (fun _ => trivial) fun _ => trivial) fun _ => trivial
  split
  case isTrue  => exact obeys_free_bind hd (fun _ => he) fun _ => trivial
  case isFalse => exact he

theorem obeys_handleJobTimeout {reason : Reason} :
    Obeys S.routing (fun _ _ => True) (handleJobTimeout c reason) g := by
  refine obeys_routing trivial (fun r => ?_) fun _ => trivial
  cases r
  case none     => trivial
  case some ref =>
    have hr : Fact.ref ref ∈ insert (Fact.ref ref) g := Set.mem_insert ..
    refine obeys_routing hr (fun info => ?_) fun _ => trivial
    have hr : Fact.ref ref ∈ learn _ (.inl (.read ref) : RouterOp _) (.ok info) :=
      Set.mem_insert_of_mem _ hr
    split
    case isFalse => exact obeys_failJob hr
    case isTrue  =>
      refine obeys_routing hr (fun info' => ?_) fun _ => trivial
      have hr : Fact.ref ref ∈ learn _ (.inl (.read ref) : RouterOp _) (.ok info') :=
        Set.mem_insert_of_mem _ hr
      refine obeys_free_bind free_markUnavailable (fun _ => ?_) fun _ => trivial
      refine obeys_retryJob_bind hr (fun b g' h => ?_) fun _ _ _ => trivial
      cases b
      case true  => trivial
      case false =>
        refine obeys_free_bind (all_op trivial) (fun _ => ?_) fun _ => trivial
        refine obeys_free_bind (all_op trivial) (fun _ => ?_) fun _ => trivial
        exact obeys_op (h hr) fun _ => trivial

theorem obeys_checkTimeouts : Obeys S.routing (fun _ _ => True) checkTimeouts g := by
  refine obeys_free_bind (all_op trivial) (fun now => ?_) fun _ => trivial
  refine obeys_free_bind (all_op trivial) (fun jobs => ?_) fun _ => trivial
  refine obeys_loop (P := fun _ => True) (fun job _ g' _ => ?_) (fun _ _ => trivial) trivial
  exact obeys_handleJobTimeout.mono fun r _ _ => by cases r <;> trivial

theorem obeys_routeRequest {topicFrame : Bytes} {msg : Message} {b : Bytes}
    (hc : msg.correlationId = .str b) (hg : .asked (.str b) identity data ∈ g) :
    Obeys S.routing (fun _ _ => True) (handleJobRequest identity topicFrame data msg) g := by
  have hash {k : Key} (h : msg.correlationId.hash = .ok k) : k = .str b := by
    rw [hc] at h
    exact (Except.ok.inj h).symm
  refine obeys_free_bind (all_op trivial) (fun now => ?_) fun _ => trivial
  refine obeys_lift (fun waitTimeout _ => ?_) fun _ _ => trivial
  refine obeys_lift (fun runTimeout _ => ?_) fun _ _ => trivial
  refine obeys_lift (fun topic _ => ?_) fun _ _ => trivial
  refine obeys_free_bind (all_op trivial) (fun handlers => ?_) fun _ => trivial
  refine obeys_free_bind (All.select fun _ => free_isHandlerAvailable) (fun available => ?_)
    fun _ => trivial
  cases available
  case nil       =>
    dsimp only
    split
    case isTrue  =>
      exact obeys_trySend_bind ⟨b, data, hc, hg⟩ (fun _ => trivial) fun _ => trivial
    case isFalse =>
      refine obeys_lift (fun k hk => ?_) fun _ _ => trivial
      cases hash hk
      refine obeys_routing hg (fun _ => ?_) fun _ => trivial
      exact obeys_op ⟨data, hg⟩ fun _ => trivial
  case cons h hs =>
    refine obeys_free_bind free_nextHandler (fun handler => ?_) fun _ => trivial
    refine obeys_lift (fun k hk => ?_) fun _ _ => trivial
    cases hash hk
    refine obeys_routing ⟨data, hg⟩ (fun _ => ?_) fun _ => trivial
    refine obeys_routing hg (fun _ => ?_) fun _ => trivial
    refine obeys_trySend_bind hg (fun b => ?_) fun _ => trivial
    cases b
    case true  => trivial
    case false =>
      refine obeys_free_bind (all_op trivial) (fun _ => ?_) fun _ => trivial
      exact obeys_routing trivial (fun _ => trivial) fun _ => trivial

theorem obeys_routeResponse {topicFrame : Bytes} {msg : Message} {b : Bytes}
    (hc : msg.correlationId = .str b) (hg : .answer (.str b) data ∈ g) :
    Obeys S.routing (fun _ _ => True) (Python.handleJobResponse topicFrame data msg) g := by
  refine obeys_lift (fun k hk => ?_) fun _ _ => trivial
  cases (Except.ok.inj <| (hc ▸ hk : (Value.str b).hash = .ok k))
  refine obeys_routing trivial (fun r => ?_) fun _ => trivial
  cases r
  case none           => trivial
  case some requester =>
    refine obeys_routing trivial (fun ref => ?_) fun _ => trivial
    have hs : Sendable
        (learn (learn g (.inl (.getPending (.str b)) : RouterOp _) (.ok (some requester)))
          (.inl (.untrack (.str b)) : RouterOp _) (.ok ref))
        (.response (.str b) requester topicFrame data) := by
      cases ref
      case none => exact ⟨Set.mem_insert .., Set.mem_insert_of_mem _ hg⟩
      case some =>
        exact ⟨Set.mem_insert_of_mem _ <| Set.mem_insert ..,
          Set.mem_insert_of_mem _ <| Set.mem_insert_of_mem _ hg⟩
    refine obeys_trySend_bind hs (fun _ => ?_) fun _ => trivial
    exact obeys_op trivial fun _ => trivial

end Obeys

theorem obeys_invokeAdminHandler {m : ModuleId} {name b : Bytes} {g : Set Fact}
    (hg : ∀ frame, (adminRequest (utf8 "admin." ++ name) name b).packed S.encode = some frame →
      .admin [m.val, [], utf8 "admin." ++ name, frame] ∈ g) :
    Obeys S.routerDiscipline (fun _ _ => True) (invokeAdminHandler S.encode m name b) g := by
  have hcall {α β : Type} {o : AdminOp α} {f : α → Proc RouterOp Error β}
      (ho : RouterMay g (.inr o : RouterOp α))
      (hf : ∀ a, Obeys S.routerDiscipline (fun _ _ => True) (f a) g) :
      Obeys S.routerDiscipline (fun _ _ => True) (op (.inr o) >>= f) g := by
    refine obeys_bind <| obeys_op ho fun r => ?_
    cases r
    case ok a    => cases o <;> exact hf a
    case error e => trivial
  refine hcall trivial fun b => ?_
  cases b
  case false => trivial
  case true  =>
    refine hcall trivial fun handlers => obeys_lift (fun b _ => ?_) fun _ _ => trivial
    cases b
    case false => trivial
    case true  =>
      rw [if_pos rfl]
      dsimp only
      split
      case h_1             => trivial
      case h_2 frame hframe =>
        refine obeys_catching <| (hcall (o := .hasRouter) trivial fun b => ?_ :
          Obeys S.routerDiscipline (fun _ _ => True) _ g).mono fun r _ _ => ?_
        case refine_1 =>
          cases b
          case false => trivial
          case true  => exact hcall (hg frame hframe) fun _ => trivial
        case refine_2 => cases r <;> trivial

section Kept

variable {e e' : TycheEngine} {g : Set Fact} {f : Fact} {α : Type} {works : Output → Bool}
variable {deserialize : Bytes → Option Message}

theorem Asked.later (hs : h ⊆ h') (ha : S.Asked h c identity data) :
    S.Asked h' c identity data := by
  obtain ⟨m, b, hc, hi, hr⟩ := ha
  exact ⟨m, b, hc, hi, hr.mono hs⟩

theorem Asked.owner (ha : S.Asked h c identity data) : Owner h c identity := by
  obtain ⟨m, b, hc, hi, request, hd, -⟩ := ha
  exact ⟨m, b, request, hc, hi, hd⟩

theorem Owner.later (hs : h ⊆ h') (ho : Owner h c identity) : Owner h' c identity := by
  obtain ⟨m, b, request, hc, hi, hd⟩ := ho
  exact ⟨m, b, request, hc, hi, hs hd⟩

theorem Fact.Holds.later (hs : h ⊆ h') (hf : f.Holds S h e) : f.Holds S h' e := by
  cases f
  case asked | ref => exact Asked.later hs hf
  case owner       => exact Owner.later hs hf
  case answer      =>
    obtain ⟨caller, b, request, hc, hd, ha⟩ := hf
    exact ⟨caller, b, request, hc, hs hd, ha.mono hs⟩
  case admin       =>
    obtain ⟨m, topic, data, c, request, he, hd, hp⟩ := hf
    exact ⟨m, topic, data, c, request, he, hs hd, hp⟩

theorem Recorded.later (hs : h ⊆ h') (hr : S.Recorded h e) : S.Recorded h' e where
  pending hp := (hr.pending hp).later hs
  tracked ht := (hr.tracked ht).later hs

-- What has been learnt stays true as long as the tracked infos keep their requesters and frames.
theorem Fact.Holds.keep
    (hi : ∀ r, S.Tracks h r.corrId (e.infos r) → S.Tracks h r.corrId (e'.infos r))
    (hf : f.Holds S h e) : f.Holds S h e' := by
  cases f
  case ref r => exact hi r hf
  all_goals exact hf

theorem Recorded.keep (hr : S.Recorded h e) (hp : e'.pendingJobs = e.pendingJobs)
    (ht : e'.jobTracking = e.jobTracking)
    (hi : ∀ r, S.Tracks h r.corrId (e.infos r) → S.Tracks h r.corrId (e'.infos r)) :
    S.Recorded h e' where
  pending he       := hr.pending <| hp ▸ he
  tracked {c n} he := hi ⟨c, n⟩ <| hr.tracked <| ht ▸ he

theorem tracks_setInfo {info : TrackingInfo} {r : Ref}
    (hi : S.Tracks h ref.corrId (e.infos ref) → S.Tracks h ref.corrId info)
    (hr : S.Tracks h r.corrId (e.infos r)) :
    S.Tracks h r.corrId ((e.setInfo ref info).infos r) := by
  simp only [TycheEngine.setInfo]
  split
  case isTrue he => exact he ▸ hi (he ▸ hr)
  case isFalse   => exact hr

variable (S h) in
-- What an operation of a thread that knows `g` does to the engine.
structure KeepsRecords (g g' : Set Fact) (e e' : TycheEngine) : Prop where
  recorded : S.Recorded h e'
  keeps    : ∀ r, S.Tracks h r.corrId (e.infos r) → S.Tracks h r.corrId (e'.infos r)
  learns   : ∀ f ∈ g', f ∈ g ∨ f.Holds S h e'

theorem KeepsRecords.same (hr : S.Recorded h e) (hp : e'.pendingJobs = e.pendingJobs)
    (ht : e'.jobTracking = e.jobTracking) (hi : e'.infos = e.infos) : S.KeepsRecords h g g e e' :=
  have hk r : S.Tracks h r.corrId (e.infos r) → S.Tracks h r.corrId (e'.infos r) := hi ▸ id
  ⟨hr.keep hp ht hk, hk, fun _ => .inl⟩

theorem keepsRecords_track (hr : S.Recorded h e)
    (ha : S.Asked h c info.requesterId info.messageFrame) :
    S.KeepsRecords h g g e (e.track c info) := by
  have hk (r : Ref) (ht : S.Tracks h r.corrId (e.infos r)) :
      S.Tracks h r.corrId ((e.track c info).infos r) :=
    tracks_setInfo (fun (_ : S.Tracks h (Ref.mk c e.created).corrId _) => ha) ht
  refine ⟨⟨hr.pending, fun {d n} ht => ?_⟩, hk, fun _ => .inl⟩
  by_cases hd : d = c
  case pos =>
    subst hd
    cases Option.some.inj <| (Dict.get?_set_self.symm.trans ht :)
    have hi : (e.track d info).infos ⟨d, e.created⟩ = info := by
      simp [TycheEngine.track, TycheEngine.retrack, TycheEngine.setInfo]
    rw [hi]
    exact ha
  case neg => exact hk ⟨d, n⟩ <| hr.tracked <| (Dict.get?_set_ne hd).symm.trans ht

theorem keepsRecords_retrack (hr : S.Recorded h e) (ht : S.Tracks h ref.corrId (e.infos ref)) :
    S.KeepsRecords h g g e (e.retrack ref) := by
  refine ⟨⟨hr.pending, fun {d n} hd => ?_⟩, fun _ => id, fun _ => .inl⟩
  by_cases he : d = ref.corrId
  case pos =>
    subst he
    cases Option.some.inj <| (Dict.get?_set_self.symm.trans hd :)
    exact ht
  case neg => exact hr.tracked <| (Dict.get?_set_ne he).symm.trans hd

theorem keepsRecords_setPending (hr : S.Recorded h e) (ho : Owner h c identity) :
    S.KeepsRecords h g g e (e.setPending c identity) := by
  refine ⟨⟨fun {d i} hd => ?_, hr.tracked⟩, fun _ => id, fun _ => .inl⟩
  by_cases he : d = c
  case pos =>
    subst he
    cases Option.some.inj <| (Dict.get?_set_self.symm.trans hd :)
    exact ho
  case neg => exact hr.pending <| (Dict.get?_set_ne he).symm.trans hd

theorem keepsRecords_setInfo (hr : S.Recorded h e)
    (hi : S.Tracks h ref.corrId (e.infos ref) → S.Tracks h ref.corrId info) :
    S.KeepsRecords h g g e (e.setInfo ref info) :=
  ⟨hr.keep rfl rfl fun _ => tracks_setInfo hi, fun _ => tracks_setInfo hi, fun _ => .inl⟩

theorem keepsRecords_untrack (hr : S.Recorded h e) :
    S.KeepsRecords h g
      (learn g (.inl (.untrack c) : RouterOp _) (.ok <| (e.jobTracking.get? c).map (⟨c, ·⟩)))
      e (e.untrack c) := by
  refine ⟨⟨hr.pending, fun ht => hr.tracked <| Dict.mem_of_mem_erase ht⟩, fun _ => id,
    fun f hf => ?_⟩
  cases ht : e.jobTracking.get? c
  case none   => rw [ht] at hf; exact .inl hf
  case some n =>
    rw [ht] at hf
    exact hf.elim (fun hf => .inr <| hf ▸ hr.tracked ht) .inl

theorem keepsRecords_getPending (hr : S.Recorded h e) :
    S.KeepsRecords h g (learn g (.inl (.getPending c) : RouterOp _) (.ok <| e.pendingJobs.get? c))
      e e := by
  refine ⟨hr, fun _ => id, fun f hf => ?_⟩
  cases hp : e.pendingJobs.get? c
  case none          => rw [hp] at hf; exact .inl hf
  case some identity =>
    rw [hp] at hf
    exact hf.elim (fun hf => .inr <| hf ▸ hr.pending hp) .inl

theorem keepsRecords_read (hr : S.Recorded h e) (ht : S.Tracks h ref.corrId (e.infos ref)) :
    S.KeepsRecords h g (learn g (.inl (.read ref) : RouterOp _) (.ok <| e.infos ref)) e e :=
  ⟨hr, fun _ => id, fun _ hf => hf.elim (fun hf => .inr <| hf ▸ ht) .inl⟩

theorem keepsRecords_findWaiting {topics : List Key} (hr : S.Recorded h e) :
    S.KeepsRecords h g (learn g (.inl (.findWaiting topics) : RouterOp _) (.ok <| e.waiting topics))
      e e := by
  refine ⟨hr, fun _ => id, fun f hf => hf.elim .inl ?_⟩
  rintro ⟨r, hm, rfl⟩
  have ⟨⟨c, n⟩, he, hc⟩ := List.mem_map.mp (List.mem_filter.mp hm).left
  subst hc
  exact .inr <| hr.tracked <| Dict.get?_eq_some_iff.mpr he

theorem keepsRecords_exec {o : Op α} {y : Except Error α} (hr : S.Recorded h e)
    (hg : ∀ f ∈ g, f.Holds S h e) (hm : RouterMay g (.inl o : RouterOp α))
    (he : e.exec deserialize works o = (y, e')) :
    S.KeepsRecords h g (learn g (.inl o : RouterOp α) y) e e' := by
  have hs : S.KeepsRecords h g g e e := .same hr rfl rfl rfl
  cases o
  case getMarks | addMark | popMarks =>
    simp only [TycheEngine.exec] at he
    split at he <;> cases he <;> exact .same hr rfl rfl rfl
  case getPending                    => cases he; exact keepsRecords_getPending hr
  case setPending                    =>
    cases he
    obtain ⟨data, ha⟩ := hm
    exact keepsRecords_setPending hr (hg _ ha).owner
  case popPending                    =>
    cases he
    exact ⟨⟨fun hp => hr.pending <| Dict.mem_of_mem_erase hp, hr.tracked⟩, fun _ => id,
      fun _ => .inl⟩
  case delPending                    =>
    simp only [TycheEngine.exec] at he
    split at he <;> cases he
    case isTrue  =>
      exact ⟨⟨fun hp => hr.pending <| Dict.mem_of_mem_erase hp, hr.tracked⟩, fun _ => id,
        fun _ => .inl⟩
    case isFalse => exact hs
  case track                         => cases he; exact keepsRecords_track hr (hg _ hm)
  case untrack                       => cases he; exact keepsRecords_untrack hr
  case retrack                       => cases he; exact keepsRecords_retrack hr (hg _ hm)
  case read                          => cases he; exact keepsRecords_read hr (hg _ hm)
  case setHandler | setDispatchTime  => cases he; exact keepsRecords_setInfo hr id
  case findWaiting                   => cases he; exact keepsRecords_findWaiting hr
  case send                          =>
    simp only [TycheEngine.exec] at he
    split at he <;> cases he <;> exact .same hr rfl rfl rfl
  case persist _ _ frame             =>
    simp only [TycheEngine.exec] at he
    cases hd : deserialize frame
    case none     => rw [hd] at he; cases he; exact hs
    case some msg =>
      rw [hd] at he
      dsimp only at he
      split at he <;> cases he <;> exact .same hr rfl rfl rfl
  all_goals cases he; exact .same hr rfl rfl rfl

-- What is sent about a job that was asked for goes to who asked for it.
theorem justified_told {o : Output} {msg : ObjMessage} {b topicFrame frame : Bytes}
    (ho : o.told S.text = some msg) (hc : msg.correlationId = .str b)
    (ha : S.Asked h (.str b) identity data) (hp : msg.packed S.encode = some frame) :
    S.Justified h (.routed [identity, [], topicFrame, frame]) := by
  obtain ⟨m, _, ⟨⟩, hi, request, hd, -⟩ := ha
  exact ⟨identity, topicFrame, frame, rfl,
    .inr ⟨m, b, request, hi, hd, .inr ⟨o, msg, ho, hc, hp⟩⟩⟩

theorem justified_posted {o : RouterOp α} {frames : List Bytes} (hj : S.InOrder h)
    (hg : ∀ f ∈ g, f.Holds S h e) (hm : RouterMay g o)
    (hf : o.posted S.text S.encode = some frames) : S.Justified h (.routed frames) := by
  rcases o with o | o
  case inr =>
    cases o
    case sendMultipart =>
      cases hf
      obtain ⟨m, topic, data, c, request, rfl, hd, hp⟩ := hg _ hm
      exact ⟨m.val, topic, data, rfl, .inl ⟨none, c, request, hd, hp⟩⟩
    all_goals cases hf
  case inl =>
    cases o
    case send o =>
      cases o
      case dispatch c handler identity topicFrame data =>
        cases hf
        obtain ⟨m, b, -, -, request, hd, hp⟩ := hg _ hm
        exact ⟨handler.val, topicFrame, data, rfl, .inl ⟨some m, b, request, hd, hp⟩⟩
      case response c identity topicFrame data         =>
        cases hf
        obtain ⟨m, b, request, rfl, hi, hd⟩ := hg _ hm.left
        obtain ⟨caller, _, request', ⟨⟩, hd', ha⟩ := hg _ hm.right
        obtain ⟨-, rfl⟩ := hj.once hd hd'
        exact ⟨identity, topicFrame, data, rfl, .inr ⟨m, b, request, hi, hd, .inl ha⟩⟩
      case noHandler v identity topicFrame topic       =>
        obtain ⟨b, data, rfl, ha⟩ := hm
        obtain ⟨frame, hp, hf⟩ := Option.bind_eq_some_iff.mp hf
        cases hf
        exact justified_told (o := .noHandler (.str b) identity topicFrame topic) rfl rfl
          (hg _ ha) hp
      case timedOut c reason identity topicFrame topic =>
        obtain ⟨data, ha⟩ := hm
        obtain ⟨frame, hp, hf⟩ := Option.bind_eq_some_iff.mp hf
        cases hf
        have ha := hg _ ha
        obtain ⟨_, b, rfl, -⟩ := id ha
        exact justified_told (o := .timedOut (.str b) reason identity topicFrame topic) rfl rfl
          ha hp
      all_goals cases hf
    all_goals cases hf

variable {s t : JobRouter} {vs : RouterThread → Set Fact} {i : RouterThread} {g' : Set Fact}

variable (S) in
-- What is known of the engine and by its threads.
def RouterKnown (s : JobRouter) (h : JobHistory η) (vs : RouterThread → Set Fact) : Prop :=
  S.Recorded h s.routing.engine ∧ ∀ i, ∀ f ∈ vs i, f.Holds S h s.routing.engine

theorem RouterKnown.later (hs : h ⊆ h') (hk : S.RouterKnown s h vs) : S.RouterKnown s h' vs :=
  ⟨hk.left.later hs, fun i f hf => (hk.right i f hf).later hs⟩

theorem RouterKnown.step (hk : S.RouterKnown s h vs)
    (hs : S.KeepsRecords h (vs i) g' s.routing.engine t.routing.engine) :
    S.RouterKnown t h (Function.update vs i g') := by
  refine ⟨hs.recorded, fun j f hf => ?_⟩
  by_cases hj : j = i
  case neg =>
    rw [Function.update_of_ne hj] at hf
    exact (hk.right j f hf).keep hs.keeps
  case pos =>
    rw [hj, Function.update_self] at hf
    exact (hs.learns f hf).elim (fun hf => (hk.right i f hf).keep hs.keeps) id

theorem router_keeps {o : RouterOp α} {y : Except Error α} {works : Bool}
    (hk : S.RouterKnown s h vs) (hm : RouterMay (vs i) o)
    (he : s.exec deserialize works o = (y, t)) :
    S.RouterKnown t h (Function.update vs i <| learn (vs i) o y) := by
  refine hk.step ?_
  rcases o with o | o
  case inl =>
    cases he
    exact keepsRecords_exec hk.left (hk.right i) hm rfl
  case inr =>
    have hn : learn (vs i) (.inr o : RouterOp α) y = vs i := by
      cases o <;> rfl
    rw [hn]
    cases o
    case getAdminHandlers =>
      simp only [JobRouter.exec] at he
      split at he <;> cases he <;> exact .same hk.left rfl rfl rfl
    all_goals cases he; exact .same hk.left rfl rfl rfl

theorem drawn_routed {l : List (List Bytes)} :
    JobHistory.drawn (l.map JobEvent.routed : JobHistory η) = [] := by
  simp [JobHistory.drawn]

theorem router_exec {o : RouterOp α} {y : Except Error α} {works : Bool}
    {p p' : JobRouter × JobHistory η} (hj : S.InOrder p.2) (hk : S.RouterKnown p.1 p.2 vs)
    (hm : RouterMay (vs i) o) (he : S.router.exec i works o p = some (y, p')) :
    S.InOrder p'.2 ∧ S.RouterKnown p'.1 p'.2 (Function.update vs i <| learn (vs i) o y) := by
  simp only [router] at he
  split at he
  case h_1 ht =>
    cases he
    exact ⟨hj, router_keeps hk hm ht⟩
  case h_2 ht =>
    cases he
    refine ⟨hj.add (fun e he => ?_) drawn_routed,
      (router_keeps hk hm ht).later <| List.subset_append_left ..⟩
    obtain ⟨frames, hf, rfl⟩ := List.mem_map.mp he
    exact (justified_posted hj (hk.right i) hm <| Option.mem_toList.mp hf).mono <|
      List.subset_append_left ..

-- What the receiver of the router learns from frames that were posted.
theorem obeys_route {m : ModuleId} {frames : List Bytes} {msg : Incoming} (hl : S.Legible)
    (hj : S.InOrder h) (hf : .posted m frames ∈ h)
    (hi : incoming S.received (m.val :: frames) = some msg) :
    ∃ g, (∀ f ∈ g, f.Holds S h e) ∧ Obeys S.routing (fun _ _ => True) (route msg) g := by
  obtain ⟨topic, data, rfl, hp⟩ := hj.justified _ hf
  obtain ⟨full, hr, rfl⟩ := Option.map_eq_some_iff.mp hi
  obtain ⟨full, hu, rfl⟩ := Option.map_eq_some_iff.mp hr
  have hu := eq_ok_of_toOption hu
  rcases hp with ⟨c, request, hd, hp⟩ | ⟨caller, c, request, hd, ha⟩
  case inl =>
    obtain ⟨ht, hc, -⟩ := hj.justified _ hd
    have hcr := hl.carries hp hu
    refine ⟨{.asked (.str c) m.val data}, ?_, ?_⟩
    · rintro f rfl
      exact ⟨m, c, rfl, rfl, request, hd, hp⟩
    · unfold route
      rw [hcr.msgType, ht]
      exact obeys_routeRequest (hcr.correlationId_eq hc) rfl
  case inr =>
    obtain ⟨r, ht, hc, hp⟩ := ha.isResponse hl (hj.justified _ hd).right.left
    have hcr := hl.carries hp hu
    refine ⟨{.answer (.str c) data}, ?_, ?_⟩
    · rintro f rfl
      exact ⟨caller, c, request, rfl, hd, ha⟩
    · unfold route
      rw [hcr.msgType, ht]
      exact obeys_routeResponse (hcr.correlationId_eq hc) rfl

theorem keepsRecords_arrive {msg : Incoming} (hr : S.Recorded h e) :
    S.KeepsRecords h g g e (e.arrive msg) := by
  unfold TycheEngine.arrive
  split <;> exact .same hr rfl rfl rfl

theorem addInterfaces_spares {m : ModuleId} {is : List Interface} :
    (TycheEngine.addInterfaces m is e).2.pendingJobs = e.pendingJobs ∧
      (TycheEngine.addInterfaces m is e).2.jobTracking = e.jobTracking ∧
      (TycheEngine.addInterfaces m is e).2.infos = e.infos := by
  induction is generalizing e
  case nil          => exact ⟨rfl, rfl, rfl⟩
  case cons i is hi =>
    rw [TycheEngine.addInterfaces]
    split
    case h_1 => exact ⟨rfl, rfl, rfl⟩
    case h_2 =>
      by_cases hp : i.pattern = .handle
      case pos => rw [if_pos hp]; exact hi
      case neg => rw [if_neg hp]; exact hi

theorem keepsRecords_registerModule {record : ModuleInfo} (hr : S.Recorded h e) :
    S.KeepsRecords h g g e (e.registerModule record).2 :=
  have hs := addInterfaces_spares
  .same hr hs.left hs.right.left hs.right.right

theorem keepsRecords_unregisterModule {m : ModuleId} (hr : S.Recorded h e) :
    S.KeepsRecords h g g e (e.unregisterModule m) := by
  unfold TycheEngine.unregisterModule
  split
  case isFalse => exact .same hr rfl rfl rfl
  case isTrue  =>
    have hi r (ht : S.Tracks h r.corrId (e.infos r)) : S.Tracks h r.corrId (e.orphan m r) := by
      unfold TycheEngine.orphan
      dsimp only
      split <;> exact ht
    exact ⟨hr.keep rfl rfl hi, hi, fun _ => .inl⟩

theorem KeepsRecords.learned {g₁ g₂ : Set Fact} (hk : S.KeepsRecords h g₁ g₁ e e')
    (hf : ∀ f ∈ g₂, f.Holds S h e') : S.KeepsRecords h g₁ g₂ e e' :=
  ⟨hk.recorded, hk.keeps, fun f hm => .inr <| hf f hm⟩

theorem KeepsRecords.idle (hk : S.KeepsRecords h g g e e') : S.KeepsRecords h g ∅ e e' :=
  hk.learned fun _ hf => hf.elim

theorem obeys_ignoringErrors {code : Py Unit} (ho : Obeys S.routing (fun _ _ => True) code g) :
    Obeys S.routing (fun _ _ => True) (code.catching fun _ => pure ()) g := by
  refine obeys_catching <| ho.mono fun r g _ => ?_
  cases r <;> trivial

theorem routing_enter {j : JobThread} {k : JobTask} {r r' : Routing} {code : Py Unit}
    (hl : S.Legible) (hj : S.InOrder h) (hc : ∀ frames, k = .receive frames → frames ∈ h.posted)
    (hr : S.Recorded h r.engine) (he : r.enter S.received j k = some (r', code)) :
    ∃ g', S.KeepsRecords h g g' r.engine r'.engine ∧
      Obeys S.routing (fun _ _ => True) code g' := by
  have hs : S.KeepsRecords h g g r.engine r.engine := .same hr rfl rfl rfl
  unfold Routing.enter at he
  split at he
  case h_1 frames =>
    split at he
    case h_1     => cases he; exact ⟨∅, hs.idle, trivial⟩
    case h_2 msg hi =>
      cases he
      obtain ⟨m, fs, rfl, hf⟩ := mem_posted.mp <| hc frames rfl
      obtain ⟨g', hg, ho⟩ := obeys_route (e := r.engine.arrive msg) hl hj hf hi
      exact ⟨g', (keepsRecords_arrive hr).learned hg, ho⟩
  case h_2 => cases he; exact ⟨∅, hs.idle, obeys_checkTimeouts⟩
  case h_3 =>
    split at he
    case h_1 => cases he; exact ⟨∅, hs.idle, trivial⟩
    case h_2 => cases he; exact ⟨∅, hs.idle, obeys_ignoringErrors obeys_handleHeartbeat⟩
  case h_4 => cases he; exact ⟨∅, (keepsRecords_registerModule hr).idle, trivial⟩
  case h_5 => cases he; exact ⟨∅, (keepsRecords_unregisterModule hr).idle, trivial⟩
  case h_6 duration =>
    have ht : S.KeepsRecords h g g r.engine (r.engine.elapse duration) := .same hr rfl rfl rfl
    split at he <;> cases he
    exact ⟨∅, ht.idle, trivial⟩
  case h_7 => cases he

theorem router_enter {k : RouterTask} {p p' : JobRouter × JobHistory η}
    {code : Proc RouterOp Error Unit} (hl : S.Legible) (hj : S.InOrder p.2)
    (hk : S.RouterKnown p.1 p.2 vs) (hc : routerNetwork.enter i k p)
    (he : S.router.enter i k p = some (p', code)) :
    ∃ g, (S.InOrder p'.2 ∧ S.RouterKnown p'.1 p'.2 (Function.update vs i g)) ∧
      Obeys S.routerDiscipline (fun _ _ => True) code g := by
  obtain ⟨⟨t, code⟩, ht, he⟩ := Option.map_eq_some_iff.mp he
  cases he
  have hs : S.KeepsRecords p.2 (vs i) (vs i) p.1.routing.engine p.1.routing.engine :=
    .same hk.left rfl rfl rfl
  unfold JobRouter.enter at ht
  split at ht
  case h_1 j k =>
    obtain ⟨⟨r, code⟩, hr, ht⟩ := Option.map_eq_some_iff.mp ht
    cases ht
    obtain ⟨g, hg, ho⟩ := routing_enter (g := vs <| .job j) hl hj
      (fun frames hf => by subst hf; exact hc) hk.left hr
    change ∃ g, (S.InOrder (p.2 ++ []) ∧ S.RouterKnown _ (p.2 ++ []) _) ∧ _
    rw [List.append_nil]
    exact ⟨g, ⟨hj, hk.step hg⟩, obeys_through ho⟩
  case h_2 =>
    cases ht
    change ∃ g, (S.InOrder (p.2 ++ []) ∧ S.RouterKnown _ (p.2 ++ []) _) ∧ _
    rw [List.append_nil]
    exact ⟨∅, ⟨hj, hk.step hs.idle⟩, trivial⟩
  case h_3 =>
    cases ht
    change ∃ g, (S.InOrder (p.2 ++ []) ∧ S.RouterKnown _ (p.2 ++ []) _) ∧ _
    rw [List.append_nil]
    exact ⟨∅, ⟨hj, hk.step hs.idle⟩, trivial⟩
  case h_4 n m name b =>
    cases ht
    have hd : (JobEvent.drawn none b (adminRequest (utf8 "admin." ++ name) name b) : JobEvent η) ∈
        p.2 ++ drawing (.invokeAdminHandler m name b) := List.mem_append_right _ <| .head _
    refine ⟨{f | ∃ frame,
        (adminRequest (utf8 "admin." ++ name) name b).packed S.encode = some frame ∧
          f = .admin [m.val, [], utf8 "admin." ++ name, frame]},
      ⟨hj.draw hc ⟨rfl, rfl, by simp⟩, ?_⟩, ?_⟩
    case refine_1 =>
      have hk := hk.later (List.subset_append_left p.2 (drawing <| .invokeAdminHandler m name b))
      refine hk.step <| KeepsRecords.learned (.same hk.left rfl rfl rfl) ?_
      rintro f ⟨frame, hf, rfl⟩
      exact ⟨m, _, frame, b, _, rfl, hd, hf⟩
    case refine_2 =>
      refine obeys_catching <| obeys_bind <| (obeys_invokeAdminHandler ?_).mono fun r _ _ => ?_
      case refine_1 => exact fun frame hf => ⟨frame, hf, rfl⟩
      case refine_2 => cases r <;> trivial
  case h_5 => cases ht

theorem router_appends : (S.router).Appends where
  enter he := by
    obtain ⟨code, -, he⟩ := Option.map_eq_some_iff.mp he
    cases he
    exact List.prefix_append ..
  exec he := by
    simp only [router] at he
    split at he <;> cases he
    case h_1 => exact List.prefix_refl _
    case h_2 => exact List.prefix_append ..

variable (S) in
-- What is known about the threads of the engine, each of which does its part with the rest of its
-- code.
def RouterSound (t : Threads RouterOp Error JobRouter RouterThread RouterTask) (h : JobHistory η) :
    Prop :=
  ∃ vs, S.RouterKnown t.shared h vs ∧
    ∀ i, Obeys S.routerDiscipline (fun _ _ => True) (t.code i) (vs i)

theorem router_contract (hl : S.Legible) :
    Contract (party S.router) S.InOrder S.RouterSound (MeetsWithin routerNetwork) :=
  contract (D := S.routerDiscipline) (Q := fun _ _ _ => True) router_appends
    ⟨fun _ _ _ _ _ _ _ _ hI hm _ he => router_exec hI.left hI.right hm he,
      fun _ _ _ _ _ _ hI _ hc he => router_enter hl hI.left hI.right hc he⟩
    (fun _ _ _ => Iff.rfl) fun hk hp => hk.later hp.subset

end Kept

end Router

namespace Sample

def handler : ModuleId :=
  .generate (utf8 "h") ⟨1, by decide⟩

def requester : ModuleId :=
  .generate (utf8 "m") ⟨2, by decide⟩

def request : List Token :=
  (Requests.request requester.val (utf8 "c") (some <| utf8 "t") (.dict [])).serialize.getD []

def response : List Token :=
  ObjMessage.serialize {
    msgType       := .response
    sender        := .str handler.val
    event         := .text "t"
    payload       := .dict [(.text "result", .bool true)]
    correlationId := .text "c" } |>.getD []

deriving instance Countable for BitVec
deriving instance Countable for UInt8
deriving instance Countable for Floating
deriving instance DecidableEq, Countable for Token

noncomputable def number : List Token ↪ ℕ :=
  (nonempty_embedding_nat _).some

-- The request and the response have the bytes of the format. Any other message is told by how many
-- bytes follow one with which no message begins.
noncomputable def encode (ts : List Token) : Bytes :=
  if ts = request ∨ ts = response then Envelope.Sample.bytesOf ts
  else 0xc1 :: .replicate (number ts) 0

noncomputable def decode (data : Bytes) : List Token :=
  if data = Envelope.Sample.bytesOf request then request
  else if data = Envelope.Sample.bytesOf response then response
  else Function.invFun number <| data.length - 1

theorem decode_encode {ts : List Token} : decode (encode ts) = ts := by
  unfold encode
  split
  case isTrue h  =>
    rcases h with rfl | rfl
    case inl => exact if_pos rfl
    case inr => exact (if_neg (by decide +kernel)).trans <| if_pos rfl
  case isFalse   =>
    have hb {data : Bytes} (h : data.head? ≠ some 0xc1) :
        0xc1 :: .replicate (number ts) 0 ≠ data := by
      rintro rfl
      exact h rfl
    unfold decode
    rw [if_neg <| hb <| by decide +kernel, if_neg <| hb <| by decide +kernel, List.length_cons,
      List.length_replicate]
    exact Function.leftInverse_invFun number.injective ts

-- A handler returns what it is.
noncomputable def system : JobSystem Bool where
  text _ := []
  encode := encode
  decode := decode
  code _ := {
    deserialize _     := none
    admin _ s         := (.raised none, s)
    handle result _ s := (.returned <| .bool result, s) }

theorem legible : system.Legible :=
  fun _ _ _ => decode_encode

def modules (m : ModuleId) : TycheModule Bool :=
  if m = handler then TycheModule.registerHandler ⟨m.val, [], ∅, ∅⟩
    { name := utf8 "handle_t", handler := true, pattern := .handle }
  else ⟨m.val, [], ∅, ∅⟩

abbrev Action :=
  Threads.Action RouterThread RouterTask Bool ⊕
    ModuleId × Threads.Action SocketThread ModuleTask Requests.Surroundings

def receives (m : ModuleId) (ts : List Token) (n : ℕ) : List Action :=
  .inr (m, .start .receiver <| .receive 0 [[], utf8 "t", Envelope.Sample.bytesOf ts]) ::
    .replicate n (.inr (m, .next .receiver ⟨true, .untilSet⟩))

def calls (n : ℕ) : List Action :=
  .replicate n <| .inr (requester, .next (.caller 0) ⟨true, .untilSet⟩)

def routes (m : ModuleId) (ts : List Token) (n : ℕ) : List Action :=
  .inl (.start (.job .router) <| .job <|
      .receive [m.val, [], utf8 "t", Envelope.Sample.bytesOf ts]) ::
    .replicate n (.inl <| .next (.job .router) true)

-- A request goes to its handler and the response comes back.
def run : List Action :=
  .inl (.start (.job .registration) <| .job <| .register {
    moduleId   := handler
    interfaces := [{ pattern := .handle, eventType := .str <| utf8 "t" }] }) ::
  .inr (requester, .start (.caller 0) <|
    .requestEvent (utf8 "c") (some <| utf8 "t") (.dict [])) :: calls 5 ++
  routes requester request 9 ++ receives handler request 2 ++ routes handler response 4 ++
  receives requester response 3 ++ calls 4

theorem along_run : system.machine.Along network (start 0 modules) run := by
  decide +kernel

end Sample

section System

variable {η : Type} {S : JobSystem η} {now : ℚ} {modules : ModuleId → TycheModule η}

variable (S) in
-- All parties know what is true of them and of the history.
abbrev AllSound (s : (Threads RouterOp Error JobRouter RouterThread RouterTask) ×
    (ModuleId → Threads ModuleOp Requests.Exception (Module η) SocketThread ModuleTask))
    (h : JobHistory η) : Prop :=
  S.RouterSound s.1 h ∧ ∀ m, S.Sound m (s.2 m) h

theorem system_contract (hl : S.Legible) : Contract S.machine S.InOrder S.AllSound network :=
  (router_contract hl).both (.all fun _ => module_contract hl)

theorem inOrder_nil : S.InOrder [] where
  justified _ he := absurd he List.not_mem_nil
  once he _      := absurd he List.not_mem_nil

theorem routerSound_start : S.RouterSound (.start <| .start now) [] := by
  refine ⟨fun _ => ∅, ⟨⟨fun h => ?_, fun h => ?_⟩, fun _ _ hf => hf.elim⟩, fun _ => trivial⟩
  all_goals cases Dict.get?_empty.symm.trans h

theorem sound_start {m : ModuleId} {s : TycheModule η} :
    S.Sound m (.start <| .start m s) [] := by
  refine ⟨fun _ => .idle, ⟨?_, fun _ => trivial, fun _ _ _ h => ?_, fun _ _ _ h => ?_⟩,
    fun _ => trivial⟩
  case refine_2 | refine_3 => cases h
  case refine_1 =>
    constructor
    case moduleId => rfl
    case table    => exact fun h => by cases Dict.get?_empty.symm.trans h
    all_goals exact fun h => absurd h List.not_mem_nil

-- Whatever is lost, delayed or delivered again, the history of a run stays in order.
theorem always_inOrder {as} (hl : S.Legible) (hc : S.machine.Along network (start now modules) as) :
    S.machine.Always (fun s => S.InOrder s.2) (start now modules) as :=
  ((system_contract hl).always inOrder_nil ⟨routerSound_start, fun _ => sound_start⟩ hc).mono
    fun _ h => h.left

variable {as : List _}

-- What `request_event` returns is the payload of a response to this very request, which some module
-- made when it handled it, or with which the engine told that it failed.
theorem returned_genuine (hl : S.Legible)
    (hc : S.machine.Along network (start now modules) as) :
    S.machine.Always (fun s => ∀ m c v, .returned m c v ∈ s.2 → S.Genuine s.2 m c v)
      (start now modules) as :=
  (always_inOrder hl hc).mono fun _ h _ _ _ hr => h.justified _ hr

theorem returned_genuine_sample :
    Sample.system.machine.Always
      (fun s => ∀ m c v, .returned m c v ∈ s.2 → Sample.system.Genuine s.2 m c v)
      (start 0 Sample.modules) Sample.run :=
  returned_genuine Sample.legible Sample.along_run

example : ((Sample.system.machine.exec (start 0 Sample.modules) Sample.run).any fun s =>
    s.2.any fun
      | .returned m c _ => m = Sample.requester ∧ c = utf8 "c"
      | _               => false) := by
  decide +kernel

-- No module handles anything but requests that were made.
theorem handled_requested (hl : S.Legible)
    (hc : S.machine.Along network (start now modules) as) :
    S.machine.Always (fun s => ∀ m before frames, .handled m before frames ∈ s.2 →
      ∃ topic data, frames = [[], topic, data] ∧ ∃ caller c request,
        .drawn caller c request ∈ s.2 ∧ request.packed S.encode = some data)
      (start now modules) as :=
  (always_inOrder hl hc).mono fun _ h _ _ _ hr => h.justified _ hr

theorem handled_requested_sample :
    Sample.system.machine.Always (fun s => ∀ m before frames, .handled m before frames ∈ s.2 →
      ∃ topic data, frames = [[], topic, data] ∧ ∃ caller c request,
        .drawn caller c request ∈ s.2 ∧ request.packed Sample.encode = some data)
      (start 0 Sample.modules) Sample.run :=
  handled_requested Sample.legible Sample.along_run

-- The router sends a response only to the module that made the request.
theorem response_routed (hl : S.Legible)
    (hc : S.machine.Along network (start now modules) as) :
    S.machine.Always (fun s => ∀ identity topic data n msg,
      .routed [identity, [], topic, data] ∈ s.2 → unpacked S.decode n data = .ok msg →
      msg.msgType = .response → ∃ m c request, identity = m.val ∧ msg.correlationId = .str c ∧
        .drawn (some m) c request ∈ s.2) (start now modules) as := by
  refine (always_inOrder hl hc).mono fun s h identity topic data n msg hr hu ht => ?_
  obtain ⟨_, _, _, ⟨⟩, ⟨caller, c, request, hd, hp⟩ | ⟨m, c, request, hi, hd, ha⟩⟩ :=
    h.justified _ hr
  case inl =>
    have hm := (hl.carries hp hu).msgType.trans (h.justified _ hd).left
    cases ht.symm.trans hm
  case inr =>
    obtain ⟨r, -, hc, hp⟩ : S.IsResponse c data :=
      ha.elim (·.isResponse hl (h.justified _ hd).right.left) Tells.isResponse
    exact ⟨m, c, request, hi, (hl.carries hp hu).correlationId_eq hc, hd⟩

theorem response_routed_sample :
    Sample.system.machine.Always (fun s => ∀ identity topic data n msg,
      .routed [identity, [], topic, data] ∈ s.2 → unpacked Sample.decode n data = .ok msg →
      msg.msgType = .response → ∃ m c request, identity = m.val ∧ msg.correlationId = .str c ∧
        .drawn (some m) c request ∈ s.2) (start 0 Sample.modules) Sample.run :=
  response_routed Sample.legible Sample.along_run

end System

end JobSystem

end Python
