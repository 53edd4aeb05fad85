import Tyche.Log
import Tyche.Python.JobSystem
import Tyche.Python.Theorems.Packing

namespace Python

open Msgpack Network Proc Threads

namespace Requests.Module

-- The steps of the table of requests.
def addRecord (q : Module) : Module :=
  { q with
    result  := Function.update q.result q.created .none
    isSet   := Function.update q.isSet q.created false
    created := q.created + 1 }

def store (q : Module) (c : Key) (r : ℕ) : Module :=
  { q with pendingRequests := q.pendingRequests.set c r }

def take (q : Module) (c : Key) : Module :=
  { q with pendingRequests := q.pendingRequests.erase c }

def fill (q : Module) (r : ℕ) (v : Value) : Module :=
  { q with result := Function.update q.result r v }

def signal (q : Module) (r : ℕ) : Module :=
  { q with isSet := Function.update q.isSet r true }

end Requests.Module

namespace JobSystem

variable {η : Type} (S : JobSystem η)

-- A message is read as the tokens that it was written with.
def Legible : Prop :=
  ∀ (msg : ObjMessage) ts, msg.serialize = some ts → S.decode (S.encode ts) = ts

variable (h : JobHistory η)

-- The module drew the correlation id for a request that has these bytes.
def Requested (m : ModuleId) (c data : Bytes) : Prop :=
  ∃ request, .drawn (some m) c request ∈ h ∧ request.packed S.encode = some data

-- The response that a module made when it handled the request.
def Answers (request : ObjMessage) (data : Bytes) : Prop :=
  ∃ handler before topic frame, .handled handler before [[], topic, frame] ∈ h ∧
    request.packed S.encode = some frame ∧
    ∃ sent ∈ S.answers handler before [[], topic, frame], data = S.encode sent.frame

-- What the engine itself tells the requester of a job.
def Tells (c data : Bytes) : Prop :=
  ∃ o msg, Output.told S.text o = some msg ∧ msg.correlationId = .str c ∧
    msg.packed S.encode = some data

-- The value is the payload of a response to the request that the module drew the id for.
def Genuine (m : ModuleId) (c : Bytes) (value : Value) : Prop :=
  ∃ request data n msg, .drawn (some m) c request ∈ h ∧
    (S.Answers h request data ∨ S.Tells c data) ∧
    unpacked S.decode n data = .ok msg ∧ msg.payload = value

-- Where each event of the history comes from.
def Justified : JobEvent η → Prop
  | .drawn caller c request  =>
    request.msgType = .request ∧ request.correlationId = .str c ∧
      ∀ m ∈ caller, ∃ event payload, request = Requests.request m.val c event payload
  | .posted m frames         => ∃ topic data, frames = [[], topic, data] ∧
    ((∃ c, S.Requested h m c data) ∨
      ∃ caller c request, .drawn caller c request ∈ h ∧ S.Answers h request data)
  | .routed frames           => ∃ identity topic data, frames = [identity, [], topic, data] ∧
    ((∃ caller c request, .drawn caller c request ∈ h ∧ request.packed S.encode = some data) ∨
      ∃ m c request, identity = m.val ∧ .drawn (some m) c request ∈ h ∧
        (S.Answers h request data ∨ S.Tells c data))
  | .handled _ _ frames      => ∃ topic data, frames = [[], topic, data] ∧
    ∃ caller c request, .drawn caller c request ∈ h ∧ request.packed S.encode = some data
  | .returned m c value      => S.Genuine h m c value

-- Every event is justified by the history, in which no correlation id is drawn twice.
structure InOrder : Prop where
  justified : ∀ e ∈ h, S.Justified h e
  once      : ∀ {caller caller' c request request'}, .drawn caller c request ∈ h →
    .drawn caller' c request' ∈ h → caller = caller' ∧ request = request'

section History

variable {S h} {h' es : JobHistory η} {m : ModuleId} {c data frame : Bytes}
variable {request msg : ObjMessage} {v : Value} {e : JobEvent η} {n : ℕ} {full : FullMessage}

theorem mem_drawn : c ∈ h.drawn ↔ ∃ caller request, .drawn caller c request ∈ h := by
  rw [JobHistory.drawn, List.mem_filterMap]
  constructor
  case mp =>
    rintro ⟨e, he, hc⟩
    cases e <;> cases hc
    exact ⟨_, _, he⟩
  case mpr => exact fun ⟨caller, request, he⟩ => ⟨_, he, rfl⟩

theorem mem_posted {frames : List Bytes} :
    frames ∈ h.posted ↔ ∃ m fs, frames = m.val :: fs ∧ .posted m fs ∈ h := by
  rw [JobHistory.posted, List.mem_filterMap]
  constructor
  case mp =>
    rintro ⟨e, he, hf⟩
    cases e <;> cases hf
    exact ⟨_, _, rfl, he⟩
  case mpr =>
    rintro ⟨m, fs, rfl, he⟩
    exact ⟨_, he, rfl⟩

theorem mem_routed {frames : List Bytes} : frames ∈ h.routed ↔ .routed frames ∈ h := by
  rw [JobHistory.routed, List.mem_filterMap]
  constructor
  case mp =>
    rintro ⟨e, he, hf⟩
    cases e <;> cases hf
    exact he
  case mpr => exact fun he => ⟨_, he, rfl⟩

theorem Requested.mono (hs : h ⊆ h') (hr : S.Requested h m c data) : S.Requested h' m c data := by
  have ⟨request, hd, hp⟩ := hr
  exact ⟨request, hs hd, hp⟩

theorem Answers.mono (hs : h ⊆ h') (ha : S.Answers h request data) : S.Answers h' request data := by
  have ⟨handler, before, topic, frame, hh, ha⟩ := ha
  exact ⟨handler, before, topic, frame, hs hh, ha⟩

theorem Genuine.mono (hs : h ⊆ h') (hg : S.Genuine h m c v) : S.Genuine h' m c v := by
  have ⟨request, data, n, msg, hd, ha, hu⟩ := hg
  exact ⟨request, data, n, msg, hs hd, ha.imp_left <| .mono hs, hu⟩

theorem Justified.mono (hs : h ⊆ h') (hj : S.Justified h e) : S.Justified h' e := by
  cases e
  case drawn => exact hj
  case posted =>
    obtain ⟨topic, data, rfl, ⟨c, hr⟩ | ⟨caller, c, request, hd, ha⟩⟩ := hj
    case inl => exact ⟨topic, data, rfl, .inl ⟨c, hr.mono hs⟩⟩
    case inr => exact ⟨topic, data, rfl, .inr ⟨caller, c, request, hs hd, ha.mono hs⟩⟩
  case routed =>
    obtain ⟨identity, topic, data, rfl,
      ⟨caller, c, request, hd, hp⟩ | ⟨m, c, request, hi, hd, ha⟩⟩ := hj
    case inl => exact ⟨identity, topic, data, rfl, .inl ⟨caller, c, request, hs hd, hp⟩⟩
    case inr =>
      exact ⟨identity, topic, data, rfl, .inr ⟨m, c, request, hi, hs hd, ha.imp_left <| .mono hs⟩⟩
  case handled =>
    obtain ⟨topic, data, rfl, caller, c, request, hd, hp⟩ := hj
    exact ⟨topic, data, rfl, caller, c, request, hs hd, hp⟩
  case returned => exact Genuine.mono hs hj

-- The history stays in order if what is added is justified and draws no correlation id.
theorem InOrder.add (hi : S.InOrder h) (hj : ∀ e ∈ es, S.Justified (h ++ es) e)
    (hd : JobHistory.drawn es = []) : S.InOrder (h ++ es) where
  justified e he := by
    rcases List.mem_append.mp he with he | he
    case inl => exact (hi.justified e he).mono <| List.subset_append_left ..
    case inr => exact hj e he
  once hr hr' := by
    have hm {caller c request} (hr : JobEvent.drawn caller c request ∈ h ++ es) :
        .drawn caller c request ∈ h := by
      refine (List.mem_append.mp hr).resolve_right fun hr => ?_
      have hc : c ∈ JobHistory.drawn es := mem_drawn.mpr ⟨_, _, hr⟩
      exact List.not_mem_nil <| hd ▸ hc
    exact hi.once (hm hr) (hm hr')

-- A correlation id that was not drawn before may be drawn.
theorem InOrder.draw {caller : Option ModuleId} (hi : S.InOrder h) (hc : c ∉ h.drawn)
    (hj : S.Justified h (.drawn caller c request)) :
    S.InOrder (h ++ [.drawn caller c request]) where
  justified e he := by
    rcases List.mem_append.mp he with he | he
    case inl => exact (hi.justified e he).mono <| List.subset_append_left ..
    case inr =>
      obtain rfl := List.mem_singleton.mp he
      exact hj.mono <| List.subset_append_left ..
  once hr hr' := by
    have hn {caller request} : JobEvent.drawn caller c request ∉ h :=
      fun hr => hc <| mem_drawn.mpr ⟨_, _, hr⟩
    rw [List.mem_append, List.mem_singleton] at hr hr'
    rcases hr with hr | hr <;> rcases hr' with hr' | hr'
    case inl.inl => exact hi.once hr hr'
    case inl.inr => cases hr'; exact absurd hr hn
    case inr.inl => cases hr; exact absurd hr' hn
    case inr.inr => cases hr; cases hr'; exact ⟨rfl, rfl⟩

theorem Legible.carries (hl : S.Legible) (hp : msg.packed S.encode = some data)
    (hu : unpacked S.decode n data = .ok full) : msg.Carries full := by
  obtain ⟨ts, ht, rfl⟩ := Option.map_eq_some_iff.mp hp
  rw [unpacked, hl msg ts ht] at hu
  exact ObjMessage.carries ht hu

end History

end JobSystem

-- What a receiver sends about a message.
def JobReceiver.Sent.About (msg : ObjMessage) (sent : Sent) : Prop :=
  sent.message.msgType = .response ∧ sent.message.correlationId = msg.correlationId ∧
    sent.message.serialize = some sent.frame

namespace JobReceiver.State

variable {η : Type} {code : Code η} {s : State η} {msg : ObjMessage} {event frame topic : Bytes}
variable {outcome : Outcome} {sent : Sent}

theorem grows_respond : Grows (Sent.About msg) s.sent (s.respond msg event outcome).sent := by
  unfold respond
  split
  case h_1           => exact .of_eq rfl
  case h_2 payload _ =>
    split
    case h_1       => exact .of_eq rfl
    case h_2 _ hs => exact .concat ⟨rfl, rfl, hs⟩

theorem grows_handleJobRequest :
    Grows (Sent.About msg) s.sent (s.handleJobRequest code msg).sent := by
  unfold handleJobRequest
  split
  case h_2 => exact .of_eq rfl
  case h_1 =>
    split
    case h_1 => exact grows_respond (s := { s with module := _ })
    case h_2 =>
      split
      case h_1 => exact grows_respond
      case h_2 => exact grows_respond (s := { s with module := _ })

-- A receiver answers what it has read, and only requests.
theorem mem_receive (h : sent ∈ (s.receive code [[], topic, frame]).sent.drop s.sent.length) :
    ∃ msg, code.deserialize frame = some msg ∧ msg.msgType = .request ∧ sent.About msg := by
  unfold receive at h
  cases hd : code.deserialize frame
  case none     => simp [hd] at h
  case some msg =>
    simp only [hd] at h
    split at h
    case h_1 ht => exact ⟨msg, rfl, ht, grows_handleJobRequest.drop h⟩
    case h_2    => simp at h

end JobReceiver.State

namespace JobSystem

variable {η : Type} {S : JobSystem η} {h : JobHistory η} {c data : Bytes} {request : ObjMessage}

-- A response to the job with the correlation id.
def IsResponse (S : JobSystem η) (c data : Bytes) : Prop :=
  ∃ msg : ObjMessage, msg.msgType = .response ∧ msg.correlationId = .str c ∧
    msg.packed S.encode = some data

theorem eq_ok_of_toOption {ε α : Type} {x : Except ε α} {a : α} (h : x.toOption = some a) :
    x = .ok a := by
  cases x
  case error => cases h
  case ok    => cases h; rfl

theorem Answers.isResponse (hl : S.Legible) (hc : request.correlationId = .str c)
    (ha : S.Answers h request data) : S.IsResponse c data := by
  obtain ⟨handler, before, topic, frame, -, hp, sent, hs, rfl⟩ := ha
  obtain ⟨msg, hd, -, ht, hi, hf⟩ := JobReceiver.State.mem_receive hs
  obtain ⟨full, hu, rfl⟩ := Option.map_eq_some_iff.mp hd
  have hu := eq_ok_of_toOption hu
  have hi : sent.message.correlationId = .str c := by
    rw [hi, FullMessage.obj, (hl.carries hp hu).correlationId_eq hc]
    rfl
  exact ⟨sent.message, ht, hi, Option.map_eq_some_iff.mpr ⟨_, hf, rfl⟩⟩

theorem Tells.isResponse (ht : S.Tells c data) : S.IsResponse c data := by
  obtain ⟨o, msg, ho, hc, hp⟩ := ht
  refine ⟨msg, ?_, hc, hp⟩
  cases o <;> cases ho <;> rfl

section Modules

variable {m : ModuleId} {c : Bytes} {v : Value} {r : ℕ}

-- The arguments of `request_event`, with the correlation id that is drawn.
structure EventCall where
  c       : Bytes
  event   : Option Bytes
  payload : Obj

def EventCall.message (k : EventCall) (id : Bytes) : ObjMessage :=
  Requests.request id k.c k.event k.payload

-- How far a thread is with a request, with a job, or with a response. The request has a record, and
-- it is stored until the thread takes it out again, which it finds there.
inductive View
  | idle
  | called (k : EventCall)
  | named (k : EventCall) (id : Bytes)
  | made (k : EventCall) (id : Bytes) (r : ℕ)
  | stored (k : EventCall) (id : Bytes) (r : ℕ)
  | set (c : Bytes) (r : ℕ)
  | popped (c : Bytes) (r : ℕ)
  | answered (c : Bytes) (v : Value)
  | asked (frames : List Bytes)
  | answering (sents : List JobReceiver.Sent)
  | heard (c : Bytes) (v : Value)
  | found (c : Bytes) (v : Value) (r : ℕ)
  | filled (c : Bytes) (r : ℕ)
  | impossible

namespace View

-- The request that is the thread's own, and the record that no other one knows yet.
def id? : View → Option Bytes
  | .called k | .named k _ | .made k .. | .stored k .. => some k.c
  | .set c _                                           => some c
  | _                                                  => none

def new? : View → Option ℕ
  | .made _ _ r => some r
  | _           => none

def May (g : View) : ∀ {β : Type}, ModuleOp β → Prop
  | _, .inl (.inl .isConnected)                    => True
  | _, .inl (.inl .moduleId)                       => True
  | _, .inl (.inl .newRequest)                     => ∃ k id, g = .named k id
  | _, .inl (.inl (.insert c r))                   => ∃ k id, g = .made k id r ∧ c = .str k.c
  | _, .inl (.inl (.sendMultipart frames message)) => ∃ k id r topic, g = .stored k id r ∧
    frames = [[], topic] ∧ (k.message id).serialize = some message
  | _, .inl (.inl (.wait r))                       => ∃ k id, g = .stored k id r
  | _, .inl (.inl (.pop c))                        =>
    (∃ k id r, g = .stored k id r ∧ c = .str k.c) ∨ ∃ c' r, g = .set c' r ∧ c = .str c'
  | _, .inl (.inl (.result r))                     => ∃ c, g = .popped c r
  | _, .inl (.inl (.get c))                        => ∃ c' v, g = .heard c' v ∧ c = .str c'
  | _, .inl (.inl (.setResult r v))                => ∃ c, g = .found c v r
  | _, .inl (.inl (.set r))                        => ∃ c, g = .filled c r
  | _, .inl (.inl .disconnect)                     => False
  | _, .inl (.inr (.handle frames))                => g = .asked frames
  | _, .inl (.inr (.respond sent))                 => ∃ sents, g = .answering sents ∧ sent ∈ sents
  | _, .inr (.returned c v)                        => g = .answered c v ∨ g = .impossible

def next : View → ∀ {β : Type}, ModuleOp β → Except Requests.Exception β → View
  | .called k,     _, .inl (.inl .moduleId),        .ok id        => .named k id
  | .named k id,   _, .inl (.inl .newRequest),      .ok r         => .made k id r
  | .made k id r,  _, .inl (.inl (.insert ..)),     .ok _         => .stored k id r
  | .stored k _ r, _, .inl (.inl (.wait _)),        .ok true      => .set k.c r
  | .stored ..,    _, .inl (.inl (.pop _)),         _             => .idle
  | .set c _,      _, .inl (.inl (.pop _)),         .ok (some r)  => .popped c r
  | .set .., _,       .inl (.inl (.pop _)),         .ok none      => .impossible
  | .popped c _,   _, .inl (.inl (.result _)),      .ok v         => .answered c v
  | .heard c v,    _, .inl (.inl (.get _)),         .ok (some r)  => .found c v r
  | .found c _ r,  _, .inl (.inl (.setResult ..)),  .ok _         => .filled c r
  | .asked _,      _, .inl (.inr (.handle _)),      .ok sents     => .answering sents
  | g,             _, _,                            _             => g

end View

variable (S h m) in
-- What is true of a thread's view.
def Valid (q : Requests.Module) (records : List (Bytes × ℕ)) : View → Prop
  | .called k       =>
    .drawn (some m) k.c (k.message m.val) ∈ h ∧ ∀ r, (k.c, r) ∉ records
  | .named k id     =>
    (.drawn (some m) k.c (k.message m.val) ∈ h ∧ ∀ r, (k.c, r) ∉ records) ∧ id = m.val
  | .made k id r    =>
    (.drawn (some m) k.c (k.message m.val) ∈ h ∧ ∀ r, (k.c, r) ∉ records) ∧ id = m.val ∧
      r < q.created ∧ (∀ c, (c, r) ∉ records) ∧ q.isSet r = false
  | .stored k id r  =>
    .drawn (some m) k.c (k.message m.val) ∈ h ∧ id = m.val ∧ (k.c, r) ∈ records ∧
      q.pendingRequests.get? (.str k.c) = some r
  | .set c r        =>
    (c, r) ∈ records ∧ q.pendingRequests.get? (.str c) = some r ∧ q.isSet r = true
  | .popped c r     => (c, r) ∈ records ∧ q.isSet r = true
  | .answered c v   => S.Genuine h m c v
  | .asked frames   => ∃ topic data, frames = [[], topic, data] ∧
    ∃ caller c request, .drawn caller c request ∈ h ∧ request.packed S.encode = some data
  | .answering l    => ∃ caller c request, .drawn caller c request ∈ h ∧
    ∀ sent ∈ l, S.Answers h request (S.encode sent.frame)
  | .heard c v      => S.Genuine h m c v
  | .found c v r    => S.Genuine h m c v ∧ (c, r) ∈ records
  | .filled c r     => S.Genuine h m c (q.result r) ∧ (c, r) ∈ records
  | .idle           => True
  | .impossible     => False

variable (S h m) in
-- The table of a module's requests. A record belongs to one request, and what is set in it is the
-- answer to this request.
structure Records (q : Requests.Module) (records : List (Bytes × ℕ)) : Prop where
  moduleId : q.moduleId = m.val
  table    : ∀ {k r}, q.pendingRequests.get? k = some r → ∃ c, k = .str c ∧ (c, r) ∈ records
  drawn    : ∀ {c r}, (c, r) ∈ records → c ∈ h.drawn
  bound    : ∀ {c r}, (c, r) ∈ records → r < q.created
  record   : ∀ {c r r'}, (c, r) ∈ records → (c, r') ∈ records → r = r'
  request  : ∀ {c c' r}, (c, r) ∈ records → (c', r) ∈ records → c = c'
  results  : ∀ {c r}, (c, r) ∈ records → q.isSet r = true → S.Genuine h m c (q.result r)

variable (S h m) in
structure Known (s : Module η) (v : SocketThread → View) : Prop where
  records : S.Records h m s.socket.requests s.records
  valid   : ∀ i, S.Valid h m s.socket.requests s.records (v i)
  ids     : Apart View.id? v
  news    : Apart View.new? v

variable {q q' : Requests.Module} {records records' : List (Bytes × ℕ)} {g : View} {s s' : Module η}
variable {vs : SocketThread → View} {i : SocketThread} {h' : JobHistory η}

theorem Valid.later (hs : h ⊆ h') (hv : S.Valid h m q records g) : S.Valid h' m q records g := by
  cases g
  case called            => exact ⟨hs hv.left, hv.right⟩
  case named             => exact ⟨⟨hs hv.left.left, hv.left.right⟩, hv.right⟩
  case made              => exact ⟨⟨hs hv.left.left, hv.left.right⟩, hv.right⟩
  case stored            => exact ⟨hs hv.left, hv.right⟩
  case answered | heard  => exact Genuine.mono hs hv
  case found | filled    => exact ⟨hv.left.mono hs, hv.right⟩
  case asked             =>
    obtain ⟨topic, data, hf, caller, c, request, hd, hp⟩ := hv
    exact ⟨topic, data, hf, caller, c, request, hs hd, hp⟩
  case answering         =>
    obtain ⟨caller, c, request, hd, ha⟩ := hv
    exact ⟨caller, c, request, hs hd, fun sent hm => (ha sent hm).mono hs⟩
  all_goals exact hv

theorem Records.later (hs : h ⊆ h') (hr : S.Records h m q records) : S.Records h' m q records where
  moduleId := hr.moduleId
  table    := hr.table
  drawn hm := by
    have ⟨caller, request, hd⟩ := mem_drawn.mp <| hr.drawn hm
    exact mem_drawn.mpr ⟨caller, request, hs hd⟩
  bound    := hr.bound
  record   := hr.record
  request  := hr.request
  results hm he := (hr.results hm he).mono hs

-- A thread's own request has been drawn.
theorem Valid.mem_drawn (hr : S.Records h m q records) (hv : S.Valid h m q records g)
    (hc : g.id? = some c) : c ∈ h.drawn := by
  cases g
  case called | stored => cases hc; exact JobSystem.mem_drawn.mpr ⟨_, _, hv.left⟩
  case named | made    => cases hc; exact JobSystem.mem_drawn.mpr ⟨_, _, hv.left.left⟩
  case set             => cases hc; exact hr.drawn hv.left
  all_goals cases hc

theorem Known.change (hr : S.Records h' m s'.socket.requests s'.records)
    (hv : ∀ j ≠ i, S.Valid h' m s'.socket.requests s'.records (vs j))
    (hg : S.Valid h' m s'.socket.requests s'.records g)
    (hc : Apart View.id? (Function.update vs i g)) (hn : Apart View.new? (Function.update vs i g)) :
    S.Known h' m s' (Function.update vs i g) where
  records := hr
  valid j := by
    by_cases hj : j = i
    case pos => rwa [hj, Function.update_self]
    case neg =>
      rw [Function.update_of_ne hj]
      exact hv j hj
  ids     := hc
  news    := hn

-- A step that does not change the table of requests.
theorem Known.same (hk : S.Known h m s vs) (hs : h ⊆ h')
    (hq : s'.socket.requests = s.socket.requests) (hr : s'.records = s.records)
    (hg : S.Valid h' m s.socket.requests s.records g)
    (hc : Apart View.id? (Function.update vs i g)) (hn : Apart View.new? (Function.update vs i g)) :
    S.Known h' m s' (Function.update vs i g) := by
  rw [← hq, ← hr] at hg
  refine .change ?_ (fun j _ => ?_) hg hc hn
  · rw [hq, hr]
    exact hk.records.later hs
  · rw [hq, hr]
    exact (hk.valid j).later hs

section Changes

variable {k : EventCall} {id : Bytes}

theorem Valid.addRecord (hr : S.Records h m q records) (hv : S.Valid h m q records g) :
    S.Valid h m q.addRecord records g := by
  have hn {r : ℕ} (h : r < q.created) : (q.addRecord).isSet r = q.isSet r :=
    Function.update_of_ne h.ne ..
  cases g
  case made   =>
    have ⟨hc, hi, hb, hm, hs⟩ := hv
    exact ⟨hc, hi, Nat.lt_succ_of_lt hb, hm, (hn hb).trans hs⟩
  case set    =>
    have ⟨hm, ht, hs⟩ := hv
    exact ⟨hm, ht, (hn <| hr.bound hm).trans hs⟩
  case popped =>
    have ⟨hm, hs⟩ := hv
    exact ⟨hm, (hn <| hr.bound hm).trans hs⟩
  case filled c r =>
    have he : (q.addRecord).result r = q.result r :=
      Function.update_of_ne (hr.bound hv.right).ne ..
    exact ⟨he ▸ hv.left, hv.right⟩
  all_goals exact hv

theorem Records.addRecord (hr : S.Records h m q records) : S.Records h m q.addRecord records where
  moduleId := hr.moduleId
  table    := hr.table
  drawn    := hr.drawn
  bound hm := Nat.lt_succ_of_lt <| hr.bound hm
  record   := hr.record
  request  := hr.request
  results {c r} hm hs := by
    have hn := (hr.bound hm).ne
    have he : (q.addRecord).result r = q.result r := Function.update_of_ne hn ..
    have hs : q.isSet r = true := (Function.update_of_ne hn ..).symm.trans hs
    exact he ▸ hr.results hm hs

theorem Known.newRequest (hk : S.Known h m s vs) (hi : vs i = .named k id)
    (hq : s'.socket.requests = s.socket.requests.addRecord) (hr : s'.records = s.records) :
    S.Known h m s' (Function.update vs i <| .made k id s.socket.requests.created) := by
  have hv : S.Valid h m s.socket.requests s.records (.named k id) := hi ▸ hk.valid i
  refine .change (hq ▸ hr ▸ hk.records.addRecord)
    (fun j _ => hq ▸ hr ▸ (hk.valid j).addRecord hk.records) ?_
    (hk.ids.less fun c hc => hi ▸ hc) (hk.news.update fun r hn j hj hjn => ?_)
  · rw [hq, hr]
    exact ⟨hv.left, hv.right, Nat.lt_succ_self _,
      fun c hm => absurd (hk.records.bound hm) (Nat.lt_irrefl _), Function.update_self ..⟩
  · cases hn
    have hvj := hk.valid j
    cases hg : vs j
    case made k' id' r' =>
      rw [hg] at hjn hvj
      cases hjn
      exact absurd hvj.right.right.left (Nat.lt_irrefl _)
    all_goals
      rw [hg] at hjn
      cases hjn

-- What another thread stores is neither this thread's request nor its new record.
theorem Valid.store (hc : g.id? ≠ some c) (hn : g.new? ≠ some r)
    (hv : S.Valid h m q records g) :
    S.Valid h m (q.store (.str c) r) (records ++ [(c, r)]) g := by
  have hm {d : Bytes} {n : ℕ} (h : (d, n) ∈ records) : (d, n) ∈ records ++ [(c, r)] :=
    List.mem_append_left _ h
  have hd {d : Bytes} (hd : d ≠ c) (h : ∀ n, (d, n) ∉ records) :
      ∀ n, (d, n) ∉ records ++ [(c, r)] := by
    intro n hn
    rw [List.mem_append, List.mem_singleton] at hn
    exact hn.elim (h n) fun e => hd (Prod.mk.inj e).left
  have ht {d : Bytes} {n : ℕ} (hd : d ≠ c) (h : q.pendingRequests.get? (.str d) = some n) :
      (q.store (.str c) r).pendingRequests.get? (.str d) = some n :=
    (Dict.get?_set_ne fun e => hd <| Key.str.inj e).trans h
  cases g
  case called k       => exact ⟨hv.left, hd (fun e => hc <| congrArg some e) hv.right⟩
  case named k id     =>
    exact ⟨⟨hv.left.left, hd (fun e => hc <| congrArg some e) hv.left.right⟩, hv.right⟩
  case made k id n    =>
    have ⟨hk, hi, hb, hr, hs⟩ := hv
    refine ⟨⟨hk.left, hd (fun e => hc <| congrArg some e) hk.right⟩, hi, hb, fun d hd => ?_, hs⟩
    rw [List.mem_append, List.mem_singleton] at hd
    exact hd.elim (hr d) fun e => hn <| congrArg some (Prod.mk.inj e).right
  case stored k id n  =>
    have ⟨hk, hi, hr, hp⟩ := hv
    exact ⟨hk, hi, hm hr, ht (fun e => hc <| congrArg some e) hp⟩
  case set d n        =>
    have ⟨hr, hp, hs⟩ := hv
    exact ⟨hm hr, ht (fun e => hc <| congrArg some e) hp, hs⟩
  case popped         => exact ⟨hm hv.left, hv.right⟩
  case found | filled => exact ⟨hv.left, hm hv.right⟩
  all_goals exact hv

theorem Records.store (hv : S.Valid h m q records (.made k id r)) (hr : S.Records h m q records) :
    S.Records h m (q.store (.str k.c) r) (records ++ [(k.c, r)]) := by
  obtain ⟨⟨hd, hc⟩, -, hb, hn, hs⟩ := hv
  have hm {d : Bytes} {n : ℕ} :
      (d, n) ∈ records ++ [(k.c, r)] ↔ (d, n) ∈ records ∨ d = k.c ∧ n = r := by
    rw [List.mem_append, List.mem_singleton, Prod.mk.injEq]
  constructor
  case moduleId => exact hr.moduleId
  case table    =>
    intro d n ht
    by_cases he : d = .str k.c
    case pos =>
      cases Option.some.inj <| (Dict.get?_set_self.symm.trans <| he ▸ ht :)
      exact ⟨k.c, he, hm.mpr <| .inr ⟨rfl, rfl⟩⟩
    case neg =>
      have ⟨d', hd', hmem⟩ := hr.table <| (Dict.get?_set_ne he).symm.trans ht
      exact ⟨d', hd', hm.mpr <| .inl hmem⟩
  case drawn    =>
    intro d n hmem
    rcases hm.mp hmem with hmem | ⟨rfl, -⟩
    case inl => exact hr.drawn hmem
    case inr => exact mem_drawn.mpr ⟨_, _, hd⟩
  case bound    =>
    intro d n hmem
    rcases hm.mp hmem with hmem | ⟨-, rfl⟩
    case inl => exact hr.bound hmem
    case inr => exact hb
  case record   =>
    intro d n n' h₁ h₂
    rcases hm.mp h₁ with g₁ | ⟨rfl, e₁⟩ <;> rcases hm.mp h₂ with g₂ | ⟨e₂, e₃⟩
    · exact hr.record g₁ g₂
    · exact absurd (e₂ ▸ g₁) (hc n)
    · exact absurd g₂ (hc n')
    · rw [e₁, e₃]
  case request  =>
    intro d d' n h₁ h₂
    rcases hm.mp h₁ with g₁ | ⟨e₁, rfl⟩ <;> rcases hm.mp h₂ with g₂ | ⟨e₂, e₃⟩
    · exact hr.request g₁ g₂
    · exact absurd (e₃ ▸ g₁) (hn d)
    · exact absurd g₂ (hn d')
    · rw [e₁, e₂]
  case results  =>
    intro d n hmem hset
    rcases hm.mp hmem with hmem | ⟨-, rfl⟩
    case inl => exact hr.results hmem hset
    case inr => exact absurd (hs.symm.trans hset) Bool.false_ne_true

theorem Known.store (hk : S.Known h m s vs) (hi : vs i = .made k id r)
    (hq : s'.socket.requests = s.socket.requests.store (.str k.c) r)
    (hr : s'.records = s.records ++ [(k.c, r)]) :
    S.Known h m s' (Function.update vs i <| .stored k id r) := by
  have hv : S.Valid h m s.socket.requests s.records (.made k id r) := hi ▸ hk.valid i
  have hc : (vs i).id? = some k.c := hi ▸ rfl
  have hn : (vs i).new? = some r := hi ▸ rfl
  refine .change (hq ▸ hr ▸ hk.records.store hv)
    (fun j hj => hq ▸ hr ▸ (hk.valid j).store (hk.ids.ne hj hc) (hk.news.ne hj hn)) ?_
    (hk.ids.less fun d hd => hi ▸ hd) (hk.news.less fun _ hd => by cases hd)
  rw [hq, hr]
  exact ⟨hv.left.left, hv.right.left, List.mem_append_right _ <| .head _, Dict.get?_set_self⟩

theorem Valid.take (hc : g.id? ≠ some c) (hv : S.Valid h m q records g) :
    S.Valid h m (q.take (.str c)) records g := by
  have ht {d : Bytes} {n : ℕ} (hd : d ≠ c) (h : q.pendingRequests.get? (.str d) = some n) :
      (q.take (.str c)).pendingRequests.get? (.str d) = some n :=
    (Dict.get?_erase_ne fun e => hd <| Key.str.inj e).trans h
  cases g
  case stored k id n =>
    have ⟨hk, hi, hr, hp⟩ := hv
    exact ⟨hk, hi, hr, ht (fun e => hc <| congrArg some e) hp⟩
  case set d n       =>
    have ⟨hr, hp, hs⟩ := hv
    exact ⟨hr, ht (fun e => hc <| congrArg some e) hp, hs⟩
  all_goals exact hv

theorem Records.take {d : Key} (hr : S.Records h m q records) :
    S.Records h m (q.take d) records where
  moduleId   := hr.moduleId
  table ht   := hr.table <| Dict.mem_of_mem_erase ht
  drawn      := hr.drawn
  bound      := hr.bound
  record     := hr.record
  request    := hr.request
  results    := hr.results

theorem Known.take (hk : S.Known h m s vs) (hi : (vs i).id? = some c)
    (hq : s'.socket.requests = s.socket.requests.take (.str c)) (hr : s'.records = s.records)
    (hg : S.Valid h m s.socket.requests s.records g) (hc : g.id? = none) (hn : g.new? = none) :
    S.Known h m s' (Function.update vs i g) := by
  refine .change (hq ▸ hr ▸ hk.records.take)
    (fun j hj => hq ▸ hr ▸ (hk.valid j).take (hk.ids.ne hj hi)) ?_
    (hk.ids.less fun d hd => by cases hc.symm.trans hd)
    (hk.news.less fun d hd => by cases hn.symm.trans hd)
  rw [hq, hr]
  exact hg.take fun hd => by cases hc.symm.trans hd

-- What is stored in the record of a request is an answer to it.
theorem genuine_fill {d : Bytes} {n : ℕ} (hr : S.Records h m q records) (hm : (c, r) ∈ records)
    (hg : S.Genuine h m c v) (hn : (d, n) ∈ records) (hd : n ≠ r → S.Genuine h m d (q.result n)) :
    S.Genuine h m d ((q.fill r v).result n) := by
  change S.Genuine h m d (Function.update q.result r v n)
  by_cases he : n = r
  case pos =>
    subst he
    rw [Function.update_self, hr.request hn hm]
    exact hg
  case neg =>
    rw [Function.update_of_ne he]
    exact hd he

theorem Valid.fill (hr : S.Records h m q records) (hm : (c, r) ∈ records)
    (hg : S.Genuine h m c v) (hv : S.Valid h m q records g) :
    S.Valid h m (q.fill r v) records g := by
  cases g
  case filled d n =>
    exact ⟨genuine_fill hr hm hg hv.right fun _ => hv.left, hv.right⟩
  all_goals exact hv

theorem Records.fill (hm : (c, r) ∈ records) (hg : S.Genuine h m c v)
    (hr : S.Records h m q records) : S.Records h m (q.fill r v) records where
  moduleId      := hr.moduleId
  table         := hr.table
  drawn         := hr.drawn
  bound         := hr.bound
  record        := hr.record
  request       := hr.request
  results hn hs := genuine_fill hr hm hg hn fun _ => hr.results hn hs

theorem Known.fill (hk : S.Known h m s vs) (hi : vs i = .found c v r)
    (hq : s'.socket.requests = s.socket.requests.fill r v) (hr : s'.records = s.records) :
    S.Known h m s' (Function.update vs i <| .filled c r) := by
  have ⟨hg, hm⟩ : S.Valid h m s.socket.requests s.records (.found c v r) := hi ▸ hk.valid i
  refine .change (hq ▸ hr ▸ hk.records.fill hm hg)
    (fun j _ => hq ▸ hr ▸ (hk.valid j).fill hk.records hm hg) ?_
    (hk.ids.less fun _ hd => by cases hd) (hk.news.less fun _ hd => by cases hd)
  rw [hq, hr]
  exact ⟨genuine_fill hk.records hm hg hm fun hn => absurd rfl hn, hm⟩

theorem Valid.signal (hm : (c, r) ∈ records) (hv : S.Valid h m q records g) :
    S.Valid h m (q.signal r) records g := by
  have hs {n : ℕ} (h : q.isSet n = true) : (q.signal r).isSet n = true := by
    change Function.update q.isSet r true n = true
    by_cases he : n = r
    case pos => rw [he, Function.update_self]
    case neg => rwa [Function.update_of_ne he]
  cases g
  case made k id n =>
    have ⟨hk, hi, hb, hn, hf⟩ := hv
    have he : n ≠ r := fun e => hn c <| e ▸ hm
    exact ⟨hk, hi, hb, hn, (Function.update_of_ne he ..).trans hf⟩
  case set d n     =>
    have ⟨hd, ht, hn⟩ := hv
    exact ⟨hd, ht, hs hn⟩
  case popped d n  => exact ⟨hv.left, hs hv.right⟩
  all_goals exact hv

theorem Records.signal (hm : (c, r) ∈ records) (hg : S.Genuine h m c (q.result r))
    (hr : S.Records h m q records) : S.Records h m (q.signal r) records where
  moduleId      := hr.moduleId
  table         := hr.table
  drawn         := hr.drawn
  bound         := hr.bound
  record        := hr.record
  request       := hr.request
  results {d n} hn hs := by
    by_cases he : n = r
    case pos =>
      subst he
      rw [hr.request hn hm]
      exact hg
    case neg =>
      have hs : q.isSet n = true := (Function.update_of_ne he ..).symm.trans hs
      exact hr.results hn hs

theorem Known.signal (hk : S.Known h m s vs) (hi : vs i = .filled c r)
    (hq : s'.socket.requests = s.socket.requests.signal r) (hr : s'.records = s.records) :
    S.Known h m s' (Function.update vs i <| .filled c r) := by
  have hv : S.Valid h m s.socket.requests s.records (.filled c r) := hi ▸ hk.valid i
  refine .change (hq ▸ hr ▸ hk.records.signal hv.right hv.left)
    (fun j _ => hq ▸ hr ▸ (hk.valid j).signal hv.right) ?_
    (hk.ids.less fun _ hd => by cases hd) (hk.news.less fun _ hd => by cases hd)
  rw [hq, hr]
  exact hv.signal hv.right

end Changes

variable (S m) in
def discipline : Discipline (S.module m) View where
  May g o    := g.May o
  next g o r := g.next o r
  Inv s vs   := S.InOrder s.2 ∧ S.Known s.2 m s.1 vs
  cond       := moduleNetwork m

variable (S m) in
-- The rules for code that only deals with requests.
def requesting :=
  (S.discipline m).through (O := Requests.Op) fun o => .inl <| .inl o

section Obeys

theorem obeys_requests {k : EventCall} : Obeys (S.requesting m) (fun r g => match r with
    | .ok v    => g = .answered k.c v ∨ g = .impossible
    | .error _ => True) (Requests.requestEvent k.c k.event k.payload) (.called k) := by
  unfold Requests.requestEvent
  refine obeys_bind <| obeys_op trivial fun r => ?_
  cases r
  case error   => trivial
  case ok b    =>
    cases b
    case false => trivial
    case true  =>
      refine obeys_bind <| obeys_op trivial fun r => ?_
      cases r
      case error => trivial
      case ok id =>
        refine obeys_bind <| obeys_op ⟨k, id, rfl⟩ fun r => ?_
        cases r
        case error => trivial
        case ok r  =>
          refine obeys_bind <| obeys_op ⟨k, id, rfl, rfl⟩ fun u => ?_
          cases u
          case error => trivial
          case ok    =>
            refine obeys_lift (fun topic _ => ?_) fun _ _ => trivial
            refine obeys_lift (fun message hs => ?_) fun _ _ => trivial
            have hs : (k.message id).serialize = some message := by
              unfold Requests.serialize at hs
              split at hs <;> cases hs
              assumption
            refine obeys_bind <| obeys_op ⟨k, id, r, topic, rfl, rfl, hs⟩ fun u => ?_
            cases u
            case error => trivial
            case ok    =>
              refine obeys_bind <| obeys_op ⟨k, id, rfl⟩ fun b => ?_
              cases b
              case error => trivial
              case ok b  =>
                cases b
                case false =>
                  refine obeys_bind <| obeys_op (.inl ⟨k, id, r, rfl, rfl⟩) fun u => ?_
                  cases u <;> trivial
                case true  =>
                  refine obeys_bind <| obeys_op (.inr ⟨k.c, r, rfl, rfl⟩) fun u => ?_
                  cases u
                  case error => trivial
                  case ok u  =>
                    cases u
                    case none   => exact .inr rfl
                    case some r =>
                      refine obeys_op ⟨k.c, rfl⟩ fun v => ?_
                      cases v
                      case error => trivial
                      case ok v  => exact .inl rfl

theorem obeys_requestEvent {k : EventCall} : Obeys (S.discipline m) (fun _ _ => True)
    (requestEvent k.c k.event k.payload) (.called k) := by
  refine obeys_bind <| (obeys_through obeys_requests).mono fun r g hg => ?_
  cases r
  case ok    => exact obeys_op hg fun r => by cases r <;> trivial
  case error => trivial

theorem obeys_handleJobResponse : Obeys (S.requesting m) (fun _ _ => True)
    (Requests.handleJobResponse (.str c) v) (.heard c v) := by
  unfold Requests.handleJobResponse
  split
  case isFalse => trivial
  case isTrue  =>
    refine obeys_bind <| obeys_op ⟨c, v, rfl, rfl⟩ fun r => ?_
    cases r
    case error => trivial
    case ok r  =>
      cases r
      case none   => trivial
      case some r =>
        refine obeys_bind <| obeys_op ⟨c, rfl⟩ fun u => ?_
        cases u
        case error => trivial
        case ok    => exact obeys_op ⟨c, rfl⟩ fun _ => trivial

variable (S m) in
-- The rules for code that deals with jobs.
def receiving :=
  (S.discipline m).through (O := SocketOp) fun o => .inl o

theorem obeys_jobReceiver {frames : List Bytes} : Obeys (S.receiving m) (fun _ _ => True)
    (jobReceiver frames) (.asked frames) := by
  refine obeys_bind <| obeys_op rfl fun sents => ?_
  cases sents
  case error    => trivial
  case ok sents =>
    refine obeys_each (fun sent hs => ?_) trivial
    exact obeys_op ⟨sents, rfl, hs⟩ fun r => by cases r <;> trivial

end Obeys

section Kept

variable {p : Module η × JobHistory η} {es : JobHistory η} {x : Requests.Surroundings} {β : Type}

-- A step that does not change the table of requests and adds what is justified to the history.
theorem keeps_same (hj : S.InOrder p.2) (hk : S.Known p.2 m p.1 vs)
    (he : ∀ e ∈ es, S.Justified (p.2 ++ es) e) (hd : JobHistory.drawn es = [])
    (hq : s'.socket.requests = p.1.socket.requests) (hr : s'.records = p.1.records)
    (hg : S.Valid (p.2 ++ es) m p.1.socket.requests p.1.records g)
    (hc : ∀ c, g.id? = some c → (vs i).id? = some c)
    (hn : ∀ r, g.new? = some r → (vs i).new? = some r) :
    S.InOrder (p.2 ++ es) ∧ S.Known (p.2 ++ es) m s' (Function.update vs i g) :=
  ⟨hj.add he hd, hk.same (List.subset_append_left ..) hq hr hg (hk.ids.less hc) (hk.news.less hn)⟩

-- A step after which the thread goes on with the view that it has.
theorem keeps_stay (hj : S.InOrder p.2) (hk : S.Known p.2 m p.1 vs)
    (he : ∀ e ∈ es, S.Justified (p.2 ++ es) e) (hd : JobHistory.drawn es = [])
    (hq : s'.socket.requests = p.1.socket.requests) (hr : s'.records = p.1.records) :
    S.InOrder (p.2 ++ es) ∧ S.Known (p.2 ++ es) m s' (Function.update vs i <| vs i) :=
  keeps_same hj hk he hd hq hr ((hk.valid i).later <| List.subset_append_left ..) (fun _ h => h)
    fun _ h => h

theorem justified_nil : ∀ e ∈ ([] : JobHistory η), S.Justified h e :=
  fun _ he => absurd he List.not_mem_nil

theorem Known.view (hk : S.Known h m s vs) (hi : vs i = g) :
    S.Valid h m s.socket.requests s.records g :=
  hi ▸ hk.valid i

theorem keeps_moduleId (hj : S.InOrder p.2) (hk : S.Known p.2 m p.1 vs)
    (hq : s'.socket.requests = p.1.socket.requests) (hr : s'.records = p.1.records) :
    S.InOrder (p.2 ++ []) ∧ S.Known (p.2 ++ []) m s' (Function.update vs i <|
      (vs i).next (.inl <| .inl .moduleId) (.ok p.1.socket.requests.moduleId)) := by
  have hn : (∃ k, vs i = .called k) ∨
      ∀ id, (vs i).next (.inl <| .inl .moduleId) (.ok id) = vs i := by
    cases vs i
    case called k => exact .inl ⟨k, rfl⟩
    all_goals exact .inr fun _ => rfl
  obtain ⟨k, hi⟩ | hn := hn
  case inr => rw [hn]; exact keeps_stay hj hk justified_nil rfl hq hr
  case inl =>
    have hv := hk.view hi
    rw [hi]
    refine keeps_same hj hk justified_nil rfl hq hr ?_ (fun _ h => hi ▸ h) fun _ h => by cases h
    rw [List.append_nil]
    exact ⟨hv, hk.records.moduleId⟩

-- A wait that ends with the result that the event is set.
theorem exec_wait {y : Except Requests.Exception Bool} {p' : Module η × JobHistory η}
    (he : S.exec m x (.inl <| .inl <| .wait r) p = (y, p')) :
    (y = .ok true → p.1.socket.requests.isSet r = true) ∧ p'.2 = p.2 ∧ p'.1 = p.1 := by
  obtain ⟨sends, waits⟩ := x
  cases waits
  case untilSet =>
    cases he
    exact ⟨Except.ok.inj, List.append_nil _, rfl⟩
  case elapses  =>
    cases he
    exact ⟨fun h => (by cases h), List.append_nil _, rfl⟩
  case refused  =>
    simp only [exec, JobSocket.exec, Requests.Module.exec] at he
    cases hs : p.1.socket.requests.isSet r
    case true  =>
      rw [hs] at he
      cases he
      exact ⟨fun _ => rfl, List.append_nil _, rfl⟩
    case false =>
      rw [hs] at he
      cases he
      exact ⟨fun h => (by cases h), rfl, rfl⟩

theorem keeps_wait {y : Except Requests.Exception Bool} (hj : S.InOrder p.2)
    (hk : S.Known p.2 m p.1 vs) {k : EventCall} {id : Bytes} (hi : vs i = .stored k id r)
    (hy : y = .ok true → p.1.socket.requests.isSet r = true) :
    S.InOrder p.2 ∧ S.Known p.2 m p.1 (Function.update vs i <|
      (vs i).next (.inl <| .inl <| .wait r) y) := by
  by_cases ht : y = .ok true
  case neg =>
    have hn : (vs i).next (.inl <| .inl <| .wait r) y = vs i := by
      rw [hi]
      rcases y with _ | _ | _
      case ok.true => exact absurd rfl ht
      all_goals rfl
    have hs := keeps_stay (i := i) hj hk justified_nil rfl rfl rfl
    rwa [hn, ← List.append_nil p.2]
  case pos =>
    subst ht
    have ⟨_, _, hm, ht⟩ := hk.view hi
    rw [hi]
    exact ⟨hj, hk.same (fun _ h => h) rfl rfl ⟨hm, ht, hy rfl⟩ (hk.ids.less fun _ h => hi ▸ h)
      (hk.news.less fun _ h => by cases h)⟩

-- A response that nobody waits for is left alone.
theorem keeps_get {y : Option ℕ} (hj : S.InOrder p.2) (hk : S.Known p.2 m p.1 vs)
    (hi : vs i = .heard c v) (hy : y = p.1.socket.requests.pendingRequests.get? (.str c)) :
    S.InOrder p.2 ∧ S.Known p.2 m p.1 (Function.update vs i <|
      (vs i).next (.inl <| .inl <| .get <| .str c) (.ok y)) := by
  have hv := hk.view hi
  rw [hi]
  refine ⟨hj, hk.same (fun _ h => h) rfl rfl ?_ (hk.ids.less fun _ h => ?_)
    (hk.news.less fun _ h => ?_)⟩
  all_goals cases y
  case refine_1.none   => exact hv
  case refine_1.some r =>
    have ⟨d, hd, hm⟩ := hk.records.table hy.symm
    cases hd
    exact ⟨hv, hm⟩
  all_goals cases h

theorem keeps_exec {o : ModuleOp β} {y : Except Requests.Exception β}
    {p' : Module η × JobHistory η} (hj : S.InOrder p.2) (hk : S.Known p.2 m p.1 vs)
    (hm : (vs i).May o) (he : S.exec m x o p = (y, p')) :
    S.InOrder p'.2 ∧ S.Known p'.2 m p'.1 (Function.update vs i <| (vs i).next o y) := by
  rcases o with (o | o) | o <;> cases o
  case inl.inl.isConnected =>
    cases he
    have hn {y} : (vs i).next (.inl <| .inl .isConnected) y = vs i := by
      cases vs i <;> rfl
    rw [hn]
    exact keeps_stay hj hk justified_nil rfl rfl rfl
  case inl.inl.moduleId    =>
    cases he
    exact keeps_moduleId hj hk rfl rfl
  case inl.inl.newRequest  =>
    obtain ⟨k, id, hi⟩ := hm
    cases he
    rw [hi]
    change S.InOrder (p.2 ++ []) ∧ S.Known (p.2 ++ []) m _ _
    rw [List.append_nil]
    exact ⟨hj, hk.newRequest hi rfl rfl⟩
  case inl.inl.insert      =>
    obtain ⟨k, id, hi, rfl⟩ := hm
    cases he
    rw [hi]
    change S.InOrder (p.2 ++ []) ∧ S.Known (p.2 ++ []) m _ _
    rw [List.append_nil]
    exact ⟨hj, hk.store hi rfl rfl⟩
  case inl.inl.sendMultipart frames message =>
    obtain ⟨k, id, r, topic, hi, rfl, hs⟩ := hm
    have hn {y} : (vs i).next (.inl <| .inl <| .sendMultipart [[], topic] message) y = vs i := by
      rw [hi]
      rfl
    rw [hn]
    obtain ⟨sends, waits⟩ := x
    cases sends
    case false =>
      cases he
      have hs := keeps_stay (i := i) hj hk justified_nil rfl rfl rfl
      rwa [List.append_nil] at hs
    case true  =>
      cases he
      refine keeps_stay hj hk (fun e he => ?_) rfl rfl rfl
      obtain rfl := List.mem_singleton.mp he
      have ⟨hd, hid, _⟩ := hk.view hi
      exact ⟨topic, _, rfl, .inl ⟨k.c, _, List.mem_append_left _ hd,
        Option.map_eq_some_iff.mpr ⟨_, hid ▸ hs, rfl⟩⟩⟩
  case inl.inl.wait r      =>
    obtain ⟨k, id, hi⟩ := hm
    have ⟨hy, hp, hs⟩ := exec_wait he
    rw [hp, hs]
    exact keeps_wait hj hk hi hy
  case inl.inl.pop d       =>
    cases he
    change S.InOrder (p.2 ++ []) ∧ S.Known (p.2 ++ []) m _ _
    rw [List.append_nil]
    obtain ⟨k, id, r, hi, rfl⟩ | ⟨c, r, hi, rfl⟩ := hm
    case inl =>
      rw [hi]
      exact ⟨hj, hk.take (hi ▸ rfl) rfl rfl trivial rfl rfl⟩
    case inr =>
      have ⟨hr, ht, hs⟩ := hk.view hi
      rw [hi, ht]
      exact ⟨hj, hk.take (hi ▸ rfl) rfl rfl ⟨hr, hs⟩ rfl rfl⟩
  case inl.inl.result r    =>
    obtain ⟨c, hi⟩ := hm
    have ⟨hr, hs⟩ := hk.view hi
    cases he
    rw [hi]
    exact keeps_same hj hk justified_nil rfl rfl rfl
      ((hk.records.results hr hs).mono <| List.subset_append_left ..) (fun _ h => by cases h)
      fun _ h => by cases h
  case inl.inl.get d       =>
    obtain ⟨c, v, hi, rfl⟩ := hm
    cases he
    change S.InOrder (p.2 ++ []) ∧ S.Known (p.2 ++ []) m p.1 _
    rw [List.append_nil]
    exact keeps_get hj hk hi rfl
  case inl.inl.setResult r v =>
    obtain ⟨c, hi⟩ := hm
    cases he
    rw [hi]
    change S.InOrder (p.2 ++ []) ∧ S.Known (p.2 ++ []) m _ _
    rw [List.append_nil]
    exact ⟨hj, hk.fill hi rfl rfl⟩
  case inl.inl.set r       =>
    obtain ⟨c, hi⟩ := hm
    cases he
    rw [hi]
    change S.InOrder (p.2 ++ []) ∧ S.Known (p.2 ++ []) m _ _
    rw [List.append_nil]
    exact ⟨hj, hk.signal hi rfl rfl⟩
  case inl.inl.disconnect  => exact hm.elim
  case inl.inr.handle frames =>
    have hv := hk.view hm
    cases he
    rw [hm]
    obtain ⟨topic, data, rfl, caller, c, request, hd, hp⟩ := hv
    refine keeps_same hj hk (fun e he => ?_) rfl rfl rfl ?_ (fun _ h => by cases h)
      fun _ h => by cases h
    case refine_1 =>
      obtain rfl := List.mem_singleton.mp he
      exact ⟨topic, data, rfl, caller, c, request, List.mem_append_left _ hd, hp⟩
    case refine_2 =>
      refine ⟨caller, c, request, List.mem_append_left _ hd, fun sent hs => ?_⟩
      exact ⟨m, _, topic, data, List.mem_append_right _ <| .head _, hp, sent, hs, rfl⟩
  case inl.inr.respond sent  =>
    obtain ⟨l, hi, hs⟩ := hm
    have hn {y} : (vs i).next (.inl <| .inr <| .respond sent) y = vs i := by
      rw [hi]
      rfl
    rw [hn]
    obtain ⟨sends, waits⟩ := x
    cases sends
    case false =>
      cases he
      have hs := keeps_stay (i := i) hj hk justified_nil rfl rfl rfl
      rwa [List.append_nil] at hs
    case true  =>
      cases he
      refine keeps_stay hj hk (fun e he => ?_) rfl rfl rfl
      obtain rfl := List.mem_singleton.mp he
      have ⟨caller, c, request, hd, ha⟩ := hk.view hi
      exact ⟨sent.topic, _, rfl, .inr ⟨caller, c, request, List.mem_append_left _ hd,
        (ha sent hs).mono <| List.subset_append_left ..⟩⟩
  case inr.returned c v      =>
    obtain hi | hi := hm
    case inr => exact (hk.view hi).elim
    case inl =>
      have hn {y} : (vs i).next (.inr <| .returned c v) y = vs i := by
        rw [hi]
        rfl
      have hv := hk.view hi
      cases he
      rw [hn]
      refine keeps_stay hj hk (fun e he => ?_) rfl rfl rfl
      obtain rfl := List.mem_singleton.mp he
      exact Genuine.mono (List.subset_append_left ..) hv

-- What a thread does with frames that were sent to its module.
theorem obeys_receive {frames : List Bytes} {n : ℕ} (hl : S.Legible) (hj : S.InOrder h)
    (hf : .routed (m.val :: frames) ∈ h) : ∃ g, S.Valid h m q records g ∧ g.id? = none ∧
      g.new? = none ∧ Obeys (S.discipline m) (fun _ _ => True) (S.receive n frames) g := by
  have hidle : ∃ g, S.Valid h m q records g ∧ g.id? = none ∧ g.new? = none ∧
      Obeys (S.discipline m) (fun _ _ => True) (.done (.ok ()) : Proc ModuleOp _ Unit) g :=
    ⟨.idle, trivial, rfl, rfl, trivial⟩
  obtain ⟨identity, topic, data, he, ha⟩ := hj.justified _ hf
  cases he
  unfold receive
  dsimp only
  cases hu : unpacked S.decode n data
  case error    => exact hidle
  case ok full  =>
    dsimp only
    rcases ha with ⟨caller, c, request, hd, hp⟩ | ⟨m', c, request, hm, hd, ha⟩
    case inl =>
      have ht := (hl.carries hp hu).msgType.trans (hj.justified _ hd).left
      rw [ht]
      exact ⟨.asked _, ⟨topic, data, rfl, caller, c, request, hd, hp⟩, rfl, rfl,
        obeys_through obeys_jobReceiver⟩
    case inr =>
      obtain rfl : m = m' := Subtype.ext hm
      obtain ⟨msg, ht, hc, hp⟩ : S.IsResponse c data :=
        ha.elim (·.isResponse hl (hj.justified _ hd).right.left) Tells.isResponse
      have hcr := hl.carries hp hu
      rw [hcr.msgType, ht, hcr.correlationId_eq hc]
      exact ⟨.heard c full.payload, ⟨request, data, n, full, hd, ha, hu, rfl⟩, rfl, rfl,
        obeys_through obeys_handleJobResponse⟩

theorem obeys_ignoring {code : Proc ModuleOp Requests.Exception Unit}
    (ho : Obeys (S.discipline m) (fun _ _ => True) code g) :
    Obeys (S.discipline m) (fun _ _ => True) (code.catching fun _ => pure ()) g := by
  refine obeys_catching <| ho.mono fun r g _ => ?_
  cases r <;> trivial

theorem keeps_enter {k : ModuleTask} {p' : Module η × JobHistory η}
    {code : Proc ModuleOp Requests.Exception Unit} (hl : S.Legible) (hj : S.InOrder p.2)
    (hk : S.Known p.2 m p.1 vs) (hc : (moduleNetwork m).enter i k p)
    (he : (S.module m).enter i k p = some (p', code)) :
    ∃ g, (S.InOrder p'.2 ∧ S.Known p'.2 m p'.1 (Function.update vs i g)) ∧
      Obeys (S.discipline m) (fun _ _ => True) code g := by
  obtain ⟨code, hcode, he⟩ := Option.map_eq_some_iff.mp he
  cases he
  cases k
  case requestEvent c event payload =>
    have hcode : (JobSystem.requestEvent c event payload).catching (fun _ => pure ()) = code := by
      cases i <;> exact Option.some.inj hcode
    subst hcode
    refine ⟨.called ⟨c, event, payload⟩, ⟨hj.draw hc ⟨rfl, rfl, ?_⟩, ?_⟩,
      obeys_ignoring <| obeys_requestEvent (k := ⟨c, event, payload⟩)⟩
    case refine_1 =>
      rintro _ ⟨⟩
      exact ⟨event, payload, rfl⟩
    case refine_2 =>
      refine hk.same (List.subset_append_left ..) rfl rfl ⟨?_, fun r hr => ?_⟩ ?_
        (hk.news.less fun _ h => by cases h)
      · exact List.mem_append_right _ <| .head _
      · exact hc <| hk.records.drawn hr
      · refine hk.ids.update fun d hd j _ hjd => ?_
        cases hd
        exact hc <| (hk.valid j).mem_drawn hk.records hjd
  case receive n frames =>
    cases i
    case caller   => cases hcode
    case receiver =>
      cases hcode
      obtain ⟨g, hg, hi, hn, ho⟩ := obeys_receive (n := n) hl hj <| mem_routed.mp hc
      refine ⟨g, ?_, obeys_ignoring ho⟩
      refine keeps_same hj hk justified_nil rfl rfl rfl (hg.later <| List.subset_append_left ..)
        (fun _ h => by cases hi.symm.trans h) fun _ h => by cases hn.symm.trans h

theorem kept (hl : S.Legible) : (S.discipline m).Kept fun _ _ _ => True where
  exec _ _ _ _ _ _ _ _ hI hm _ he := keeps_exec hI.left hI.right hm <| Option.some.inj he
  enter _ _ _ _ _ _ hI _ hc he    := keeps_enter hl hI.left hI.right hc he

theorem appends : (S.module m).Appends where
  enter he := by
    obtain ⟨code, -, he⟩ := Option.map_eq_some_iff.mp he
    cases he
    exact List.prefix_append ..
  exec he := by
    have he := Option.some.inj he
    unfold exec at he
    split at he
    case h_1 =>
      cases he
      exact List.prefix_append ..
    case h_2 =>
      split at he <;> cases he
      case h_1 => exact List.prefix_refl _
      case h_2 => exact List.prefix_append ..

variable (S m) in
-- What is known about the threads of a module, each of which does its part with the rest of its
-- code.
def Sound (t : Threads ModuleOp Requests.Exception (Module η) SocketThread ModuleTask)
    (h : JobHistory η) : Prop :=
  ∃ vs, S.Known h m t.shared vs ∧ ∀ i, Obeys (S.discipline m) (fun _ _ => True) (t.code i) (vs i)

theorem module_contract (hl : S.Legible) :
    Contract (party (S.module m)) S.InOrder (S.Sound m) (MeetsWithin (moduleNetwork m)) :=
  contract (L := fun s h vs => S.Known h m s vs) appends (kept hl) (fun _ _ _ => Iff.rfl)
    fun hk hp =>
      ⟨hk.records.later hp.subset, fun i => (hk.valid i).later hp.subset, hk.ids, hk.news⟩

end Kept

end Modules

end JobSystem

end Python
