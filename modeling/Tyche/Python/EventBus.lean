import Tyche.Discipline
import Tyche.Python.EventProxy
import Tyche.Python.JobSockets
import Tyche.Python.Theorems.JobSystem

namespace Python

open Msgpack Proc Threads

-- Who a message on the event sockets comes from, which the code is not told.
inductive EventSource
  | module (m : ℕ)
  | engine
deriving DecidableEq

structure EventMessage where
  source : EventSource
  frames : List Bytes
deriving DecidableEq

namespace EventBus

-- The frames of those messages that come from the module.
def framesFrom (m : ℕ) (msgs : List EventMessage) : List (List Bytes) :=
  (msgs.filter (·.source = .module m)).map (·.frames)

section Broker

-- The queues of the engine. Which messages the proxy has received, and which of them and of those
-- that the engine has made could be sent to the subscribers, is not kept by the code.
structure Broker where
  events    : Events
  received  : List EventMessage
  forwarded : List (EventMessage × Bool)

namespace Broker

def start (now : ℚ) (queueCapacity : Option ℤ) : Broker where
  events    := .start now queueCapacity
  received  := []
  forwarded := []

def sent (s : Broker) : List EventMessage :=
  (s.forwarded.filter (·.2)).map (·.1)

end Broker

inductive BrokerThread
  | queues (i : EventThread)
  | publisher (n : ℕ)
deriving DecidableEq

-- The proxy deals with a message, a thread of the engine publishes what the engine has made, or the
-- queues are looked after.
inductive BrokerTask
  | event (msg : EventMessage)
  | publish (frames : List Bytes)
  | queues (task : EventTask)

inductive ForwardOp : Type → Type
  | hasXpub : ForwardOp Bool
  | sendMultipart (msg : EventMessage) : ForwardOp Unit

abbrev BrokerOp (β : Type) : Type :=
  EventOp β ⊕ ForwardOp β

def BrokerOp.from (source : EventSource) {β : Type} : EventOp β → BrokerOp β
  | .forward frames => .inr <| .sendMultipart ⟨source, frames⟩
  | o               => .inl o

-- What the engine publishes are copies of jobs and its own log.
def publish (frames : List Bytes) : Proc BrokerOp Error Unit :=
  Proc.catching (do
    if ← op <| .inr .hasXpub then
      op <| .inr <| .sendMultipart ⟨.engine, frames⟩
    else
      return ()) fun _ => return ()

namespace Broker

def enter : BrokerThread → BrokerTask → Broker → Option (Broker × Proc BrokerOp Error Unit)
  | .queues .proxy, .event msg, s    =>
    some ({ s with received := s.received ++ [msg] },
      (proxyEvent msg.frames).subst fun o => op <| .from msg.source o)
  | .publisher _, .publish frames, s => some (s, publish frames)
  | .queues .proxy, .queues _, _     => none
  | .queues i, .queues task, s       =>
    (s.events.enter i task).map fun (t, p) =>
      ({ s with events := t }, p.subst fun o => op <| .inl o)
  | _, _, _                          => none

def exec (works : List Bytes → Bool) :
    ∀ {β : Type}, BrokerOp β → Broker → Option (Except Error β × Broker)
  | _, .inl o, s                    =>
    if s.events.Blocked o then none else
      let (r, t) := s.events.exec works o
      some (r, { s with events := t })
  | _, .inr .hasXpub, s             => some (.ok <| works [], s)
  | _, .inr (.sendMultipart msg), s =>
    some (if works msg.frames then .ok () else .error .zmqError,
      { s with forwarded := s.forwarded ++ [(msg, works msg.frames)] })

end Broker

-- The threads of the engine that deal with events.
def broker :
    Threads.System BrokerOp Error Broker BrokerThread BrokerTask (List Bytes → Bool) where
  enter          := Broker.enter
  exec _ works o := Broker.exec works o

end Broker

-- How the packer's tokens are written as bytes, and how bytes are read as tokens.
variable (encode : List Token → Bytes) (decode : Bytes → List Token) {η : Type}

section Port

-- The event sockets of a module. Which messages were published and received, and for which of them
-- a handler was called, is not kept by the code.
structure Port (η : Type) where
  module    : TycheModule η
  published : List (List Bytes)
  received  : List EventMessage
  handled   : List (EventMessage × TycheModule.Call η)

def Port.start (s : TycheModule η) : Port η where
  module    := s
  published := []
  received  := []
  handled   := []

inductive PortTask
  | sendEvent (event : Option Bytes) (payload recipient : Obj)
  | receive (msg : EventMessage)

inductive PortOp (η : Type) : Type → Type
  | isConnected : PortOp η Bool
  | sendMultipart (frames : List Bytes) : PortOp η Unit
  | handle (msg : EventMessage) (handler : TycheModule.Call η) : PortOp η Unit

def eventMessage (moduleId : Bytes) (event : Option Bytes) (payload recipient : Obj) :
    ObjMessage where
  msgType   := .event
  sender    := .str moduleId
  recipient := recipient
  event     := .str event
  payload   := payload

-- The frames of an event. An exception if it cannot be encoded.
def eventFrames (moduleId : Bytes) (event : Option Bytes) (payload recipient : Obj) :
    Option (List Bytes) := do
  let topic ← event
  let frame ← (eventMessage moduleId event payload recipient).packed encode
  return [topic, frame]

def sendEvent (moduleId : Bytes) (event : Option Bytes) (payload recipient : Obj) :
    Proc (PortOp η) Error Unit := do
  if ← op .isConnected then
    match eventFrames encode moduleId event payload recipient with
    | some frames => op <| .sendMultipart frames
    | none        => raise .valueError
  else
    return ()

def isFrom (moduleId : Bytes) : Value → Bool
  | .str sender => sender = moduleId
  | _           => false

-- The handler that the receiver calls for a message, if any. What cannot be decoded is only logged,
-- and the module ignores its own messages.
def eventCall (s : TycheModule η) : List Bytes → Option (TycheModule.Call η)
  | topic :: frame :: _ =>
    if IsUtf8 topic then
      match unpacked decode 0 frame with
      | .error _ => none
      | .ok msg  => if isFrom s.moduleId msg.sender then none else s.dispatch topic msg.toMessage
    else
      none
  | _                   => none

-- The exceptions of a handler are logged.
def receive (s : TycheModule η) (msg : EventMessage) : Proc (PortOp η) Error Unit :=
  match eventCall decode s msg.frames with
  | some handler => Proc.catching (op <| .handle msg handler) fun _ => return ()
  | none         => return ()

namespace Port

-- Any thread may call `send_event`, and it may go on after an exception.
def enter : SocketThread → PortTask → Port η → Option (Port η × Proc (PortOp η) Error Unit)
  | _, .sendEvent event payload recipient, s => some (s, Proc.catching
      (sendEvent encode s.module.moduleId event payload recipient) fun _ => return ())
  | .receiver, .receive msg, s               =>
    some ({ s with received := s.received ++ [msg] }, receive decode s.module msg)
  | _, _, _                                  => none

def exec (works : Bool) : ∀ {β : Type}, PortOp η β → Port η → Except Error β × Port η
  | _, .isConnected, s          => (.ok works, s)
  | _, .sendMultipart frames, s =>
    if works then (.ok (), { s with published := s.published ++ [frames] })
    else (.error .zmqError, s)
  | _, .handle msg handler, s   =>
    (if works then .ok () else .error .typeError,
      { s with handled := s.handled ++ [(msg, handler)] })

end Port

-- The threads of a module that use its event sockets.
def port : Threads.System (PortOp η) Error (Port η) SocketThread PortTask Bool where
  enter            := Port.enter encode decode
  exec _ works o s := some <| s.exec works o

-- The socket of a module is subscribed to the names of its handlers, which are prefixes of topics.
def Subscribed (s : TycheModule η) (frames : List Bytes) : Prop :=
  ∃ name ∈ s.handlers.keys, ∃ topic ∈ frames.head?, name <+: topic

instance {s : TycheModule η} {frames : List Bytes} : Decidable (Subscribed s frames) :=
  inferInstanceAs <| Decidable (∃ name ∈ _, ∃ topic ∈ frames.head?, name <+: topic)

end Port

end EventBus

open EventBus in
-- The engine and its modules.
structure EventBus (η : Type) where
  engine  : Threads BrokerOp Error Broker BrokerThread BrokerTask
  modules : ℕ → Threads (PortOp η) Error (Port η) SocketThread PortTask

namespace EventBus

variable (encode : List Token → Bytes) (decode : Bytes → List Token) {η : Type}

inductive Action
  | engine (a : Threads.Action BrokerThread BrokerTask (List Bytes → Bool))
  | module (m : ℕ) (a : Threads.Action SocketThread PortTask Bool)

def start (now : ℚ) (queueCapacity : Option ℤ) (modules : ℕ → TycheModule η) : EventBus η where
  engine    := .start <| .start now queueCapacity
  modules m := .start <| .start (modules m)

def step (s : EventBus η) : Action → Option (EventBus η)
  | .engine a   => (Threads.step broker s.engine a).map fun t => { s with engine := t }
  | .module m a => (Threads.step (port encode decode) (s.modules m) a).map fun t =>
    { s with modules := Function.update s.modules m t }

def machine : Machine (EventBus η) Action where
  step := step encode decode

-- The network may lose messages and may hold them back for any time. Those that it delivers over a
-- connection come in the order in which they were sent, and to a module only what its socket is
-- subscribed to.
def Ordered (s : EventBus η) : Action → Prop
  | .engine (.start _ (.event ⟨.module m, frames⟩)) =>
    (framesFrom m s.engine.shared.received ++ [frames]).Sublist (s.modules m).shared.published
  | .engine (.start _ (.event ⟨.engine, _⟩))        => False
  | .module m (.start _ (.receive msg))             =>
    Subscribed (s.modules m).shared.module msg.frames ∧
      ((s.modules m).shared.received ++ [msg]).Sublist s.engine.shared.sent
  | _                                               => True

instance {s : EventBus η} : DecidablePred (Ordered s)
  | .engine (.start _ (.event ⟨.module _, _⟩))  => inferInstanceAs <| Decidable (List.Sublist ..)
  | .engine (.start _ (.event ⟨.engine, _⟩))    => isFalse id
  | .module _ (.start _ (.receive _))           => inferInstanceAs <| Decidable (_ ∧ _)
  | .engine (.start _ (.publish _)) | .engine (.start _ (.queues _)) | .engine (.next ..)
  | .module _ (.start _ (.sendEvent ..)) | .module _ (.next ..) => isTrue trivial

section BrokerProofs

variable {s s' : Broker} {source : EventSource} {frames : List Bytes} {α β : Type}

-- The messages of modules that the proxy has sent, or has tried to.
def Broker.passed (s : Broker) : List EventMessage :=
  (s.forwarded.map (·.1)).filter (·.source ≠ .engine)

-- A thread knows the message that it has yet to send to the subscribers.
structure Broker.Inv (s : Broker) (v : BrokerThread → Option EventMessage) : Prop where
  idle     : ∀ i, i ≠ .queues .proxy → v i = none
  source   : ∀ msg ∈ v (.queues .proxy), msg.source ≠ .engine
  received : s.received = s.passed ++ (v <| .queues .proxy).toList

def fromModules : Condition BrokerOp Broker BrokerThread BrokerTask (List Bytes → Bool) where
  enter _ k _    :=
    match k with
    | .event msg => msg.source ≠ .engine
    | _          => True
  exec _ _ _ _ _ := True

def brokerDiscipline : Discipline broker (Option EventMessage) where
  May g o    :=
    match o with
    | .inr (.sendMultipart msg) => msg.source = .engine ∨ g = some msg
    | _                         => True
  next g o _ :=
    match o with
    | .inr (.sendMultipart msg) => if msg.source = .engine then g else none
    | _                         => g
  Inv        := Broker.Inv
  cond       := fromModules

-- The operations that do not send anything.
def Silent {β : Type} : EventOp β → Prop
  | .forward _ => False
  | _          => True

section Silent

variable {q : ℕ} {topic : Key} {p : PyEvents α}

theorem silent_applyBackpressure : (applyBackpressure q topic frames).All Silent := by
  refine (Proc.all_op trivial).bind fun strategy => (Proc.all_op trivial).bind fun _ => ?_
  refine (Proc.all_op trivial).bind fun _ => (Proc.all_op trivial).bind fun _ => ?_
  refine Proc.All.lift fun _ _ => ?_
  split
  case isTrue  => exact (Proc.all_op trivial).bind fun _ => trivial
  case isFalse =>
    cases strategy
    case dropOldest =>
      refine (Proc.all_op trivial).bind fun _ => (Proc.all_op trivial).bind fun _ => ?_
      exact (Proc.all_op trivial).bind fun _ => trivial
    all_goals exact (Proc.all_op trivial).bind fun _ => trivial

theorem silent_withLock (h : p.All Silent) : (withLock p).All Silent :=
  (Proc.all_op trivial).bind fun _ => h.after fun _ => (Proc.all_op trivial).bind fun _ => trivial

theorem silent_enqueueFromXsub : (enqueueFromXsub frames).All Silent := by
  unfold enqueueFromXsub
  split
  case h_2 => trivial
  case h_1 =>
    refine Proc.All.lift fun _ _ => (Proc.all_op trivial).bind fun _ => ?_
    refine (Proc.all_op trivial).bind fun q => ?_
    cases q
    case some => exact silent_applyBackpressure.bind fun _ => Proc.all_op trivial
    case none =>
      refine (silent_withLock ?_).bind fun _ => trivial
      refine Proc.All.bind (Proc.All.bind (Proc.all_op trivial) fun q => ?_) fun _ =>
        silent_applyBackpressure
      cases q
      case none => exact Proc.all_op trivial
      case some => trivial

theorem silent_drain : drain.All Silent := by
  refine (Proc.all_op trivial).bind fun next => ?_
  split
  case h_1 => exact Proc.all_op trivial
  case h_2 =>
    refine (Proc.all_op trivial).bind fun entry => ?_
    split
    case h_1 => exact Proc.all_op trivial
    case h_2 =>
      refine (Proc.all_op trivial).bind fun _ => (Proc.all_op trivial).bind fun _ => ?_
      refine Proc.All.lift fun expired _ => ?_
      cases expired
      case false => exact Proc.all_op trivial
      case true  =>
        refine Proc.All.bind ?_ fun _ => Proc.all_op trivial
        exact (Proc.all_op trivial).catching fun _ => by trivial

theorem silent_collectTopics : collectTopics.All Silent := by
  refine (Proc.all_op trivial).bind fun _ => silent_withLock ?_
  refine (Proc.all_op trivial).bind fun _ => ?_
  refine (Proc.All.select fun _ => Proc.all_op trivial).bind fun _ => Proc.All.each fun _ => ?_
  exact (Proc.all_op trivial).bind fun _ => Proc.all_op trivial

theorem silent_enter {i : EventThread} {k : EventTask} {e e' : Events} {p : PyEvents Unit}
    (hi : i ≠ .proxy) (h : e.enter i k = some (e', p)) : p.All Silent := by
  unfold Events.enter at h
  split at h
  case h_1 => contradiction
  case h_2 => cases h; exact silent_drain
  case h_3 => cases h; exact silent_collectTopics
  case h_4 => split at h <;> cases h; trivial
  case h_5 => cases h; trivial
  case h_6 => split at h <;> cases h; trivial
  case h_7 => cases h

end Silent

theorem Broker.Inv.queues {v : BrokerThread → Option EventMessage} {e : Events} (h : s.Inv v) :
    Broker.Inv { s with events := e } v :=
  ⟨h.idle, h.source, h.received⟩

-- A message of the engine itself.
theorem Broker.Inv.publish {v : BrokerThread → Option EventMessage} {msg : EventMessage} {b : Bool}
    (h : s.Inv v) (hm : msg.source = .engine) :
    Broker.Inv { s with forwarded := s.forwarded ++ [(msg, b)] } v where
  idle     := h.idle
  source   := h.source
  received := by simpa [Broker.passed, hm] using h.received

-- The message that the proxy has yet to send.
theorem Broker.Inv.forward {v : BrokerThread → Option EventMessage} {msg : EventMessage}
    {i : BrokerThread} {b : Bool} (h : s.Inv v) (hi : v i = some msg) :
    Broker.Inv { s with forwarded := s.forwarded ++ [(msg, b)] } (Function.update v i none) := by
  obtain rfl : i = .queues .proxy := by
    by_contra hn
    cases (h.idle i hn).symm.trans hi
  constructor
  case idle     => exact fun j hj => (Function.update_of_ne hj ..).trans <| h.idle j hj
  case source   => simp
  case received =>
    have hs := h.source msg hi
    simpa [Broker.passed, hs, hi] using h.received

theorem Broker.Inv.receive {v : BrokerThread → Option EventMessage} {msg : EventMessage}
    (h : s.Inv v) (hv : v (.queues .proxy) = none) (hm : msg.source ≠ .engine) :
    Broker.Inv { s with received := s.received ++ [msg] }
      (Function.update v (.queues .proxy) <| some msg) := by
  constructor
  case idle     => exact fun j hj => (Function.update_of_ne hj ..).trans <| h.idle j hj
  case source   => simpa using hm
  case received => simpa [Broker.passed, hv] using h.received

theorem from_silent {o : EventOp β} (h : Silent o) : BrokerOp.from source o = .inl o := by
  cases o
  case forward => exact h.elim
  all_goals rfl

theorem obeys_silent {p : PyEvents α} {f : ∀ {β}, EventOp β → BrokerOp β} {g : Option EventMessage}
    (hf : ∀ {β} (o : EventOp β), Silent o → f o = .inl o) (hp : p.All Silent) :
    Obeys (brokerDiscipline.through f) (fun _ g' => g' = g) p g := by
  refine obeys_of_all hp fun o ho => ?_
  simp only [Discipline.through, hf o ho]
  exact ⟨trivial, fun _ => rfl⟩

-- Whatever comes of it, the proxy tries once to send a message on.
theorem obeys_proxyEvent (hs : source ≠ .engine) :
    Obeys brokerDiscipline (fun _ g => g = none)
      ((proxyEvent frames).subst fun o => Proc.op (.from source o)) (some ⟨source, frames⟩) := by
  refine obeys_through <| obeys_bind <| obeys_catching <| obeys_op (.inr rfl) fun r => ?_
  have hn : (brokerDiscipline.through (BrokerOp.from source)).next (some ⟨source, frames⟩)
      (.forward frames) r = none := if_neg hs
  rw [hn]
  cases r <;> exact obeys_silent (fun _ => from_silent) silent_enqueueFromXsub

theorem obeys_publish {g : Option EventMessage} :
    Obeys brokerDiscipline (fun _ g' => g' = g) (publish frames) g := by
  refine obeys_catching <| obeys_bind <| obeys_op trivial fun r => ?_
  cases r
  case error      => rfl
  case ok hasXpub =>
    cases hasXpub
    case false => rfl
    case true  =>
      refine obeys_op (.inl rfl) fun r => ?_
      cases r <;> rfl

theorem kept_broker : brokerDiscipline.Kept fun _ _ g => g = none where
  exec i k works o s v r s' h hm hc he := by
    cases o
    case inl o =>
      change Broker.exec works (.inl o) s = some (r, s') at he
      rw [Broker.exec] at he
      split at he <;> cases he
      rw [show brokerDiscipline.next (v i) (.inl o) _ = v i from rfl, Function.update_eq_self]
      exact h.queues
    case inr o =>
      cases o
      case hasXpub =>
        cases he
        rw [show brokerDiscipline.next (v i) (.inr .hasXpub) _ = v i from rfl,
          Function.update_eq_self]
        exact h
      case sendMultipart msg =>
        cases he
        by_cases hs : msg.source = .engine
        case pos =>
          rw [show brokerDiscipline.next (v i) (.inr <| .sendMultipart msg) _ = v i from if_pos hs,
            Function.update_eq_self]
          exact h.publish hs
        case neg =>
          rw [show brokerDiscipline.next (v i) (.inr <| .sendMultipart msg) _ = none from
            if_neg hs]
          exact h.forward <| hm.resolve_left hs
  enter i k s v s' p h hq hc he := by
    change Broker.enter i k s = some (s', p) at he
    unfold Broker.enter at he
    split at he
    case h_1 msg =>
      cases he
      exact ⟨_, h.receive hq hc, obeys_proxyEvent hc⟩
    case h_2 =>
      cases he
      refine ⟨none, ?_, obeys_publish⟩
      rwa [← hq, Function.update_eq_self]
    case h_3 => cases he
    case h_4 i task hi =>
      obtain ⟨⟨e, q⟩, hq', he⟩ := Option.map_eq_some_iff.mp he
      cases he
      refine ⟨none, ?_, obeys_through <| obeys_silent (fun _ _ => rfl) <| silent_enter hi hq'⟩
      rw [← hq, Function.update_eq_self]
      exact h.queues
    case h_5 => cases he

end BrokerProofs

-- A message is read as the tokens that it was written with.
def Legible : Prop :=
  ∀ (msg : ObjMessage) ts, msg.serialize = some ts → decode (encode ts) = ts

section PortProofs

variable {s s' : Port η} {M : TycheModule η} {msg : EventMessage}
variable {g : Option (EventMessage × TycheModule.Call η)}
variable {v : SocketThread → Option (EventMessage × TycheModule.Call η)} {i : SocketThread}

variable (M) in
-- The handler that is to be called for a message.
def handling (msg : EventMessage) : Option (EventMessage × TycheModule.Call η) :=
  (eventCall decode M msg.frames).map fun handler => (msg, handler)

variable (M) in
-- What `send_event` may send.
def IsEvent (frames : List Bytes) : Prop :=
  ∃ event payload recipient, eventFrames encode M.moduleId event payload recipient = some frames

variable (M) in
-- The receiver knows which handler it has yet to call.
structure Port.Inv (s : Port η) (v : SocketThread → Option (EventMessage × TycheModule.Call η)) :
    Prop where
  module    : s.module = M
  idle      : ∀ i, i ≠ .receiver → v i = none
  handled   : s.received.filterMap (handling decode M) = s.handled ++ (v .receiver).toList
  published : ∀ frames ∈ s.published, IsEvent encode M frames

variable (M) in
def portDiscipline :
    Discipline (port (η := η) encode decode) (Option (EventMessage × TycheModule.Call η)) where
  May g o    :=
    match o with
    | .isConnected          => True
    | .sendMultipart frames => IsEvent encode M frames
    | .handle msg handler   => g = some (msg, handler)
  next g o _ :=
    match o with
    | .handle .. => none
    | _          => g
  Inv        := Port.Inv encode decode M
  cond       := ⟨fun _ _ _ => True, fun _ _ _ _ _ => True⟩

variable {encode decode}

theorem Port.Inv.publish {frames : List Bytes} (h : s.Inv encode decode M v)
    (hf : IsEvent encode M frames) :
    Port.Inv encode decode M { s with published := s.published ++ [frames] } v where
  module    := h.module
  idle      := h.idle
  handled   := h.handled
  published := by
    intro f hm
    rcases List.mem_append.mp hm with hm | hm
    case inl => exact h.published f hm
    case inr => exact (List.mem_singleton.mp hm).symm ▸ hf

theorem Port.Inv.handle {handler : TycheModule.Call η} (h : s.Inv encode decode M v)
    (hi : v i = some (msg, handler)) :
    Port.Inv encode decode M { s with handled := s.handled ++ [(msg, handler)] }
      (Function.update v i none) := by
  obtain rfl : i = .receiver := by
    by_contra hn
    cases (h.idle i hn).symm.trans hi
  constructor
  case module    => exact h.module
  case idle      => exact fun j hj => (Function.update_of_ne hj ..).trans <| h.idle j hj
  case handled   => simpa [hi] using h.handled
  case published => exact h.published

theorem Port.Inv.receive (h : s.Inv encode decode M v) (hv : v .receiver = none) :
    Port.Inv encode decode M { s with received := s.received ++ [msg] }
      (Function.update v .receiver <| handling decode M msg) := by
  constructor
  case module    => exact h.module
  case idle      => exact fun j hj => (Function.update_of_ne hj ..).trans <| h.idle j hj
  case published => exact h.published
  case handled   =>
    have hh := h.handled
    rw [hv, Option.toList_none, List.append_nil] at hh
    rw [List.filterMap_append, hh, Function.update_self]
    cases hm : handling decode M msg <;> simp [hm]

theorem obeys_sendEvent {event : Option Bytes} {payload recipient : Obj} :
    Obeys (portDiscipline encode decode M) (fun _ g' => g' = g)
      (sendEvent encode M.moduleId event payload recipient) g := by
  refine obeys_bind <| obeys_op trivial fun r => ?_
  cases r
  case error          => rfl
  case ok isConnected =>
    cases isConnected
    case false => rfl
    case true  =>
      simp only [if_pos]
      split
      case h_1 frames hf => exact obeys_op ⟨event, payload, recipient, hf⟩ fun _ => rfl
      case h_2           => rfl

theorem obeys_receive : Obeys (portDiscipline encode decode M) (fun _ g => g = none)
    (receive decode M msg) (handling decode M msg) := by
  unfold receive handling
  cases eventCall decode M msg.frames
  case none         => rfl
  case some handler =>
    refine obeys_catching <| obeys_op rfl fun r => ?_
    cases r <;> rfl

theorem kept_port : (portDiscipline encode decode M).Kept fun _ _ g => g = none where
  exec i k works o s v r s' h hm hc he := by
    cases o
    case isConnected =>
      cases he
      rw [show (portDiscipline encode decode M).next (v i) .isConnected _ = v i from rfl,
        Function.update_eq_self]
      exact h
    case sendMultipart frames =>
      rw [show (portDiscipline encode decode M).next (v i) (.sendMultipart frames) r = v i from rfl,
        Function.update_eq_self]
      cases works <;> cases he
      case false => exact h
      case true  => exact h.publish hm
    case handle msg handler =>
      cases he
      exact h.handle hm
  enter i k s v s' p h hq hc he := by
    change Port.enter encode decode i k s = some (s', p) at he
    have hs : s.module = M := h.module
    unfold Port.enter at he
    split at he <;> cases he
    case h_1 =>
      rw [hs]
      refine ⟨none, ?_, obeys_catching <| obeys_sendEvent.mono fun r g hg => ?_⟩
      case refine_1 => rwa [← hq, Function.update_eq_self]
      case refine_2 => cases r <;> exact hg
    case h_2 =>
      refine ⟨_, h.receive hq, ?_⟩
      rw [hs]
      exact obeys_receive

end PortProofs

section Logs

variable {b b' : Broker} {s s' : Port η} {works : List Bytes → Bool} {β : Type}

theorem framesFrom_append {m : ℕ} {msgs : List EventMessage} {msg : EventMessage} :
    framesFrom m (msgs ++ [msg]) =
      framesFrom m msgs ++ if msg.source = .module m then [msg.frames] else [] := by
  by_cases h : msg.source = .module m <;> simp [framesFrom, h]

theorem framesFrom_sublist {m : ℕ} {msgs msgs' : List EventMessage} (h : msgs.Sublist msgs') :
    (framesFrom m msgs).Sublist (framesFrom m msgs') :=
  (h.filter _).map _

theorem Broker.enter_logs {i : BrokerThread} {k : BrokerTask} {p : Proc BrokerOp Error Unit}
    (e : b.enter i k = some (b', p)) : b'.forwarded = b.forwarded ∧
      (b'.received = b.received ∨ ∃ msg, k = .event msg ∧ b'.received = b.received ++ [msg]) := by
  unfold Broker.enter at e
  split at e
  case h_1 msg => cases e; exact ⟨rfl, .inr ⟨msg, rfl, rfl⟩⟩
  case h_2     => cases e; exact ⟨rfl, .inl rfl⟩
  case h_4     =>
    obtain ⟨_, -, e⟩ := Option.map_eq_some_iff.mp e
    cases e
    exact ⟨rfl, .inl rfl⟩
  case h_3 | h_5 => cases e

theorem Broker.exec_logs {o : BrokerOp β} {r : Except Error β} (e : b.exec works o = some (r, b')) :
    b.forwarded <+: b'.forwarded ∧ b'.received = b.received := by
  rcases o with o | _ | msg
  case inl =>
    rw [Broker.exec] at e
    split at e <;> cases e
    exact ⟨List.prefix_rfl, rfl⟩
  case inr.hasXpub       => cases e; exact ⟨List.prefix_rfl, rfl⟩
  case inr.sendMultipart => cases e; exact ⟨List.prefix_append .., rfl⟩

theorem Broker.sent_prefix (h : b.forwarded <+: b'.forwarded) : b.sent <+: b'.sent :=
  (h.filter _).map _

variable {encode decode}

theorem Port.enter_logs {i : SocketThread} {k : PortTask} {p : Proc (PortOp η) Error Unit}
    (e : s.enter encode decode i k = some (s', p)) :
    s'.module = s.module ∧ s'.published = s.published ∧
      (s'.received = s.received ∨ ∃ msg, k = .receive msg ∧ s'.received = s.received ++ [msg]) := by
  unfold Port.enter at e
  split at e
  case h_1     => cases e; exact ⟨rfl, rfl, .inl rfl⟩
  case h_2 msg => cases e; exact ⟨rfl, rfl, .inr ⟨msg, rfl, rfl⟩⟩
  case h_3     => cases e

theorem Port.exec_logs {o : PortOp η β} {r : Except Error β} {works : Bool}
    (e : s.exec works o = (r, s')) : s'.module = s.module ∧ s.published <+: s'.published ∧
      s'.received = s.received := by
  cases o
  case isConnected   => cases e; exact ⟨rfl, List.prefix_rfl, rfl⟩
  case handle        => cases e; exact ⟨rfl, List.prefix_rfl, rfl⟩
  case sendMultipart =>
    cases works <;> cases e
    case false => exact ⟨rfl, List.prefix_rfl, rfl⟩
    case true  => exact ⟨rfl, List.prefix_append .., rfl⟩

-- What a step of the engine, or of a module, does to the logs.
theorem broker_logs {t t' : Threads BrokerOp Error Broker BrokerThread BrokerTask}
    {a : Threads.Action BrokerThread BrokerTask (List Bytes → Bool)}
    (e : Threads.step broker t a = some t') : t.shared.sent <+: t'.shared.sent ∧
      (t'.shared.received = t.shared.received ∨ ∃ i msg, a = .start i (.event msg) ∧
        t'.shared.received = t.shared.received ++ [msg]) := by
  rcases step_shared e with ⟨i, k, p, rfl, he⟩ | ⟨i, x, _, o, r, rfl, he⟩
  case inl =>
    have ⟨hf, hr⟩ := Broker.enter_logs he
    refine ⟨Broker.sent_prefix <| hf ▸ List.prefix_rfl, hr.imp id fun ⟨msg, hk, hr⟩ => ?_⟩
    exact ⟨i, msg, hk ▸ rfl, hr⟩
  case inr =>
    have ⟨hf, hr⟩ := Broker.exec_logs he
    exact ⟨Broker.sent_prefix hf, .inl hr⟩

theorem port_logs {t t' : Threads (PortOp η) Error (Port η) SocketThread PortTask}
    {a : Threads.Action SocketThread PortTask Bool}
    (e : Threads.step (port encode decode) t a = some t') :
    t.shared.published <+: t'.shared.published ∧
      (t'.shared.received = t.shared.received ∨ ∃ i msg, a = .start i (.receive msg) ∧
        t'.shared.received = t.shared.received ++ [msg]) := by
  rcases step_shared e with ⟨i, k, p, rfl, he⟩ | ⟨i, x, _, o, r, rfl, he⟩
  case inl =>
    have ⟨_, hp, hr⟩ := Port.enter_logs he
    refine ⟨hp ▸ List.prefix_rfl, hr.imp id fun ⟨msg, hk, hr⟩ => ?_⟩
    exact ⟨i, msg, hk ▸ rfl, hr⟩
  case inr =>
    have ⟨_, hp, hr⟩ := Port.exec_logs (Option.some_inj.mp he)
    exact ⟨hp, .inl hr⟩

end Logs

section System

variable {Ms : ℕ → TycheModule η} {s s' : EventBus η} {a : Action} {as : List Action}

variable (Ms) in
-- The engine and the modules keep to their disciplines, and the connections between them lose
-- messages at most.
structure Sound (s : EventBus η) : Prop where
  engine     : Disciplined brokerDiscipline (fun _ _ g => g = none) s.engine
  modules    : ∀ m, Disciplined (portDiscipline encode decode (Ms m)) (fun _ _ g => g = none)
    (s.modules m)
  inbound    : ∀ m, (framesFrom m s.engine.shared.received).Sublist (s.modules m).shared.published
  outbound   : ∀ m, (s.modules m).shared.received.Sublist s.engine.shared.sent
  subscribed : ∀ m, ∀ msg ∈ (s.modules m).shared.received, Subscribed (Ms m) msg.frames

variable {encode decode} {now : ℚ} {queueCapacity : Option ℤ}

theorem sound_start : Sound encode decode Ms (start now queueCapacity Ms) where
  engine       := ⟨fun _ => none, ⟨fun _ _ => rfl, nofun, rfl⟩, fun _ => rfl⟩
  modules _    :=
    ⟨fun _ => none, ⟨rfl, fun _ _ => rfl, rfl, nofun⟩, fun _ => rfl⟩
  inbound _    := List.Sublist.slnil
  outbound _   := List.Sublist.slnil
  subscribed _ := nofun

theorem Sound.module_eq {m : ℕ} (h : Sound encode decode Ms s) :
    (s.modules m).shared.module = Ms m := by
  obtain ⟨_, hv, -⟩ := h.modules m
  exact hv.module

theorem Sound.engine_step {a : Threads.Action BrokerThread BrokerTask (List Bytes → Bool)}
    (h : Sound encode decode Ms s) (hc : Ordered s (.engine a))
    (e : step encode decode s (.engine a) = some s') : Sound encode decode Ms s' := by
  obtain ⟨t, ht, rfl⟩ := Option.map_eq_some_iff.mp e
  have ⟨hs, hr⟩ := broker_logs ht
  constructor
  case modules    => exact h.modules
  case outbound   => exact fun m => (h.outbound m).trans hs.sublist
  case subscribed => exact h.subscribed
  case engine   =>
    refine h.engine.step kept_broker ?_ ht
    rcases a with ⟨i, msg | _ | _⟩ | ⟨i, x⟩
    case start.event =>
      rcases msg with ⟨_ | _, frames⟩
      case module => exact nofun
      case engine => exact hc.elim
    case start.publish | start.queues => trivial
    case next =>
      rw [Meets]
      split <;> trivial
  case inbound =>
    intro m
    rcases hr with hr | ⟨i, msg, rfl, hr⟩
    case inl => exact hr.symm ▸ h.inbound m
    case inr =>
      change List.Sublist (framesFrom m t.shared.received) _
      rw [hr, framesFrom_append]
      rcases msg with ⟨n | _, frames⟩
      case engine => exact hc.elim
      case module =>
        by_cases hn : n = m
        case pos =>
          subst hn
          rw [if_pos rfl]
          exact hc
        case neg =>
          rw [if_neg fun he => hn <| EventSource.module.inj he, List.append_nil]
          exact h.inbound m

theorem Sound.module_step {m : ℕ} {a : Threads.Action SocketThread PortTask Bool}
    (h : Sound encode decode Ms s) (hc : Ordered s (.module m a))
    (e : step encode decode s (.module m a) = some s') : Sound encode decode Ms s' := by
  obtain ⟨t, ht, rfl⟩ := Option.map_eq_some_iff.mp e
  have ⟨hp, hr⟩ := port_logs ht
  constructor
  case engine  => exact h.engine
  case modules =>
    dsimp only
    rw [Function.forall_update_iff s.modules fun m t =>
      Disciplined (portDiscipline encode decode (Ms m)) (fun _ _ g => g = none) t]
    refine ⟨(h.modules m).step kept_port ?_ ht, fun n _ => h.modules n⟩
    cases a
    case start => trivial
    case next  =>
      rw [Meets]
      split <;> trivial
  case inbound =>
    dsimp only
    rw [Function.forall_update_iff s.modules fun n t =>
      (framesFrom n s.engine.shared.received).Sublist t.shared.published]
    exact ⟨(h.inbound m).trans hp.sublist, fun n _ => h.inbound n⟩
  case outbound =>
    dsimp only
    rw [Function.forall_update_iff s.modules fun _ t =>
      t.shared.received.Sublist s.engine.shared.sent]
    refine ⟨?_, fun n _ => h.outbound n⟩
    rcases hr with hr | ⟨i, msg, rfl, hr⟩
    case inl => exact hr ▸ h.outbound m
    case inr => exact hr ▸ hc.right
  case subscribed =>
    dsimp only
    rw [Function.forall_update_iff s.modules fun n t =>
      ∀ msg ∈ t.shared.received, Subscribed (Ms n) msg.frames]
    refine ⟨fun msg hm => ?_, fun n _ => h.subscribed n⟩
    rcases hr with hr | ⟨i, msg', rfl, hr⟩
    case inl => exact h.subscribed m msg (hr ▸ hm)
    case inr =>
      rw [hr] at hm
      rcases List.mem_append.mp hm with hm | hm
      case inl => exact h.subscribed m msg hm
      case inr =>
        cases List.mem_singleton.mp hm
        exact h.module_eq ▸ hc.left

theorem Sound.step (h : Sound encode decode Ms s) (hc : Ordered s a)
    (e : step encode decode s a = some s') : Sound encode decode Ms s' := by
  cases a
  case engine => exact h.engine_step hc e
  case module => exact h.module_step hc e

theorem always_sound (h : (machine encode decode).Along Ordered (start now queueCapacity Ms) as) :
    (machine encode decode).Always (Sound encode decode Ms) (start now queueCapacity Ms) as :=
  Machine.always_of_step (fun _ _ _ h hc e => h.step hc e) sound_start h

theorem framesFrom_filter {m : ℕ} {q : List Bytes → Bool} {msgs : List EventMessage} :
    framesFrom m (msgs.filter (q ·.frames)) = (framesFrom m msgs).filter q := by
  simp only [framesFrom, List.filter_map, List.filter_filter]
  congr 1
  exact List.filter_congr fun msg _ => Bool.and_comm ..

theorem framesFrom_passed {m : ℕ} {b : Broker} :
    framesFrom m b.passed = framesFrom m (b.forwarded.map (·.1)) := by
  simp only [framesFrom, Broker.passed, List.filter_filter]
  congr 1
  refine List.filter_congr fun msg _ => ?_
  by_cases h : msg.source = .module m <;> simp [h]

theorem map_filterMap_handling {M : TycheModule η} {msgs : List EventMessage} :
    (msgs.filterMap (handling decode M)).map (·.1) =
      msgs.filter fun msg => (eventCall decode M msg.frames).isSome := by
  induction msgs
  case nil            => rfl
  case cons msg _ hi =>
    simp only [List.filterMap_cons, List.filter_cons, handling] at hi ⊢
    cases eventCall decode M msg.frames
    case none => simpa using hi
    case some => simpa using hi

theorem Sound.handled_sublist {m : ℕ} (h : Sound encode decode Ms s) :
    ((s.modules m).shared.handled.map (·.1)).Sublist (s.modules m).shared.received := by
  obtain ⟨v, hv, -⟩ := h.modules m
  have hp : (s.modules m).shared.handled <+:
      (s.modules m).shared.received.filterMap (handling decode (Ms m)) :=
    hv.handled ▸ List.prefix_append ..
  refine (hp.map (·.1)).sublist.trans ?_
  rw [map_filterMap_handling]
  exact List.filter_sublist

theorem Sound.sent_sublist {m : ℕ} (h : Sound encode decode Ms s) :
    (framesFrom m s.engine.shared.sent).Sublist (s.modules m).shared.published := by
  obtain ⟨v, hv, -⟩ := h.engine
  have hr : s.engine.shared.passed <+: s.engine.shared.received :=
    hv.received ▸ List.prefix_append ..
  refine .trans ?_ <| (framesFrom_sublist hr.sublist).trans <| h.inbound m
  rw [framesFrom_passed]
  exact framesFrom_sublist <| List.filter_sublist.map _

theorem Sound.in_order {m n : ℕ} (h : Sound encode decode Ms s) :
    (framesFrom n ((s.modules m).shared.handled.map (·.1))).Sublist
      (s.modules n).shared.published :=
  (framesFrom_sublist <| h.handled_sublist.trans <| h.outbound m).trans h.sent_sublist

variable (encode decode) in
-- A message that was handled was published by the module that it comes from, which has another id
-- than the one that handled it, and the handler is the one for its topic and got its payload.
def Genuine (Ms : ℕ → TycheModule η) (s : EventBus η) (m n : ℕ) (frames : List Bytes)
    (handler : TycheModule.Call η) : Prop :=
  frames ∈ (s.modules n).shared.published ∧ (Ms n).moduleId ≠ (Ms m).moduleId ∧
    ∃ topic data msg full, frames = [topic, data] ∧ ObjMessage.packed encode msg = some data ∧
      msg.event = .str topic ∧ unpacked decode 0 data = .ok full ∧ msg.Carries full ∧
        handler.payload = full.payload ∧
        (Ms m).handlers.get? (TycheModule.lookupTopic topic) =
          some (handler.handler, handler.pattern)

-- No thread is in the middle of a task, and nothing was lost on its way.
structure Settled (s : EventBus η) : Prop where
  engine    : ∀ i, s.engine.code i = .done (.ok ())
  modules   : ∀ m i, (s.modules m).code i = .done (.ok ())
  forwarded : ∀ e ∈ s.engine.shared.forwarded, e.2 = true
  inbound   : ∀ m, framesFrom m s.engine.shared.received = (s.modules m).shared.published
  outbound  : ∀ m, (s.modules m).shared.received =
    s.engine.shared.sent.filter fun msg => Subscribed (s.modules m).shared.module msg.frames

theorem Sound.sent_eq {n : ℕ} (h : Sound encode decode Ms s) (hs : Settled s) :
    framesFrom n s.engine.shared.sent = (s.modules n).shared.published := by
  obtain ⟨v, hv, ho⟩ := h.engine
  have hn := ho (.queues .proxy)
  rw [hs.engine] at hn
  have hr := hv.received
  rw [show v (.queues .proxy) = none from hn, Option.toList_none, List.append_nil] at hr
  rw [← hs.inbound, hr, framesFrom_passed, Broker.sent, List.filter_eq_self.mpr hs.forwarded]

theorem Sound.once {m n : ℕ} (h : Sound encode decode Ms s) (hs : Settled s) :
    framesFrom n ((s.modules m).shared.handled.map (·.1)) =
      (s.modules n).shared.published.filter fun frames =>
        Subscribed (Ms m) frames ∧ (eventCall decode (Ms m) frames).isSome := by
  obtain ⟨v, hv, ho⟩ := h.modules m
  have hn := ho .receiver
  rw [hs.modules] at hn
  have hh := hv.handled
  rw [show v .receiver = none from hn, Option.toList_none, List.append_nil] at hh
  rw [← hh, map_filterMap_handling, framesFrom_filter (q := fun f => (eventCall decode _ f).isSome),
    hs.outbound, hv.module, framesFrom_filter (q := fun f => Subscribed _ f), h.sent_eq hs,
    List.filter_filter]
  refine List.filter_congr fun frames _ => ?_
  rw [Bool.and_comm, Bool.decide_and, Bool.decide_eq_true]

end System

end EventBus

namespace EventBus.Sample

open JobSystem.Sample (number)

def tokens : List Token :=
  (eventMessage (utf8 "a") (some <| utf8 "t") (.dict []) .none).serialize.getD []

theorem nonempty_tokens : Nonempty (List Token) :=
  ⟨tokens⟩

-- The event has the bytes of the format. Any other message is told by how many bytes follow one
-- with which no message begins.
noncomputable def encode (ts : List Token) : Bytes :=
  if ts = tokens then Envelope.Sample.bytesOf tokens else 0xc1 :: .replicate (number ts) 0

noncomputable def decode (data : Bytes) : List Token :=
  if data = Envelope.Sample.bytesOf tokens then tokens
  else @Function.invFun (List Token) ℕ nonempty_tokens number <| data.length - 1

theorem legible : Legible encode decode := by
  intro _ ts _
  unfold encode
  split
  case isTrue h => exact (if_pos rfl).trans h.symm
  case isFalse  =>
    have hb : 0xc1 :: .replicate (number ts) 0 ≠ Envelope.Sample.bytesOf tokens := by
      intro h
      have hd : (Envelope.Sample.bytesOf tokens).head? ≠ some 0xc1 := by decide +kernel
      exact hd <| h ▸ rfl
    rw [decode, if_neg hb, List.length_cons, List.length_replicate]
    exact Function.leftInverse_invFun number.injective ts

def modules : ℕ → TycheModule Bool
  | 0 => ⟨utf8 "a", [], ∅, ∅⟩
  | _ => TycheModule.registerHandler ⟨utf8 "b", [], ∅, ∅⟩
    { name := utf8 "on_t", handler := true }

def message : EventMessage :=
  ⟨.module 0, [utf8 "t", Envelope.Sample.bytesOf tokens]⟩

-- A module publishes an event, and another one handles it.
def run : List Action :=
  [.module 0 <| .start (.caller 0) <| .sendEvent (some <| utf8 "t") (.dict []) .none] ++
  .replicate 2 (.module 0 <| .next (.caller 0) true) ++
  [.engine <| .start (.queues .proxy) <| .event message] ++
  .replicate 12 (.engine <| .next (.queues .proxy) fun _ => true) ++
  [.module 1 <| .start .receiver <| .receive message, .module 1 <| .next .receiver true]

theorem along_run : (machine encode decode).Along Ordered (start 0 none modules) run := by
  decide +kernel

end EventBus.Sample

namespace EventBus

variable {encode : List Token → Bytes} {decode : Bytes → List Token} {η : Type}
variable {Ms : ℕ → TycheModule η} {now : ℚ} {queueCapacity : Option ℤ} {as : List Action}

-- However the messages are delayed, each handler call is for a message of its own, and those for
-- the messages of one module come in the order in which it published them.
theorem handled_in_order
    (h : (machine encode decode).Along Ordered (start now queueCapacity Ms) as) :
    (machine encode decode).Always (fun s => ∀ m n,
      (framesFrom n ((s.modules m).shared.handled.map (·.1))).Sublist
        (s.modules n).shared.published) (start now queueCapacity Ms) as :=
  (always_sound h).mono fun _ h _ _ => h.in_order

theorem handled_in_order_sample :
    (machine Sample.encode Sample.decode).Always (fun s => ∀ m n,
      (framesFrom n ((s.modules m).shared.handled.map (·.1))).Sublist
        (s.modules n).shared.published) (start 0 none Sample.modules) Sample.run :=
  handled_in_order Sample.along_run

example : ((machine Sample.encode Sample.decode).exec (start 0 none Sample.modules) Sample.run).map
    (fun s => (s.modules 1).shared.handled.map (·.1)) = some [Sample.message] := by
  decide +kernel

end EventBus

end Python
