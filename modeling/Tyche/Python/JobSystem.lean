import Tyche.Network
import Tyche.Python.JobSockets

namespace Python

open Msgpack Proc

-- How values are written as text, and how the packer's tokens are written as bytes.
variable (text : Value → Bytes) (encode : List Token → Bytes)

def Key.obj : Key → Obj
  | .none          => .none
  | .number x      => if x.den = 1 then .int x.num else .float <| .fin x
  | .infinity neg  => .float <| .inf neg
  | .nan _         => .float .nan
  | .str s         => .str s
  | .bytes b       => .bytes b
  | .ext c d       => .ext (.ofNat c) d
  | .timestamp s n => .timestamp s n

-- What a value that was decoded is to the packer.
mutual

def Value.obj : Value → Obj
  | .none          => .none
  | .bool b        => .bool b
  | .int i         => .int i
  | .float x _     => .float x
  | .decimal x o   => .decimal <| text <| .decimal x o
  | .signalingNaN  => .decimal <| text .signalingNaN
  | .str s         => .str s
  | .bytes b       => .bytes b
  | .ext c d       => .ext (.ofNat c) d
  | .timestamp s n => .timestamp s n
  | .list l        => .list <| Value.objs l
  | .dict es       => .dict <| Value.objEntries es

def Value.objs : List Value → List Obj
  | []     => []
  | v :: l => v.obj :: Value.objs l

def Value.objEntries : List (Key × Value) → List (Obj × Obj)
  | []           => []
  | (k, v) :: es => (k.obj, v.obj) :: Value.objEntries es

end

def FullMessage.obj (msg : FullMessage) : ObjMessage where
  msgType       := msg.msgType
  sender        := msg.sender.obj text
  event         := msg.event.obj text
  payload       := msg.payload.obj text
  recipient     := msg.recipient.obj text
  durability    := msg.durability
  timestamp     := msg.timestamp.obj text
  correlationId := msg.correlationId.obj text
  waitTimeout   := msg.waitTimeout.obj text
  runTimeout    := msg.runTimeout.obj text

def engineResponse (event payload correlationId : Obj) : ObjMessage where
  msgType       := .response
  sender        := .text "engine"
  event         := event
  payload       := payload
  correlationId := correlationId

-- The responses that the engine makes itself.
def Output.told : Output → Option ObjMessage
  | .noHandler c _ _ topic       => some <|
    engineResponse (topic.obj text) (.dict [(.text "error", .str <|
      utf8 "No handler registered for job '" ++ text topic ++ utf8 "'")]) (c.obj text)
  | .timedOut c reason _ _ topic => some <|
    engineResponse (topic.obj text)
      (.dict [(.text "error", .str reason.text), (.text "correlation_id", c.obj)]) c.obj
  | _                            => none

-- Nothing is sent of a response that cannot be packed.
def Output.posted (o : Output) : Option (List Bytes) :=
  match o.told text with
  | none     => o.frames fun _ => []
  | some msg => (msg.packed encode).bind fun frame => o.frames fun _ => frame

def RouterOp.posted {β : Type} : RouterOp β → Option (List Bytes)
  | .inl (.send o)               => o.posted text encode
  | .inr (.sendMultipart frames) => some frames
  | _                            => none

-- What happens between the engine and the modules: a correlation id is drawn for a request, a
-- module posts frames to the router, the router sends frames to a module, a module handles a job in
-- the state that it has then, and `request_event` returns.
inductive JobEvent (η : Type)
  | drawn (caller : Option ModuleId) (c : Bytes) (request : ObjMessage)
  | posted (sender : ModuleId) (frames : List Bytes)
  | routed (frames : List Bytes)
  | handled (handler : ModuleId) (before : JobReceiver.State η) (frames : List Bytes)
  | returned (caller : ModuleId) (c : Bytes) (value : Value)

abbrev JobHistory (η : Type) :=
  List (JobEvent η)

namespace JobHistory

variable {η : Type}

def drawn (h : JobHistory η) : List Bytes :=
  h.filterMap fun
    | .drawn _ c _ => some c
    | _            => none

-- What the router may receive, with the identity of the socket that it comes from.
def posted (h : JobHistory η) : List (List Bytes) :=
  h.filterMap fun
    | .posted m frames => some <| m.val :: frames
    | _                => none

-- What goes to some socket, with its identity.
def routed (h : JobHistory η) : List (List Bytes) :=
  h.filterMap fun
    | .routed frames => some frames
    | _              => none

end JobHistory

-- What an engine and its modules are run with: how values are written as text, how messages are
-- written as bytes and read, and the code of the handlers of each module.
structure JobSystem (η : Type) where
  text   : Value → Bytes
  encode : List Token → Bytes
  decode : Bytes → List Token
  code   : ModuleId → JobReceiver.Code η

namespace JobSystem

variable {η : Type} (S : JobSystem η)

section Router

def received (data : Bytes) : Option Message :=
  (unpacked S.decode 0 data).toOption.map FullMessage.toMessage

def drawing : RouterTask → JobHistory η
  | .invokeAdminHandler _ handlerName c =>
    [.drawn none c <| adminRequest (utf8 "admin." ++ handlerName) handlerName c]
  | _                                   => []

-- The threads of the engine that use the job router. A message is sent with all its frames.
def router :
    Threads.System RouterOp Error (JobRouter × JobHistory η) RouterThread RouterTask Bool where
  enter i k s      := (s.1.enter S.received S.encode i k).map fun (t, p) =>
    ((t, s.2 ++ drawing k), p)
  exec _ works o s :=
    match s.1.exec S.received works o with
    | (.error e, t) => some (.error e, t, s.2)
    | (.ok a, t)    => some (.ok a, t, s.2 ++ (o.posted S.text S.encode).toList.map .routed)

-- The router receives what was posted. A correlation id is not drawn twice.
def routerNetwork :
    Threads.Condition RouterOp (JobRouter × JobHistory η) RouterThread RouterTask Bool where
  enter _ k s    :=
    match k with
    | .job (.receive frames)    => frames ∈ s.2.posted
    | .invokeAdminHandler _ _ c => c ∉ s.2.drawn
    | _                         => True
  exec _ _ _ _ _ := True

instance {i : RouterThread} {s : JobRouter × JobHistory η} :
    ∀ k, Decidable (routerNetwork.enter i k s)
  | .job (.receive _) => inferInstanceAs <| Decidable (_ ∈ _)
  | .invokeAdminHandler .. => inferInstanceAs <| Decidable (_ ∉ _)
  | .job .checkTimeouts | .job (.heartbeat _) | .job (.register _) | .job (.unregister _)
  | .job (.tick _) | .setAdminHandlers .. | .popAdminHandlers _ => isTrue trivial

instance {β : Type} {i : RouterThread} {k : Option RouterTask} {works : Bool} {o : RouterOp β}
    {s : JobRouter × JobHistory η} : Decidable (routerNetwork.exec i k works o s) :=
  isTrue trivial

end Router

-- A module, and for the record under which correlation ids its requests were stored.
structure Module (η : Type) where
  socket  : JobSocket η
  records : List (Bytes × ℕ)

-- A request comes with the correlation id that is drawn, and what arrives with the number of the
-- objects that were decoded so far.
inductive ModuleTask
  | requestEvent (c : Bytes) (event : Option Bytes) (payload : Obj)
  | receive (n : ℕ) (frames : List Bytes)

-- What the caller of `request_event` gets.
inductive CallerOp : Type → Type
  | returned (c : Bytes) (value : Value) : CallerOp Unit

abbrev ModuleOp (β : Type) : Type :=
  SocketOp β ⊕ CallerOp β

section Module

def Module.start (m : ModuleId) (s : TycheModule η) : Module η where
  socket  := .start { s with moduleId := m.val }
  records := []

def requestEvent (c : Bytes) (event : Option Bytes) (payload : Obj) :
    Proc ModuleOp Requests.Exception Unit := do
  let value ← (Requests.requestEvent c event payload).subst fun o => op <| .inl <| .inl o
  op <| .inr <| .returned c value

-- One round of the loop of the job receiver.
def receive (n : ℕ) : List Bytes → Proc ModuleOp Requests.Exception Unit
  | a :: b :: frame :: frames =>
    match unpacked S.decode n frame with
    | .error _ => return ()
    | .ok msg  =>
      match msg.msgType with
      | .request  => (jobReceiver <| a :: b :: frame :: frames).subst fun o => op <| .inl o
      | .response => (Requests.handleJobResponse msg.correlationId msg.payload).subst fun o =>
        op <| .inl <| .inl o
      | _         => return ()
  | _                         => return ()

-- Any thread may call `request_event`, also the receiver in the code of a handler, and whoever does
-- may go on after an exception. The receiver ignores all exceptions.
def enter : SocketThread → ModuleTask → Option (Proc ModuleOp Requests.Exception Unit)
  | _, .requestEvent c event payload => some <| (requestEvent c event payload).catching fun _ =>
    return ()
  | .receiver, .receive n frames     => some <| (S.receive n frames).catching fun _ => return ()
  | _, _                             => none

def calling (m : ModuleId) : ModuleTask → JobHistory η
  | .requestEvent c event payload => [.drawn (some m) c <| Requests.request m.val c event payload]
  | .receive ..                   => []

-- The handlers of a module, which are given messages as they are read.
def handlers (m : ModuleId) : JobReceiver.Code η :=
  { S.code m with
    deserialize := fun data => (unpacked S.decode 0 data).toOption.map (·.obj S.text) }

-- What a module sends after it has handled the frames.
def answers (m : ModuleId) (before : JobReceiver.State η) (frames : List Bytes) :
    List JobReceiver.Sent :=
  (before.receive (S.handlers m) frames).sent.drop before.sent.length

def recorded (records : List (Bytes × ℕ)) {β : Type} : SocketOp β → List (Bytes × ℕ)
  | .inl (.insert (.str c) r) => records ++ [(c, r)]
  | _                         => records

-- What an operation that succeeds adds to the history.
def happened (m : ModuleId) (s : JobSocket η) {β : Type} : SocketOp β → JobHistory η
  | .inl (.sendMultipart frames message) => [.posted m <| frames ++ [S.encode message]]
  | .inr (.handle frames)                => [.handled m s.receiver frames]
  | .inr (.respond sent)                 => [.posted m [[], sent.topic, S.encode sent.frame]]
  | _                                    => []

def exec (m : ModuleId) (x : Requests.Surroundings) {β : Type} (o : ModuleOp β)
    (s : Module η × JobHistory η) : Except Requests.Exception β × Module η × JobHistory η :=
  match o with
  | .inr (.returned c value) => (.ok (), s.1, s.2 ++ [.returned m c value])
  | .inl o                   =>
    match s.1.socket.exec (S.handlers m) x o with
    | (.error e, t) => (.error e, ⟨t, s.1.records⟩, s.2)
    | (.ok a, t)    => (.ok a, ⟨t, recorded s.1.records o⟩, s.2 ++ S.happened m s.1.socket o)

-- The threads of a module that use its job socket.
def module (m : ModuleId) : Threads.System ModuleOp Requests.Exception (Module η × JobHistory η)
    SocketThread ModuleTask Requests.Surroundings where
  enter i k s  := (S.enter i k).map fun p => ((s.1, s.2 ++ calling m k), p)
  exec _ x o s := some <| S.exec m x o s

-- A module receives what went to the socket with its id. A correlation id is not drawn twice.
def moduleNetwork (m : ModuleId) : Threads.Condition ModuleOp (Module η × JobHistory η)
    SocketThread ModuleTask Requests.Surroundings where
  enter _ k s    :=
    match k with
    | .requestEvent c _ _ => c ∉ s.2.drawn
    | .receive _ frames   => m.val :: frames ∈ s.2.routed
  exec _ _ _ _ _ := True

instance {m : ModuleId} {i : SocketThread} {s : Module η × JobHistory η} :
    ∀ k, Decidable ((moduleNetwork m).enter i k s)
  | .requestEvent .. => inferInstanceAs <| Decidable (_ ∉ _)
  | .receive ..      => inferInstanceAs <| Decidable (_ ∈ _)

instance {β : Type} {m : ModuleId} {i : SocketThread} {k : Option ModuleTask}
    {x : Requests.Surroundings} {o : ModuleOp β} {s : Module η × JobHistory η} :
    Decidable ((moduleNetwork m).exec i k x o s) :=
  isTrue trivial

end Module

-- The engine and its modules. What they send to each other may be lost, delayed, and delivered in
-- any order and more than once.
def machine :=
  Network.both (Threads.party S.router) (Network.all fun m => Threads.party (S.module m))

def network :=
  Network.Contract.bothMeet (Threads.MeetsWithin (ε := Error) (routerNetwork (η := η)))
    (Network.Contract.allMeet fun m =>
      Threads.MeetsWithin (ε := Requests.Exception) (moduleNetwork m))

instance {s} {a} : Decidable (network (η := η) s a) :=
  inferInstanceAs <| Decidable (Network.Contract.bothMeet ..)

def start (now : ℚ) (modules : ModuleId → TycheModule η) :
    (Threads RouterOp Error JobRouter RouterThread RouterTask ×
      (ModuleId → Threads ModuleOp Requests.Exception (Module η) SocketThread ModuleTask)) ×
        JobHistory η :=
  ((.start <| .start now, fun m => .start <| .start m (modules m)), [])

end JobSystem

end Python
