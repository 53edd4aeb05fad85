import Tyche.Python.JobReceiver
import Tyche.Sample

namespace Python

namespace Obj

variable {o : Obj} {es : List (Obj × Obj)} {depth : ℕ} {s : Bytes}

def Packs (o : Obj) (depth : ℕ) : Prop :=
  (o.pack true depth).isSome

instance : Decidable (o.Packs depth) :=
  inferInstanceAs <| Decidable (Option.isSome _)

theorem pack_str {usable : Bool} : (Obj.str (some s)).pack usable depth = packText s depth := by
  simp [pack, packText]

-- The packer goes on with what `_encode_decimal` makes of an object that it does not know.
theorem pack_encodeDecimal {o' : Obj} (h : o.encodeDecimal = some o')
    (ho : ∀ b, o ≠ .bytes b) : o.pack true depth = o'.pack false depth := by
  cases o
  case decimal s =>
    cases h
    unfold pack
    simp only [packEntries, text, pack_str]
    cases packText (utf8 "__decimal__") (depth + 1) <;> cases packText s (depth + 1) <;> simp
  case enum v    =>
    cases h
    by_cases hd : depth ≤ nestLimit
    case pos => simp [pack, hd]
    case neg => simp [pack.eq_def, hd]
  case bytes b   => exact absurd rfl (ho b)
  all_goals cases h

theorem packs_str : (Obj.str (some s)).Packs depth ↔ depth ≤ nestLimit ∧ s.length < 2 ^ 32 := by
  unfold Packs pack packStr
  split <;> simp [*]

theorem packEntries_isSome :
    (packEntries depth es).isSome ↔ ∀ e ∈ es, e.1.Packs depth ∧ e.2.Packs depth := by
  induction es
  case nil          => simp [packEntries]
  case cons e es hi =>
    rw [List.forall_mem_cons, ← hi, packEntries, Packs, Packs]
    simp only [Option.isSome_bind, Option.bind_eq_bind]
    cases e.1.pack true depth <;> cases e.2.pack true depth <;> cases packEntries depth es <;> simp

theorem packs_dict : (Obj.dict es).Packs depth ↔ depth ≤ nestLimit ∧ es.length < 2 ^ 32 ∧
    ∀ e ∈ es, e.1.Packs (depth + 1) ∧ e.2.Packs (depth + 1) := by
  rw [← packEntries_isSome, Packs, pack]
  split
  case isFalse h => simp [h]
  case isTrue h  => cases packEntries (depth + 1) es <;> simp [h]

end Obj

theorem ObjMessage.serialize_isSome {msg : ObjMessage} : msg.serialize.isSome ↔
    msg.sender.Packs 1 ∧ msg.event.Packs 1 ∧ msg.payload.Packs 1 ∧ msg.recipient.Packs 1 ∧
      msg.timestamp.Packs 1 ∧ msg.correlationId.Packs 1 ∧ msg.waitTimeout.Packs 1 ∧
        msg.runTimeout.Packs 1 := by
  have hk (s : String) (h : (utf8 s).length < 2 ^ 32) : (Obj.text s).Packs 1 :=
    Obj.packs_str.mpr ⟨by decide, h⟩
  have ht : (Obj.enum <| .str <| messageTypeValue msg.msgType).Packs 1 := by
    cases msg.msgType <;> decide +kernel
  have hd : (Obj.enum <| .int msg.durability.number).Packs 1 := by
    cases msg.durability <;> decide +kernel
  change msg.data.Packs 0 ↔ _
  unfold data
  rw [Obj.packs_dict]
  simp only [List.forall_mem_cons, ht, hd]
  simp (disch := decide) [hk]

namespace JobReceiver

variable {η : Type} {code : Code η} {s s₀ : State η} {msg : ObjMessage} {event : Bytes}
variable {outcome : Outcome}

-- A result that the packer can pack where it stands in a response, or the text of an exception.
def Outcome.Packs : Outcome → Prop
  | .returned result            => result.Packs 2
  | .raised (some (some text)) => text.length < 2 ^ 32
  | .raised _                   => False

instance : ∀ outcome : Outcome, Decidable outcome.Packs
  | .returned _              => inferInstanceAs <| Decidable (Obj.Packs ..)
  | .raised (some (some _)) => inferInstanceAs <| Decidable (_ < _)
  | .raised (some none)     => isFalse id
  | .raised none            => isFalse id

theorem Outcome.packs_iff : (∃ p, outcome.payload? = some p ∧ p.Packs 1) ↔ outcome.Packs := by
  have hd : (1 : ℕ) ≤ Obj.nestLimit ∧ 2 ≤ Obj.nestLimit := by decide
  have hk (s : String) (h : (utf8 s).length < 2 ^ 32) : (Obj.text s).Packs 2 :=
    Obj.packs_str.mpr ⟨by decide, h⟩
  cases outcome
  case returned o =>
    simp (disch := decide) [payload?, Obj.packs_dict, hd, hk, Packs]
  case raised t   =>
    cases t
    case none   => simp [payload?, Packs]
    case some t =>
      simp (disch := decide) only [payload?, Option.map_some, Option.some.injEq, exists_eq_left',
        Obj.packs_dict, hd, hk, List.forall_mem_singleton, true_and]
      cases t
      case none   => decide
      case some t => simp [Obj.packs_str, hd, Packs]

-- The number of jobs that a handler has in progress.
def current? (s : TycheModule η) (event : Bytes) : Option ℤ :=
  (s.handlerBuffers.get? event).map HandlerBuffer.current

theorem current?_count {s : TycheModule η} {n : ℤ} :
    current? (s.count event n) event = (current? s event).map (· + n) := by
  unfold current? TycheModule.count
  cases h : s.handlerBuffers.get? event <;> simp [h]

theorem moduleId_count {s : TycheModule η} {n : ℤ} : (s.count event n).moduleId = s.moduleId := by
  unfold TycheModule.count
  split <;> rfl

-- The request is answered by one response.
def Sends (msg : ObjMessage) (s s' : State η) : Prop :=
  ∃ r, s'.sent = s.sent ++ [r] ∧ r.message.msgType = .response ∧
    r.message.correlationId = msg.correlationId

structure AnsweredOnce (msg : ObjMessage) (s s' : State η) : Prop where
  sends   : Sends msg s s'
  current : ∀ event, msg.event = .str (some event) →
    current? s'.module event = current? s.module event

-- A response to the request can be packed as far as it does not come from the handler.
def Addressable (sender event : Bytes) (msg : ObjMessage) : Prop :=
  sender.length < 2 ^ 32 ∧ event.length < 2 ^ 32 ∧ msg.correlationId.Packs 1

-- What the code comes to can be sent, and the code leaves the number of jobs that its handler has in
-- progress as it was in `s`, where it was called.
def Finishes (msg : ObjMessage) (event : Bytes) (s : TycheModule η)
    (r : Outcome × TycheModule η) : Prop :=
  r.1.Packs ∧ Addressable r.2.moduleId event msg ∧ current? r.2 event = current? s event

def Answerable (code : Code η) (s : TycheModule η) (msg : ObjMessage) : Prop :=
  ∃ event, msg.event = .str (some event) ∧
    match TycheModule.adminCommand? event with
    | some command => Finishes msg event s <| code.admin command s
    | none         =>
      match s.handlers.get? event with
      | none         => Finishes msg event s (noHandler event, s)
      | some handler => Finishes msg event (s.count event 1) <|
          code.handle handler.1 msg.payload <| s.count event 1

theorem respond_module : (s.respond msg event outcome).module = s.module := by
  unfold State.respond
  split
  case h_1 => rfl
  case h_2 => split <;> rfl

theorem not_sends_self : ¬Sends msg s s := by
  rintro ⟨r, h, -⟩
  simp at h

theorem sends_respond_iff (he : msg.event = .str (some event)) (hs : s.sent = s₀.sent) :
    Sends msg s₀ (s.respond msg event outcome) ↔
      outcome.Packs ∧ Addressable s.module.moduleId event msg := by
  have hn : Obj.Packs .none 1 := by decide
  have hr (p : Obj) : (s.response msg p).serialize.isSome ↔
      p.Packs 1 ∧ Addressable s.module.moduleId event msg := by
    rw [ObjMessage.serialize_isSome]
    simp only [State.response, he, Obj.packs_str, hn, Addressable]
    have hd : 1 ≤ Obj.nestLimit := by decide
    tauto
  rw [← Outcome.packs_iff]
  unfold State.respond
  cases ho : outcome.payload?
  case none   => simp [Sends, hs]
  case some p =>
    have hr := hr p
    cases hp : (s.response msg p).serialize
    case none       =>
      rw [hp] at hr
      simpa [hp, Sends, hs] using hr
    case some frame =>
      rw [hp] at hr
      have hf : Sends msg s₀ { s with sent := s.sent ++ [⟨s.response msg p, event, frame⟩] } :=
        ⟨_, congrArg (· ++ _) hs, rfl, rfl⟩
      simpa [hp, hf] using hr

theorem answeredOnce_iff {s' : State η} (he : msg.event = .str (some event)) :
    AnsweredOnce msg s s' ↔
      Sends msg s s' ∧ current? s'.module event = current? s.module event := by
  constructor
  case mp  => exact fun h => ⟨h.sends, h.current event he⟩
  case mpr =>
    rintro ⟨hs, hc⟩
    refine ⟨hs, fun e h => ?_⟩
    cases he.symm.trans h
    exact hc

theorem answeredOnce_respond_iff {module : TycheModule η} (he : msg.event = .str (some event)) :
    AnsweredOnce msg s (State.respond { s with module := module } msg event outcome) ↔
      Finishes msg event s.module (outcome, module) := by
  have hs : State.sent { s with module := module } = s.sent := rfl
  rw [answeredOnce_iff he, sends_respond_iff he hs, respond_module, Finishes, and_assoc]

-- What is counted up and then down again is left as it was if nothing happens to it in between.
theorem answeredOnce_call_iff {handler : η} (he : msg.event = .str (some event)) :
    AnsweredOnce msg s (s.call code msg event handler) ↔
      Finishes msg event (s.module.count event 1)
        (code.handle handler msg.payload <| s.module.count event 1) := by
  unfold State.call
  rw [answeredOnce_respond_iff he]
  simp only [Finishes, moduleId_count, current?_count]
  generalize code.handle handler msg.payload (s.module.count event 1) = r
  have hc : (current? r.2 event).map (· + -1) = current? s.module event ↔
      current? r.2 event = (current? s.module event).map (· + 1) := by
    cases current? r.2 event <;> cases current? s.module event <;> simp
    omega
  rw [hc]

theorem answeredOnce_handleJobRequest_iff :
    AnsweredOnce msg s (s.handleJobRequest code msg) ↔ Answerable code s.module msg := by
  by_cases he : ∃ event, msg.event = .str (some event)
  case neg =>
    have hn : s.handleJobRequest code msg = s := by
      unfold State.handleJobRequest
      split
      case h_1 event h => exact absurd ⟨event, h⟩ he
      case h_2         => rfl
    rw [hn]
    exact iff_of_false (fun h => not_sends_self h.sends) fun ⟨event, h, _⟩ => he ⟨event, h⟩
  case pos =>
    obtain ⟨event, he⟩ := he
    have hu {P : Bytes → Prop} : (∃ e, msg.event = .str (some e) ∧ P e) ↔ P event := by
      simp [he]
    unfold State.handleJobRequest Answerable
    rw [hu]
    cases ha : TycheModule.adminCommand? event
    case some command => simpa only [he, ha] using answeredOnce_respond_iff he
    case none         =>
      cases hh : s.module.handlers.get? event
      case none         => simpa only [he, ha, hh] using answeredOnce_respond_iff he
      case some handler => simpa only [he, ha, hh] using answeredOnce_call_iff he

-- The message is what comes in third place in the frames.
def Receives (code : Code η) (frames : List Bytes) (msg : ObjMessage) : Prop :=
  ∃ frame, frames[2]? = some frame ∧ code.deserialize frame = some msg

theorem receive_eq {frames : List Bytes} (h : Receives code frames msg)
    (hr : msg.msgType = .request) : s.receive code frames = s.handleJobRequest code msg := by
  obtain ⟨frame, hf, hm⟩ := h
  obtain _ | ⟨f, _ | ⟨g, _ | ⟨frame', rest⟩⟩⟩ := frames <;> cases hf
  simp only [State.receive, hm, hr]

theorem answered_once_iff (code : Code η) (s : State η) (frames : List Bytes) (msg : ObjMessage)
    (h : Receives code frames msg) (hr : msg.msgType = .request) :
    AnsweredOnce msg s (s.receive code frames) ↔ Answerable code s.module msg := by
  rw [receive_eq h hr, answeredOnce_handleJobRequest_iff]

end JobReceiver

namespace Sample

open JobReceiver

def job : ObjMessage where
  msgType       := .request
  sender        := .text "s"
  event         := .text "t"
  payload       := .dict []
  correlationId := .text "c"

-- A handler is what it comes to.
def jobCode : Code Outcome where
  deserialize frame := if frame = Sample.packed "req" "c" then some job else none
  admin _ s         := (.returned <| .dict [], s)
  handle outcome _ s := (outcome, s)

def jobModule (outcome : Outcome) : State Outcome where
  module := TycheModule.registerHandler ⟨utf8 "m", [], ∅, ∅⟩
    { name := utf8 "handle_t", handler := outcome, pattern := .handle }
  sent   := []

def jobFrames : List Bytes :=
  [[], utf8 "t", Sample.packed "req" "c"]

theorem receives_job : Receives jobCode jobFrames job :=
  ⟨_, rfl, by simp [jobCode]⟩

end Sample

namespace JobReceiver

theorem answered_once_sample : Sample.job.msgType = .request ∧
    AnsweredOnce Sample.job (Sample.jobModule <| .returned <| .bool true)
      ((Sample.jobModule <| .returned <| .bool true).receive Sample.jobCode Sample.jobFrames) :=
  ⟨rfl, (answered_once_iff Sample.jobCode (Sample.jobModule <| .returned <| .bool true)
    Sample.jobFrames Sample.job Sample.receives_job rfl).mpr
      ⟨utf8 "t", rfl, by decide, ⟨by decide, by decide, by decide⟩, rfl⟩⟩

-- A handler returns an object that cannot be packed.
theorem not_answered_once : ¬∀ (code : Code Outcome) (s : State Outcome) (frames : List Bytes)
    (msg : ObjMessage), Receives code frames msg → msg.msgType = .request →
      AnsweredOnce msg s (s.receive code frames) := by
  intro h
  have ha := h Sample.jobCode (Sample.jobModule <| .returned .other) _ _ Sample.receives_job rfl
  rw [receive_eq Sample.receives_job rfl, answeredOnce_handleJobRequest_iff] at ha
  obtain ⟨event, he, hf⟩ := ha
  cases he
  exact absurd hf.left <| by decide

end JobReceiver

end Python
