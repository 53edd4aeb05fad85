import Tyche.Cpp.Theorems.RecordText

namespace Cpp

open JsonText hiding hexDigit

attribute [local instance] Dialect.strict

variable {s : Bytes} {n : ℕ} {x : Floating} {t : ℚ} {msg : Message} {topic reason : Bytes}

namespace Any

mutual

-- What a JSON value tells of a value. Numbers with a point or an exponent stand for the nearest one
-- of their type.
def Shows : Any → Value → Prop
  | .empty, w          => w = .null
  | .bool b, w         => w = .bool b
  | .int i, w          => w = .number true i.toInt
  | .int64 i, w        => w = .number true i.toInt
  | .uint64 n, w       => w = .number true n.toNat
  | .float (.fin q), w  => ∃ d, w = .number false d ∧ Floating.single d = .fin q
  | .float _, _        => True
  | .double (.fin q), w => ∃ d, w = .number false d ∧ Floating.double d = .fin q
  | .double _, _       => True
  | .string s, w       => w = .string s
  | .cstring s, w      => w = .string s
  | .payload m, w      => ∃ vs, w = .object vs ∧ ShowsEntries m vs
  | .strings l, w      => w = .array (l.map .string)
  | .anys l, w         => ∃ vs, w = .array vs ∧ ShowsItems l vs

def ShowsEntries : List (Bytes × Any) → List (Bytes × Value) → Prop
  | [], vs          => vs = []
  | (k, v) :: m, vs => ∃ w ws, vs = (k, w) :: ws ∧ Shows v w ∧ ShowsEntries m ws

def ShowsItems : List Any → List Value → Prop
  | [], vs     => vs = []
  | v :: l, vs => ∃ w ws, vs = w :: ws ∧ Shows v w ∧ ShowsItems l ws

end

mutual

-- Strings are texts, and numbers are those of their type.
def Valid : Any → Prop
  | .float x   => x.toSingle = x
  | .double x  => x.toDouble = x
  | .string s  => ValidUtf8 s
  | .cstring s => ValidUtf8 s
  | .payload m => ValidEntries m
  | .strings l => ∀ s ∈ l, ValidUtf8 s
  | .anys l    => ValidItems l
  | _          => True

def ValidEntries : List (Bytes × Any) → Prop
  | []          => True
  | (k, v) :: m => ValidUtf8 k ∧ v.Valid ∧ ValidEntries m

def ValidItems : List Any → Prop
  | []     => True
  | v :: l => v.Valid ∧ ValidItems l

end

mutual

-- There are no vectors of strings.
def Printable : Any → Prop
  | .payload m => PrintableEntries m
  | .strings _ => False
  | .anys l    => PrintableItems l
  | _          => True

def PrintableEntries : List (Bytes × Any) → Prop
  | []          => True
  | (_, v) :: m => v.Printable ∧ PrintableEntries m

def PrintableItems : List Any → Prop
  | []     => True
  | v :: l => v.Printable ∧ PrintableItems l

end

end Any

namespace Message

structure Valid (msg : Message) : Prop where
  sender        : ValidUtf8 msg.sender
  event         : ValidUtf8 msg.event
  payload       : Any.ValidEntries msg.payload
  recipient     : ∀ s ∈ msg.recipient, ValidUtf8 s
  timestamp     : ∀ x ∈ msg.timestamp, x.toDouble = x
  correlationId : ∀ s ∈ msg.correlationId, ValidUtf8 s
  waitTimeout   : ∀ x ∈ msg.waitTimeout, x.toDouble = x
  runTimeout    : ∀ x ∈ msg.runTimeout, x.toDouble = x

end Message

namespace DeadLetterStore

def ShowsTime : Option Floating → Value → Prop
  | none, w          => w = .null
  | some (.fin q), w => ∃ b d, w = .number b d ∧ Floating.double d = .fin q
  | some _, _        => True

def stringValue (s : Option Bytes) : Value :=
  (s.map Value.string).getD .null

structure RecoversMessage (msg : Message) (w : Value) : Prop where
  msgType       : w.field "msg_type" = some (.string <| messageTypeToStr msg.msgType)
  sender        : w.field "sender" = some (.string msg.sender)
  event         : w.field "event" = some (.string msg.event)
  payload       : ∃ p, w.field "payload" = some p ∧ Any.Shows (.payload msg.payload) p
  recipient     : w.field "recipient" = some (stringValue msg.recipient)
  durability    : w.field "durability" = some (.number true msg.durability.toInt)
  timestamp     : ∃ x, w.field "timestamp" = some x ∧ ShowsTime msg.timestamp x
  correlationId : w.field "correlation_id" = some (stringValue msg.correlationId)
  waitTimeout   : ∃ x, w.field "wait_timeout" = some x ∧ ShowsTime msg.waitTimeout x
  runTimeout    : ∃ x, w.field "run_timeout" = some x ∧ ShowsTime msg.runTimeout x

structure Recovers (msg : Message) (topic reason : Bytes) (w : Value) : Prop where
  topic   : w.field "topic" = some (.string topic)
  reason  : w.field "reason" = some (.string reason)
  message : ∃ m, w.field "message" = some m ∧ RecoversMessage msg m

-- One line of JSON that everything can be recovered from.
def Faithful (msg : Message) (topic reason line : Bytes) : Prop :=
  ∃ record, line = record ++ [10] ∧ 10 ∉ record ∧ ValidUtf8 record ∧
    ∃ w, parse record = some w ∧ Recovers msg topic reason w

def IsFinite (x : Option Floating) : Prop :=
  ∀ y ∈ x, ∃ q, y = .fin q

structure Recordable (msg : Message) (topic reason : Bytes) : Prop where
  topic       : ValidUtf8 topic
  reason      : ValidUtf8 reason
  payload     : Any.PrintableEntries msg.payload
  timestamp   : IsFinite msg.timestamp
  waitTimeout : IsFinite msg.waitTimeout
  runTimeout  : IsFinite msg.runTimeout

mutual

theorem anyText_validUtf8 : ∀ {v : Any}, v.Valid → (anyText v).Forall ValidUtf8 ValidUtf8
  | .empty, _     => isBare_null.validUtf8
  | .string _, h  => validUtf8_escape h
  | .cstring _, h => validUtf8_escape h
  | .bool b, _    => (isBare_bool b).validUtf8
  | .int _, _     => (toString_word _).right.left.validUtf8
  | .int64 _, _   => (toString_word _).right.left.validUtf8
  | .uint64 _, _  => (toString_word _).right.left.validUtf8
  | .double _, _  => floatingToJson_word.right.validUtf8
  | .float _, _   => floatingToJson_word.right.validUtf8
  | .payload _, h => entriesText_validUtf8 h
  | .anys _, h    => anysText_validUtf8 h
  | .strings _, _ => isBare_null.validUtf8

theorem entriesText_validUtf8 : ∀ {m}, Any.ValidEntries m →
    Text.ForallMembers ValidUtf8 ValidUtf8 (entriesText m)
  | [], _          => trivial
  | (_, _) :: _, h =>
    ⟨validUtf8_escape h.left, anyText_validUtf8 h.right.left, entriesText_validUtf8 h.right.right⟩

theorem anysText_validUtf8 : ∀ {l}, Any.ValidItems l →
    Text.ForallItems ValidUtf8 ValidUtf8 (anysText l)
  | [], _     => trivial
  | _ :: _, h => ⟨anyText_validUtf8 h.left, anysText_validUtf8 h.right⟩

end

theorem read_stringText : (stringText s).read = some (.string s) := by
  rw [stringText, Text.read, content_escape]
  rfl

mutual

-- Every value can be read, and from the values other than vectors of strings it can be told what was
-- written.
theorem read_anyText : ∀ {v : Any}, v.Valid →
    ∃ w, (anyText v).read = some w ∧ (v.Shows w ↔ v.Printable)
  | .empty, _            => ⟨.null, isWord_null.right, iff_of_true rfl trivial⟩
  | .string s, _         => ⟨.string s, read_stringText, iff_of_true rfl trivial⟩
  | .cstring s, _        => ⟨.string s, read_stringText, iff_of_true rfl trivial⟩
  | .bool b, _           => ⟨.bool b, isWord_bool.right, iff_of_true rfl trivial⟩
  | .int _, _            => ⟨_, (toString_word _).right.right, iff_of_true rfl trivial⟩
  | .int64 _, _          => ⟨_, (toString_word _).right.right, iff_of_true rfl trivial⟩
  | .uint64 _, _         => ⟨_, (toString_word _).right.right, iff_of_true rfl trivial⟩
  | .double (.fin _), h  => by
    obtain ⟨-, -, d, hr, hd⟩ := floatingToJson_fin
    exact ⟨_, hr, iff_of_true ⟨d, rfl, Floating.double_of_near h hd⟩ trivial⟩
  | .float (.fin _), h   => by
    obtain ⟨-, -, d, hr, hd⟩ := floatingToJson_fin
    exact ⟨_, hr, iff_of_true ⟨d, rfl, Floating.single_of_near h hd⟩ trivial⟩
  | .double (.inf _), _  => ⟨.null, isWord_null.right, iff_of_true trivial trivial⟩
  | .double .nan, _      => ⟨.null, isWord_null.right, iff_of_true trivial trivial⟩
  | .float (.inf _), _   => ⟨.null, isWord_null.right, iff_of_true trivial trivial⟩
  | .float .nan, _       => ⟨.null, isWord_null.right, iff_of_true trivial trivial⟩
  | .payload m, h        => by
    obtain ⟨ws, hr, hs⟩ := read_entriesText h
    refine ⟨.object ws, congrArg (Option.map Value.object) hr, Iff.trans ?_ hs⟩
    exact ⟨by rintro ⟨_, ⟨⟩, h⟩; exact h, fun h => ⟨ws, rfl, h⟩⟩
  | .anys l, h           => by
    obtain ⟨ws, hr, hs⟩ := read_anysText h
    refine ⟨.array ws, congrArg (Option.map Value.array) hr, Iff.trans ?_ hs⟩
    exact ⟨by rintro ⟨_, ⟨⟩, h⟩; exact h, fun h => ⟨ws, rfl, h⟩⟩
  | .strings _, _        => ⟨.null, isWord_null.right, iff_of_false nofun id⟩

theorem read_entriesText : ∀ {m}, Any.ValidEntries m → ∃ ws,
    Text.readMembers (entriesText m) = some ws ∧ (Any.ShowsEntries m ws ↔ Any.PrintableEntries m)
  | [], _          => ⟨[], rfl, iff_of_true rfl trivial⟩
  | (k, _) :: _, h => by
    obtain ⟨w, hr, hs⟩ := read_anyText h.right.left
    obtain ⟨ws, hrs, hss⟩ := read_entriesText h.right.right
    refine ⟨(k, w) :: ws, readMembers_cons content_escape hr hrs, Iff.trans ?_ (and_congr hs hss)⟩
    exact ⟨by rintro ⟨_, _, ⟨⟩, h⟩; exact h, fun h => ⟨w, ws, rfl, h⟩⟩

theorem read_anysText : ∀ {l}, Any.ValidItems l → ∃ ws,
    Text.readItems (anysText l) = some ws ∧ (Any.ShowsItems l ws ↔ Any.PrintableItems l)
  | [], _     => ⟨[], rfl, iff_of_true rfl trivial⟩
  | _ :: _, h => by
    obtain ⟨w, hr, hs⟩ := read_anyText h.left
    obtain ⟨ws, hrs, hss⟩ := read_anysText h.right
    refine ⟨w :: ws, readItems_cons hr hrs, Iff.trans ?_ (and_congr hs hss)⟩
    exact ⟨by rintro ⟨_, _, ⟨⟩, h⟩; exact h, fun h => ⟨w, ws, rfl, h⟩⟩

end

theorem read_generalText {q : ℚ} : ∃ b d, (generalText (.fin q)).read = some (.number b d) ∧
    |d - q| * (2 * 10 ^ 16) ≤ |q| :=
  Floating.isWord_general.right

-- Times are written without a look at whether they are finite.
theorem read_time {x : Option Floating} (hx : ∀ y ∈ x, y.toDouble = y) :
    (∃ w, (nullableText generalText x).read = some w ∧ ShowsTime x w ∧ IsFinite x) ∨
      (nullableText generalText x).read = none ∧ ¬IsFinite x := by
  rcases x with _ | q | neg | _
  case none => exact .inl ⟨.null, isWord_null.right, rfl, nofun⟩
  case some.fin =>
    obtain ⟨b, d, hr, hd⟩ := read_generalText (q := q)
    refine .inl ⟨_, hr, ⟨b, d, rfl, Floating.double_of_near (hx _ rfl) hd⟩, ?_⟩
    rintro _ ⟨⟩
    exact ⟨q, rfl⟩
  case some.inf =>
    refine .inr ⟨Floating.isWord_general_inf.right, fun h => ?_⟩
    obtain ⟨q, ⟨⟩⟩ := h _ rfl
  case some.nan =>
    refine .inr ⟨(Floating.isWord_general_nan (n := 16)).right, fun h => ?_⟩
    obtain ⟨q, ⟨⟩⟩ := h _ rfl

theorem read_string? {o : Option Bytes} :
    (nullableText stringText o).read = some (stringValue o) := by
  cases o
  case none => exact isWord_null.right
  case some => exact read_stringText

theorem content_key {k : Bytes} (h : k.flatMap escape = k := by rfl) : content k = some k := by
  conv_lhs => rw [← h]
  exact content_escape

theorem content_messageType : ∀ t, content (messageTypeToStr t) = some (messageTypeToStr t)
  | .command   => content_key
  | .event     => content_key
  | .heartbeat => content_key
  | .register  => content_key
  | .ack       => content_key
  | .response  => content_key
  | .request   => content_key

def messageValue (msg : Message) (payload timestamp waitTimeout runTimeout : Value) : Value :=
  .object [
    (utf8 "msg_type", .string <| messageTypeToStr msg.msgType),
    (utf8 "sender", .string msg.sender),
    (utf8 "event", .string msg.event),
    (utf8 "payload", payload),
    (utf8 "recipient", stringValue msg.recipient),
    (utf8 "durability", .number true msg.durability.toInt),
    (utf8 "timestamp", timestamp),
    (utf8 "correlation_id", stringValue msg.correlationId),
    (utf8 "wait_timeout", waitTimeout),
    (utf8 "run_timeout", runTimeout)]

theorem read_messageText {p t w r : Value} (hp : (anyText <| .payload msg.payload).read = some p)
    (ht : (nullableText generalText msg.timestamp).read = some t)
    (hw : (nullableText generalText msg.waitTimeout).read = some w)
    (hr : (nullableText generalText msg.runTimeout).read = some r) :
    (messageText msg).read = some (messageValue msg p t w r) := by
  have hm : (Text.string <| messageTypeToStr msg.msgType).read =
      some (.string <| messageTypeToStr msg.msgType) := by
    rw [Text.read, content_messageType]
    rfl
  have hd : (Text.word <| toString msg.durability.toInt).read =
      some (.number true msg.durability.toInt) := (toString_word _).right.right
  exact congrArg (Option.map Value.object) <| readMembers_cons content_key hm <|
    readMembers_cons content_key read_stringText <| readMembers_cons content_key read_stringText <|
    readMembers_cons content_key hp <| readMembers_cons content_key read_string? <|
    readMembers_cons content_key hd <| readMembers_cons content_key ht <|
    readMembers_cons content_key read_string? <| readMembers_cons content_key hw <|
    readMembers_cons content_key hr rfl

theorem of_read_messageText {m : Value} (h : (messageText msg).read = some m) : ∃ p t w r,
    (anyText <| .payload msg.payload).read = some p ∧
    (nullableText generalText msg.timestamp).read = some t ∧
    (nullableText generalText msg.waitTimeout).read = some w ∧
    (nullableText generalText msg.runTimeout).read = some r := by
  rw [messageText, Text.read, Option.map_eq_some_iff] at h
  obtain ⟨_, h, -⟩ := h
  obtain ⟨_, _, _, -, -, h, -⟩ := of_readMembers_cons h
  obtain ⟨_, _, _, -, -, h, -⟩ := of_readMembers_cons h
  obtain ⟨_, _, _, -, -, h, -⟩ := of_readMembers_cons h
  obtain ⟨_, p, _, -, hp, h, -⟩ := of_readMembers_cons h
  obtain ⟨_, _, _, -, -, h, -⟩ := of_readMembers_cons h
  obtain ⟨_, _, _, -, -, h, -⟩ := of_readMembers_cons h
  obtain ⟨_, t, _, -, ht, h, -⟩ := of_readMembers_cons h
  obtain ⟨_, _, _, -, -, h, -⟩ := of_readMembers_cons h
  obtain ⟨_, w, _, -, hw, h, -⟩ := of_readMembers_cons h
  obtain ⟨_, r, _, -, hr, -, -⟩ := of_readMembers_cons h
  exact ⟨p, t, w, r, hp, ht, hw, hr⟩

theorem recoversMessage_iff {p t w r : Value} (ht : ShowsTime msg.timestamp t)
    (hw : ShowsTime msg.waitTimeout w) (hr : ShowsTime msg.runTimeout r) :
    RecoversMessage msg (messageValue msg p t w r) ↔ Any.Shows (.payload msg.payload) p := by
  have hf : (messageValue msg p t w r).field "payload" = some p := rfl
  constructor
  case mp =>
    intro h
    obtain ⟨p', hp, hs⟩ := h.payload
    rw [hf] at hp
    cases hp
    exact hs
  case mpr =>
    exact fun hs => ⟨rfl, rfl, rfl, ⟨p, hf, hs⟩, rfl, rfl, ⟨t, rfl, ht⟩, rfl, ⟨w, rfl, hw⟩, ⟨r, rfl, hr⟩⟩

-- A message can be recovered if all values of its payload can be and its times are finite.
theorem exists_recoversMessage_iff (hv : msg.Valid) :
    (∃ m, (messageText msg).read = some m ∧ RecoversMessage msg m) ↔
      Any.PrintableEntries msg.payload ∧ IsFinite msg.timestamp ∧ IsFinite msg.waitTimeout ∧
        IsFinite msg.runTimeout := by
  obtain ⟨p, hp, hs⟩ := read_anyText (v := .payload msg.payload) hv.payload
  rcases read_time hv.timestamp with ⟨t, ht, hst, hft⟩ | ⟨ht, hft⟩
  case inr =>
    refine iff_of_false ?_ fun h => hft h.right.left
    rintro ⟨m, hm, -⟩
    obtain ⟨_, _, _, _, -, ht', -, -⟩ := of_read_messageText hm
    cases ht.symm.trans ht'
  case inl =>
    rcases read_time hv.waitTimeout with ⟨w, hw, hsw, hfw⟩ | ⟨hw, hfw⟩
    case inr =>
      refine iff_of_false ?_ fun h => hfw h.right.right.left
      rintro ⟨m, hm, -⟩
      obtain ⟨_, _, _, _, -, -, hw', -⟩ := of_read_messageText hm
      cases hw.symm.trans hw'
    case inl =>
      rcases read_time hv.runTimeout with ⟨r, hr, hsr, hfr⟩ | ⟨hr, hfr⟩
      case inr =>
        refine iff_of_false ?_ fun h => hfr h.right.right.right
        rintro ⟨m, hm, -⟩
        obtain ⟨_, _, _, _, -, -, -, hr'⟩ := of_read_messageText hm
        cases hr.symm.trans hr'
      case inl =>
        have hm := read_messageText hp ht hw hr
        have hi := recoversMessage_iff (p := p) hst hsw hsr
        constructor
        case mp =>
          rintro ⟨m, hm', h⟩
          cases hm.symm.trans hm'
          exact ⟨hs.mp <| hi.mp h, hft, hfw, hfr⟩
        case mpr =>
          exact fun h => ⟨_, hm, hi.mpr <| hs.mpr h.left⟩

def recordValue (topic reason : Bytes) (timestamp message : Value) : Value :=
  .object [
    (utf8 "timestamp", timestamp),
    (utf8 "topic", .string topic),
    (utf8 "reason", .string reason),
    (utf8 "message", message)]

theorem read_recordText {w : Value} : (recordText t msg topic reason).read = some w ↔
    ∃ x m, (generalText (.fin t)).read = some x ∧ (messageText msg).read = some m ∧
      w = recordValue topic reason x m := by
  constructor
  case mp =>
    intro h
    rw [recordText, Text.read, Option.map_eq_some_iff] at h
    obtain ⟨_, h₁, rfl⟩ := h
    obtain ⟨k₁, x, _, hk₁, hx, h₂, rfl⟩ := of_readMembers_cons h₁
    obtain ⟨k₂, _, _, hk₂, ht, h₃, rfl⟩ := of_readMembers_cons h₂
    obtain ⟨k₃, _, _, hk₃, hr, h₄, rfl⟩ := of_readMembers_cons h₃
    obtain ⟨k₄, m, _, hk₄, hm, h₅, rfl⟩ := of_readMembers_cons h₄
    cases h₅
    cases hk₁.symm.trans content_key
    cases hk₂.symm.trans content_key
    cases hk₃.symm.trans content_key
    cases hk₄.symm.trans content_key
    cases read_stringText.symm.trans ht
    cases read_stringText.symm.trans hr
    exact ⟨x, m, hx, hm, rfl⟩
  case mpr =>
    rintro ⟨x, m, hx, hm, rfl⟩
    exact congrArg (Option.map Value.object) <| readMembers_cons content_key hx <|
      readMembers_cons content_key read_stringText <|
      readMembers_cons content_key read_stringText <| readMembers_cons content_key hm rfl

theorem recovers_iff {x m : Value} :
    Recovers msg topic reason (recordValue topic reason x m) ↔ RecoversMessage msg m := by
  have hf : (recordValue topic reason x m).field "message" = some m := rfl
  constructor
  case mp =>
    intro h
    obtain ⟨m', hm, h⟩ := h.message
    rw [hf] at hm
    cases hm
    exact h
  case mpr => exact fun h => ⟨rfl, rfl, m, hf, h⟩

theorem exists_recovers_iff :
    (∃ w, parse (record t msg topic reason) = some w ∧ Recovers msg topic reason w) ↔
      ∃ m, (messageText msg).read = some m ∧ RecoversMessage msg m := by
  rw [parse_record]
  constructor
  case mp =>
    rintro ⟨w, hw, h⟩
    obtain ⟨x, m, -, hm, rfl⟩ := read_recordText.mp hw
    exact ⟨m, hm, recovers_iff.mp h⟩
  case mpr =>
    rintro ⟨m, hm, h⟩
    obtain ⟨b, d, hx, -⟩ := read_generalText (q := t)
    exact ⟨_, read_recordText.mpr ⟨_, m, hx, hm, rfl⟩, recovers_iff.mpr h⟩

theorem nullableText_validUtf8 {α} {toText : α → Text} {o : Option α}
    (h : ∀ a ∈ o, (toText a).Forall ValidUtf8 ValidUtf8) :
    (nullableText toText o).Forall ValidUtf8 ValidUtf8 := by
  cases o
  case none   => exact isBare_null.validUtf8
  case some a => exact h a rfl

theorem generalText_validUtf8 : (generalText x).Forall ValidUtf8 ValidUtf8 :=
  Floating.isBare_general.validUtf8

theorem validUtf8_messageType {t : MessageType} : ValidUtf8 (messageTypeToStr t) := by
  cases t <;> exact .text

theorem messageText_validUtf8 (hv : msg.Valid) :
    (messageText msg).Forall ValidUtf8 ValidUtf8 :=
  have hs {o : Option Bytes} (h : ∀ s ∈ o, ValidUtf8 s) :
      (nullableText stringText o).Forall ValidUtf8 ValidUtf8 :=
    nullableText_validUtf8 fun s hs => validUtf8_escape (h s hs)
  have ht {o : Option Floating} : (nullableText generalText o).Forall ValidUtf8 ValidUtf8 :=
    nullableText_validUtf8 fun _ _ => generalText_validUtf8
  ⟨.text, validUtf8_messageType, .text, validUtf8_escape hv.sender, .text,
    validUtf8_escape hv.event, .text, entriesText_validUtf8 hv.payload, .text, hs hv.recipient,
    .text, (toString_word _).right.left.validUtf8, .text, ht, .text, hs hv.correlationId, .text, ht,
    .text, ht, trivial⟩

theorem validUtf8_record_iff (hv : msg.Valid) :
    ValidUtf8 (record t msg topic reason) ↔ ValidUtf8 topic ∧ ValidUtf8 reason := by
  rw [← print_recordText, print_iff compositional_validUtf8 separable_validUtf8]
  constructor
  case mp =>
    rintro ⟨-, -, -, ht, -, hr, -⟩
    exact ⟨validUtf8_escape_iff.mp ht, validUtf8_escape_iff.mp hr⟩
  case mpr =>
    rintro ⟨ht, hr⟩
    exact ⟨.text, generalText_validUtf8, .text, validUtf8_escape ht, .text, validUtf8_escape hr,
      .text, messageText_validUtf8 hv, trivial⟩

theorem faithful_iff (hv : msg.Valid) :
    Faithful msg topic reason (line t msg topic reason) ↔ Recordable msg topic reason := by
  have hu := @validUtf8_record_iff t msg topic reason hv
  have hr := @exists_recovers_iff t msg topic reason
  rw [exists_recoversMessage_iff hv] at hr
  constructor
  case mp =>
    rintro ⟨r, hl, -, hv, hw⟩
    cases List.append_cancel_right hl
    obtain ⟨ht, hs⟩ := hu.mp hv
    obtain ⟨hp, h₁, h₂, h₃⟩ := hr.mp hw
    exact ⟨ht, hs, hp, h₁, h₂, h₃⟩
  case mpr =>
    intro h
    exact ⟨_, rfl, newline_notMem_record, hu.mpr ⟨h.topic, h.reason⟩,
      hr.mpr ⟨h.payload, h.timestamp, h.waitTimeout, h.runTimeout⟩⟩

namespace Sample

def trade : Message where
  sender      := utf8 "book"
  payload     := [(utf8 "price", .double <| .fin <| 1 / 4), (utf8 "legs", .anys [.int 2, .empty])]
  waitTimeout := some <| .fin 5

theorem valid_trade : trade.Valid where
  sender        := .text
  event         := .nil
  payload       := ⟨.text, by unfold Any.Valid; decide +kernel, .text, ⟨trivial, trivial, trivial⟩,
    trivial⟩
  recipient     := nofun
  timestamp     := nofun
  correlationId := nofun
  waitTimeout   := by
    rintro _ ⟨⟩
    decide +kernel
  runTimeout    := nofun

-- A message with an array of strings, as it is decoded.
def tagged : Message where
  payload := [(utf8 "tags", .strings [utf8 "fast"])]

def taggedTokens : List Msgpack.Token :=
  [.map 1, .str (utf8 "payload"), .map 1, .str (utf8 "tags"), .array 1, .str (utf8 "fast")]

theorem deserialize_tagged : deserialize taggedTokens = some tagged :=
  rfl

theorem valid_tagged : tagged.Valid where
  sender        := .nil
  event         := .nil
  payload       := ⟨.text, List.forall_mem_singleton.mpr .text, trivial⟩
  recipient     := nofun
  timestamp     := nofun
  correlationId := nofun
  waitTimeout   := nofun
  runTimeout    := nofun

end Sample

theorem faithful_iff_sample : Faithful Sample.trade (utf8 "trades") (utf8 "late")
    (line 1700000000 Sample.trade (utf8 "trades") (utf8 "late")) :=
  (faithful_iff Sample.valid_trade).mpr
    ⟨.text, .text, ⟨trivial, ⟨trivial, trivial, trivial⟩, trivial⟩, nofun,
      by rintro _ ⟨⟩; exact ⟨5, rfl⟩, nofun⟩

theorem not_faithful : ¬∀ (t : ℚ) (ts : List Msgpack.Token) (msg : Message) (topic reason : Bytes),
    deserialize ts = some msg → msg.Valid → ValidUtf8 topic → ValidUtf8 reason →
      Faithful msg topic reason (line t msg topic reason) := by
  intro h
  obtain ⟨r, hl, -, -, w, hw, hr⟩ :=
    h 0 Sample.taggedTokens Sample.tagged [] [] Sample.deserialize_tagged Sample.valid_tagged .nil .nil
  cases List.append_cancel_right hl
  obtain ⟨m, hm, hr⟩ := exists_recovers_iff.mp ⟨w, hw, hr⟩
  exact ((exists_recoversMessage_iff Sample.valid_tagged).mp ⟨m, hm, hr⟩).left.left

end DeadLetterStore

end Cpp
