import Tyche.Cpp.DeadLetter

namespace Cpp

open Digits
open JsonText hiding hexDigit

attribute [local instance] Dialect.strict

variable {c : UInt8} {s : Bytes} {i : ℤ} {n : ℕ} {x : Floating} {first : Bool}

namespace DeadLetterStore

-- The texts of the parts of a record.
def stringText (s : Bytes) : Text :=
  .string (s.flatMap escape)

def nullableText {α} (toText : α → Text) (value : Option α) : Text :=
  (value.map toText).getD (.word <| utf8 "null")

def generalText (x : Floating) : Text :=
  .word (x.general 16)

mutual

def anyText : Any → Text
  | .empty     => .word <| utf8 "null"
  | .string s  => stringText s
  | .cstring s => stringText s
  | .bool b    => .word <| if b then utf8 "true" else utf8 "false"
  | .int i     => .word <| toString i.toInt
  | .int64 i   => .word <| toString i.toInt
  | .uint64 n  => .word <| toString n.toNat
  | .double x  => .word <| floatingToJson 16 x
  | .float x   => .word <| floatingToJson 8 x
  | .payload m => .object (entriesText m)
  | .anys l    => .array (anysText l)
  | .strings _ => .word <| utf8 "null"

def entriesText : List (Bytes × Any) → List (Bytes × Text)
  | []          => []
  | (k, v) :: m => (k.flatMap escape, anyText v) :: entriesText m

def anysText : List Any → List Text
  | []     => []
  | v :: l => anyText v :: anysText l

end

def messageText (msg : Message) : Text :=
  .object [
    (utf8 "msg_type", .string <| messageTypeToStr msg.msgType),
    (utf8 "sender", stringText msg.sender),
    (utf8 "event", stringText msg.event),
    (utf8 "payload", anyText <| .payload msg.payload),
    (utf8 "recipient", nullableText stringText msg.recipient),
    (utf8 "durability", .word <| toString msg.durability.toInt),
    (utf8 "timestamp", nullableText generalText msg.timestamp),
    (utf8 "correlation_id", nullableText stringText msg.correlationId),
    (utf8 "wait_timeout", nullableText generalText msg.waitTimeout),
    (utf8 "run_timeout", nullableText generalText msg.runTimeout)]

def recordText (timestamp : ℚ) (msg : Message) (topic reason : Bytes) : Text :=
  .object [
    (utf8 "timestamp", generalText (.fin timestamp)),
    (utf8 "topic", stringText topic),
    (utf8 "reason", stringText reason),
    (utf8 "message", messageText msg)]

theorem hexDigit_eq : ∀ n < 16, hexDigit n = hexChar n := by
  decide

theorem escapeByte_eq : escapeByte c = escape c := by
  have hc : c.toNat < 256 := c.toNat_lt
  unfold escapeByte escape
  split_ifs
  case pos => rfl
  case pos => rfl
  case pos => rfl
  case pos => rfl
  case pos => rfl
  case pos => rfl
  case pos => rfl
  case pos =>
    rw [hexDigit_eq _ (by omega), hexDigit_eq _ (by omega)]
    rfl
  case neg => rfl

theorem escapeJsonString_eq : escapeJsonString s = s.flatMap escape :=
  congrArg s.flatMap <| funext fun _ => escapeByte_eq

-- What is written stands for the bytes as they are, and so it is in UTF-8 if they are.
theorem escapeJsonString_escapes (s : Bytes) :
    Escapes s (escapeJsonString s) ∧ (ValidUtf8 (escapeJsonString s) ↔ ValidUtf8 s) := by
  rw [escapeJsonString_eq]
  refine ⟨?_, validUtf8_escape_iff⟩
  rw [List.flatMap_def]
  refine .of_chars ?_ ?_ ?_
  case refine_1 =>
    rw [← List.flatMap_def]
    exact content_escape
  case refine_2 => exact List.forall_mem_map.mpr fun _ _ => isChar_escape
  case refine_3 =>
    rw [List.forall₂_map_right_iff, List.forall₂_same]
    intro c _
    have hc : content ([c].flatMap escape) = some [c] := content_escape
    rwa [List.flatMap_singleton] at hc

example : escapeJsonString [0xff, 34, 0, 10, 92, 117] =
    0xff :: utf8 "\\\"\\u0000\\n\\\\u" := by
  decide +kernel

theorem print_string {r : Bytes} : (Text.string r).print = utf8 "\"" ++ r ++ utf8 "\"" := by
  rw [List.append_assoc]
  rfl

theorem print_stringText : (stringText s).print = quoted s := by
  rw [stringText, print_string, quoted, escapeJsonString_eq]

theorem print_nullableText {α} {toText : α → Text} {toJson : α → Bytes}
    (h : ∀ a, (toText a).print = toJson a) {value : Option α} :
    (nullableText toText value).print = nullable toJson value := by
  cases value
  case none   => rfl
  case some a => exact h a

theorem print_member {k v : Bytes} {t : Text} (h : t.print = v) :
    Text.printMembers [(k, t)] = member k v := by
  rw [Text.printMembers, h, member, List.append_assoc, List.append_assoc]
  rfl

theorem print_members {k v : Bytes} {t : Text} {e : Bytes × Text} {m : List (Bytes × Text)}
    (h : t.print = v) :
    Text.printMembers ((k, t) :: e :: m) = member k v ++ (utf8 ", " ++ Text.printMembers (e :: m)) := by
  rw [printMembers_cons, h, member, List.append_assoc, List.append_assoc, List.append_assoc]
  rfl

theorem print_object {m : List (Bytes × Text)} :
    (Text.object m).print = utf8 "\x7b" ++ (Text.printMembers m ++ utf8 "\x7d") :=
  rfl

theorem entriesToJson_true {k : Bytes} {v : Any} {m : Payload} : entriesToJson true ((k, v) :: m) =
    member (k.flatMap escape) (anyToJson v) ++ entriesToJson false m := by
  rw [entriesToJson, escapeJsonString_eq]
  rfl

theorem entriesToJson_false {e : Bytes × Any} {m : Payload} :
    entriesToJson false (e :: m) = utf8 ", " ++ entriesToJson true (e :: m) := by
  rw [entriesToJson, entriesToJson, List.append_assoc, List.append_assoc]
  rfl

theorem anysToJson_true {v : Any} {l : List Any} :
    anysToJson true (v :: l) = anyToJson v ++ anysToJson false l := by
  rw [anysToJson]
  rfl

theorem anysToJson_false {v : Any} {l : List Any} :
    anysToJson false (v :: l) = utf8 ", " ++ anysToJson true (v :: l) := by
  rw [anysToJson, anysToJson, List.append_assoc, List.append_assoc]
  rfl

mutual

theorem print_anyText : ∀ v, (anyText v).print = anyToJson v
  | .empty              => rfl
  | .string _           => print_stringText
  | .cstring _          => print_stringText
  | .bool _             => rfl
  | .int _              => rfl
  | .int64 _            => rfl
  | .uint64 _           => rfl
  | .double _           => rfl
  | .float _            => rfl
  | .payload []         => rfl
  | .payload (e :: m)   => by
    rw [anyText, print_object, print_entriesText (e :: m), anyToJson, List.append_assoc]
    rfl
  | .anys l             => by
    rw [anyText, Text.print, print_anysText l, anyToJson, List.append_assoc]
    rfl
  | .strings _          => rfl

theorem print_entriesText : ∀ m, Text.printMembers (entriesText m) = entriesToJson true m
  | []                       => rfl
  | [(k, v)]                 => by
    rw [entriesText, entriesText, print_member (print_anyText v), entriesToJson_true, entriesToJson,
      List.append_nil]
  | (k, v) :: (k', v') :: m => by
    have hm := print_entriesText ((k', v') :: m)
    rw [entriesText] at hm
    rw [entriesText, entriesText, print_members (print_anyText v), hm, ← entriesToJson_false,
      ← entriesToJson_true]

theorem print_anysText : ∀ l, Text.printItems (anysText l) = anysToJson true l
  | []          => rfl
  | [v]         => by
    rw [anysText, anysText, Text.printItems, print_anyText v, anysToJson_true, anysToJson,
      List.append_nil]
  | v :: u :: l => by
    have hl := print_anysText (u :: l)
    rw [anysText] at hl
    rw [anysText, anysText, printItems_cons, print_anyText v, hl, anysToJson_true (v := v),
      anysToJson_false]
    rfl

end

theorem print_messageText {msg : Message} : (messageText msg).print = messageToJson msg := by
  have hg (x : Floating) : (generalText x).print = x.general 16 := rfl
  have hi (i : ℤ) : (Text.word (toString i)).print = toString i := rfl
  have hs (s : Bytes) : (stringText s).print = quoted s := print_stringText
  rw [messageText, print_object, print_members print_string, print_members print_stringText,
    print_members print_stringText, print_members (print_anyText _),
    print_members (print_nullableText hs), print_members (hi _),
    print_members (print_nullableText hg),
    print_members (print_nullableText hs),
    print_members (print_nullableText hg), print_member (print_nullableText hg)]
  unfold messageToJson payloadToJson
  simp only [List.append_assoc]

theorem print_recordText {t : ℚ} {msg : Message} {topic reason : Bytes} :
    (recordText t msg topic reason).print = record t msg topic reason := by
  have hg (x : Floating) : (generalText x).print = x.general 16 := rfl
  rw [recordText, print_object, print_members (hg _), print_members print_stringText,
    print_members print_stringText, print_member print_messageText]
  unfold record
  simp only [List.append_assoc]

theorem toString_word (i : ℤ) : IsWord (toString i) ∧ IsBare (toString i) ∧
    Text.readWord (toString i) = some (.number true i) := by
  have h := isWord_int i
  exact ⟨h.left, isBare_minus.append <| isBare_digits fun _ => isDigit_of_mem_text, h.right⟩

theorem floatingToJson_fin {q : ℚ} : IsWord (floatingToJson n (.fin q)) ∧
    IsBare (floatingToJson n (.fin q)) ∧ ∃ d,
      Text.readWord (floatingToJson n (.fin q)) = some (.number false d) ∧
      |d - q| * (2 * 10 ^ n) ≤ |q| := by
  obtain ⟨int, frac, e, h, he, hd⟩ := Floating.general_fin n q
  unfold floatingToJson
  dsimp only
  rw [he]
  split_ifs with hp
  case pos =>
    obtain ⟨hn, hs, hv⟩ := Floating.isNumeral_point h hp.left hp.right
    obtain ⟨hw, hr⟩ := @isWord_numeral (decide (q < 0)) _ _ _ _ _ hn
    change IsWord (_ ++ [46, 48]) ∧ IsBare (_ ++ [46, 48]) ∧
      ∃ d, Text.readWord (_ ++ [46, 48]) = _ ∧ _
    rw [hs]
    exact ⟨hw, isBare_numeral hn nofun, _, hr, by rwa [hv]⟩
  case neg =>
    obtain ⟨hw, hr⟩ := @isWord_numeral (decide (q < 0)) _ _ _ _ _ h
    have hi : (frac.isEmpty && e.isNone) = false := by
      by_contra hi
      simp only [Bool.not_eq_false, Bool.and_eq_true, List.isEmpty_iff, Option.isNone_iff_eq_none] at hi
      obtain ⟨rfl, rfl⟩ := hi
      exact hp ⟨Floating.notMem_numeral h.intDigits (by decide) (by decide),
        Floating.notMem_numeral h.intDigits (by decide) (by decide)⟩
    rw [hi] at hr
    exact ⟨hw, isBare_numeral h Floating.isBare_exponentText, _, hr, hd⟩

theorem floatingToJson_word : IsWord (floatingToJson n x) ∧ IsBare (floatingToJson n x) := by
  cases x
  case fin q => exact ⟨floatingToJson_fin.left, floatingToJson_fin.right.left⟩
  all_goals exact ⟨isWord_null.left, isBare_null⟩

mutual

theorem anyText_forall : ∀ v, (anyText v).Forall Plain IsEscape
  | .empty     => ⟨isWord_null.left, isBare_null⟩
  | .string s  => isEscape s
  | .cstring s => isEscape s
  | .bool b    => ⟨isWord_bool.left, isBare_bool b⟩
  | .int _     => ⟨(toString_word _).left, (toString_word _).right.left⟩
  | .int64 _   => ⟨(toString_word _).left, (toString_word _).right.left⟩
  | .uint64 _  => ⟨(toString_word _).left, (toString_word _).right.left⟩
  | .double _  => floatingToJson_word
  | .float _   => floatingToJson_word
  | .payload m => entriesText_forall m
  | .anys l    => anysText_forall l
  | .strings _ => ⟨isWord_null.left, isBare_null⟩

theorem entriesText_forall : ∀ m, Text.ForallMembers Plain IsEscape (entriesText m)
  | []          => trivial
  | (k, v) :: m => ⟨isEscape k, anyText_forall v, entriesText_forall m⟩

theorem anysText_forall : ∀ l, Text.ForallItems Plain IsEscape (anysText l)
  | []     => trivial
  | v :: l => ⟨anyText_forall v, anysText_forall l⟩

end

theorem nullableText_forall {α} {toText : α → Text}
    (h : ∀ a, (toText a).Forall Plain IsEscape) {value : Option α} :
    (nullableText toText value).Forall Plain IsEscape := by
  cases value
  case none   => exact ⟨isWord_null.left, isBare_null⟩
  case some a => exact h a

theorem generalText_forall : (generalText x).Forall Plain IsEscape := by
  refine ⟨?_, Floating.isBare_general⟩
  cases x
  case fin     => exact Floating.isWord_general.left
  case inf neg => exact Floating.isWord_general_inf.left
  case nan     => exact Floating.isWord_general_nan.left

theorem stringText_forall : (stringText s).Forall Plain IsEscape :=
  isEscape s

theorem isEscape_messageType : ∀ t, IsEscape (messageTypeToStr t)
  | .command   => ⟨messageTypeToStr .command, rfl⟩
  | .event     => ⟨messageTypeToStr .event, rfl⟩
  | .heartbeat => ⟨messageTypeToStr .heartbeat, rfl⟩
  | .register  => ⟨messageTypeToStr .register, rfl⟩
  | .ack       => ⟨messageTypeToStr .ack, rfl⟩
  | .response  => ⟨messageTypeToStr .response, rfl⟩
  | .request   => ⟨messageTypeToStr .request, rfl⟩

theorem messageText_forall {msg : Message} : (messageText msg).Forall Plain IsEscape :=
  have hd := toString_word msg.durability.toInt
  ⟨⟨utf8 "msg_type", rfl⟩, isEscape_messageType _,
    ⟨utf8 "sender", rfl⟩, stringText_forall,
    ⟨utf8 "event", rfl⟩, stringText_forall,
    ⟨utf8 "payload", rfl⟩, anyText_forall _,
    ⟨utf8 "recipient", rfl⟩, nullableText_forall fun _ => stringText_forall,
    ⟨utf8 "durability", rfl⟩, ⟨hd.left, hd.right.left⟩,
    ⟨utf8 "timestamp", rfl⟩, nullableText_forall fun _ => generalText_forall,
    ⟨utf8 "correlation_id", rfl⟩, nullableText_forall fun _ => stringText_forall,
    ⟨utf8 "wait_timeout", rfl⟩, nullableText_forall fun _ => generalText_forall,
    ⟨utf8 "run_timeout", rfl⟩, nullableText_forall fun _ => generalText_forall, trivial⟩

variable {t : ℚ} {msg : Message} {topic reason : Bytes}

theorem recordText_forall : (recordText t msg topic reason).Forall Plain IsEscape :=
  ⟨⟨utf8 "timestamp", rfl⟩, generalText_forall,
    ⟨utf8 "topic", rfl⟩, stringText_forall,
    ⟨utf8 "reason", rfl⟩, stringText_forall,
    ⟨utf8 "message", rfl⟩, messageText_forall, trivial⟩

-- Whatever is persisted is one line.
theorem newline_notMem_record : 10 ∉ record t msg topic reason := by
  rw [← print_recordText]
  exact (visible_of_plain recordText_forall).newline

theorem parse_record :
    parse (record t msg topic reason) = (recordText t msg topic reason).read := by
  rw [← print_recordText]
  exact parse_print <| lexed_of_plain recordText_forall

end DeadLetterStore

end Cpp
