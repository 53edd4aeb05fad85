import Tyche.Cpp.Theorems.RecordText
import Tyche.JsonSearch

namespace Cpp

open Calendar
open JsonText hiding hexDigit

attribute [local instance] Dialect.strict

variable {topic t s : Bytes} {topicFilter sinceDate : Option Bytes} {n : ℕ} {results : List Bytes}
  {ls : List Bytes}

namespace Any

-- Whether the key of an entry is `topic` or ends in a quotation mark and `topic`.
def IsTopicKey (k : Bytes) : Prop :=
  34 :: utf8 "topic" <:+ 34 :: k

mutual

-- Somewhere inside of the value there is a map with the string under such a key.
def Mentions (t : Bytes) : Any → Prop
  | .payload m => MentionsEntry t m
  | .anys l    => MentionsItem t l
  | _          => False

def MentionsEntry (t : Bytes) : List (Bytes × Any) → Prop
  | []          => False
  | (k, v) :: m =>
    IsTopicKey k ∧ (v = .string t ∨ v = .cstring t) ∨ v.Mentions t ∨ MentionsEntry t m

def MentionsItem (t : Bytes) : List Any → Prop
  | []     => False
  | v :: l => v.Mentions t ∨ MentionsItem t l

end

end Any

namespace DeadLetterStore

variable {ps : List Letter}

theorem verbatim_topic : Verbatim (utf8 "topic") := by
  unfold Verbatim
  decide +kernel

theorem stringText_eq_iff (ht : Verbatim t) : stringText s = .string t ↔ s = t := by
  rw [stringText, Text.string.injEq, eq_comm, ht.eq_escape_iff, eq_comm]

theorem anyText_eq_iff (ht : Verbatim t) {v : Any} :
    anyText v = .string t ↔ v = .string t ∨ v = .cstring t := by
  cases v
  case string s  => exact (stringText_eq_iff ht).trans (by simp)
  case cstring s => exact (stringText_eq_iff ht).trans (by simp)
  all_goals exact iff_of_false nofun (by simp)

mutual

theorem has_anyText_iff (ht : Verbatim t) :
    ∀ v : Any, (anyText v).Has (utf8 "topic") (· = .string t) ↔ v.Mentions t
  | .empty     => Iff.rfl
  | .string _  => Iff.rfl
  | .cstring _ => Iff.rfl
  | .bool _    => Iff.rfl
  | .int _     => Iff.rfl
  | .int64 _   => Iff.rfl
  | .uint64 _  => Iff.rfl
  | .double _  => Iff.rfl
  | .float _   => Iff.rfl
  | .payload m => hasMember_entriesText_iff ht m
  | .anys l    => hasItem_anysText_iff ht l
  | .strings _ => Iff.rfl

theorem hasMember_entriesText_iff (ht : Verbatim t) : ∀ m, Text.HasMember (utf8 "topic")
    (· = .string t) (entriesText m) ↔ Any.MentionsEntry t m
  | []          => Iff.rfl
  | (_, v) :: m =>
    or_congr (and_congr (suffix_key_iff verbatim_topic) (anyText_eq_iff ht)) <|
      or_congr (has_anyText_iff ht v) (hasMember_entriesText_iff ht m)

theorem hasItem_anysText_iff (ht : Verbatim t) : ∀ l, Text.HasItem (utf8 "topic")
    (· = .string t) (anysText l) ↔ Any.MentionsItem t l
  | []     => Iff.rfl
  | v :: l => or_congr (has_anyText_iff ht v) (hasItem_anysText_iff ht l)

end

section

variable {k r : Bytes} {Q : Text → Prop} {x : Text} {m : List (Bytes × Text)}

theorem not_has_nullableText {α} {toText : α → Text} {o : Option α}
    (h : ∀ a, ¬(toText a).Has k Q) : ¬(nullableText toText o).Has k Q := by
  cases o
  case none   => exact id
  case some a => exact h a

-- A member with another key that has nothing inside of it.
theorem hasMember_cons_of_not (hr : ¬34 :: k <:+ 34 :: r) (hx : ¬x.Has k Q) :
    Text.HasMember k Q ((r, x) :: m) ↔ Text.HasMember k Q m := by
  rw [Text.HasMember, or_iff_right fun h => hr h.left, or_iff_right hx]

theorem hasMember_cons_of_key (hr : ¬34 :: k <:+ 34 :: r) :
    Text.HasMember k Q ((r, x) :: m) ↔ x.Has k Q ∨ Text.HasMember k Q m := by
  rw [Text.HasMember, or_iff_right fun h => hr h.left]

end

theorem has_messageText_iff (ht : Verbatim t) {msg : Message} :
    (messageText msg).Has (utf8 "topic") (· = .string t) ↔ Any.MentionsEntry t msg.payload := by
  rw [messageText, Text.Has, hasMember_cons_of_not (by decide) id,
    hasMember_cons_of_not (by decide) id, hasMember_cons_of_not (by decide) id,
    hasMember_cons_of_key (by decide), has_anyText_iff ht, Any.Mentions,
    hasMember_cons_of_not (by decide) (not_has_nullableText fun _ => id),
    hasMember_cons_of_not (by decide) id,
    hasMember_cons_of_not (by decide) (not_has_nullableText fun _ => id),
    hasMember_cons_of_not (by decide) (not_has_nullableText fun _ => id),
    hasMember_cons_of_not (by decide) (not_has_nullableText fun _ => id),
    hasMember_cons_of_not (by decide) (not_has_nullableText fun _ => id), Text.HasMember, or_false]

theorem has_recordText_iff (ht : Verbatim t) {x : ℚ} {msg : Message} {reason : Bytes} :
    (recordText x msg topic reason).Has (utf8 "topic") (· = .string t) ↔
      topic = t ∨ Any.MentionsEntry t msg.payload := by
  have hk : 34 :: utf8 "topic" <:+ 34 :: utf8 "topic" := List.suffix_refl _
  rw [recordText, Text.Has, hasMember_cons_of_not (by decide) id, Text.HasMember,
    and_iff_right hk, stringText_eq_iff ht, hasMember_cons_of_not (by decide) id,
    hasMember_cons_of_key (by decide), has_messageText_iff ht, Text.HasMember, or_false]
  exact or_congr_right <| or_iff_right id

-- The search by topic finds the records of the topic and those whose payload imitates it.
theorem hasTopic_record_iff (ht : Verbatim t) {l : Letter} :
    HasTopic t l.record ↔ l.topic = t ∨ Any.MentionsEntry t l.message.payload := by
  have hl : Lexed (recordText l.timestamp l.message l.topic l.reason) :=
    lexed_of_plain recordText_forall
  have hw : (recordText l.timestamp l.message l.topic l.reason).Forall Unquoted fun _ => True :=
    recordText_forall.imp (fun h hq => absurd (h.right 34 hq).left (by decide)) fun _ => trivial
  have hq := verbatim_topic.quiet
  have hs : ∃ c k, utf8 "topic" = c :: k ∧ c ≠ 44 ∧ c ≠ 58 ∧ c ≠ 93 ∧ c ≠ 125 :=
    ⟨_, _, rfl, by decide⟩
  have hn : utf8 "\"topic\": \"" ++ t ++ utf8 "\"" =
      needle (utf8 "topic") (58 :: 32 :: 34 :: (t ++ [34])) := by
    rw [List.append_assoc]
    rfl
  have hc : utf8 "\"topic\":\"" ++ t ++ utf8 "\"" =
      needle (utf8 "topic") (58 :: 34 :: (t ++ [34])) := by
    rw [List.append_assoc]
    rfl
  rw [HasTopic, hn, hc, Letter.record, ← print_recordText,
    infix_print_iff (follows_string hq hs ht.quiet) hl hw,
    infix_print_iff (follows_compact hq hs) hl hw, has_recordText_iff ht]
  exact or_iff_left not_has_false

theorem passes_iff (ht : Verbatim t) {l : Letter} : Passes (some t) l.record ↔
    l.topic = t ∨ Any.MentionsEntry t l.message.payload := by
  rw [← hasTopic_record_iff ht]
  simp [Passes]

namespace Sample

def newYear : Date where
  year       := 2024
  month      := 1
  day        := 1
  fourDigits := by decide
  isMonth    := by decide
  isDay      := by decide

-- A record of one topic whose payload has another one.
def order : Letter where
  date      := newYear
  timestamp := 1704067200
  message   := { payload := [(utf8 "topic", .string (utf8 "trades"))] }
  topic     := utf8 "orders"
  reason    := utf8 "wait_timeout"

end Sample

end DeadLetterStore

end Cpp
