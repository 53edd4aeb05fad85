import Tyche.Python.Json
import Tyche.Python.Theorems.Decoding

namespace Python

open Digits
open JsonText hiding hexDigit Value

attribute [local instance] jsonDialect

namespace Value

mutual

-- What the encoder knows.
def Jsonable : Value → Prop
  | .none | .bool _ | .int _ | .float .. | .str _ => True
  | .list l  => JsonableItems l
  | .dict es => JsonableEntries es
  | .decimal .. | .signalingNaN | .bytes _ | .ext .. | .timestamp .. => False

def JsonableItems : List Value → Prop
  | []     => True
  | v :: l => v.Jsonable ∧ JsonableItems l

def JsonableEntries : List (Key × Value) → Prop
  | []           => True
  | (k, v) :: es => (∃ s, k = .str s) ∧ v.Jsonable ∧ JsonableEntries es

end

mutual

-- The value without which object its floats are.
def anonymous : Value → Value
  | .float x _   => .float x 0
  | .decimal x _ => .decimal x 0
  | .list l      => .list (anonymousItems l)
  | .dict es     => .dict (anonymousEntries es)
  | v            => v

def anonymousItems : List Value → List Value
  | []     => []
  | v :: l => v.anonymous :: anonymousItems l

def anonymousEntries : List (Key × Value) → List (Key × Value)
  | []           => []
  | (k, v) :: es => (k, v.anonymous) :: anonymousEntries es

end

end Value

def keyText : Key → Bytes
  | .str s => s.flatMap escape
  | _      => []

mutual

def jsonText : Value → Text
  | .none      => .word <| utf8 "null"
  | .bool b    => .word <| if b then utf8 "true" else utf8 "false"
  | .int i     => .word <| encodeInt i
  | .float x _ => .word <| encodeFloat x
  | .str s     => .string <| s.flatMap escape
  | .list l    => .array (jsonTexts l)
  | .dict es   => .object (jsonEntries es)
  | _          => .word []

def jsonTexts : List Value → List Text
  | []     => []
  | v :: l => jsonText v :: jsonTexts l

def jsonEntries : List (Key × Value) → List (Bytes × Text)
  | []           => []
  | (k, v) :: es => (keyText k, jsonText v) :: jsonEntries es

end

variable {c : UInt8} {s : Bytes} {x : Floating} {v : Value}

theorem encodeString_eq : encodeString s = 34 :: (s.flatMap escape ++ [34]) := by
  rw [encodeString, List.append_assoc]
  rfl

section

variable {k : Bytes} {u : Value} {l : List Value} {e : Key × Value} {es : List (Key × Value)}

theorem dumpsItems_cons : dumpsItems (v :: u :: l) =
    (dumps v).bind fun b => (dumpsItems (u :: l)).map fun bs => b ++ (44 :: 32 :: bs) := by
  rw [dumpsItems]
  · change ((dumps v).bind fun b => (dumpsItems (u :: l)).bind fun bs =>
      some (b ++ [44, 32] ++ bs)) = _
    cases dumps v
    case none   => rfl
    case some b => cases dumpsItems (u :: l) <;> simp
  · nofun

theorem dumpsEntries_singleton : dumpsEntries [(.str k, v)] =
    (dumps v).map fun b => 34 :: (k.flatMap escape ++ (34 :: 58 :: 32 :: b)) := by
  rw [dumpsEntries]
  change ((dumps v).bind fun b => some (encodeString k ++ [58, 32] ++ b)) = _
  rw [encodeString_eq]
  cases dumps v <;> simp

theorem dumpsEntries_cons : dumpsEntries ((.str k, v) :: e :: es) =
    (dumps v).bind fun b => (dumpsEntries (e :: es)).map fun bs =>
      34 :: (k.flatMap escape ++ (34 :: 58 :: 32 :: (b ++ (44 :: 32 :: bs)))) := by
  rw [dumpsEntries]
  · change ((dumps v).bind fun b => (dumpsEntries (e :: es)).bind fun bs =>
      some (encodeString k ++ [58, 32] ++ b ++ [44, 32] ++ bs)) = _
    rw [encodeString_eq]
    cases dumps v
    case none   => rfl
    case some b => cases dumpsEntries (e :: es) <;> simp
  · nofun

theorem dumpsEntries_of_ne {k : Key} (h : ¬∃ s, k = .str s) :
    dumpsEntries ((k, v) :: es) = none := by
  cases k
  case str s => exact absurd ⟨s, rfl⟩ h
  all_goals rfl

end

mutual

-- Encoding raises an exception or writes the text.
theorem dumps_cases : ∀ v : Value,
    v.Jsonable ∧ dumps v = some (jsonText v).print ∨ ¬v.Jsonable ∧ dumps v = none
  | .none         => .inl ⟨trivial, rfl⟩
  | .bool _       => .inl ⟨trivial, rfl⟩
  | .int _        => .inl ⟨trivial, rfl⟩
  | .float ..     => .inl ⟨trivial, rfl⟩
  | .str _        => .inl ⟨trivial, congrArg some encodeString_eq⟩
  | .decimal ..   => .inr ⟨id, rfl⟩
  | .signalingNaN => .inr ⟨id, rfl⟩
  | .bytes _      => .inr ⟨id, rfl⟩
  | .ext ..       => .inr ⟨id, rfl⟩
  | .timestamp .. => .inr ⟨id, rfl⟩
  | .list l       => by
    rw [dumps]
    rcases dumpsItems_cases l with ⟨h, hd⟩ | ⟨h, hd⟩ <;> rw [hd]
    case inl => exact .inl ⟨h, by rw [jsonText, Text.print]; simp; rfl⟩
    case inr => exact .inr ⟨h, rfl⟩
  | .dict es      => by
    rw [dumps]
    rcases dumpsEntries_cases es with ⟨h, hd⟩ | ⟨h, hd⟩ <;> rw [hd]
    case inl => exact .inl ⟨h, by rw [jsonText, Text.print]; simp; rfl⟩
    case inr => exact .inr ⟨h, rfl⟩

theorem dumpsItems_cases : ∀ l : List Value,
    Value.JsonableItems l ∧ dumpsItems l = some (Text.printItems (jsonTexts l)) ∨
      ¬Value.JsonableItems l ∧ dumpsItems l = none
  | []          => .inl ⟨trivial, rfl⟩
  | [v]         => by
    rw [dumpsItems]
    rcases dumps_cases v with ⟨h, hd⟩ | ⟨h, hd⟩
    case inl => exact .inl ⟨⟨h, trivial⟩, hd⟩
    case inr => exact .inr ⟨fun hv => h hv.left, hd⟩
  | v :: u :: l => by
    rw [dumpsItems_cons]
    rcases dumps_cases v with ⟨h, hd⟩ | ⟨h, hd⟩ <;> rw [hd]
    case inr => exact .inr ⟨fun hv => h hv.left, rfl⟩
    case inl =>
      rcases dumpsItems_cases (u :: l) with ⟨hl, hd⟩ | ⟨hl, hd⟩ <;> rw [hd]
      case inl => exact .inl ⟨⟨h, hl⟩, rfl⟩
      case inr => exact .inr ⟨fun hv => hl hv.right, rfl⟩

theorem dumpsEntries_cases : ∀ es : List (Key × Value),
    Value.JsonableEntries es ∧ dumpsEntries es = some (Text.printMembers (jsonEntries es)) ∨
      ¬Value.JsonableEntries es ∧ dumpsEntries es = none
  | []           => .inl ⟨trivial, rfl⟩
  | (k, v) :: es => by
    by_cases hk : ∃ s, k = .str s
    case neg => exact .inr ⟨fun hv => hk hv.left, dumpsEntries_of_ne hk⟩
    case pos =>
      obtain ⟨s, rfl⟩ := hk
      rcases dumps_cases v with ⟨h, hd⟩ | ⟨h, hd⟩
      case inr =>
        refine .inr ⟨fun hv => h hv.right.left, ?_⟩
        cases es
        case nil  => rw [dumpsEntries_singleton, hd]; rfl
        case cons => rw [dumpsEntries_cons, hd]; rfl
      case inl =>
        rcases dumpsEntries_cases es with ⟨hl, hs⟩ | ⟨hl, hs⟩
        case inl =>
          refine .inl ⟨⟨⟨s, rfl⟩, h, hl⟩, ?_⟩
          cases es
          case nil  => rw [dumpsEntries_singleton, hd]; rfl
          case cons => rw [dumpsEntries_cons, hd, hs]; rfl
        case inr =>
          refine .inr ⟨fun hv => hl hv.right.right, ?_⟩
          cases es
          case nil  => cases hs
          case cons => rw [dumpsEntries_cons, hd, hs]; rfl

end

theorem encodeInt_word (i : ℤ) : IsWord (encodeInt i) ∧ IsBare (encodeInt i) ∧
    Text.readWord (encodeInt i) = some (.number true i) := by
  have h := isWord_int i
  exact ⟨h.left, isBare_minus.append <| isBare_digits fun _ => isDigit_of_mem_text, h.right⟩

theorem special_word {w : Bytes} (hs : ∃ c s, w = c :: s ∧ ¬IsSpace c ∧ c ≠ 34 ∧ c ≠ 91 ∧ c ≠ 93 ∧
    c ≠ 123) (h : ∀ s, scalar (w ++ s) = some (.special w, s)) :
    IsWord w ∧ Text.readWord w = some (.special w) :=
  isWord_of_some hs fun s _ => h s

theorem nan_word : IsWord (utf8 "NaN") ∧ Text.readWord (utf8 "NaN") = some (.special <| utf8 "NaN") :=
  special_word ⟨_, _, rfl, by decide⟩ fun _ => rfl

theorem infinity_word :
    IsWord (utf8 "Infinity") ∧ Text.readWord (utf8 "Infinity") = some (.special <| utf8 "Infinity") :=
  special_word ⟨_, _, rfl, by decide⟩ fun _ => rfl

theorem minusInfinity_word : IsWord (utf8 "-Infinity") ∧
    Text.readWord (utf8 "-Infinity") = some (.special <| utf8 "-Infinity") :=
  special_word ⟨_, _, rfl, by decide⟩ fun _ => rfl

theorem encodeFloat_word (h : x.toDouble = x) : IsWord (encodeFloat x) ∧ IsBare (encodeFloat x) ∧
    ∃ w, Text.readWord (encodeFloat x) = some w ∧ ofJson w = .float x 0 := by
  cases x
  case fin q =>
    obtain ⟨int, frac, e, hn, he, hi, hd⟩ := Floating.repr_fin h
    obtain ⟨hw, hr⟩ := @isWord_numeral (decide (q < 0)) _ _ _ _ _ hn
    rw [← he] at hw hr
    rw [hi] at hr
    refine ⟨hw, ?_, _, hr, ?_⟩
    · change IsBare (Floating.repr (.fin q))
      rw [he]
      exact isBare_numeral hn Floating.isBare_exponentText
    · rw [ofJson, hd]
  case nan =>
    refine ⟨nan_word.left, ?_, _, nan_word.right, rfl⟩
    unfold IsBare
    decide +kernel
  case inf neg =>
    cases neg
    case false =>
      refine ⟨infinity_word.left, ?_, _, infinity_word.right, rfl⟩
      unfold IsBare
      decide +kernel
    case true =>
      refine ⟨minusInfinity_word.left, ?_, _, minusInfinity_word.right, rfl⟩
      unfold IsBare
      decide +kernel

theorem map_fst_anonymousEntries : ∀ {es : List (Key × Value)},
    (Value.anonymousEntries es).map Prod.fst = es.map Prod.fst
  | []      => rfl
  | e :: es => congrArg (e.1 :: ·) (@map_fst_anonymousEntries es)

mutual

theorem jsonText_forall : ∀ {v : Value}, v.Decoded → v.Jsonable →
    (jsonText v).Forall Plain IsEscape
  | .none, _, _     => ⟨isWord_null.left, isBare_null⟩
  | .bool b, _, _   => ⟨isWord_bool.left, isBare_bool b⟩
  | .int i, _, _    => ⟨(encodeInt_word i).left, (encodeInt_word i).right.left⟩
  | .float .., h, _ => ⟨(encodeFloat_word h).left, (encodeFloat_word h).right.left⟩
  | .str s, _, _    => isEscape s
  | .list _, h, hj  => jsonTexts_forall h hj
  | .dict _, h, hj  => jsonEntries_forall h.right hj

theorem jsonTexts_forall : ∀ {l : List Value}, Value.DecodedItems l → Value.JsonableItems l →
    Text.ForallItems Plain IsEscape (jsonTexts l)
  | [], _, _     => trivial
  | _ :: _, h, hj => ⟨jsonText_forall h.left hj.left, jsonTexts_forall h.right hj.right⟩

theorem jsonEntries_forall : ∀ {es : List (Key × Value)}, Value.DecodedEntries es →
    Value.JsonableEntries es → Text.ForallMembers Plain IsEscape (jsonEntries es)
  | [], _, _                => trivial
  | (.str k, _) :: _, h, hj =>
    ⟨isEscape k, jsonText_forall h.left hj.right.left, jsonEntries_forall h.right hj.right.right⟩

end

mutual

-- What is written is read as it was, but for the objects that floats are.
theorem read_jsonText : ∀ {v : Value}, v.Decoded → v.Jsonable →
    ∃ w, (jsonText v).read = some w ∧ ofJson w = v.anonymous
  | .none, _, _     => ⟨.null, isWord_null.right, rfl⟩
  | .bool b, _, _   => ⟨.bool b, isWord_bool.right, rfl⟩
  | .int i, _, _    =>
    ⟨_, (encodeInt_word i).right.right, by rw [ofJson, Int.floor_intCast]; rfl⟩
  | .float .., h, _ => (encodeFloat_word h).right.right
  | .str s, _, _    => ⟨.string s, by rw [jsonText, Text.read, content_escape]; rfl, rfl⟩
  | .list _, h, hj  =>
    have ⟨ws, hr, ho⟩ := read_jsonTexts h hj
    ⟨.array ws, by rw [jsonText, Text.read, hr]; rfl, congrArg Value.list ho⟩
  | .dict es, h, hj => by
    obtain ⟨ws, hr, ho⟩ := read_jsonEntries h.right hj
    refine ⟨.object ws, by rw [jsonText, Text.read, hr]; rfl, ?_⟩
    have hn : ((Value.anonymousEntries es).map Prod.fst).Nodup := by
      rw [map_fst_anonymousEntries]
      exact h.left
    rw [ofJson, ho, dictOf_eq hn]
    rfl

theorem read_jsonTexts : ∀ {l : List Value}, Value.DecodedItems l → Value.JsonableItems l →
    ∃ ws, Text.readItems (jsonTexts l) = some ws ∧ ofJsonItems ws = Value.anonymousItems l
  | [], _, _      => ⟨[], rfl, rfl⟩
  | v :: l, h, hj => by
    obtain ⟨w, hr, ho⟩ := read_jsonText h.left hj.left
    obtain ⟨ws, hs, hp⟩ := read_jsonTexts h.right hj.right
    exact ⟨w :: ws, readItems_cons hr hs, congrArg₂ List.cons ho hp⟩

theorem read_jsonEntries : ∀ {es : List (Key × Value)}, Value.DecodedEntries es →
    Value.JsonableEntries es → ∃ ws, Text.readMembers (jsonEntries es) = some ws ∧
      ofJsonMembers ws = Value.anonymousEntries es
  | [], _, _                 => ⟨[], rfl, rfl⟩
  | (.str k, v) :: es, h, hj => by
    obtain ⟨w, hr, ho⟩ := read_jsonText h.left hj.right.left
    obtain ⟨ws, hs, hp⟩ := read_jsonEntries h.right hj.right.right
    refine ⟨(k, w) :: ws, readMembers_cons content_escape hr hs, ?_⟩
    rw [ofJsonMembers, ho, hp]
    rfl

end

end Python
