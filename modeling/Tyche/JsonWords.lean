import Mathlib.Data.Nat.Digits.Lemmas
import Tyche.JsonBody
import Tyche.Utf8

-- The words that values are written as, and the escapes inside of strings.
namespace JsonText

open Digits

variable {c : UInt8} {s w : Bytes} {v : Value} {neg : Bool} {int frac : Bytes} {b : Bytes}

theorem literal_none {word : String} (h : ∀ d ∈ (utf8 word).head?, c ≠ d)
    (hw : utf8 word ≠ []) : literal word v (c :: s) = none := by
  rw [literal, if_neg]
  intro hp
  cases hu : utf8 word
  case nil       => exact hw hu
  case cons d ds =>
    rw [hu, List.cons_prefix_cons] at hp
    exact h d (by rw [hu]; rfl) hp.left.symm

theorem digits_append (hs : ∀ c ∈ b, IsDigit c) (hn : b ≠ []) (he : Decimal.Ends s) :
    digits (b ++ s) = some (b, s) := by
  rw [digits, Decimal.takeWhile_of_ends hs he, Decimal.dropWhile_of_ends hs he, if_neg hn]

-- What a number is written with: its digits before and after the point and its exponent.
def numeral (neg : Bool) (int frac exp : Bytes) : Bytes :=
  (if neg then [45] else []) ++ (int ++ ((if frac = [] then [] else 46 :: frac) ++ exp))

structure IsExponent (exp : Bytes) (e : Option ℤ) : Prop where
  ends : ∀ s, Delimited s → Decimal.Ends (exp ++ s)
  dot  : ∀ s, Delimited s → (exp ++ s).head? ≠ some 46
  read : ∀ s, Delimited s → exponent (exp ++ s) = some (e, s)

structure IsNumeral (int frac exp : Bytes) (e : Option ℤ) : Prop where
  intDigits  : ∀ c ∈ int, IsDigit c
  intNe      : int ≠ []
  intHead    : int.head? = some 48 → int.length = 1
  fracDigits : ∀ c ∈ frac, IsDigit c
  exp        : IsExponent exp e

def numeralValue (neg : Bool) (int frac : Bytes) (e : Option ℤ) : ℚ :=
  (if neg then -1 else 1) * read (int ++ frac) * 10 ^ (e.getD 0 - frac.length)

theorem isExponent_nil : IsExponent [] none where
  ends s hs c hc := by
    rcases hs c hc with rfl | rfl | rfl | rfl | rfl | rfl | rfl <;> decide
  dot s hs hc := absurd (hs 46 hc) <| by decide
  read s hs := by
    cases s
    case nil      => rfl
    case cons c s =>
      rw [List.nil_append, exponent, if_neg]
      rcases hs c rfl with rfl | rfl | rfl | rfl | rfl | rfl | rfl <;> decide

theorem isExponent_cons {neg : Bool} (hb : ∀ c ∈ b, IsDigit c) (hn : b ≠ []) :
    IsExponent (101 :: (if neg then 45 else 43) :: b) (some <| if neg then -read b else read b) where
  ends s hs := by
    rintro c ⟨⟩
    decide
  dot s hs := nofun
  read s hs := by
    have hd : digits (b ++ s) = some (b, s) := digits_append hb hn (isExponent_nil.ends s hs)
    rw [List.cons_append, exponent, if_pos (.inl rfl)]
    cases neg
    all_goals
      change ((digits (b ++ s)).bind _) = _
      rw [hd]
      rfl

theorem digits_int {exp : Bytes} {e : Option ℤ} (h : IsNumeral int frac exp e) (hs : Delimited s) :
    digits (int ++ ((if frac = [] then [] else 46 :: frac) ++ exp) ++ s) =
      some (int, (if frac = [] then [] else 46 :: frac) ++ (exp ++ s)) := by
  rw [List.append_assoc, List.append_assoc, digits_append h.intDigits h.intNe]
  split
  case isTrue  => exact h.exp.ends s hs
  case isFalse =>
    rintro c ⟨⟩
    decide

theorem fraction_frac {exp : Bytes} {e : Option ℤ} (h : IsNumeral int frac exp e)
    (hs : Delimited s) : fraction ((if frac = [] then [] else 46 :: frac) ++ (exp ++ s)) =
      some (frac, exp ++ s) := by
  split
  case isTrue hf  =>
    rw [List.nil_append, fraction.eq_def, hf]
    split
    case h_1 he => exact absurd (by rw [he]; rfl) (h.exp.dot s hs)
    case h_2    => rfl
  case isFalse hf => exact digits_append h.fracDigits hf (h.exp.ends s hs)

theorem numeral_start {exp : Bytes} {e : Option ℤ} (h : IsNumeral int frac exp e) :
    ∃ c s, numeral neg int frac exp = c :: s ∧ (c = 45 ∨ IsDigit c) := by
  cases neg
  case true  => exact ⟨45, _, rfl, .inl rfl⟩
  case false =>
    obtain ⟨c, t, rfl⟩ := List.exists_cons_of_ne_nil h.intNe
    exact ⟨c, _, rfl, .inr <| h.intDigits c (.head _)⟩

theorem minus_numeral {exp : Bytes} {e : Option ℤ} (h : IsNumeral int frac exp e) :
    minus (numeral neg int frac exp ++ s) =
      (neg, int ++ ((if frac = [] then [] else 46 :: frac) ++ exp) ++ s) := by
  cases neg
  case true  => rfl
  case false =>
    obtain ⟨c, t, rfl⟩ := List.exists_cons_of_ne_nil h.intNe
    have hc : c ≠ 45 := by
      rintro rfl
      exact absurd (h.intDigits 45 (.head _)) (by decide)
    change minus (c :: _) = (false, c :: _)
    rw [minus.eq_def]
    split
    case h_1 he => cases he; exact absurd rfl hc
    case h_2    => rfl

theorem number_numeral {exp : Bytes} {e : Option ℤ} (h : IsNumeral int frac exp e)
    (hs : Delimited s) : number (numeral neg int frac exp ++ s) =
      some (.number (frac.isEmpty && e.isNone) (numeralValue neg int frac e), s) := by
  rw [number, minus_numeral h]
  change ((digits _).bind _) = _
  rw [digits_int h hs]
  change ((fraction _).bind _) = _
  rw [fraction_frac h hs]
  change ((exponent _).bind _) = _
  rw [h.exp.read s hs]
  change (if int.head? = some 48 ∧ int.length ≠ 1 then none else _) = _
  rw [if_neg fun hi => hi.right <| h.intHead hi.left]
  rfl

theorem head?_text {m : ℕ} (hm : m ≠ 0) : (text m).head? ≠ some 48 := by
  have hn : Nat.digits 10 m ≠ [] := Nat.digits_ne_nil_iff_ne_zero.mpr hm
  rw [text, if_neg hm, List.head?_map, List.head?_reverse, List.getLast?_eq_some_getLast hn,
    Option.map_some, ne_eq, Option.some.injEq]
  intro hc
  have hd : (Nat.digits 10 m).getLast hn < 10 :=
    Nat.digits_lt_base (by norm_num) (List.getLast_mem hn)
  have hv := congrArg UInt8.toNat hc
  rw [toNat_char hd] at hv
  exact Nat.getLast_digit_ne_zero 10 hm (by simpa using hv)

-- No words but those inside of strings have quotation marks or are on more than one line.
def IsBare (w : Bytes) : Prop :=
  ∀ c ∈ w, 34 < c ∧ c < 128

theorem IsBare.validUtf8 (h : IsBare w) : ValidUtf8 w :=
  .ascii fun c hc => (h c hc).right

theorem IsBare.append {w' : Bytes} (h : IsBare w) (h' : IsBare w') : IsBare (w ++ w') := by
  intro c hc
  rcases List.mem_append.mp hc with hc | hc
  case inl => exact h c hc
  case inr => exact h' c hc

theorem IsBare.cons (hc : 34 < c ∧ c < 128) (h : IsBare w) : IsBare (c :: w) :=
  List.forall_mem_cons.mpr ⟨hc, h⟩

theorem isBare_digits (h : ∀ c ∈ w, IsDigit c) : IsBare w := by
  intro c hc
  exact ⟨UInt8.lt_of_lt_of_le (by decide) (h c hc).left,
    UInt8.lt_of_le_of_lt (h c hc).right (by decide)⟩

theorem isBare_minus {p : Prop} [Decidable p] : IsBare (if p then [45] else []) := by
  split
  case isTrue  => exact .cons (by decide) nofun
  case isFalse => nofun

theorem isBare_numeral {exp : Bytes} {e : Option ℤ} (h : IsNumeral int frac exp e)
    (he : IsBare exp) : IsBare (numeral neg int frac exp) := by
  refine isBare_minus.append <| (isBare_digits h.intDigits).append <| .append ?_ he
  split
  case isTrue  => nofun
  case isFalse => exact .cons (by decide) <| isBare_digits h.fracDigits

theorem isBare_null : IsBare (utf8 "null") := by
  unfold IsBare
  decide +kernel

theorem isBare_bool : ∀ b : Bool, IsBare (if b then utf8 "true" else utf8 "false") := by
  unfold IsBare
  decide +kernel

-- An integer has no fraction.
theorem isNumeral_text {n : ℕ} : IsNumeral (text n) [] [] none where
  intDigits _ := isDigit_of_mem_text
  intNe := text_ne_nil
  intHead h := by
    by_cases hn : n = 0
    case pos => rw [hn]; rfl
    case neg => exact absurd h <| head?_text hn
  fracDigits := nofun
  exp := isExponent_nil

section

variable [Dialect]

theorem isWord_of_some (hw : ∃ c s, w = c :: s ∧ ¬IsSpace c ∧ c ≠ 34 ∧ c ≠ 91 ∧ c ≠ 93 ∧ c ≠ 123)
    (h : ∀ s, Delimited s → scalar (w ++ s) = some (v, s)) :
    IsWord w ∧ Text.readWord w = some v := by
  have hr : Text.readWord w = some v := by
    have h0 := h [] nofun
    rw [List.append_nil] at h0
    rw [Text.readWord, h0]
  exact ⟨⟨hw, fun s hs => by rw [h s hs, hr]; rfl⟩, hr⟩

theorem isWord_of_none (hw : ∃ c s, w = c :: s ∧ ¬IsSpace c ∧ c ≠ 34 ∧ c ≠ 91 ∧ c ≠ 93 ∧ c ≠ 123)
    (h : ∀ s, scalar (w ++ s) = none) : IsWord w ∧ Text.readWord w = none := by
  have hr : Text.readWord w = none := by
    have h0 := h []
    rw [List.append_nil] at h0
    rw [Text.readWord, h0]
  exact ⟨⟨hw, fun s _ => by rw [h s, hr]; rfl⟩, hr⟩

theorem isWord_null : IsWord (utf8 "null") ∧ Text.readWord (utf8 "null") = some .null :=
  isWord_of_some ⟨_, _, rfl, by decide⟩ fun _ _ => rfl

theorem isWord_bool {b : Bool} : IsWord (if b then utf8 "true" else utf8 "false") ∧
    Text.readWord (if b then utf8 "true" else utf8 "false") = some (.bool b) := by
  cases b <;> exact isWord_of_some ⟨_, _, rfl, by decide⟩ fun _ _ => rfl

theorem scalar_number (h : c = 45 ∨ IsDigit c) :
    scalar (c :: s) = (number (c :: s)).or (special (c :: s)) := by
  have hc : c ≠ 110 ∧ c ≠ 116 ∧ c ≠ 102 := by
    refine ⟨?_, ?_, ?_⟩ <;> rintro rfl <;> exact absurd h (by decide)
  rw [scalar, literal_none _ (by decide), literal_none _ (by decide), literal_none _ (by decide)]
  · rfl
  · rintro d ⟨⟩
    exact hc.2.2
  · rintro d ⟨⟩
    exact hc.2.1
  · rintro d ⟨⟩
    exact hc.1

theorem isWord_numeral {exp : Bytes} {e : Option ℤ} (h : IsNumeral int frac exp e) :
    IsWord (numeral neg int frac exp) ∧ Text.readWord (numeral neg int frac exp) =
      some (.number (frac.isEmpty && e.isNone) (numeralValue neg int frac e)) := by
  obtain ⟨c, t, he, hc⟩ := @numeral_start neg int frac exp e h
  refine isWord_of_some ⟨c, t, he, ?_⟩ fun s hs => ?_
  case refine_1 =>
    refine ⟨?_, ?_, ?_, ?_, ?_⟩
    case refine_1 =>
      rintro (rfl | rfl | rfl | rfl) <;> exact absurd hc (by decide)
    all_goals
      rintro rfl
      exact absurd hc (by decide)
  case refine_2 =>
    have hn := @number_numeral s neg int frac exp e h hs
    rw [he, List.cons_append] at hn ⊢
    rw [scalar_number hc, hn, Option.some_or]

theorem isWord_int (i : ℤ) : IsWord ((if i < 0 then [45] else []) ++ text i.natAbs) ∧
    Text.readWord ((if i < 0 then [45] else []) ++ text i.natAbs) = some (.number true i) := by
  have h := @isWord_numeral (i < 0) _ _ _ _ _ (isNumeral_text (n := i.natAbs))
  have hv : numeralValue (i < 0) (text i.natAbs) [] none = i := by
    rw [numeralValue, List.append_nil, read_text, ← Int.cast_natCast (R := ℚ) i.natAbs,
      Option.getD_none, List.length_nil, Nat.cast_zero, sub_zero, zpow_zero, mul_one]
    by_cases hi : i < 0
    case pos =>
      have ha : (i.natAbs : ℤ) = -i := by omega
      rw [if_pos (by simpa using hi), ha, Int.cast_neg, neg_mul_neg, one_mul]
    case neg =>
      have ha : (i.natAbs : ℤ) = i := by omega
      rw [if_neg (by simpa using hi), ha, one_mul]
  rw [hv] at h
  simpa [numeral] using h

end

def hexChar (n : ℕ) : UInt8 :=
  if n < 10 then .ofNat (48 + n) else .ofNat (87 + n)

-- The usual way to write a byte inside of a string.
def escape (c : UInt8) : Bytes :=
  if c = 34 then [92, 34]
  else if c = 92 then [92, 92]
  else if c = 10 then [92, 110]
  else if c = 13 then [92, 114]
  else if c = 9 then [92, 116]
  else if c = 8 then [92, 98]
  else if c = 12 then [92, 102]
  else if c < 32 then [92, 117, 48, 48, hexChar (c.toNat / 16), hexChar (c.toNat % 16)]
  else [c]

inductive Escaped (c : UInt8) : Bytes → Prop
  | plain : 32 ≤ c → c ≠ 34 → c ≠ 92 → Escaped c [c]
  | short (d : UInt8) : d ≠ 117 → escaped d = some c → Escaped c [92, d]
  | hex (d e : UInt8) : c < 32 → hexDigit d = some (c.toNat / 16) →
      hexDigit e = some (c.toNat % 16) → Escaped c [92, 117, 48, 48, d, e]

theorem hexDigit_hexChar : ∀ n < 16, hexDigit (hexChar n) = some n := by
  decide

theorem escape_cases : Escaped c (escape c) := by
  unfold escape
  split_ifs with h₁ h₂ h₃ h₄ h₅ h₆ h₇ h₈
  case pos => rw [h₁]; exact .short _ (by decide) rfl
  case pos => rw [h₂]; exact .short _ (by decide) rfl
  case pos => rw [h₃]; exact .short _ (by decide) rfl
  case pos => rw [h₄]; exact .short _ (by decide) rfl
  case pos => rw [h₅]; exact .short _ (by decide) rfl
  case pos => rw [h₆]; exact .short _ (by decide) rfl
  case pos => rw [h₇]; exact .short _ (by decide) rfl
  case pos =>
    have hc : c.toNat < 256 := c.toNat_lt
    exact .hex _ _ h₈ (hexDigit_hexChar _ (by omega)) (hexDigit_hexChar _ (by omega))
  case neg => exact .plain (UInt8.not_lt.mp h₈) h₁ h₂

theorem isChar_escape : IsChar (escape c) := by
  have he : Escaped c (escape c) := escape_cases
  generalize escape c = e at he ⊢
  cases he
  case plain h h₁ h₂ => exact .unescaped h h₁ h₂
  case short d _ hd  => exact .escaped (mem_escapes hd)
  case hex hd he     => exact .hex rfl rfl hd he

theorem isBody_escape : IsBody (b.flatMap escape) :=
  ⟨b.map escape, List.forall_mem_map.mpr fun _ _ => isChar_escape, List.flatMap_def.symm⟩

theorem isRaw_escape : IsRaw (b.flatMap escape) :=
  isBody_escape.isRaw

theorem unescape_plain (h : 32 ≤ c) (h₁ : c ≠ 34) (h₂ : c ≠ 92) :
    unescape (c :: s) = (unescape s).map (.byte c :: ·) := by
  rw [unescape.eq_def]
  split
  case h_1 he => cases he
  case h_2 he => cases he; exact absurd rfl h₂
  case h_3 he => cases he; exact absurd rfl h₂
  case h_4 he =>
    cases he
    rw [if_neg]
    rintro (hc | hc | hc)
    case inl     => exact absurd h (UInt8.not_le.mpr hc)
    case inr.inl => exact h₁ hc
    case inr.inr => exact h₂ hc

theorem unescape_short {d : UInt8} (hd : d ≠ 117) (he : escaped d = some c) :
    unescape (92 :: d :: s) = (unescape s).map (.byte c :: ·) := by
  rw [unescape.eq_def]
  split
  case h_1 h => cases h
  case h_2 h => cases h; exact absurd rfl hd
  case h_3 h =>
    cases h
    rw [he]
    cases unescape s <;> rfl
  case h_4 h he => cases he; exact (h d s rfl rfl).elim

theorem unescape_hex {d e : UInt8} (hd : hexDigit d = some (c.toNat / 16))
    (he : hexDigit e = some (c.toNat % 16)) :
    unescape (92 :: 117 :: 48 :: 48 :: d :: e :: s) =
      (unescape s).map (.utf16 c.toNat :: ·) := by
  have hc : 4096 * 0 + 256 * 0 + 16 * (c.toNat / 16) + c.toNat % 16 = c.toNat := by omega
  rw [unescape, hd, he]
  change ((unescape s).bind fun us =>
    some (.utf16 (4096 * 0 + 256 * 0 + 16 * (c.toNat / 16) + c.toNat % 16) :: us)) = _
  rw [hc]
  cases unescape s <;> rfl

-- What is no surrogate stands for itself.
theorem assemble_utf16 (hc : c < 32) {us : List CodeUnit} :
    assemble (.utf16 c.toNat :: us) = c :: assemble us := by
  have h : c.toNat < 32 := UInt8.lt_iff_toNat_lt.mp hc
  have hu : utf8Code c.toNat = [c] := by
    rw [utf8Code, if_pos (by omega), UInt8.ofNat_toNat]
  rw [assemble.eq_def]
  split
  case h_1 he => cases he
  case h_2 he => cases he
  case h_3 he =>
    cases he
    rw [if_neg fun hp => by have := hp.left; omega, hu]
    rfl
  case h_4 he => cases he; rw [hu]; rfl

theorem unescape_escape : ∃ u, (∀ s, unescape (escape c ++ s) = (unescape s).map (u :: ·)) ∧
    ∀ us, assemble (u :: us) = c :: assemble us := by
  have he : Escaped c (escape c) := escape_cases
  generalize escape c = e at he ⊢
  cases he
  case plain h h₁ h₂   => exact ⟨.byte c, fun _ => unescape_plain h h₁ h₂, fun _ => rfl⟩
  case short d hd he   => exact ⟨.byte c, fun _ => unescape_short hd he, fun _ => rfl⟩
  case hex d e hc hd he =>
    exact ⟨.utf16 c.toNat, fun _ => unescape_hex hd he, fun _ => assemble_utf16 hc⟩

theorem content_escape : content (b.flatMap escape) = some b := by
  have h : ∃ us, unescape (b.flatMap escape) = some us ∧ assemble us = b := by
    induction b
    case nil         => exact ⟨[], rfl, rfl⟩
    case cons c b hi =>
      obtain ⟨us, hu, ha⟩ := hi
      obtain ⟨u, hs, hc⟩ := @unescape_escape c
      exact ⟨u :: us, by rw [List.flatMap_cons, hs, hu]; rfl, by rw [hc, ha]⟩
  obtain ⟨us, hu, ha⟩ := h
  rw [content, hu, Option.map_some, ha]

theorem IsBare.visible (h : IsBare w) : Visible w :=
  fun c hc => UInt8.le_trans (by decide) (UInt8.le_of_lt (h c hc).left)

-- What stands inside of the strings of a text.
def IsEscape (r : Bytes) : Prop :=
  ∃ s : Bytes, r = s.flatMap escape

theorem isEscape (s : Bytes) : IsEscape (s.flatMap escape) :=
  ⟨s, rfl⟩

theorem IsEscape.isRaw {r : Bytes} : IsEscape r → IsRaw r := by
  rintro ⟨s, rfl⟩
  exact isRaw_escape

theorem IsEscape.visible {r : Bytes} : IsEscape r → Visible r := by
  rintro ⟨s, rfl⟩
  exact isBody_escape.visible

theorem escape_ascii (h : c < 128) : ∀ x ∈ escape c, x < 128 := by
  have he : Escaped c (escape c) := escape_cases
  generalize escape c = e at he ⊢
  cases he
  case plain          => simpa using h
  case short d _ hd   => simpa using (escapes_range _ <| mem_escapes hd).right.left
  case hex d e _ hd he => simpa using ⟨(hexDigit_range hd).right, (hexDigit_range he).right⟩

theorem escape_of_le (h : 128 ≤ c) : escape c = [c] := by
  have he : Escaped c (escape c) := escape_cases
  generalize escape c = e at he ⊢
  cases he
  case plain            => rfl
  case short d _ hd     =>
    unfold escaped at hd
    split_ifs at hd
    case pos hd' =>
      cases hd
      rcases hd' with rfl | rfl | rfl <;> exact absurd h (by decide)
    all_goals
      cases hd
      exact absurd h (by decide)
  case hex _ _ hc _ _ => exact absurd (UInt8.lt_of_le_of_lt h hc) (by decide)

theorem validUtf8_escape (h : ValidUtf8 b) : ValidUtf8 (b.flatMap escape) := by
  obtain ⟨cs, rfl⟩ := h
  induction cs
  case nil          => exact .nil
  case cons d cs hi =>
    rw [List.flatMap_cons, List.flatMap_append]
    refine .append ?_ hi
    by_cases hd : d.toNat < 128
    case pos =>
      rw [ValidUtf8.encodeChar_ascii hd, List.flatMap_singleton]
      refine .ascii <| escape_ascii ?_
      rw [UInt8.lt_iff_toNat_lt, UInt8.toNat_ofNat', Nat.mod_eq_of_lt (by omega)]
      exact hd
    case neg =>
      have he : (String.utf8EncodeChar d).flatMap escape = String.utf8EncodeChar d := by
        have hf := ValidUtf8.le_encodeChar (Nat.not_lt.mp hd)
        generalize String.utf8EncodeChar d = b at hf
        induction b
        case nil          => rfl
        case cons x b hb =>
          rw [List.forall_mem_cons] at hf
          rw [List.flatMap_cons, escape_of_le hf.left, hb hf.right, List.singleton_append]
      rw [he]
      exact .char

theorem escape_cons : ∃ x e, escape c = x :: e := by
  have he : Escaped c (escape c) := escape_cases
  generalize escape c = e at he ⊢
  cases he <;> exact ⟨_, _, rfl⟩

-- What stands between bytes that are escaped or in ASCII is not changed.
theorem validUtf8_of_escape {p : Bytes} (hp : ∀ x ∈ p, 128 ≤ x)
    (h : ValidUtf8 (p ++ b.flatMap escape)) : ValidUtf8 (p ++ b) := by
  induction b generalizing p
  case nil         => exact h
  case cons c b hi =>
    rw [List.flatMap_cons] at h
    by_cases hc : c < 128
    case neg =>
      rw [UInt8.not_lt] at hc
      rw [escape_of_le hc, ← List.append_assoc] at h
      have hq : ∀ x ∈ p ++ [c], 128 ≤ x := by
        intro x hx
        rcases List.mem_append.mp hx with hx | hx
        case inl => exact hp x hx
        case inr => rwa [List.mem_singleton.mp hx]
      have hv := hi hq h
      rwa [List.append_assoc, List.singleton_append] at hv
    case pos =>
      have ha := escape_ascii hc
      obtain ⟨x, e, he⟩ := escape_cons (c := c)
      rw [he] at ha h
      have hs := h.split <| by rintro y ⟨⟩; exact ha x (.head _)
      have hr := ValidUtf8.of_ascii ha hs.right
      have hb := hi (p := []) nofun hr
      exact hs.left.append <| .append (ValidUtf8.ascii (b := [c]) <| by simpa using hc) hb

theorem validUtf8_escape_iff : ValidUtf8 (b.flatMap escape) ↔ ValidUtf8 b :=
  ⟨validUtf8_of_escape (p := []) nofun, validUtf8_escape⟩

theorem ascii_punctuation : ∀ c ∈ punctuation, c < 128 := by
  decide +kernel

theorem compositional_validUtf8 : Compositional ValidUtf8 where
  nil      := .nil
  append   := .append
  char c h := .ascii <| by simpa using ascii_punctuation c h

theorem separable_validUtf8 : Separable ValidUtf8 := by
  intro s t c hc h
  have hs := h.split <| by rintro x ⟨⟩; exact ascii_punctuation c hc
  exact ⟨hs.left, hs.right.tail <| ascii_punctuation c hc⟩

theorem compositional_visible : Compositional Visible where
  nil          := nofun
  append hs ht := fun c hc => (List.mem_append.mp hc).elim (hs c) (ht c)
  char         := by
    unfold Visible
    decide +kernel

section

variable [Dialect] {t : Text}

-- A word that neither looks like a string nor is on more than one line.
def Plain (w : Bytes) : Prop :=
  IsWord w ∧ IsBare w

theorem lexed_of_plain (h : t.Forall Plain IsEscape) : Lexed t :=
  h.imp And.left IsEscape.isRaw

theorem visible_of_plain (h : t.Forall Plain IsEscape) : Visible t.print :=
  print_forall compositional_visible <| h.imp (fun hw => hw.right.visible) IsEscape.visible

end

end JsonText
