import Mathlib.Data.Nat.Digits.Defs
import Tyche.Floating
import Tyche.Bytes

-- The texts of natural numbers.
namespace Digits

def IsDigit (c : UInt8) : Prop :=
  48 ≤ c ∧ c ≤ 57

instance : DecidablePred IsDigit :=
  fun _ => inferInstanceAs <| Decidable (_ ∧ _)

def char (n : ℕ) : UInt8 :=
  .ofNat <| 48 + n

def text (n : ℕ) : Bytes :=
  if n = 0 then [48] else (Nat.digits 10 n).reverse.map char

def read (s : Bytes) : ℕ :=
  s.foldl (fun n c => 10 * n + (c.toNat - 48)) 0

variable {n : ℕ} {c : UInt8} {s t : Bytes} {l : List ℕ}

theorem toNat_char (h : n < 10) : (char n).toNat = 48 + n := by
  rw [char, UInt8.toNat_ofNat']
  omega

theorem isDigit_char (h : n < 10) : IsDigit (char n) := by
  have hc := toNat_char h
  unfold IsDigit
  rw [UInt8.le_iff_toNat_le, UInt8.le_iff_toNat_le, hc]
  change 48 ≤ 48 + n ∧ 48 + n ≤ 57
  omega

theorem text_ne_nil : text n ≠ [] := by
  unfold text
  split
  case isTrue    => simp
  case isFalse h => simpa using Nat.digits_ne_nil_iff_ne_zero.mpr h

theorem take_text_ne_nil {k : ℕ} (h : 0 < k) : (text n).take k ≠ [] := by
  rw [ne_eq, List.take_eq_nil_iff]
  rintro (hk | ht)
  case inl => omega
  case inr => exact text_ne_nil ht

theorem isDigit_of_mem_text (h : c ∈ text n) : IsDigit c := by
  unfold text at h
  split at h
  case isTrue =>
    cases List.mem_singleton.mp h
    decide
  case isFalse =>
    obtain ⟨d, hd, rfl⟩ := List.mem_map.mp h
    exact isDigit_char <| Nat.digits_lt_base (by decide) <| List.mem_reverse.mp hd

theorem read_append : read (s ++ t) = read s * 10 ^ t.length + read t := by
  have h (a : ℕ) : t.foldl (fun n c => 10 * n + (c.toNat - 48)) a = a * 10 ^ t.length + read t := by
    unfold read
    induction t generalizing a
    case nil         => simp
    case cons c t hi =>
      rw [List.foldl_cons, List.foldl_cons, hi, hi (10 * 0 + (c.toNat - 48)), List.length_cons]
      ring
  rw [read, List.foldl_append, h]
  rfl

theorem read_replicate : read (.replicate n 48 ++ s) = read s := by
  have h : read (.replicate n 48) = 0 := by
    induction n
    case zero      => rfl
    case succ n hi => rw [List.replicate_succ', read_append, hi]; rfl
  rw [read_append, h, Nat.zero_mul, Nat.zero_add]

theorem read_map_char (h : ∀ d ∈ l, d < 10) :
    read (l.reverse.map char) = Nat.ofDigits 10 l := by
  induction l
  case nil         => rfl
  case cons d l hi =>
    have hd : read [char d] = d := by
      have hc := toNat_char <| h d List.mem_cons_self
      simp [read, hc]
    rw [List.reverse_cons, List.map_append, read_append, List.map_singleton, hd,
      hi fun e he => h e <| List.mem_cons_of_mem d he, Nat.ofDigits_cons, List.length_singleton]
    ring

theorem read_text : read (text n) = n := by
  unfold text
  split
  case isTrue h  => rw [h]; rfl
  case isFalse   =>
    rw [read_map_char fun d hd => Nat.digits_lt_base (by decide) hd, Nat.ofDigits_digits]

end Digits

-- A finite decimal number, with the digits that it is written with.
structure Decimal where
  negative    : Bool
  coefficient : ℕ
  exponent    : ℤ
deriving DecidableEq

namespace Decimal

open Digits

def value (d : Decimal) : ℚ :=
  (if d.negative then -1 else 1) * d.coefficient * 10 ^ d.exponent

-- The format `%+d`.
def signed (i : ℤ) : Bytes :=
  (if i < 0 then 45 else 43) :: text i.natAbs

-- The number of digits to the left of the decimal point.
def leftDigits (d : Decimal) : ℤ :=
  d.exponent + (text d.coefficient).length

def dotPlace (d : Decimal) : ℤ :=
  if d.exponent ≤ 0 ∧ -6 < d.leftDigits then d.leftDigits else 1

def intPart (d : Decimal) : Bytes :=
  let digits := text d.coefficient
  if d.dotPlace ≤ 0 then [48]
  else if digits.length ≤ d.dotPlace then
    digits ++ .replicate (d.dotPlace - digits.length).toNat 48
  else digits.take d.dotPlace.toNat

def fracPart (d : Decimal) : Bytes :=
  let digits := text d.coefficient
  if d.dotPlace ≤ 0 then 46 :: (.replicate (-d.dotPlace).toNat 48 ++ digits)
  else if digits.length ≤ d.dotPlace then []
  else 46 :: digits.drop d.dotPlace.toNat

def expPart (d : Decimal) : Bytes :=
  if d.leftDigits = d.dotPlace then [] else 69 :: signed (d.leftDigits - d.dotPlace)

-- Python's `str`.
def str (d : Decimal) : Bytes :=
  (if d.negative then [45] else []) ++ d.intPart ++ d.fracPart ++ d.expPart

def readSign : Bytes → Bool × Bytes
  | 43 :: s => (false, s)
  | 45 :: s => (true, s)
  | s       => (false, s)

def readExponent : Bytes → Option ℤ
  | []     => some 0
  | c :: s =>
    let (neg, t) := readSign s
    if (c = 69 ∨ c = 101) ∧ t ≠ [] ∧ t.all IsDigit then
      some <| if neg then -read t else read t
    else none

def readFrac : Bytes → Bytes × Bytes
  | 46 :: s => (s.takeWhile IsDigit, s.dropWhile IsDigit)
  | s       => ([], s)

def readFinite (neg : Bool) (s : Bytes) : Option Decimal :=
  let int := s.takeWhile IsDigit
  let (frac, t) := readFrac <| s.dropWhile IsDigit
  if int ++ frac = [] then none
  else (readExponent t).map fun e => ⟨neg, read (int ++ frac), e - frac.length⟩

-- What Python's `Decimal` makes of a text.
inductive Reading
  | finite (d : Decimal)
  | infinity (negative : Bool)
  | nan
  | signalingNaN
deriving DecidableEq

def IsSpace (c : UInt8) : Prop :=
  9 ≤ c ∧ c ≤ 13 ∨ 28 ≤ c ∧ c ≤ 32

instance : DecidablePred IsSpace :=
  fun _ => inferInstanceAs <| Decidable (_ ∨ _)

def strip (s : Bytes) : Bytes :=
  ((s.dropWhile IsSpace).reverse.dropWhile IsSpace).reverse

def lower (c : UInt8) : UInt8 :=
  if 65 ≤ c ∧ c ≤ 90 then c + 32 else c

def readSpecial (neg : Bool) (s : Bytes) : Option Reading :=
  let s := s.map lower
  if s = utf8 "inf" ∨ s = utf8 "infinity" then some <| .infinity neg
  else if utf8 "nan" <+: s ∧ (s.drop 3).all IsDigit then some .nan
  else if utf8 "snan" <+: s ∧ (s.drop 4).all IsDigit then some .signalingNaN
  else none

def ofText (s : Bytes) : Option Reading :=
  let (neg, t) := readSign <| (strip s).filter (· ≠ 95)
  match readFinite neg t with
  | some d => some <| .finite d
  | none   => readSpecial neg t

variable {d : Decimal} {neg : Bool} {int frac s t : Bytes} {i : ℤ} {c : UInt8}

theorem readExponent_signed : readExponent (69 :: signed i) = some i := by
  have hs : readSign (signed i) = (decide (i < 0), text i.natAbs) := by
    unfold signed
    by_cases h : i < 0 <;> simp [h, readSign]
  have ht : (text i.natAbs).all IsDigit := by
    simp only [List.all_eq_true, decide_eq_true_eq]
    exact fun _ => isDigit_of_mem_text
  rw [readExponent, hs]
  simp only [true_or, ne_eq, text_ne_nil, not_false_eq_true, true_and, decide_eq_true_eq, read_text]
  rw [if_pos ht]
  split <;> rw [Option.some.injEq] <;> omega

theorem readExponent_expPart : readExponent d.expPart = some (d.leftDigits - d.dotPlace) := by
  unfold expPart
  split
  case isTrue h  => rw [h, Int.sub_self]; rfl
  case isFalse h => exact readExponent_signed

-- A run of digits ends before any other character.
def Ends (t : Bytes) : Prop :=
  ∀ c ∈ t.head?, ¬IsDigit c

theorem takeWhile_of_ends (hs : ∀ c ∈ s, IsDigit c) (ht : Ends t) :
    (s ++ t).takeWhile IsDigit = s := by
  rw [List.takeWhile_append_of_pos (by simpa using hs)]
  cases t
  case nil      => simp
  case cons c t => simp [ht c rfl]

theorem dropWhile_of_ends (hs : ∀ c ∈ s, IsDigit c) (ht : Ends t) :
    (s ++ t).dropWhile IsDigit = t := by
  rw [List.dropWhile_append_of_pos (by simpa using hs)]
  cases t
  case nil      => simp
  case cons c t => simp [ht c rfl]

theorem readFrac_of_ne (h : t.head? ≠ some 46) : readFrac t = ([], t) := by
  unfold readFrac
  split
  case h_1 => simp at h
  case h_2 => rfl

theorem readFinite_int (hi : ∀ c ∈ int, IsDigit c) (hn : int ≠ []) (ht : Ends t)
    (hp : t.head? ≠ some 46) :
    readFinite neg (int ++ t) = (readExponent t).map fun e => ⟨neg, read int, e⟩ := by
  unfold readFinite
  rw [takeWhile_of_ends hi ht, dropWhile_of_ends hi ht, readFrac_of_ne hp]
  simp [hn]

theorem readFinite_frac (hi : ∀ c ∈ int, IsDigit c) (hf : ∀ c ∈ frac, IsDigit c) (hn : int ≠ [])
    (ht : Ends t) : readFinite neg (int ++ (46 :: frac ++ t)) =
      (readExponent t).map fun e => ⟨neg, read (int ++ frac), e - frac.length⟩ := by
  have he : Ends (46 :: frac ++ t) := by
    rintro c ⟨⟩
    decide
  unfold readFinite
  rw [takeWhile_of_ends hi he, dropWhile_of_ends hi he]
  simp [readFrac, takeWhile_of_ends hf ht, dropWhile_of_ends hf ht, hn]

theorem ends_expPart : Ends d.expPart := by
  unfold expPart
  split
  case isTrue  => nofun
  case isFalse =>
    rintro c ⟨⟩
    decide

theorem head?_expPart : d.expPart.head? ≠ some 46 := by
  unfold expPart
  split
  case isTrue  => nofun
  case isFalse => simp

theorem dotPlace_of_le (h : (text d.coefficient).length ≤ d.dotPlace) :
    d.dotPlace = (text d.coefficient).length := by
  have hl : 0 < (text d.coefficient).length := List.length_pos_of_ne_nil text_ne_nil
  unfold dotPlace leftDigits at h ⊢
  split at h <;> split <;> omega

-- The text before the exponent has the digits of the coefficient, with zeros in front of them.
theorem readFinite_parts : readFinite neg (d.intPart ++ (d.fracPart ++ d.expPart)) =
    some ⟨neg, d.coefficient, d.exponent⟩ := by
  have hd : ∀ c ∈ text d.coefficient, IsDigit c := fun _ => isDigit_of_mem_text
  have hl : 0 < (text d.coefficient).length := List.length_pos_of_ne_nil text_ne_nil
  have hx : d.leftDigits = d.exponent + (text d.coefficient).length := rfl
  unfold intPart fracPart
  by_cases h0 : d.dotPlace ≤ 0
  case pos =>
    rw [if_pos h0, if_pos h0, readFinite_frac _ _ _ ends_expPart, readExponent_expPart]
    · rw [List.singleton_append, ← List.cons_append, ← List.replicate_succ, read_replicate,
        read_text, Option.map_some, Option.some.injEq, Decimal.mk.injEq, List.length_append,
        List.length_replicate]
      exact ⟨rfl, rfl, by omega⟩
    · exact List.forall_mem_singleton.mpr <| by decide
    · intro c hc
      rcases List.mem_append.mp hc with hc | hc
      case inl => cases List.eq_of_mem_replicate hc; decide
      case inr => exact hd c hc
    · simp
  case neg =>
    rw [if_neg h0, if_neg h0]
    by_cases hp : (text d.coefficient).length ≤ d.dotPlace
    case pos =>
      have he := dotPlace_of_le hp
      rw [if_pos hp, if_pos hp, he, Int.sub_self, Int.toNat_zero, List.replicate_zero,
        List.append_nil, List.nil_append, readFinite_int hd text_ne_nil ends_expPart head?_expPart,
        readExponent_expPart, read_text, Option.map_some, Option.some.injEq, Decimal.mk.injEq]
      exact ⟨rfl, rfl, by omega⟩
    case neg =>
      rw [if_neg hp, if_neg hp, readFinite_frac _ _ _ ends_expPart, readExponent_expPart,
        List.take_append_drop, read_text, Option.map_some, Option.some.injEq, Decimal.mk.injEq,
        List.length_drop]
      · exact ⟨rfl, rfl, by omega⟩
      · exact fun c hc => hd c <| List.mem_of_mem_take hc
      · exact fun c hc => hd c <| List.mem_of_mem_drop hc
      · exact take_text_ne_nil <| by omega

-- The characters that texts of finite numbers are made of.
def Plain (c : UInt8) : Prop :=
  IsDigit c ∨ c = 43 ∨ c = 45 ∨ c = 46 ∨ c = 69

theorem Plain.not_isSpace (h : Plain c) : ¬IsSpace c := by
  rcases h with h | rfl | rfl | rfl | rfl
  case inl =>
    unfold IsDigit at h
    unfold IsSpace
    simp only [UInt8.le_iff_toNat_le, UInt8.reduceToNat] at h ⊢
    omega
  all_goals decide

theorem Plain.ne_underscore (h : Plain c) : c ≠ 95 := by
  rintro rfl
  exact absurd h <| by unfold Plain; decide

theorem plain_text {n : ℕ} (h : c ∈ text n) : Plain c :=
  .inl <| isDigit_of_mem_text h

theorem isDigit_of_mem_intPart (h : c ∈ d.intPart) : IsDigit c := by
  unfold intPart at h
  dsimp only at h
  split at h
  case isTrue => cases List.mem_singleton.mp h; decide
  case isFalse =>
    split at h
    case isFalse => exact isDigit_of_mem_text <| List.mem_of_mem_take h
    case isTrue  =>
      rcases List.mem_append.mp h with h | h
      case inl => exact isDigit_of_mem_text h
      case inr => cases List.eq_of_mem_replicate h; decide

theorem intPart_ne_nil : d.intPart ≠ [] := by
  have hl : 0 < (text d.coefficient).length := List.length_pos_of_ne_nil text_ne_nil
  unfold intPart
  dsimp only
  split
  case isTrue  => simp
  case isFalse =>
    split
    case isTrue  => simp [text_ne_nil]
    case isFalse => exact take_text_ne_nil <| by omega

theorem plain_fracPart (h : c ∈ d.fracPart) : Plain c := by
  unfold fracPart at h
  dsimp only at h
  split at h
  case isTrue =>
    rcases List.mem_cons.mp h with rfl | h
    case inl => exact .inr <| by decide
    case inr =>
      rcases List.mem_append.mp h with h | h
      case inl => cases List.eq_of_mem_replicate h; exact .inl <| by decide
      case inr => exact plain_text h
  case isFalse =>
    split at h
    case isTrue  => cases h
    case isFalse =>
      rcases List.mem_cons.mp h with rfl | h
      case inl => exact .inr <| by decide
      case inr => exact plain_text <| List.mem_of_mem_drop h

theorem plain_expPart (h : c ∈ d.expPart) : Plain c := by
  unfold expPart signed at h
  split at h
  case isTrue  => cases h
  case isFalse =>
    rcases List.mem_cons.mp h with rfl | h
    case inl => exact .inr <| by decide
    case inr =>
      rcases List.mem_cons.mp h with rfl | h
      case inl => split <;> exact .inr <| by decide
      case inr => exact plain_text h

theorem plain_str (h : c ∈ d.str) : Plain c := by
  unfold str at h
  simp only [List.mem_append] at h
  rcases h with ((h | h) | h) | h
  case inl.inl.inl =>
    split at h
    case isTrue  => cases List.mem_singleton.mp h; exact .inr <| by decide
    case isFalse => cases h
  case inl.inl.inr => exact .inl <| isDigit_of_mem_intPart h
  case inl.inr     => exact plain_fracPart h
  case inr         => exact plain_expPart h

theorem dropWhile_isSpace (h : ∀ c ∈ s, Plain c) : s.dropWhile IsSpace = s := by
  cases s
  case nil      => rfl
  case cons c s => simp [(h c List.mem_cons_self).not_isSpace]

theorem strip_eq (h : ∀ c ∈ s, Plain c) : strip s = s := by
  unfold strip
  rw [dropWhile_isSpace h, dropWhile_isSpace, List.reverse_reverse]
  exact fun c hc => h c <| List.mem_reverse.mp hc

theorem filter_eq (h : ∀ c ∈ s, Plain c) : s.filter (· ≠ 95) = s :=
  List.filter_eq_self.mpr fun c hc => decide_eq_true (h c hc).ne_underscore

theorem readSign_of_isDigit (h : IsDigit c) : readSign (c :: s) = (false, c :: s) := by
  unfold readSign
  split
  case h_1 he => cases he; exact absurd h <| by decide
  case h_2 he => cases he; exact absurd h <| by decide
  case h_3    => rfl

theorem readSign_str :
    readSign d.str = (d.negative, d.intPart ++ (d.fracPart ++ d.expPart)) := by
  unfold str
  rw [List.append_assoc, List.append_assoc]
  cases d.negative
  case true  => rfl
  case false =>
    rw [if_neg Bool.false_ne_true, List.nil_append]
    obtain ⟨c, s, hs⟩ := List.exists_cons_of_ne_nil (intPart_ne_nil (d := d))
    have hc : IsDigit c := isDigit_of_mem_intPart <| hs ▸ List.mem_cons_self
    rw [hs, List.cons_append, readSign_of_isDigit hc]

-- A finite number can be read from its text.
theorem ofText_str : ofText d.str = some (.finite d) := by
  unfold ofText
  rw [strip_eq fun _ => plain_str, filter_eq fun _ => plain_str, readSign_str]
  simp only [readFinite_parts]

example : ofText (utf8 " -1_2.50e3") = some (.finite ⟨true, 1250, 1⟩) := by decide +kernel

example : str ⟨true, 1250, -2⟩ = utf8 "-12.50" ∧ str ⟨false, 12, -9⟩ = utf8 "1.2E-8" := by
  decide +kernel

end Decimal
