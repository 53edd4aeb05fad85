import Mathlib.Data.List.TakeWhile
import Tyche.JsonWords
import Tyche.Rounding

-- The text that a stream writes for a floating-point number, with a precision of `n + 1` digits.
namespace Floating

open Digits JsonText

-- The nearest number with that many digits, and the exponent of its first digit.
def coefficient (n : ℕ) (q : ℚ) : ℕ :=
  (roundEven (|q| / 10 ^ (Int.log 10 |q| - n))).toNat

def significand (n : ℕ) (q : ℚ) : ℕ × ℤ :=
  if coefficient n q = 10 ^ (n + 1) then (10 ^ n, Int.log 10 |q| + 1)
  else (coefficient n q, Int.log 10 |q|)

def stripZeros (s : Bytes) : Bytes :=
  (s.reverse.dropWhile (· = 48)).reverse

-- An exponent has at least two digits.
def exponentText : Option ℤ → Bytes
  | none   => []
  | some x =>
    101 :: (if x < 0 then 45 else 43) ::
      ((if x.natAbs < 10 then [48] else []) ++ text x.natAbs)

-- The signs of a zero and of what is not a number are not kept here.
def general (n : ℕ) : Floating → Bytes
  | .nan     => utf8 "nan"
  | .inf neg => if neg then utf8 "-inf" else utf8 "inf"
  | .fin q   =>
    if q = 0 then utf8 "0"
    else
      let (m, x) := significand n q
      if x < -4 ∨ n < x then
        numeral (q < 0) ((text m).take 1) (stripZeros <| (text m).drop 1) (exponentText x)
      else if x < 0 then
        numeral (q < 0) [48] (stripZeros <| .replicate (-x - 1).toNat 48 ++ text m) []
      else
        numeral (q < 0) ((text m).take (x + 1).toNat) (stripZeros <| (text m).drop (x + 1).toNat) []

variable {n m k : ℕ} {q r : ℚ} {i x : ℤ} {s int frac : Bytes}

theorem le_roundEven (h : (i : ℚ) ≤ q) : i ≤ roundEven q := by
  have hf : i ≤ ⌊q⌋ := Int.le_floor.mpr h
  rcases roundEven_eq (q := q) with he | he <;> omega

theorem roundEven_le (h : q < i) : roundEven q ≤ i := by
  have hf : ⌊q⌋ < i := Int.floor_lt.mpr h
  rcases roundEven_eq (q := q) with he | he <;> omega

theorem zpow_log_le (hq : q ≠ 0) : (10 : ℚ) ^ Int.log 10 |q| ≤ |q| :=
  Int.zpow_log_le_self (by norm_num) (abs_pos.mpr hq)

theorem zpow_scale : (10 : ℚ) ^ (i - n) * 10 ^ n = 10 ^ i := by
  rw [← zpow_natCast, ← zpow_add₀ (by norm_num), sub_add_cancel]

-- The number has `n + 1` digits before it is rounded.
theorem le_coefficient (hq : q ≠ 0) : 10 ^ n ≤ coefficient n q := by
  have hu : (0 : ℚ) < 10 ^ (Int.log 10 |q| - n) := zpow_pos (by norm_num) _
  have h : ((10 ^ n : ℕ) : ℤ) ≤ roundEven (|q| / 10 ^ (Int.log 10 |q| - n)) := by
    refine le_roundEven ?_
    rw [le_div_iff₀ hu, mul_comm]
    push_cast
    rw [zpow_scale]
    exact zpow_log_le hq
  rw [coefficient]
  omega

theorem coefficient_le : coefficient n q ≤ 10 ^ (n + 1) := by
  have hu : (0 : ℚ) < 10 ^ (Int.log 10 |q| - n) := zpow_pos (by norm_num) _
  have h : roundEven (|q| / 10 ^ (Int.log 10 |q| - n)) ≤ ((10 ^ (n + 1) : ℕ) : ℤ) := by
    refine roundEven_le ?_
    rw [div_lt_iff₀ hu, mul_comm]
    push_cast
    rw [pow_succ, ← mul_assoc, zpow_scale, ← zpow_add_one₀ (by norm_num)]
    exact Int.lt_zpow_succ_log_self (by norm_num) _
  exact Int.toNat_le.mpr h

theorem abs_coefficient_sub_le (hq : q ≠ 0) :
    abs (coefficient n q * 10 ^ (Int.log 10 |q| - n) - |q|) * (2 * 10 ^ n) ≤ |q| := by
  generalize hu : (10 : ℚ) ^ (Int.log 10 |q| - n) = u
  have hp : 0 < u := hu ▸ zpow_pos (by norm_num) _
  have hn : (0 : ℤ) ≤ roundEven (|q| / u) := le_roundEven <| by positivity
  have hc : (coefficient n q : ℚ) = roundEven (|q| / u) := by
    rw [coefficient, hu]
    exact_mod_cast Int.toNat_of_nonneg hn
  have hs : abs (coefficient n q * u - |q|) = |roundEven (|q| / u) - |q| / u| * u := by
    rw [hc, ← abs_of_pos hp, ← abs_mul, abs_of_pos hp, sub_mul, div_mul_cancel₀ _ hp.ne']
  calc abs (coefficient n q * u - |q|) * (2 * 10 ^ n)
      ≤ 1 / 2 * u * (2 * 10 ^ n) := by
        rw [hs]
        gcongr
        exact abs_roundEven_sub_le_half
    _ = 10 ^ Int.log 10 |q| := by rw [← zpow_scale (n := n), hu]; ring
    _ ≤ |q| := zpow_log_le hq

theorem significand_bounds (hq : q ≠ 0) :
    10 ^ n ≤ (significand n q).1 ∧ (significand n q).1 < 10 ^ (n + 1) := by
  have hl := le_coefficient (n := n) hq
  have hu := coefficient_le (n := n) (q := q)
  unfold significand
  split
  case isTrue    => exact ⟨le_rfl, Nat.pow_lt_pow_right (by norm_num) (Nat.lt_succ_self n)⟩
  case isFalse h => exact ⟨hl, lt_of_le_of_ne hu h⟩

theorem abs_significand_sub_le (hq : q ≠ 0) :
    abs ((significand n q).1 * 10 ^ ((significand n q).2 - n) - |q|) * (2 * 10 ^ n) ≤ |q| := by
  have h := abs_coefficient_sub_le (n := n) hq
  unfold significand
  split
  case isTrue hc =>
    have he : (((10 ^ n : ℕ) : ℚ) * 10 ^ (Int.log 10 |q| + 1 - n)) =
        coefficient n q * 10 ^ (Int.log 10 |q| - n) := by
      rw [hc, add_sub_right_comm, zpow_add_one₀ (by norm_num)]
      push_cast
      ring
    rw [he]
    exact h
  case isFalse => exact h

theorem stripZeros_append : ∃ k, s = stripZeros s ++ .replicate k 48 := by
  have ht : s.reverse.takeWhile (· = 48) = .replicate (s.reverse.takeWhile (· = 48)).length 48 := by
    rw [List.eq_replicate_iff]
    refine ⟨rfl, fun c hc => ?_⟩
    simpa using List.mem_takeWhile_imp hc
  refine ⟨(s.reverse.takeWhile (· = 48)).length, ?_⟩
  rw [← List.reverse_inj, stripZeros, List.reverse_append, List.reverse_reverse,
    List.reverse_replicate, ← ht, List.takeWhile_append_dropWhile]

theorem mem_of_mem_stripZeros {c : UInt8} (h : c ∈ stripZeros s) : c ∈ s := by
  obtain ⟨k, hk⟩ := stripZeros_append (s := s)
  rw [hk]
  exact List.mem_append_left _ h

-- Zeros at the end of a fraction do not change its value.
theorem read_stripZeros : (read (int ++ stripZeros s) : ℚ) * 10 ^ (x - (stripZeros s).length) =
    read (int ++ s) * 10 ^ (x - s.length) := by
  obtain ⟨k, hk⟩ := stripZeros_append (s := s)
  generalize stripZeros s = t at hk
  have hz : read (.replicate k 48) = 0 := by
    have h := read_replicate (n := k) (s := [])
    rwa [List.append_nil] at h
  have hx : x - t.length = k + (x - ((t.length + k : ℕ) : ℤ)) := by push_cast; ring
  rw [hk, ← List.append_assoc, read_append (t := .replicate k 48), hz, List.length_append, List.length_replicate, hx,
    zpow_add₀ (by norm_num), zpow_natCast]
  push_cast
  ring

theorem length_text (hl : 10 ^ n ≤ m) (hu : m < 10 ^ (n + 1)) : (text m).length = n + 1 := by
  have hm : m ≠ 0 := by
    have : 0 < 10 ^ n := by positivity
    omega
  rw [text, if_neg hm, List.length_map, List.length_reverse, Nat.length_digits _ _ (by norm_num) hm,
    Nat.log_eq_of_pow_le_of_lt_pow hl hu]

theorem isExponent_exponentText {e : Option ℤ} : IsExponent (exponentText e) e := by
  cases e
  case none   => exact isExponent_nil
  case some x =>
    have hd : ∀ c ∈ (if x.natAbs < 10 then [48] else []) ++ text x.natAbs, IsDigit c := by
      intro c hc
      rcases List.mem_append.mp hc with hc | hc
      case inl =>
        split at hc
        case isTrue  => cases List.mem_singleton.mp hc; decide
        case isFalse => cases hc
      case inr => exact isDigit_of_mem_text hc
    have hr : read ((if x.natAbs < 10 then [48] else []) ++ text x.natAbs) = x.natAbs := by
      split
      case isTrue  => exact (read_replicate (n := 1)).trans read_text
      case isFalse => exact read_text
    have h := @isExponent_cons _ (x < 0) hd (by simp [text_ne_nil])
    rw [hr] at h
    have hx : (if decide (x < 0) = true then -(x.natAbs : ℤ) else x.natAbs) = x := by
      split
      case isTrue hx  => simp only [decide_eq_true_eq] at hx; omega
      case isFalse hx => simp only [decide_eq_true_eq] at hx; omega
    rw [hx] at h
    simpa [exponentText] using h

-- A number in scientific notation and the two forms of one without an exponent.
section

variable (hl : 10 ^ n ≤ m) (hu : m < 10 ^ (n + 1))

include hl hu

theorem ne_zero_of_bounds : m ≠ 0 := by
  have : 0 < 10 ^ n := by positivity
  omega

theorem isNumeral_take (e : Option ℤ) :
    IsNumeral ((text m).take (k + 1)) (stripZeros <| (text m).drop (k + 1)) (exponentText e) e where
  intDigits c hc := isDigit_of_mem_text <| List.mem_of_mem_take hc
  intNe := take_text_ne_nil (Nat.succ_pos k)
  intHead hh := by
    rw [List.head?_take, if_neg (Nat.succ_ne_zero k)] at hh
    exact absurd hh <| head?_text <| ne_zero_of_bounds hl hu
  fracDigits c hc := isDigit_of_mem_text <| List.mem_of_mem_drop <| mem_of_mem_stripZeros hc
  exp := isExponent_exponentText

omit hl hu in
theorem isNumeral_zeros (k : ℕ) :
    IsNumeral [48] (stripZeros <| .replicate k 48 ++ text m) (exponentText none) none where
  intDigits c hc := by
    cases List.mem_singleton.mp hc
    decide
  intNe := by decide
  intHead _ := rfl
  fracDigits c hc := by
    rcases List.mem_append.mp <| mem_of_mem_stripZeros hc with hc | hc
    case inl =>
      cases List.eq_of_mem_replicate hc
      decide
    case inr => exact isDigit_of_mem_text hc
  exp := isExponent_exponentText

theorem numeralValue_take (hk : k ≤ n) {neg : Bool} {e : Option ℤ} :
    numeralValue neg ((text m).take (k + 1)) (stripZeros <| (text m).drop (k + 1)) e =
      (if neg then -1 else 1) * (m * 10 ^ (e.getD 0 + k - n)) := by
  have hd : (((text m).drop (k + 1)).length : ℤ) = n - k := by
    rw [List.length_drop, length_text hl hu]
    omega
  rw [numeralValue, mul_assoc, read_stripZeros, List.take_append_drop, read_text, hd]
  congr 3
  omega

theorem numeralValue_zeros {neg : Bool} :
    numeralValue neg [48] (stripZeros <| .replicate k 48 ++ text m) none =
      (if neg then -1 else 1) * (m * 10 ^ (-(k : ℤ) - 1 - n)) := by
  have hr : read ([48] ++ (.replicate k 48 ++ text m)) = m := by
    rw [← List.append_assoc]
    exact (read_replicate (n := k + 1)).trans read_text
  rw [numeralValue, mul_assoc, read_stripZeros, hr, List.length_append, List.length_replicate,
    length_text hl hu]
  congr 3
  push_cast
  rw [Option.getD_none]
  ring

end

-- The value of the text is the nearest one with so many digits.
theorem general_fin (n : ℕ) (q : ℚ) : ∃ int frac e,
    IsNumeral int frac (exponentText e) e ∧
    general n (.fin q) = numeral (q < 0) int frac (exponentText e) ∧
    |numeralValue (q < 0) int frac e - q| * (2 * 10 ^ n) ≤ |q| := by
  by_cases h0 : q = 0
  case pos =>
    subst h0
    refine ⟨[48], [], none, ⟨by decide +kernel, by decide, fun _ => rfl, nofun, isExponent_nil⟩,
      rfl, ?_⟩
    have hz : (Digits.read [48] : ℚ) = 0 := by exact_mod_cast (rfl : Digits.read [48] = 0)
    simp [numeralValue, hz]
  case neg =>
    have hb := significand_bounds (n := n) h0
    have hd := abs_significand_sub_le (n := n) h0
    rw [general, if_neg h0]
    generalize significand n q = mx at hb hd
    obtain ⟨m, x⟩ := mx
    dsimp only at hb hd ⊢
    have hv : |(if decide (q < 0) = true then -1 else 1) * (m * 10 ^ (x - n)) - q| *
        (2 * 10 ^ n) ≤ |q| := by
      by_cases hq : q < 0
      case pos =>
        rw [abs_of_neg hq] at hd
        rw [if_pos (by simpa using hq), abs_of_neg hq, ← abs_neg, neg_one_mul, neg_sub,
          sub_neg_eq_add, add_comm, ← sub_neg_eq_add]
        exact hd
      case neg =>
        rw [abs_of_nonneg (not_lt.mp hq)] at hd
        rw [if_neg (by simpa using hq), one_mul, abs_of_nonneg (not_lt.mp hq)]
        exact hd
    split_ifs with h₁ h₂
    case pos =>
      refine ⟨_, _, some x, isNumeral_take (k := 0) hb.1 hb.2 _, rfl, ?_⟩
      rwa [numeralValue_take hb.1 hb.2 (Nat.zero_le n), Option.getD_some, Nat.cast_zero, add_zero]
    case pos =>
      refine ⟨_, _, none, isNumeral_zeros _, rfl, ?_⟩
      have hx : -((-x - 1).toNat : ℤ) - 1 - n = x - n := by omega
      rwa [numeralValue_zeros hb.1 hb.2, hx]
    case neg =>
      have hk : (x + 1).toNat = x.toNat + 1 := by omega
      have hn : x.toNat ≤ n := by omega
      have hx : (none : Option ℤ).getD 0 + x.toNat - n = x - n := by
        rw [Option.getD_none]
        omega
      refine ⟨_, _, none, isNumeral_take hb.1 hb.2 _, by rw [hk]; rfl, ?_⟩
      rwa [numeralValue_take hb.1 hb.2 hn, hx]

theorem isBare_exponentText {e : Option ℤ} : IsBare (exponentText e) := by
  cases e
  case none   => nofun
  case some x =>
    refine .cons (by decide) <| .cons ?_ <| .append ?_ <| isBare_digits fun _ => isDigit_of_mem_text
    · split <;> decide
    · split
      case isTrue  => exact .cons (by decide) nofun
      case isFalse => nofun

theorem isBare_general {x : Floating} : IsBare (general n x) := by
  cases x
  case nan     =>
    change ∀ c ∈ utf8 "nan", 34 < c ∧ c < 128
    decide +kernel
  case inf neg =>
    change ∀ c ∈ if neg then utf8 "-inf" else utf8 "inf", 34 < c ∧ c < 128
    revert neg
    decide +kernel
  case fin q   =>
    obtain ⟨int, frac, e, h, he, -⟩ := general_fin n q
    rw [he]
    exact isBare_numeral h isBare_exponentText

theorem isWord_general [Dialect] : IsWord (general n (.fin q)) ∧ ∃ b d,
    Text.readWord (general n (.fin q)) = some (.number b d) ∧ |d - q| * (2 * 10 ^ n) ≤ |q| := by
  obtain ⟨int, frac, e, h, he, hd⟩ := general_fin n q
  obtain ⟨hw, hr⟩ := @isWord_numeral (decide (q < 0)) _ _ _ _ _ h
  rw [← he] at hw hr
  exact ⟨hw, _, _, hr, hd⟩

-- What is not finite cannot be read.
section

attribute [local instance] Dialect.strict

theorem isWord_general_inf {neg : Bool} : IsWord (general n (.inf neg)) ∧
    Text.readWord (general n (.inf neg)) = none := by
  cases neg <;> exact isWord_of_none ⟨_, _, rfl, by decide⟩ fun _ => rfl

theorem isWord_general_nan : IsWord (general n .nan) ∧ Text.readWord (general n .nan) = none :=
  isWord_of_none ⟨_, _, rfl, by decide⟩ fun _ => rfl

end

-- A numeral without a fraction and an exponent has no other characters than a sign and digits.
theorem notMem_numeral {c : UInt8} {neg : Bool} (h : ∀ c ∈ int, IsDigit c) (hc : ¬IsDigit c)
    (hm : c ≠ 45) : c ∉ numeral neg int [] (exponentText none) := by
  have hi : c ∉ int := fun hi => hc <| h c hi
  cases neg <;> simp [numeral, exponentText, hi, hm]

-- A numeral with neither a point nor an exponent stays the same number with a zero after a point.
theorem isNumeral_point {e : Option ℤ} (h : IsNumeral int frac (exponentText e) e)
    {neg : Bool} (hp : 46 ∉ numeral neg int frac (exponentText e))
    (he : 101 ∉ numeral neg int frac (exponentText e)) :
    IsNumeral int [48] [] none ∧
      numeral neg int frac (exponentText e) ++ [46, 48] = numeral neg int [48] [] ∧
      numeralValue neg int [48] none = numeralValue neg int frac e := by
  have hf : frac = [] := by
    by_contra hf
    exact hp <| by simp [numeral, hf]
  have hx : e = none := by
    cases e
    case none => rfl
    case some => exact absurd (by simp [numeral, exponentText]) he
  subst hf hx
  refine ⟨⟨h.intDigits, h.intNe, h.intHead, by decide +kernel, isExponent_nil⟩, ?_, ?_⟩
  · simp [numeral, exponentText]
  · have hr : Digits.read (int ++ [48]) = 10 * Digits.read int := by
      rw [read_append, mul_comm]
      rfl
    rw [numeralValue, numeralValue, hr, List.append_nil, Option.getD_none, List.length_singleton,
      List.length_nil, Nat.cast_zero, sub_zero, zpow_zero, Nat.cast_one, zero_sub, zpow_neg_one]
    push_cast
    ring

example : general 16 (.fin <| 3602879701896397 / 36028797018963968) = utf8 "0.10000000000000001" ∧
    general 16 (.fin <| -3 * 10 ^ 20) = utf8 "-3e+20" := by decide +kernel

end Floating
