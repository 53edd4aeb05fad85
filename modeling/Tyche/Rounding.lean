import Tyche.Floating

-- Rounding to the values of a binary format, and texts with enough digits to tell them apart.
namespace Floating

variable {q r x d : ℚ} {k : ℤ} {p : ℕ} {e : ℤ} {n : ℚ}

theorem abs_roundEven_sub_le_half : |roundEven q - q| ≤ 1 / 2 := by
  have hf : (⌊q⌋ : ℚ) = q - Int.fract q := (Int.self_sub_fract q).symm
  unfold roundEven
  rw [abs_le]
  split_ifs <;> push_cast <;> constructor <;> linarith [Int.fract_nonneg q, Int.fract_lt_one q]

-- The nearest integer, where there is only one.
theorem roundEven_of_abs_lt (h : |q - k| < 1 / 2) : roundEven q = k := by
  have hr : |roundEven q - q| ≤ 1 / 2 := abs_roundEven_sub_le_half
  have hd : |((roundEven q - k : ℤ) : ℚ)| < 1 := by
    push_cast
    calc |(roundEven q : ℚ) - k| = |(roundEven q - q) + (q - k)| := by rw [sub_add_sub_cancel]
      _ ≤ |roundEven q - q| + |q - k| := abs_add_le ..
      _ < 1 := by linarith
  have hz : |roundEven q - k| < 1 := by exact_mod_cast hd
  rw [Int.abs_lt_one_iff] at hz
  omega

-- The exponent of a number's binade and the distance of the format's values there, for the given
-- number of bits after the leading one and the smallest exponent.
def binade (e : ℤ) (q : ℚ) : ℤ :=
  max (Int.log 2 |q|) e

def ulp (p : ℕ) (e : ℤ) (q : ℚ) : ℚ :=
  2 ^ (binade e q - p)

def rounded (p : ℕ) (e : ℤ) (q : ℚ) : ℚ :=
  roundEven (q / ulp p e q) * ulp p e q

theorem ulp_pos : 0 < ulp p e q :=
  zpow_pos (by norm_num) _

theorem two_zpow_binade : (2 : ℚ) ^ binade e q = 2 ^ p * ulp p e q := by
  rw [ulp, ← zpow_natCast, ← zpow_add₀ (by norm_num)]
  congr 1
  omega

theorem abs_lt_two_zpow : |q| < 2 ^ (binade e q + 1) := by
  have h : |q| < (2 : ℚ) ^ (Int.log 2 |q| + 1) := Int.lt_zpow_succ_log_self (by norm_num) _
  exact lt_of_lt_of_le h <| zpow_le_zpow_right₀ (by norm_num) <| by rw [binade]; omega

theorem log_lt_of_lt (hq : q ≠ 0) (h : |q| < 2 ^ k) : Int.log 2 |q| < k :=
  (Int.lt_zpow_iff_log_lt (by norm_num) (abs_pos.mpr hq)).mp h

theorem le_log_of_le (hq : q ≠ 0) (h : 2 ^ k ≤ |q|) : k ≤ Int.log 2 |q| :=
  (Int.zpow_le_iff_le_log (by norm_num) (abs_pos.mpr hq)).mp h

theorem binade_le_of_lt (he : e ≤ k) (h : |q| < 2 ^ (k + 1)) (hq : q ≠ 0) : binade e q ≤ k := by
  have := log_lt_of_lt hq h
  rw [binade]
  omega

-- The nearest multiple of the distance.
theorem rounded_of_abs_lt {m : ℤ} (h : |d - m * ulp p e d| < ulp p e d / 2) :
    rounded p e d = m * ulp p e d := by
  have hp : 0 < ulp p e d := ulp_pos
  rw [rounded, roundEven_of_abs_lt (k := m)]
  have hs : d / ulp p e d - m = (d - m * ulp p e d) / ulp p e d := by field_simp
  rw [hs, abs_div, abs_of_pos hp, div_lt_div_iff₀ hp (by norm_num)]
  linarith

theorem abs_eq_mul (hx : x = k * ulp p e x) : |x| = |(k : ℚ)| * ulp p e x := by
  conv_lhs => rw [hx]
  rw [abs_mul, abs_of_pos ulp_pos]

theorem abs_coefficient_lt (hx : x = k * ulp p e x) : |k| < 2 ^ (p + 1) := by
  have hp : 0 < ulp p e x := ulp_pos
  have hl : |x| < 2 ^ (binade e x + 1) := abs_lt_two_zpow
  rw [zpow_add₀ (by norm_num), two_zpow_binade, zpow_one, abs_eq_mul hx] at hl
  have hk : |(k : ℚ)| < 2 ^ p * 2 := by nlinarith
  rw [pow_succ]
  exact_mod_cast hk

theorem abs_le_add : |x| ≤ |d| + |d - x| := by
  calc |x| = |d - (d - x)| := by rw [sub_sub_cancel]
    _ ≤ |d| + |d - x| := abs_sub ..

-- The number `d` is so near to the value `x` of the format that `2 * n` times their distance is no
-- more than `x` itself.
section

variable (hx : x = k * ulp p e x) (hn : 2 ^ (p + 1) < n) (hd : |d - x| * (2 * n) ≤ |x|)

include hx hn hd

theorem abs_sub_lt : |d - x| < ulp p e x / 2 := by
  have hp : 0 < ulp p e x := ulp_pos
  have hk : |(k : ℚ)| < 2 ^ (p + 1) := by exact_mod_cast abs_coefficient_lt hx
  have h2 : (0 : ℚ) < 2 ^ (p + 1) := by positivity
  have hu : |d - x| * (2 * n) < n * ulp p e x :=
    calc |d - x| * (2 * n) ≤ |(k : ℚ)| * ulp p e x := by rwa [← abs_eq_mul hx]
      _ < n * ulp p e x := by gcongr; linarith
  by_contra hc
  rw [not_lt] at hc
  nlinarith

theorem abs_lt_next : |d| < 2 ^ (binade e x + 1) := by
  have hp : 0 < ulp p e x := ulp_pos
  have hs := abs_sub_lt hx hn hd
  have hk : |(k : ℚ)| + 1 ≤ 2 ^ (p + 1) := by exact_mod_cast abs_coefficient_lt hx
  have ha : |d| ≤ |d - x| + |x| := by
    calc |d| = |(d - x) + x| := by rw [sub_add_cancel]
      _ ≤ |d - x| + |x| := abs_add_le ..
  rw [zpow_add₀ (by norm_num), two_zpow_binade, zpow_one]
  rw [abs_eq_mul hx] at ha
  rw [pow_succ] at hk
  nlinarith

omit hx in
theorem ne_zero (h0 : x ≠ 0) : d ≠ 0 := by
  rintro rfl
  have h2 : (1 : ℚ) ≤ 2 ^ (p + 1) := one_le_pow₀ (by norm_num)
  have hp : 0 < |x| := abs_pos.mpr h0
  rw [zero_sub, abs_neg] at hd
  nlinarith

theorem binade_le (h0 : x ≠ 0) : binade e d ≤ binade e x :=
  binade_le_of_lt (le_max_right ..) (abs_lt_next hx hn hd) (ne_zero hn hd h0)

-- Below the binade of `x` there is only the next one, if `x` is the smallest value of its own.
theorem eq_of_binade_lt (h0 : x ≠ 0) (hb : binade e d < binade e x) :
    |x| = 2 ^ binade e x ∧ binade e d + 1 = binade e x := by
  have hp : 0 < ulp p e x := ulp_pos
  have hs := abs_sub_lt hx hn hd
  have ha : |x| ≤ |d| + |d - x| := abs_le_add
  have hlog : binade e x = Int.log 2 |x| := by
    have he : e ≤ binade e d := le_max_right ..
    exact max_eq_left_of_lt (lt_max_iff.mp (he.trans_lt hb) |>.resolve_right (lt_irrefl e))
  have hl : (2 : ℚ) ^ binade e x ≤ |x| := by
    rw [hlog]
    exact Int.zpow_log_le_self (by norm_num) (abs_pos.mpr h0)
  have hu : |d| < 2 ^ binade e x :=
    lt_of_lt_of_le abs_lt_two_zpow <|
      zpow_le_zpow_right₀ (by norm_num) (by omega : binade e d + 1 ≤ binade e x)
  constructor
  case left =>
    rw [two_zpow_binade (p := p)] at hl hu ⊢
    rw [abs_eq_mul hx] at hl ha ⊢
    have h₁ : (2 : ℚ) ^ p ≤ |(k : ℚ)| := le_of_mul_le_mul_right hl hp
    have h₂ : |(k : ℚ)| < 2 ^ p + 1 := by nlinarith
    have h₃ : 2 ^ p ≤ |k| := by exact_mod_cast h₁
    have h₄ : |k| < 2 ^ p + 1 := by exact_mod_cast h₂
    have h₅ : |k| = 2 ^ p := by omega
    congr 1
    exact_mod_cast h₅
  case right =>
    have h2 : (1 : ℚ) ≤ 2 ^ (p + 1) := one_le_pow₀ (by norm_num)
    have hh : 2 ^ (binade e x - 1) ≤ |d| := by
      rw [zpow_sub_one₀ (by norm_num)]
      nlinarith [abs_nonneg (d - x)]
    have hg := le_log_of_le (ne_zero hn hd h0) hh
    have hm : Int.log 2 |d| ≤ binade e d := le_max_left ..
    omega

theorem rounded_eq : rounded p e d = x := by
  by_cases h0 : x = 0
  case pos =>
    have hz : d = 0 := by
      rw [h0, sub_zero, abs_zero] at hd
      have h2 : (0 : ℚ) < 2 ^ (p + 1) := by positivity
      have : |d| ≤ 0 := by nlinarith [abs_nonneg d]
      exact abs_eq_zero.mp (le_antisymm this (abs_nonneg d))
    rw [h0, hz, rounded, zero_div]
    norm_num [roundEven]
  case neg =>
    have hs := abs_sub_lt hx hn hd
    rcases (binade_le hx hn hd h0).eq_or_lt with hb | hb
    case inl =>
      have hu : ulp p e d = ulp p e x := by rw [ulp, ulp, hb]
      have h : |d - k * ulp p e d| < ulp p e d / 2 := by rwa [hu, ← hx]
      rw [rounded_of_abs_lt h, hu, ← hx]
    case inr =>
      obtain ⟨hp, hb⟩ := eq_of_binade_lt hx hn hd h0 hb
      have hu : ulp p e x = 2 * ulp p e d := by
        rw [ulp, ulp, ← hb, ← zpow_one_add₀ (by norm_num)]
        congr 1
        omega
      have hk : x = ((2 * k : ℤ) : ℚ) * ulp p e d := by
        conv_lhs => rw [hx, hu]
        push_cast
        ring
      have h : |d - ((2 * k : ℤ) : ℚ) * ulp p e d| < ulp p e d / 2 := by
        rw [← hk]
        have h4 : (0 : ℚ) < ulp p e d := ulp_pos
        rw [hp, two_zpow_binade (p := p), hu] at hd
        rw [pow_succ] at hn
        have h2 : (0 : ℚ) < 2 ^ p := by positivity
        by_contra hc
        rw [not_lt] at hc
        nlinarith
      rw [rounded_of_abs_lt h, ← hk]

end

theorem eq_mul_of_rounded (h : rounded p e x = x) :
    x = (roundEven (x / ulp p e x) : ℚ) * ulp p e x :=
  h.symm

theorem double_eq : double q = if 2 ^ 1024 ≤ |rounded 52 (-1022) q| then
    .inf (decide (rounded 52 (-1022) q < 0)) else .fin (rounded 52 (-1022) q) :=
  rfl

theorem single_eq : single q = if 2 ^ 128 ≤ |rounded 23 (-126) q| then
    .inf (decide (rounded 23 (-126) q < 0)) else .fin (rounded 23 (-126) q) :=
  rfl

-- Integers of 53 bits are values of the 64-bit format.
theorem double_natCast {m : ℕ} (h : m < 2 ^ 53) : double m = .fin m := by
  have hr : rounded 52 (-1022) (m : ℚ) = m := by
    rcases Nat.eq_zero_or_pos m with rfl | hm
    case inl => simp [rounded, roundEven]
    case inr =>
      have hq : (m : ℚ) ≠ 0 := Nat.cast_ne_zero.mpr hm.ne'
      have hl : |(m : ℚ)| < 2 ^ ((52 : ℤ) + 1) := by
        rw [abs_of_nonneg (Nat.cast_nonneg m)]
        exact_mod_cast h
      have hb : binade (-1022) (m : ℚ) ≤ 52 := binade_le_of_lt (by norm_num) hl hq
      obtain ⟨j, hj⟩ := Int.eq_ofNat_of_zero_le (sub_nonneg.mpr hb)
      have hu : (m * 2 ^ j : ℤ) * ulp 52 (-1022) (m : ℚ) = m := by
        have he : binade (-1022) (m : ℚ) - ((52 : ℕ) : ℤ) = -j := by push_cast; omega
        rw [ulp, he, zpow_neg, zpow_natCast]
        push_cast
        field_simp
      have hc := rounded_of_abs_lt (p := 52) (e := -1022) (d := m) (m := m * 2 ^ j) <| by
        rw [hu, sub_self, abs_zero]
        exact half_pos ulp_pos
      exact hc.trans hu
  have hi : ¬(2 ^ 1024 ≤ |(m : ℚ)|) := by
    rw [not_le, abs_of_nonneg (Nat.cast_nonneg m)]
    exact_mod_cast h.trans <| Nat.pow_lt_pow_right Nat.one_lt_two (by decide)
  rw [double_eq, hr, if_neg hi]

-- Seventeen significant digits tell the values of the 64-bit format apart, and nine those of the
-- 32-bit format.
theorem double_of_near (hx : double x = .fin x) (hd : |d - x| * (2 * 10 ^ 16) ≤ |x|) :
    double d = .fin x := by
  rw [double_eq] at hx
  split_ifs at hx with hi
  rw [fin.injEq] at hx
  have hr : rounded 52 (-1022) d = x := rounded_eq (eq_mul_of_rounded hx) (by norm_num) hd
  rw [double_eq, hr, if_neg (hx ▸ hi)]

theorem single_of_near (hx : single x = .fin x) (hd : |d - x| * (2 * 10 ^ 8) ≤ |x|) :
    single d = .fin x := by
  rw [single_eq] at hx
  split_ifs at hx with hi
  rw [fin.injEq] at hx
  have hr : rounded 23 (-126) d = x := rounded_eq (eq_mul_of_rounded hx) (by norm_num) hd
  rw [single_eq, hr, if_neg (hx ▸ hi)]

end Floating
