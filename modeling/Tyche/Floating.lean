import Mathlib.Algebra.Order.Floor.Ring
import Mathlib.Algebra.Order.Ring.Rat
import Mathlib.Data.Int.Log
import Mathlib.Data.Rat.Floor
import Mathlib.Tactic.GCongr
import Mathlib.Tactic.Linarith
import Mathlib.Tactic.NormNum

-- The values of a binary floating-point type. Zeros of either sign are one value here, as no
-- comparison tells them apart.
inductive Floating
  | fin (value : ℚ)
  | inf (negative : Bool)
  | nan
deriving DecidableEq

namespace Floating

-- The comparison `t > x`.
def ExceededBy (t : ℚ) : Floating → Prop
  | .fin x   => x < t
  | .inf neg => neg
  | .nan     => False

instance {t : ℚ} : ∀ x, Decidable (ExceededBy t x)
  | .fin x   => inferInstanceAs <| Decidable (x < t)
  | .inf neg => inferInstanceAs <| Decidable (neg = true)
  | .nan     => inferInstanceAs <| Decidable False

-- The comparisons `q < x` and `q ≥ x`.
def Exceeds (q : ℚ) : Floating → Prop
  | .fin x   => q < x
  | .inf neg => !neg
  | .nan     => False

def ReachedBy (q : ℚ) : Floating → Prop
  | .fin x   => x ≤ q
  | .inf neg => neg
  | .nan     => False

instance {q : ℚ} : ∀ x, Decidable (Exceeds q x)
  | .fin x   => inferInstanceAs <| Decidable (q < x)
  | .inf neg => inferInstanceAs <| Decidable ((!neg) = true)
  | .nan     => inferInstanceAs <| Decidable False

instance {q : ℚ} : ∀ x, Decidable (ReachedBy q x)
  | .fin x   => inferInstanceAs <| Decidable (x ≤ q)
  | .inf neg => inferInstanceAs <| Decidable (neg = true)
  | .nan     => inferInstanceAs <| Decidable False

theorem ExceededBy.mono {t t' : ℚ} {x : Floating} (h : ExceededBy t x) (ht : t ≤ t') :
    ExceededBy t' x := by
  cases x
  case fin => exact lt_of_lt_of_le h ht
  case inf => exact h
  case nan => exact h

theorem ReachedBy.mono {q q' : ℚ} {x : Floating} (h : ReachedBy q x) (hq : q ≤ q') :
    ReachedBy q' x := by
  cases x
  case fin => exact le_trans h hq
  case inf => exact h
  case nan => exact h

-- Rounding to the nearest integer, ties to even.
def roundEven (q : ℚ) : ℤ :=
  if Int.fract q < 1 / 2 then ⌊q⌋
  else if 1 / 2 < Int.fract q then ⌊q⌋ + 1
  else if ⌊q⌋ % 2 = 0 then ⌊q⌋
  else ⌊q⌋ + 1

-- Rounding to the nearest value of the 32-bit format, with 24 bits of precision, exponents from
-- -126 on, and infinity from `2 ^ 128` on.
def single (q : ℚ) : Floating :=
  let ulp := (2 : ℚ) ^ (max (Int.log 2 |q|) (-126) - 23)
  let r := roundEven (q / ulp) * ulp
  if 2 ^ 128 ≤ |r| then .inf (decide (r < 0)) else .fin r

def toSingle : Floating → Floating
  | .fin x => single x
  | x      => x

-- Rounding to the nearest value of the 64-bit format, with 53 bits of precision, exponents from
-- -1022 on, and infinity from `2 ^ 1024` on.
def double (q : ℚ) : Floating :=
  let ulp := (2 : ℚ) ^ (max (Int.log 2 |q|) (-1022) - 52)
  let r := roundEven (q / ulp) * ulp
  if 2 ^ 1024 ≤ |r| then .inf (decide (r < 0)) else .fin r

def toDouble : Floating → Floating
  | .fin x => double x
  | x      => x

example : single (1 / 10) = .fin (13421773 / 134217728) := by decide +kernel

variable {q r : ℚ}

theorem roundEven_eq : roundEven q = ⌊q⌋ ∨ roundEven q = ⌊q⌋ + 1 := by
  unfold roundEven
  split
  case isTrue  => exact .inl rfl
  case isFalse =>
    split
    case isTrue  => exact .inr rfl
    case isFalse => split <;> simp

theorem abs_roundEven_sub_le : |roundEven q - q| ≤ 1 := by
  have hl := Int.floor_le q
  have hu := Int.lt_floor_add_one q
  rcases roundEven_eq (q := q) with h | h <;> rw [h, abs_le] <;> push_cast <;>
    constructor <;> linarith

theorem log_le (hq : |q| ≤ 2 ^ 31) : Int.log 2 |q| ≤ 31 := by
  by_cases h0 : q = 0
  case pos => simp [h0]
  case neg =>
    have hl := Int.log_mono_right (b := 2) (abs_pos.mpr h0) hq
    have hz : Int.log 2 ((2 : ℚ) ^ 31) = 31 := Int.log_zpow (by norm_num) 31
    rwa [hz] at hl

-- Up to `2 ^ 31`, rounding to the 32-bit format changes a number by at most `2 ^ 8`.
theorem abs_single_sub_le (hq : |q| ≤ 2 ^ 31) (h : single q = .fin r) : |r - q| ≤ 2 ^ 8 := by
  unfold single at h
  dsimp only at h
  split at h
  case isTrue  => cases h
  case isFalse =>
    cases h
    generalize hu : (2 : ℚ) ^ (max (Int.log 2 |q|) (-126) - 23) = ulp
    have hp : 0 < ulp := hu ▸ zpow_pos (by norm_num) _
    have hl : ulp ≤ 2 ^ 8 := by
      rw [← hu, ← zpow_natCast]
      exact zpow_le_zpow_right₀ (by norm_num) <| by have := log_le hq; omega
    calc |roundEven (q / ulp) * ulp - q| = |roundEven (q / ulp) - q / ulp| * ulp := by
          rw [← abs_of_pos hp, ← abs_mul, abs_of_pos hp, sub_mul, div_mul_cancel₀ _ hp.ne']
      _ ≤ 1 * ulp := by gcongr; exact abs_roundEven_sub_le
      _ ≤ 2 ^ 8 := by rwa [one_mul]

end Floating
