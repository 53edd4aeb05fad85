import Mathlib.Algebra.Ring.Nat
import Mathlib.Data.Nat.Log
import Mathlib.Tactic.Common

namespace Smearing

variable {w k : ℕ} {x y : BitVec w}

-- A bit of `y` is set where one of `x` is set among the `k` bits from there on upwards.
def Covers (x y : BitVec w) (k : ℕ) : Prop :=
  ∀ i, y.getLsbD i = true ↔ ∃ j, i ≤ j ∧ j < i + k ∧ x.getLsbD j = true

theorem covers_self : Covers x x 1 := by
  intro i
  constructor
  case mp  => exact fun h => ⟨i, Nat.le_refl _, Nat.lt_succ_self _, h⟩
  case mpr =>
    intro ⟨j, h₁, h₂, h⟩
    rwa [show i = j by omega]

-- A shift by the width covered so far doubles it.
theorem Covers.shift (h : Covers x y k) : Covers x (y ||| y >>> k) (k + k) := by
  intro i
  rw [BitVec.getLsbD_or, BitVec.getLsbD_ushiftRight, Bool.or_eq_true, h i, h (k + i)]
  constructor
  case mp =>
    rintro (⟨j, h₁, h₂, h⟩ | ⟨j, h₁, h₂, h⟩)
    all_goals exact ⟨j, by omega, by omega, h⟩
  case mpr =>
    intro ⟨j, h₁, h₂, h⟩
    by_cases hj : j < i + k
    case pos => exact .inl ⟨j, h₁, hj, h⟩
    case neg => exact .inr ⟨j, by omega, by omega, h⟩

-- A bit vector that covers all of `x` consists of ones up to the highest one of `x`.
theorem Covers.toNat_eq (h : Covers x y w) (hx : x ≠ 0) :
    y.toNat = 2 ^ (x.toNat.log2 + 1) - 1 := by
  have hx : x.toNat ≠ 0 := fun h => hx <| BitVec.eq_of_toNat_eq h
  have hw : x.toNat.log2 < w := (Nat.log2_lt hx).mpr x.isLt
  apply Nat.eq_of_testBit_eq
  intro i
  rw [Nat.testBit_two_pow_sub_one, BitVec.testBit_toNat, Bool.eq_iff_iff, h i, decide_eq_true_iff]
  constructor
  case mp =>
    intro ⟨j, h₁, _, h⟩
    rw [← BitVec.testBit_toNat] at h
    have := Nat.le_of_not_lt <| mt (Nat.log2_lt hx).mp (Nat.not_lt.mpr <| Nat.ge_two_pow_of_testBit h)
    omega
  case mpr =>
    intro hi
    exact ⟨_, Nat.le_of_lt_succ hi, by omega, BitVec.testBit_toNat x ▸ Nat.testBit_log2 hx⟩

-- The bits below a power of two count the multiples of it away, also beyond the width.
theorem toNat_and_ones (n : ℕ) (hk : k ≤ w) :
    (BitVec.ofNat w n &&& BitVec.ofNat w (2 ^ k - 1)).toNat = n % 2 ^ k := by
  have hl : 2 ^ k ≤ 2 ^ w := Nat.pow_le_pow_right Nat.two_pos hk
  have := Nat.two_pow_pos k
  rw [BitVec.toNat_and, BitVec.toNat_ofNat, BitVec.toNat_ofNat, Nat.mod_eq_of_lt (a := 2 ^ k - 1)]
  rw [Nat.and_two_pow_sub_one_eq_mod, Nat.mod_mod_of_dvd n (Nat.pow_dvd_pow 2 hk)]
  omega

end Smearing
