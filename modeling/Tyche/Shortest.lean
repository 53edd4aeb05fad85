import Tyche.Format

-- The shortest decimal number that a 64-bit number is the nearest one to, and the text that Python
-- writes it as.
namespace Floating

open Digits JsonText

def signed (q r : ℚ) : ℚ :=
  (if q < 0 then -1 else 1) * r

-- The decimal numbers with `n + 1` digits next to a number, the nearest one first.
def neighbours (n : ℕ) (q : ℚ) : List (ℕ × ℤ) :=
  let e := Int.log 10 |q| - n
  let r := |q| / 10 ^ e
  [((roundEven r).toNat, e), (⌊r⌋.toNat, e), ((⌊r⌋ + 1).toNat, e)]

def Denotes (q : ℚ) (d : ℕ × ℤ) : Prop :=
  double (signed q <| d.1 * 10 ^ d.2) = .fin q

instance {q : ℚ} : DecidablePred (Denotes q) :=
  fun _ => inferInstanceAs <| Decidable (_ = _)

def shortest (q : ℚ) : ℕ × ℤ :=
  (((List.range 17).flatMap fun n => neighbours n q).find? (Denotes q)).getD (0, 0)

-- The parts of the text of a number with the given digits, the first of which has the given place:
-- the digits before and after the point, and the exponent if there is one.
def reprParts (ds : Bytes) (x : ℤ) : Bytes × Bytes × Option ℤ :=
  if x < -4 ∨ 16 ≤ x then (ds.take 1, ds.drop 1, some x)
  else if x < 0 then ([48], .replicate (-x - 1).toNat 48 ++ ds, none)
  else if (ds.length : ℤ) ≤ x + 1 then (ds ++ .replicate (x + 1 - ds.length).toNat 48, [48], none)
  else (ds.take (x + 1).toNat, ds.drop (x + 1).toNat, none)

-- The method `__repr__` of floats. The sign of a zero is not kept here.
def repr : Floating → Bytes
  | .nan     => utf8 "nan"
  | .inf neg => if neg then utf8 "-inf" else utf8 "inf"
  | .fin q   =>
    if q = 0 then utf8 "0.0"
    else
      let (m, e) := shortest q
      let (int, frac, exp) := reprParts (stripZeros <| text m) (e + (text m).length - 1)
      numeral (q < 0) int frac (exponentText exp)

variable {n m : ℕ} {q r : ℚ} {x : ℤ} {ds : Bytes}

theorem abs_signed_sub : |signed q r - q| = abs (r - |q|) := by
  unfold signed
  split
  case isTrue h  =>
    rw [abs_of_neg h, ← abs_neg, neg_one_mul, neg_sub, sub_neg_eq_add, sub_neg_eq_add, add_comm]
  case isFalse h => rw [abs_of_nonneg (not_lt.mp h), one_mul]

theorem double_zero : double 0 = .fin 0 := by
  rw [double_eq, rounded, zero_div]
  norm_num [roundEven]

theorem denotes_shortest (h : double q = .fin q) (h0 : q ≠ 0) : Denotes q (shortest q) := by
  have hd : Denotes q (coefficient 16 q, Int.log 10 |q| - 16) := by
    refine double_of_near h ?_
    rw [abs_signed_sub]
    exact abs_coefficient_sub_le h0
  have hm : (coefficient 16 q, Int.log 10 |q| - 16) ∈
      (List.range 17).flatMap fun n => neighbours n q :=
    List.mem_flatMap.mpr ⟨16, by simp, .head _⟩
  unfold shortest
  cases hf : ((List.range 17).flatMap fun n => neighbours n q).find? (Denotes q)
  case none   => exact absurd (decide_eq_true hd) (List.find?_eq_none.mp hf _ hm)
  case some d =>
    have hs := List.find?_some hf
    exact of_decide_eq_true hs

theorem shortest_ne_zero (h : double q = .fin q) (h0 : q ≠ 0) : (shortest q).1 ≠ 0 := by
  intro hm
  have hd := denotes_shortest h h0
  rw [Denotes, hm, Nat.cast_zero, zero_mul, signed, mul_zero, double_zero, fin.injEq] at hd
  exact h0 hd.symm

theorem stripZeros_text : ∃ k, text m = stripZeros (text m) ++ .replicate k 48 ∧
    read (stripZeros <| text m) * 10 ^ k = m := by
  obtain ⟨k, hk⟩ := stripZeros_append (s := text m)
  have hz : read (.replicate k 48) = 0 := by
    have h := read_replicate (n := k) (s := [])
    rwa [List.append_nil] at h
  have hr : read (text m) = m := read_text
  rw [hk, read_append, hz, List.length_replicate, add_zero] at hr
  exact ⟨k, hk, hr⟩

section

variable (hd : ∀ c ∈ ds, IsDigit c) (hn : ds ≠ []) (hh : ds.head? ≠ some 48)

include hd hn hh

theorem isNumeral_reprParts : IsNumeral (reprParts ds x).1 (reprParts ds x).2.1
    (exponentText (reprParts ds x).2.2) (reprParts ds x).2.2 := by
  have hz {k : ℕ} : ∀ c ∈ List.replicate k (48 : UInt8), IsDigit c := by
    intro c hc
    cases List.eq_of_mem_replicate hc
    decide
  have ha {s t : Bytes} (hs : ∀ c ∈ s, IsDigit c) (ht : ∀ c ∈ t, IsDigit c) :
      ∀ c ∈ s ++ t, IsDigit c := by
    intro c hc
    rcases List.mem_append.mp hc with hc | hc
    case inl => exact hs c hc
    case inr => exact ht c hc
  have ht {k : ℕ} (hk : k ≠ 0) : (ds.take k).head? = some 48 → (ds.take k).length = 1 := by
    rw [List.head?_take, if_neg hk]
    exact fun h => absurd h hh
  have hne {k : ℕ} (hk : k ≠ 0) : ds.take k ≠ [] := by
    rw [ne_eq, List.take_eq_nil_iff]
    exact not_or.mpr ⟨hk, hn⟩
  have he {e : Option ℤ} : IsExponent (exponentText e) e := isExponent_exponentText
  unfold reprParts
  split_ifs with h₁ h₂ h₃
  case pos =>
    exact ⟨fun c hc => hd c <| List.mem_of_mem_take hc, hne (by decide), ht (by decide),
      fun c hc => hd c <| List.mem_of_mem_drop hc, he⟩
  case pos => exact ⟨hz (k := 1), List.cons_ne_nil _ _, fun _ => rfl, ha hz hd, he⟩
  case pos =>
    refine ⟨ha hd hz, by simp [hn], fun h => ?_, hz (k := 1), he⟩
    rw [List.head?_append_of_ne_nil _ hn] at h
    exact absurd h hh
  case neg =>
    exact ⟨fun c hc => hd c <| List.mem_of_mem_take hc, hne (by omega), ht (by omega),
      fun c hc => hd c <| List.mem_of_mem_drop hc, he⟩

omit hd hh in
theorem reprParts_not_integral :
    ((reprParts ds x).2.1.isEmpty && (reprParts ds x).2.2.isNone) = false := by
  unfold reprParts
  split_ifs with h₁ h₂ h₃
  case pos => simp
  case pos => simp [hn]
  case pos => rfl
  case neg =>
    rw [Bool.and_eq_false_iff, List.isEmpty_eq_false_iff, ne_eq, List.drop_eq_nil_iff]
    exact .inl <| by omega

omit hd hh in
theorem read_reprParts :
    (read ((reprParts ds x).1 ++ (reprParts ds x).2.1) : ℚ) *
        10 ^ ((reprParts ds x).2.2.getD 0 - (reprParts ds x).2.1.length) =
      read ds * 10 ^ (x + 1 - ds.length) := by
  have hl : 0 < ds.length := List.length_pos_of_ne_nil hn
  unfold reprParts
  split_ifs with h₁ h₂ h₃ <;> dsimp only
  case pos =>
    rw [List.take_append_drop, List.length_drop, Option.getD_some]
    congr 2
    omega
  case pos =>
    have hr : read ([48] ++ (.replicate (-x - 1).toNat 48 ++ ds)) = read ds := by
      rw [← List.append_assoc]
      exact read_replicate (n := (-x - 1).toNat + 1)
    rw [hr, List.length_append, List.length_replicate, Option.getD_none]
    congr 2
    push_cast
    omega
  case pos =>
    have hz : read (.replicate (x + 1 - ds.length).toNat 48 ++ [48]) = 0 := read_replicate
    have hx : x + 1 - ds.length = ((x + 1 - ds.length).toNat : ℤ) := by omega
    rw [List.append_assoc, read_append, hz, List.length_append, List.length_replicate,
      List.length_singleton, Option.getD_none, hx, zpow_natCast, Int.toNat_natCast, add_zero,
      Nat.cast_one, zero_sub, zpow_neg_one, pow_succ]
    push_cast
    ring
  case neg =>
    rw [List.take_append_drop, List.length_drop, Option.getD_none]
    congr 2
    omega

end

-- The text of a number is that of a decimal number with a point or an exponent which it is the
-- nearest one to.
theorem repr_fin (h : double q = .fin q) : ∃ int frac e,
    IsNumeral int frac (exponentText e) e ∧
    repr (.fin q) = numeral (q < 0) int frac (exponentText e) ∧
    (frac.isEmpty && e.isNone) = false ∧ double (numeralValue (q < 0) int frac e) = .fin q := by
  by_cases h0 : q = 0
  case pos =>
    subst h0
    refine ⟨[48], [48], none, ⟨by decide +kernel, by decide, fun _ => rfl, by decide +kernel,
      isExponent_nil⟩, rfl, rfl, ?_⟩
    have hz : (read ([48] ++ [48]) : ℚ) = 0 := by exact_mod_cast (rfl : read ([48] ++ [48]) = 0)
    rw [numeralValue, hz, mul_zero, zero_mul, double_zero]
  case neg =>
    have hm := shortest_ne_zero h h0
    have hd := denotes_shortest h h0
    rw [repr, if_neg h0]
    generalize shortest q = me at hm hd
    obtain ⟨m, e⟩ := me
    dsimp only at hm hd ⊢
    obtain ⟨k, hk, hr⟩ := stripZeros_text (m := m)
    have hn : stripZeros (text m) ≠ [] := by
      intro hn
      rw [hn] at hr
      exact hm <| by rw [← hr]; exact Nat.zero_mul _
    have hh : (stripZeros <| text m).head? ≠ some 48 := by
      have ht := head?_text hm
      rwa [hk, List.head?_append_of_ne_nil _ hn] at ht
    have hg : ∀ c ∈ stripZeros (text m), IsDigit c :=
      fun c hc => isDigit_of_mem_text <| mem_of_mem_stripZeros hc
    have hl : e + (text m).length - 1 + 1 - (stripZeros <| text m).length = k + e := by
      have hk := congrArg List.length hk
      rw [List.length_append, List.length_replicate] at hk
      omega
    refine ⟨_, _, _, isNumeral_reprParts hg hn hh, rfl, reprParts_not_integral hn, ?_⟩
    rw [numeralValue, mul_assoc, read_reprParts hn, hl, zpow_add₀ (by norm_num), zpow_natCast,
      ← mul_assoc (read _ : ℚ)]
    have hc : (read (stripZeros <| text m) : ℚ) * 10 ^ k = m := by exact_mod_cast hr
    rw [hc]
    simpa [Denotes, signed] using hd

example : repr (double <| 1 / 10) = utf8 "0.1" ∧ repr (double <| 10 ^ 23) = utf8 "1e+23" := by
  decide +kernel

end Floating
