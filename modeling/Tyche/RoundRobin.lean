import Mathlib.Data.Int.CardIntervalMod
import Mathlib.Data.List.Nodup

namespace RoundRobin

variable {α : Type*} {hs ms ms' : List α} {r r₁ r₂ : ℕ} {m h : α}

-- The elements `ms` of `hs` take turns one after the other. The index is `r` before them, and is
-- reduced when it is used.
inductive Turns (hs : List α) (r : ℕ) : List α → ℕ → Prop
  | nil : Turns hs r [] r
  | concat {ms : List α} {r₁ : ℕ} {m : α} : Turns hs r ms r₁ → hs[r₁ % hs.length]? = some m →
      Turns hs r (ms ++ [m]) (r₁ % hs.length + 1)

-- No element has two turns more than another one.
def Fair [DecidableEq α] (hs ms : List α) : Prop :=
  ∀ h ∈ hs, ms.count h = ms.length / hs.length ∨
    ms.count h = (ms.length + hs.length - 1) / hs.length

instance [DecidableEq α] : Decidable (Fair hs ms) :=
  inferInstanceAs <| Decidable (∀ h ∈ hs, _)

theorem mod_eq_iff {n i j : ℕ} (hj : j < n) :
    (r + i) % n = j ↔ i ≡ j + (n - r % n) [MOD n] := by
  have hr : r + (n - r % n) ≡ 0 [MOD n] := by
    have hl := (Nat.mod_lt r (Nat.zero_lt_of_lt hj)).le
    calc r + (n - r % n) ≡ r % n + (n - r % n) [MOD n] := (Nat.mod_modEq r n).symm.add_right _
      _ = n                                            := Nat.add_sub_cancel' hl
      _ ≡ 0 [MOD n]                                    := Nat.modEq_zero_iff_dvd.mpr dvd_rfl
  constructor
  case mp =>
    rintro rfl
    calc i ≡ r + (n - r % n) + i [MOD n]       := by simpa using (hr.add_right i).symm
      _ = r + i + (n - r % n)                  := Nat.add_right_comm ..
      _ ≡ (r + i) % n + (n - r % n) [MOD n]    := (Nat.mod_modEq _ n).symm.add_right _
  case mpr =>
    intro hi
    have hm : r + i ≡ j [MOD n] := calc
      r + i ≡ r + (j + (n - r % n)) [MOD n] := hi.add_left r
      _ = r + (n - r % n) + j               := by omega
      _ ≡ j [MOD n]                         := by simpa using hr.add_right j
    exact Nat.mod_eq_of_modEq hm hj

theorem succ_div_eq {n k : ℕ} (hn : 0 < n) (hk : 0 < k % n) : k / n + 1 = (k + n - 1) / n := by
  have h : k + n - 1 = k % n - 1 + n * (k / n + 1) := by
    have hm := Nat.mod_add_div k n
    rw [Nat.mul_add, Nat.mul_one]
    omega
  have hl : k % n - 1 < n := Nat.sub_lt_of_lt <| Nat.mod_lt k hn
  rw [h, Nat.add_mul_div_left _ _ hn, Nat.div_eq_of_lt hl, Nat.zero_add]

namespace Turns

theorem single (h : hs[r % hs.length]? = some m) : Turns hs r [m] (r % hs.length + 1) :=
  .concat .nil h

theorem trans (t : Turns hs r ms r₁) (t' : Turns hs r₁ ms' r₂) : Turns hs r (ms ++ ms') r₂ := by
  induction t'
  case nil         => exact (List.append_nil ms).symm ▸ t
  case concat h t' => exact List.append_assoc .. ▸ t'.concat h

theorem index (t : Turns hs r ms r₁) : r₁ ≡ r + ms.length [MOD hs.length] := by
  induction t
  case nil => rfl
  case concat hi =>
    rw [List.length_append, List.length_singleton, ← Nat.add_assoc]
    exact ((Nat.mod_modEq _ _).trans hi).add_right 1

-- An element has its turn when the index is congruent to its place.
theorem count_eq [DecidableEq α] (hd : hs.Nodup) {j : ℕ} (hj : hs[j]? = some h)
    (t : Turns hs r ms r₁) :
    ms.count h = ms.length.count fun i => (r + i) % hs.length = j := by
  induction t
  case nil => rfl
  case concat ms r₁ m t hm hi =>
    have hl := (List.getElem?_eq_some_iff.mp hm).1
    have he : m = h ↔ (r + ms.length) % hs.length = j := by
      rw [← t.index]
      constructor
      case mp  => exact fun he => (List.getElem?_inj hl hd).mp <| by rw [hm, hj, he]
      case mpr => exact fun he => Option.some.inj <| hm.symm.trans <| he ▸ hj
    rw [List.count_append, List.count_singleton, List.length_append, List.length_singleton,
      Nat.count_succ, hi]
    exact congrArg _ <| if_congr (beq_iff_eq.trans he) rfl rfl

theorem fair [DecidableEq α] (hd : hs.Nodup) (t : Turns hs r ms r₁) : Fair hs ms := by
  intro h hm
  obtain ⟨j, hj, rfl⟩ := List.getElem_of_mem hm
  rw [t.count_eq hd (List.getElem?_eq_getElem hj)]
  simp only [mod_eq_iff hj, Nat.count_modEq_card _ (Nat.zero_lt_of_lt hj)]
  split
  case isFalse   => exact .inl rfl
  case isTrue hl => exact .inr <| succ_div_eq (Nat.zero_lt_of_lt hj) <| Nat.zero_lt_of_lt hl

-- Where no turn is taken, the elements need not differ.
theorem fair_of [DecidableEq α] (hd : ms ≠ [] → hs.Nodup) (t : Turns hs r ms r₁) : Fair hs ms := by
  by_cases hm : ms = []
  case neg => exact t.fair <| hd hm
  case pos =>
    intro h _
    rw [hm, List.count_nil, List.length_nil, Nat.zero_div]
    exact .inl rfl

end Turns

end RoundRobin
