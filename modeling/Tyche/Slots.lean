import Mathlib.Data.List.GetD
import Mathlib.Data.List.Nodup
import Mathlib.Logic.Function.Basic

-- A partial map on numbers as a list with a slot for each of them. Beyond its end all slots are empty.
namespace Slots

variable {κ α : Type*} {l : List (Option α)} {f g : ℕ → Option α} {name : ℕ → κ} {i k m n : ℕ}

def get? (l : List (Option α)) (i : ℕ) : Option α :=
  l.getD i none

-- What the first `n` slots hold, in order, each under the name of its number.
def listing (name : ℕ → κ) (f : ℕ → Option α) (n : ℕ) : List (κ × α) :=
  (List.range n).filterMap fun i => (f i).map (name i, ·)

theorem get?_eq_none (h : l.length ≤ i) : get? l i = none :=
  List.getD_eq_default _ _ h

-- More room changes nothing.
theorem get?_grow : get? (l ++ .replicate k none) = get? l := by
  funext i
  rw [get?, get?]
  by_cases h : i < l.length
  case pos => exact List.getD_append _ _ _ _ h
  case neg =>
    rw [List.getD_append_right _ _ _ _ (Nat.not_lt.mp h), List.getD_eq_default _ _ (Nat.not_lt.mp h)]
    simp [List.getD]

theorem get?_set {v : Option α} (h : i < l.length) :
    get? (l.set i v) = Function.update (get? l) i v := by
  funext j
  rw [get?, List.getD_eq_getElem?_getD, List.getElem?_set, Function.update_apply]
  by_cases hj : i = j
  case pos => simp [hj, hj ▸ h]
  case neg => rw [if_neg hj, if_neg (Ne.symm hj), get?, List.getD_eq_getElem?_getD]

theorem listing_congr (h : ∀ i < n, f i = g i) : listing name f n = listing name g n :=
  List.filterMap_congr fun i hi => by rw [h i (List.mem_range.mp hi)]

theorem listing_of_none (hn : n ≤ m) (h : ∀ i, n ≤ i → f i = none) :
    listing name f m = listing name f n := by
  obtain ⟨k, rfl⟩ := Nat.exists_eq_add_of_le hn
  induction k
  case zero      => rfl
  case succ k hi =>
    rw [listing, ← Nat.add_assoc, List.range_succ, List.filterMap_append, ← listing,
      hi (Nat.le_add_right ..)]
    simp [h (n + k) (Nat.le_add_right ..)]

theorem mem_listing {a : α} {j : κ} :
    (j, a) ∈ listing name f n ↔ ∃ i < n, name i = j ∧ f i = some a := by
  simp only [listing, List.mem_filterMap, List.mem_range, Option.map_eq_some_iff, Prod.mk.injEq]
  constructor
  case mp  => rintro ⟨i, hi, _, hf, hn, rfl⟩; exact ⟨i, hi, hn, hf⟩
  case mpr => rintro ⟨i, hi, hn, hf⟩; exact ⟨i, hi, a, hf, hn, rfl⟩

theorem nodup_listing (h : ∀ i < n, ∀ j < n, name i = name j → i = j) :
    ((listing name f n).map Prod.fst).Nodup := by
  rw [listing, List.map_filterMap, List.Nodup, List.pairwise_filterMap]
  refine List.nodup_range.imp_of_mem ?_
  intro i j hi hj hne k hk k' hk' he
  simp only [Option.map_map, Option.map_eq_some_iff, Function.comp_apply] at hk hk'
  obtain ⟨_, -, rfl⟩ := hk
  obtain ⟨_, -, rfl⟩ := hk'
  exact hne <| h i (List.mem_range.mp hi) j (List.mem_range.mp hj) he

end Slots
