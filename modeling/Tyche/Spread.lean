import Mathlib.Data.List.Perm.Basic
import Mathlib.Data.Set.Basic

-- Things that are spread over places. Each of them is in one place only, and only once.
structure Spread {α κ : Type*} (things : Set α) (place : κ → List α) : Prop where
  once  : ∀ k, (place k).Nodup
  alone : ∀ j k a, a ∈ place j → a ∈ place k → j = k
  all   : ∀ a, a ∈ things ↔ ∃ k, a ∈ place k

namespace Spread

variable {α κ : Type*} {things : Set α} {place place' : κ → List α} {j k : κ} {a : α} {l : List α}

theorem perm (h : Spread things place) (hp : ∀ k, (place' k).Perm (place k)) :
    Spread things place' where
  once k            := (hp k).nodup_iff.mpr (h.once k)
  alone j k a hj hk := h.alone j k a ((hp j).mem_iff.mp hj) ((hp k).mem_iff.mp hk)
  all a             := by simp only [h.all a, (hp _).mem_iff]

-- A thing is moved from one place to another.
theorem move (h : Spread things place) (hn : j ≠ k) (hl : place j = a :: l) (hj : place' j = l)
    (hk : place' k = a :: place k) (ho : ∀ i, i ≠ j → i ≠ k → place' i = place i) :
    Spread things place' := by
  classical
  have ha : a ∈ place j := hl ▸ .head _
  have hd := h.once j
  rw [hl, List.nodup_cons] at hd
  have hm : ∀ i b, b ∈ place' i ↔ if b = a then i = k else b ∈ place i := by
    intro i b
    by_cases hij : i = j
    case pos =>
      rw [hij, hj, hl]
      split
      case isTrue hb  => exact iff_of_false (hb ▸ hd.left) hn
      case isFalse hb => rw [List.mem_cons, or_iff_right hb]
    case neg =>
      by_cases hik : i = k
      case pos =>
        rw [hik, hk, List.mem_cons]
        split
        case isTrue hb  => exact iff_of_true (.inl hb) rfl
        case isFalse hb => exact or_iff_right hb
      case neg =>
        rw [ho i hij hik]
        split
        case isTrue hb  => exact iff_of_false (fun hi => hij <| h.alone i j a (hb ▸ hi) ha) hik
        case isFalse hb => rfl
  refine ⟨fun i => ?_, fun i i' b hi hi' => ?_, fun b => ?_⟩
  case refine_1 =>
    by_cases hij : i = j
    case pos => exact hij ▸ hj ▸ hd.right
    case neg =>
      by_cases hik : i = k
      case pos =>
        rw [hik, hk]
        exact List.nodup_cons.mpr ⟨fun hm => hn <| h.alone j k a ha hm, h.once k⟩
      case neg => exact ho i hij hik ▸ h.once i
  case refine_2 =>
    rw [hm] at hi hi'
    split at hi
    case isTrue hb  => rw [if_pos hb] at hi'; rw [hi, hi']
    case isFalse hb => rw [if_neg hb] at hi'; exact h.alone i i' b hi hi'
  case refine_3 =>
    rw [h.all b]
    simp only [hm]
    split
    case isTrue hb  => exact iff_of_true ⟨j, hb ▸ ha⟩ ⟨k, rfl⟩
    case isFalse hb => rfl

end Spread
