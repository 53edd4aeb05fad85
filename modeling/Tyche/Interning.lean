import Mathlib.Data.List.Basic
import Mathlib.Data.List.Nodup

theorem List.concat_eq_append_cons {α : Type*} {l l₁ l₂ : List α} {a b : α}
    (h : l ++ [b] = l₁ ++ a :: l₂) :
    (l = l₁ ∧ b = a) ∨ ∃ l₃, l = l₁ ++ a :: l₃ ∧ l₂ = l₃ ++ [b] := by
  rcases l₂.eq_nil_or_concat with rfl | ⟨l₃, c, rfl⟩
  case inl =>
    obtain ⟨hl, hb⟩ := List.append_inj' h rfl
    exact .inl ⟨hl, List.head_eq_of_cons_eq hb⟩
  case inr =>
    rw [List.concat_eq_append, ← List.cons_append, ← List.append_assoc] at h
    obtain ⟨hl, hb⟩ := List.append_inj' h rfl
    cases List.head_eq_of_cons_eq hb
    exact .inr ⟨l₃, hl, List.concat_eq_append⟩

theorem List.eraseDups_concat {α : Type*} [DecidableEq α] [BEq α] [LawfulBEq α] {l : List α}
    {a : α} :
    (l ++ [a]).eraseDups = if a ∈ l then l.eraseDups else l.eraseDups ++ [a] := by
  rw [List.eraseDups_append]
  split
  case isTrue h  => simp [List.removeAll, h]
  case isFalse h => simp [List.removeAll, h, List.eraseDups_cons]

-- Keys get identifiers, which are numbered in the order in which the keys first come up.
namespace Interning

-- What is asked for, with the answer.
inductive Event (κ ν : Type*)
  | interned (key : κ) (id : ν)
  | looked (key : κ) (id : ν)
  | resolved (id : ν) (key : κ)

variable {κ ν : Type*}

-- The identifiers that were handed out, with their keys.
def handed : List (Event κ ν) → List (κ × ν)
  | []                    => []
  | .interned k id :: log => (k, id) :: handed log
  | _ :: log              => handed log

-- The keys with their identifiers in the order of the numbers.
def numbered (number : ℕ → ν) (keys : List κ) : List (κ × ν) :=
  keys.mapIdx fun i k => (k, number i)

variable {number : ℕ → ν} {missing id : ν} {blank k : κ} {e : Event κ ν} {l log : List (Event κ ν)}

theorem handed_append : handed (l ++ log) = handed l ++ handed log := by
  induction l
  case nil         => rfl
  case cons e l hi =>
    cases e
    case interned   => exact congrArg _ hi
    all_goals exact hi

variable [DecidableEq κ] [DecidableEq ν]

-- The keys in the order in which they were first interned.
def keys (log : List (Event κ ν)) : List κ :=
  ((handed log).map Prod.fst).eraseDups

-- What is answered fits what was handed out before.
structure Truthful (missing : ν) (blank : κ) (log : List (Event κ ν)) : Prop where
  found   : ∀ l k id l', log = l ++ .looked k id :: l' →
    (id ≠ missing ↔ ∃ j, (k, j) ∈ handed l) ∧ ∀ j, (k, j) ∈ handed l → id = j
  known   : ∀ l id k l', log = l ++ .resolved id k :: l' → ∀ j, (j, id) ∈ handed l → k = j
  unknown : ∀ l id k l', log = l ++ .resolved id k :: l' → (∀ j, (j, id) ∉ handed l) → k = blank

-- A log says the same of a key and of an identifier from beginning to end.
structure Stable (number : ℕ → ν) (missing : ν) (blank : κ) (log : List (Event κ ν)) : Prop extends
    Truthful missing blank log where
  ids    : (handed log).eraseDups = numbered number (keys log)
  unique : ∀ e ∈ handed log, ∀ f ∈ handed log, e.1 = f.1 ↔ e.2 = f.2
  valid  : ∀ e ∈ handed log, e.2 ≠ missing

omit [DecidableEq κ] [DecidableEq ν] in
theorem Truthful.concat (h : Truthful missing blank log)
    (hf : ∀ k id, e = .looked k id →
      (id ≠ missing ↔ ∃ j, (k, j) ∈ handed log) ∧ ∀ j, (k, j) ∈ handed log → id = j)
    (hn : ∀ id k, e = .resolved id k → ∀ j, (j, id) ∈ handed log → k = j)
    (hu : ∀ id k, e = .resolved id k → (∀ j, (j, id) ∉ handed log) → k = blank) :
    Truthful missing blank (log ++ [e]) := by
  constructor
  case found =>
    intro l k id l' he
    rcases List.concat_eq_append_cons he with ⟨rfl, rfl⟩ | ⟨l₃, he, -⟩
    case inl => exact hf k id rfl
    case inr => exact h.found l k id l₃ he
  case known =>
    intro l id k l' he
    rcases List.concat_eq_append_cons he with ⟨rfl, rfl⟩ | ⟨l₃, he, -⟩
    case inl => exact hn id k rfl
    case inr => exact h.known l id k l₃ he
  case unknown =>
    intro l id k l' he
    rcases List.concat_eq_append_cons he with ⟨rfl, rfl⟩ | ⟨l₃, he, -⟩
    case inl => exact hu id k rfl
    case inr => exact h.unknown l id k l₃ he

omit [DecidableEq ν] in
theorem mem_keys : k ∈ keys log ↔ ∃ id, (k, id) ∈ handed log := by
  rw [keys, List.mem_eraseDups, List.mem_map]
  exact ⟨fun ⟨e, he, hk⟩ => ⟨e.2, hk ▸ he⟩, fun ⟨id, hm⟩ => ⟨_, hm, rfl⟩⟩

namespace Stable

theorem nil : Stable number missing blank ([] : List (Event κ ν)) where
  ids               := rfl
  unique            := nofun
  valid             := nofun
  found l _ _ _ h   := by cases l <;> cases h
  known l _ _ _ h   := by cases l <;> cases h
  unknown l _ _ _ h := by cases l <;> cases h

variable (h : Stable number missing blank log)
include h

theorem mem_handed : (k, id) ∈ handed log ↔ ∃ i, (keys log)[i]? = some k ∧ number i = id := by
  rw [← List.mem_eraseDups, h.ids, numbered, List.mem_mapIdx]
  constructor
  case mp =>
    rintro ⟨i, hi, he⟩
    obtain ⟨rfl, rfl⟩ := Prod.mk.inj he
    exact ⟨i, List.getElem?_eq_getElem hi, rfl⟩
  case mpr =>
    rintro ⟨i, hk, rfl⟩
    obtain ⟨hi, rfl⟩ := List.getElem?_eq_some_iff.mp hk
    exact ⟨i, hi, rfl⟩

-- Nothing new is handed out.
theorem of_handed (hh : (handed (log ++ [e])).eraseDups = (handed log).eraseDups)
    (hk : keys (log ++ [e]) = keys log) (ht : Truthful missing blank (log ++ [e])) :
    Stable number missing blank (log ++ [e]) := by
  have hm : ∀ p, p ∈ handed (log ++ [e]) ↔ p ∈ handed log := by
    intro p
    rw [← List.mem_eraseDups, hh, List.mem_eraseDups]
  refine ⟨ht, ?_, ?_, ?_⟩
  case refine_1 => rw [hh, hk, h.ids]
  case refine_2 =>
    simp only [hm]
    exact h.unique
  case refine_3 =>
    simp only [hm]
    exact h.valid

theorem looked (hk : k ∈ keys log → (k, id) ∈ handed log) (hn : k ∉ keys log → id = missing) :
    Stable number missing blank (log ++ [.looked k id]) := by
  have hl : handed (log ++ [.looked k id]) = handed log := by
    rw [handed_append]
    exact List.append_nil _
  refine h.of_handed (by rw [hl]) (by rw [keys, hl, keys]) <| h.toTruthful.concat ?_ nofun nofun
  rintro _ _ ⟨⟩
  constructor
  case left  =>
    rw [← mem_keys]
    exact ⟨not_imp_comm.mp hn, fun hm => h.valid _ (hk hm)⟩
  case right =>
    intro j hj
    exact (h.unique _ (hk <| mem_keys.mpr ⟨j, hj⟩) _ hj).mp rfl

theorem resolved (hk : ∀ j, (j, id) ∈ handed log → k = j)
    (hn : (∀ j, (j, id) ∉ handed log) → k = blank) :
    Stable number missing blank (log ++ [.resolved id k]) := by
  have hl : handed (log ++ [.resolved id k]) = handed log := by
    rw [handed_append]
    exact List.append_nil _
  refine h.of_handed (by rw [hl]) (by rw [keys, hl, keys]) <| h.toTruthful.concat nofun ?_ ?_
  all_goals rintro _ _ ⟨⟩
  case refine_1 => exact hk
  case refine_2 => exact hn

-- A key is interned again.
theorem again (hm : (k, id) ∈ handed log) :
    Stable number missing blank (log ++ [.interned k id]) ∧
      keys (log ++ [.interned k id]) = keys log := by
  have hl : handed (log ++ [.interned k id]) = handed log ++ [(k, id)] := handed_append
  have hk : keys (log ++ [.interned k id]) = keys log := by
    rw [keys, hl, List.map_append]
    exact List.eraseDups_concat.trans <| if_pos <| List.mem_map_of_mem hm
  refine ⟨h.of_handed ?_ hk <| h.toTruthful.concat nofun nofun nofun, hk⟩
  rw [hl]
  exact List.eraseDups_concat.trans <| if_pos hm

-- A new key gets the next number.
theorem new (hk : k ∉ keys log) (hn : number (keys log).length ≠ missing)
    (hf : ∀ i < (keys log).length, number i ≠ number (keys log).length) :
    Stable number missing blank (log ++ [.interned k (number (keys log).length)]) ∧
      keys (log ++ [.interned k (number (keys log).length)]) = keys log ++ [k] := by
  set id := number (keys log).length with hid
  have hl : handed (log ++ [.interned k id]) = handed log ++ [(k, id)] := handed_append
  have hh : ∀ p ∈ handed log, p.1 ≠ k := fun p hp he => hk <| mem_keys.mpr ⟨p.2, he ▸ hp⟩
  have hi : ∀ p ∈ handed log, p.2 ≠ id := by
    intro p hp he
    obtain ⟨i, hi, hn⟩ := h.mem_handed.mp hp
    exact hf i (List.getElem?_eq_some_iff.mp hi).choose <| hn.trans he
  have hs : keys (log ++ [.interned k id]) = keys log ++ [k] := by
    rw [keys, hl, List.map_append]
    refine List.eraseDups_concat.trans <| if_neg fun hm => ?_
    exact hk <| List.mem_eraseDups.mpr hm
  refine ⟨⟨h.toTruthful.concat nofun nofun nofun, ?_, ?_, ?_⟩, hs⟩
  case refine_1 =>
    rw [hl, hs, List.eraseDups_concat, if_neg fun hm => hh _ hm rfl, h.ids, numbered, numbered,
      List.mapIdx_concat]
  case refine_2 =>
    rw [hl]
    intro e he f hf
    rcases List.mem_append.mp he with he | he <;> rcases List.mem_append.mp hf with hf | hf
    case inl.inl => exact h.unique e he f hf
    case inl.inr =>
      cases List.mem_singleton.mp hf
      exact iff_of_false (hh e he) (hi e he)
    case inr.inl =>
      cases List.mem_singleton.mp he
      exact iff_of_false (hh f hf).symm (hi f hf).symm
    case inr.inr =>
      cases List.mem_singleton.mp he
      cases List.mem_singleton.mp hf
      exact iff_of_true rfl rfl
  case refine_3 =>
    rw [hl]
    intro e he
    rcases List.mem_append.mp he with he | he
    case inl => exact h.valid e he
    case inr => exact List.mem_singleton.mp he ▸ hn

end Stable

end Interning
