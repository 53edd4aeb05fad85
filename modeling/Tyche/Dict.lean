import Mathlib.Data.List.Nodup
import Mathlib.Data.List.Perm.Basic

theorem List.lookup_eq_none_iff_not_mem {κ υ : Type*} [BEq κ] [LawfulBEq κ] {l : List (κ × υ)}
    {k : κ} : l.lookup k = none ↔ k ∉ l.map Prod.fst := by
  rw [List.lookup_eq_none_iff]
  constructor
  case mp =>
    intro h hm
    obtain ⟨e, he, hk⟩ := List.mem_map.mp hm
    simpa [hk] using h e he
  case mpr =>
    intro h e he
    simpa using fun hk : k = e.1 => h <| hk ▸ List.mem_map.mpr ⟨e, he, rfl⟩

theorem List.lookup_cons_ite {κ υ : Type*} [BEq κ] [LawfulBEq κ] [DecidableEq κ] {j k : κ} {v : υ}
    {l : List (κ × υ)} : ((k, v) :: l).lookup j = if j = k then some v else l.lookup j := by
  rw [List.lookup_cons]
  by_cases h : j = k
  case pos => rw [if_pos h, h, beq_self_eq_true]
  case neg => rw [if_neg h, beq_false_of_ne h]

theorem List.mem_of_lookup_eq_some {κ υ : Type*} [BEq κ] [LawfulBEq κ] {k : κ} {v : υ}
    {l : List (κ × υ)} (h : l.lookup k = some v) : (k, v) ∈ l := by
  obtain ⟨_, _, rfl, -⟩ := List.lookup_eq_some_iff.mp h
  exact List.mem_append_right _ List.mem_cons_self

theorem List.lookup_map_snd {κ υ υ' : Type*} [BEq κ] {k : κ} {f : υ → υ'} {l : List (κ × υ)} :
    (l.map fun e => (e.1, f e.2)).lookup k = (l.lookup k).map f := by
  induction l
  case nil         => rfl
  case cons e l hi =>
    rw [List.map_cons, List.lookup_cons, List.lookup_cons, hi]
    split <;> rfl

-- A dictionary that iterates over its entries in the order in which their keys were first added.
-- An `AList` does not, as it moves the entry of a known key to the front when it is set again.
@[ext]
structure Dict (κ υ : Type*) where
  entries : List (κ × υ)
  nodup   : (entries.map Prod.fst).Nodup
deriving DecidableEq

namespace Dict

variable {κ υ υ' : Type*}

def keys (d : Dict κ υ) : List κ :=
  d.entries.map Prod.fst

instance : Membership κ (Dict κ υ) where
  mem d k := k ∈ d.keys

instance : EmptyCollection (Dict κ υ) where
  emptyCollection := ⟨[], .nil⟩

def mapVal (d : Dict κ υ) (f : υ → υ') : Dict κ υ' where
  entries := d.entries.map fun e => (e.1, f e.2)
  nodup   := by simpa [List.map_map, Function.comp_def] using d.nodup

theorem keys_nodup (d : Dict κ υ) : d.keys.Nodup :=
  d.nodup

theorem mem_def {d : Dict κ υ} {k : κ} : k ∈ d ↔ k ∈ d.keys :=
  Iff.rfl

variable [DecidableEq κ]

instance {d : Dict κ υ} {k : κ} : Decidable (k ∈ d) :=
  inferInstanceAs <| Decidable (k ∈ d.keys)

def get? (d : Dict κ υ) (k : κ) : Option υ :=
  d.entries.lookup k

def getD (d : Dict κ υ) (k : κ) (v : υ) : υ :=
  (d.get? k).getD v

theorem nodup_set_entries {es : List (κ × υ)} {k : κ} {v : υ} (h : (es.map Prod.fst).Nodup) :
    ((es.map fun e => if e.1 = k then (k, v) else e).map Prod.fst).Nodup := by
  have he : Prod.fst ∘ (fun e : κ × υ => if e.1 = k then (k, v) else e) = Prod.fst := by
    funext e
    simp only [Function.comp_apply]
    split <;> simp_all
  rwa [List.map_map, he]

def set (d : Dict κ υ) (k : κ) (v : υ) : Dict κ υ :=
  if h : k ∈ d.keys then
    ⟨d.entries.map fun e => if e.1 = k then (k, v) else e, nodup_set_entries d.nodup⟩
  else
    ⟨d.entries ++ [(k, v)], by
      rw [List.map_append]
      exact d.nodup.append (List.nodup_singleton _) (List.disjoint_singleton.mpr h)⟩

def erase (d : Dict κ υ) (k : κ) : Dict κ υ where
  entries := d.entries.filter (·.1 ≠ k)
  nodup   := d.nodup.sublist <| List.filter_sublist.map _

variable {d : Dict κ υ} {k j : κ} {v w : υ}

theorem get?_eq_some_iff : d.get? k = some v ↔ (k, v) ∈ d.entries := by
  obtain ⟨es, h⟩ := d
  simp only [get?]
  induction es
  case nil => simp
  case cons e es hi =>
    obtain ⟨i, u⟩ := e
    rw [List.map_cons, List.nodup_cons] at h
    rw [List.lookup_cons, List.mem_cons, Prod.mk.injEq]
    by_cases hk : k = i
    case neg => simp [hk, beq_false_of_ne hk, hi h.right]
    case pos =>
      subst hk
      have hn : (k, v) ∉ es := fun hm => h.left <| List.mem_map.mpr ⟨_, hm, rfl⟩
      simp [hn, eq_comm]

theorem get?_eq_none_iff : d.get? k = none ↔ k ∉ d := by
  simp only [Option.eq_none_iff_forall_ne_some, ne_eq, get?_eq_some_iff, mem_def, keys,
    List.mem_map, not_exists, not_and, Prod.forall]
  exact ⟨fun h _ v hm e => h v (e ▸ hm), fun h v hm => h k v hm rfl⟩

theorem mem_iff : k ∈ d ↔ ∃ v, d.get? k = some v := by
  rw [← not_iff_not, ← get?_eq_none_iff, Option.eq_none_iff_forall_ne_some, not_exists]

theorem mem_of_get? (h : d.get? k = some v) : k ∈ d :=
  mem_iff.mpr ⟨v, h⟩

@[simp]
theorem get?_empty : (∅ : Dict κ υ).get? k = none :=
  rfl

@[simp]
theorem not_mem_empty : k ∉ (∅ : Dict κ υ) :=
  get?_eq_none_iff.mp rfl

theorem get?_set : (d.set k v).get? j = if j = k then some v else d.get? j := by
  apply Option.ext
  intro w
  rw [get?_eq_some_iff, set]
  split
  case isTrue h =>
    simp only [List.mem_map, Prod.exists]
    have ⟨⟨_, u⟩, hu, hk⟩ := List.mem_map.mp h
    split
    case isTrue hj =>
      subst hj
      constructor
      · rintro ⟨i, x, hm, he⟩
        split at he <;> simp_all
      · rintro ⟨⟩
        exact ⟨j, u, hk ▸ hu, if_pos rfl⟩
    case isFalse hj =>
      rw [get?_eq_some_iff]
      constructor
      · rintro ⟨i, x, hm, he⟩
        split at he <;> simp_all
      · exact fun hm => ⟨j, w, hm, if_neg hj⟩
  case isFalse h =>
    simp only [List.mem_append, List.mem_singleton, Prod.mk.injEq]
    split
    case isTrue hj =>
      subst hj
      have hn : (j, w) ∉ d.entries := fun hm => h <| List.mem_map.mpr ⟨_, hm, rfl⟩
      simp [hn, eq_comm]
    case isFalse hj => simp [hj, get?_eq_some_iff]

@[simp]
theorem get?_set_self : (d.set k v).get? k = some v := by
  rw [get?_set, if_pos rfl]

theorem get?_set_ne (h : j ≠ k) : (d.set k v).get? j = d.get? j := by
  rw [get?_set, if_neg h]

theorem get?_erase : (d.erase k).get? j = if j = k then none else d.get? j := by
  apply Option.ext
  intro w
  rw [get?_eq_some_iff, erase]
  simp only [List.mem_filter, ne_eq, decide_not, Bool.not_eq_eq_eq_not, Bool.not_true,
    decide_eq_false_iff_not]
  split
  case isTrue hj  => simp [hj]
  case isFalse hj => simp [hj, get?_eq_some_iff]

@[simp]
theorem get?_erase_self : (d.erase k).get? k = none := by
  rw [get?_erase, if_pos rfl]

theorem get?_erase_ne (h : j ≠ k) : (d.erase k).get? j = d.get? j := by
  rw [get?_erase, if_neg h]

theorem mem_of_mem_erase (h : v ∈ (d.erase k).get? j) : v ∈ d.get? j := by
  rw [get?_erase] at h
  split at h
  case isTrue  => cases h
  case isFalse => exact h

theorem set_entries_of_mem (h : k ∈ d) :
    (d.set k v).entries = d.entries.map fun e => if e.1 = k then (k, v) else e := by
  rw [set, dif_pos (mem_def.mp h)]

theorem set_entries_of_not_mem (h : k ∉ d) : (d.set k v).entries = d.entries ++ [(k, v)] := by
  rw [set, dif_neg (mem_def.not.mp h)]

theorem set_of_get? (h : d.get? k = some v) : d.set k v = d := by
  have hm := get?_eq_some_iff.mp h
  apply Dict.ext
  rw [set_entries_of_mem (mem_of_get? h)]
  refine (List.map_congr_left fun e he => ?_).trans <| List.map_id _
  split
  case isTrue hk  => exact (List.inj_on_of_nodup_map d.nodup he hm hk).symm
  case isFalse hk => rfl

theorem set_set : (d.set k v).set k w = d.set k w := by
  have hs : k ∈ d.set k v := mem_of_get? get?_set_self
  apply Dict.ext
  rw [set_entries_of_mem hs]
  by_cases hk : k ∈ d
  case pos =>
    rw [set_entries_of_mem hk, set_entries_of_mem hk, List.map_map]
    refine List.map_congr_left fun e _ => ?_
    simp only [Function.comp_apply]
    split <;> simp_all
  case neg =>
    have hn : ∀ e ∈ d.entries, (if e.1 = k then (k, w) else e) = e :=
      fun e hm => if_neg fun he => hk <| List.mem_map.mpr ⟨e, hm, he⟩
    rw [set_entries_of_not_mem hk, set_entries_of_not_mem hk, List.map_append,
      List.map_congr_left hn]
    simp

-- Entries with new keys follow in their order.
theorem entries_foldl_set {l : List (κ × υ)} (h : ((d.entries ++ l).map Prod.fst).Nodup) :
    (l.foldl (fun d e => d.set e.1 e.2) d).entries = d.entries ++ l := by
  induction l generalizing d
  case nil         => rw [List.foldl_nil, List.append_nil]
  case cons e l hi =>
    have hk : e.1 ∉ d := by
      rw [List.map_append, List.map_cons] at h
      exact fun hm => (List.disjoint_of_nodup_append h) hm List.mem_cons_self
    have he : (d.set e.1 e.2).entries = d.entries ++ [e] := set_entries_of_not_mem hk
    rw [List.foldl_cons, hi, he, List.append_assoc, List.singleton_append]
    rwa [he, List.append_assoc, List.singleton_append]

theorem mem_entries_foldl_set {l : List (κ × υ)} {e : κ × υ}
    (h : e ∈ (l.foldl (fun d e => d.set e.1 e.2) d).entries) : e ∈ d.entries ∨ e ∈ l := by
  induction l generalizing d
  case nil         => exact .inl h
  case cons f l hi =>
    rcases hi h with h | h
    case inr => exact .inr <| .tail _ h
    case inl =>
      obtain ⟨k, v⟩ := e
      rw [← get?_eq_some_iff, get?_set] at h
      split at h
      case isTrue hk  =>
        cases h
        exact .inr <| hk ▸ .head _
      case isFalse hk => exact .inl <| get?_eq_some_iff.mp h

theorem erase_of_not_mem (h : k ∉ d) : d.erase k = d := by
  apply Dict.ext
  rw [erase, List.filter_eq_self]
  exact fun e hm => decide_eq_true fun he => h <| List.mem_map.mpr ⟨e, hm, he⟩

theorem get?_foldl_erase {l : List κ} :
    (l.foldl erase d).get? j = if j ∈ l then none else d.get? j := by
  induction l generalizing d
  case nil          => rfl
  case cons k l hi =>
    rw [List.foldl_cons, hi, get?_erase]
    simp only [List.mem_cons]
    split <;> split <;> simp_all

@[simp]
theorem get?_mapVal {f : υ → υ'} : (d.mapVal f).get? k = (d.get? k).map f := by
  apply Option.ext
  intro w
  simp only [get?_eq_some_iff, Option.map_eq_some_iff, mapVal, List.mem_map, Prod.mk.injEq,
    Prod.exists]
  exact ⟨fun ⟨_, u, hm, hk, hw⟩ => ⟨u, hk ▸ hm, hw⟩, fun ⟨u, hm, hw⟩ => ⟨k, u, hm, rfl, hw⟩⟩

@[simp]
theorem mem_set : j ∈ d.set k v ↔ j = k ∨ j ∈ d := by
  simp only [mem_iff, get?_set]
  split <;> simp_all

@[simp]
theorem mem_erase : j ∈ d.erase k ↔ j ≠ k ∧ j ∈ d := by
  simp only [mem_iff, get?_erase]
  split <;> simp_all

@[simp]
theorem mem_mapVal {f : υ → υ'} : k ∈ d.mapVal f ↔ k ∈ d := by
  simp [mem_iff]

section Lists

variable {α : Type*} {d : Dict κ (List α)} {l : List α} {a : α}

-- No list of the table has an element twice.
def Distinct (d : Dict κ (List α)) : Prop :=
  ∀ k, (d.getD k []).Nodup

theorem distinct_empty : (∅ : Dict κ (List α)).Distinct :=
  fun _ => List.nodup_nil

theorem Distinct.set (h : d.Distinct) (hl : l.Nodup) : (d.set k l).Distinct := by
  intro j
  rw [getD, get?_set]
  split
  case isTrue  => exact hl
  case isFalse => exact h j

theorem Distinct.add [DecidableEq α] (h : d.Distinct) :
    (d.set k <| if a ∈ d.getD k [] then d.getD k [] else d.getD k [] ++ [a]).Distinct := by
  refine h.set ?_
  split
  case isTrue     => exact h k
  case isFalse hm => exact List.Nodup.append (h k) (List.nodup_singleton a) <| by simpa using hm

theorem Distinct.filter {p : α → Bool} (h : d.Distinct) : (d.mapVal (·.filter p)).Distinct := by
  intro j
  have hj := h j
  rw [getD] at hj ⊢
  rw [get?_mapVal]
  cases hd : d.get? j
  case none   => exact List.nodup_nil
  case some l =>
    rw [hd] at hj
    exact hj.filter p

end Lists

end Dict
