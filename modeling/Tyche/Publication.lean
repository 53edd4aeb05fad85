import Mathlib.Data.List.Infix
import Mathlib.Data.List.Nodup
import Mathlib.Logic.Function.Basic
import Mathlib.Order.Basic

-- Publishers take versions of some data, which are numbered in the order in which they are taken,
-- and write them to the same places one after the other.
@[ext]
structure Publication (ι π : Type*) where
  latest  : ℕ
  value   : π → ℕ
  version : ι → ℕ
  left    : ι → List π

namespace Publication

variable {ι π : Type*} {s : Publication ι π} {i : ι} {p q : π} {ps places : List π}

def start : Publication ι π where
  latest    := 0
  value _   := 0
  version _ := 0
  left _    := []

-- Some publisher of an older version has yet to write what the publisher writes.
def Overtakes (s : Publication ι π) (i : ι) (p : π) : Prop :=
  ∃ j, p ∈ s.left j ∧ s.version j < s.version i

-- A publisher has newer data than the places that it has yet to write, and no newer data than the
-- others. What one place has and another one does not have yet is on its way there.
structure Ordered (places : List π) (s : Publication ι π) : Prop where
  value_le   : ∀ p, s.value p ≤ s.latest
  version_le : ∀ i, s.version i ≤ s.latest
  suffix     : ∀ i, s.left i <:+ places
  le_version : ∀ i, ∀ p ∈ s.left i, s.value p ≤ s.version i
  le_value   : ∀ i, ∀ p ∉ s.left i, s.version i ≤ s.value p
  follows    : ∀ p q, s.value p ≤ s.value q ∨
    ∃ i, s.version i = s.value p ∧ p ∉ s.left i ∧ q ∈ s.left i

theorem Ordered.start : (start : Publication ι π).Ordered places where
  value_le _     := le_refl _
  version_le _   := le_refl _
  suffix _       := List.nil_suffix
  le_version _ _ := nofun
  le_value _ _ _ := le_refl _
  follows _ _    := .inl <| le_refl _

-- When all publishers are done, all places have the same version.
theorem Ordered.value_eq (h : s.Ordered places) (hd : ∀ i, s.left i = []) :
    s.value p = s.value q := by
  have hle (p q : π) : s.value p ≤ s.value q := by
    rcases h.follows p q with hle | ⟨i, _, _, hq⟩
    case inl => exact hle
    case inr => rw [hd] at hq; cases hq
  exact (hle p q).antisymm (hle q p)

variable [DecidableEq ι]

def take (s : Publication ι π) (places : List π) (i : ι) : Publication ι π :=
  { s with
    latest  := s.latest + 1
    version := Function.update s.version i (s.latest + 1)
    left    := Function.update s.left i places }

def giveUp (s : Publication ι π) (i : ι) : Publication ι π :=
  { s with
    version := Function.update s.version i 0
    left    := Function.update s.left i [] }

theorem Ordered.take (h : s.Ordered places) (hp : ∀ p, p ∈ places) (hi : s.left i = []) :
    (s.take places i).Ordered places where
  value_le p := (h.value_le p).trans <| Nat.le_succ _
  version_le := (Function.forall_update_iff s.version fun _ n => n ≤ s.latest + 1).mpr
    ⟨le_refl _, fun j _ => (h.version_le j).trans <| Nat.le_succ _⟩
  suffix     := (Function.forall_update_iff s.left fun _ l => l <:+ places).mpr
    ⟨List.suffix_refl _, fun j _ => h.suffix j⟩
  le_version j p hj := by
    by_cases hji : j = i
    case pos => simpa [Publication.take, hji] using (h.value_le p).trans <| Nat.le_succ _
    case neg =>
      simp only [Publication.take, Function.update_of_ne hji] at hj ⊢
      exact h.le_version j p hj
  le_value j p hj := by
    by_cases hji : j = i
    case pos => simp [Publication.take, hji, hp] at hj
    case neg =>
      simp only [Publication.take, Function.update_of_ne hji] at hj ⊢
      exact h.le_value j p hj
  follows p q := by
    refine (h.follows p q).imp_right ?_
    rintro ⟨j, hv, hn, hm⟩
    have hji : j ≠ i := fun e => by rw [e, hi] at hm; cases hm
    refine ⟨j, ?_⟩
    simp only [Publication.take, Function.update_of_ne hji]
    exact ⟨hv, hn, hm⟩

-- Nobody gives up who has begun to write.
theorem Ordered.giveUp (h : s.Ordered places) (hp : ∀ p, p ∈ places)
    (hi : s.left i = [] ∨ s.left i = places) : (s.giveUp i).Ordered places where
  value_le   := h.value_le
  version_le := (Function.forall_update_iff s.version fun _ n => n ≤ s.latest).mpr
    ⟨Nat.zero_le _, fun j _ => h.version_le j⟩
  suffix     := (Function.forall_update_iff s.left fun _ l => l <:+ places).mpr
    ⟨List.nil_suffix, fun j _ => h.suffix j⟩
  le_version j p hj := by
    by_cases hji : j = i
    case pos => simp [Publication.giveUp, hji] at hj
    case neg =>
      simp only [Publication.giveUp, Function.update_of_ne hji] at hj ⊢
      exact h.le_version j p hj
  le_value j p hj := by
    by_cases hji : j = i
    case pos => simp [Publication.giveUp, hji]
    case neg =>
      simp only [Publication.giveUp, Function.update_of_ne hji] at hj ⊢
      exact h.le_value j p hj
  follows p q := by
    refine (h.follows p q).imp_right ?_
    rintro ⟨j, hv, hn, hm⟩
    have hji : j ≠ i := by
      rintro rfl
      rcases hi with hi | hi
      case inl => rw [hi] at hm; cases hm
      case inr => exact hn <| hi ▸ hp p
    refine ⟨j, ?_⟩
    simp only [Publication.giveUp, Function.update_of_ne hji]
    exact ⟨hv, hn, hm⟩

variable [DecidableEq π]

def write (s : Publication ι π) (i : ι) (p : π) : Publication ι π :=
  { s with
    value := Function.update s.value p (s.version i)
    left  := Function.update s.left i (s.left i).tail }

-- Places only ever get newer data.
theorem Ordered.value_le_write (h : s.Ordered places) (hi : s.left i = p :: ps) :
    s.value q ≤ (s.write i p).value q := by
  unfold write
  dsimp only
  by_cases hq : q = p
  case pos => rw [hq, Function.update_self]; exact h.le_version i p <| hi ▸ List.mem_cons_self
  case neg => rw [Function.update_of_ne hq]

theorem write_left_subset {j : ι} : (s.write i p).left j ⊆ s.left j := by
  unfold write
  dsimp only
  by_cases hj : j = i
  case pos => rw [hj, Function.update_self]; exact List.tail_subset _
  case neg => rw [Function.update_of_ne hj]; exact List.Subset.refl _

theorem write_value_ne (hq : q ≠ p) : (s.write i p).value q = s.value q :=
  Function.update_of_ne hq ..

theorem write_value_self : (s.write i p).value p = s.version i :=
  Function.update_self ..

theorem write_left_self (hi : s.left i = p :: ps) : (s.write i p).left i = ps := by
  simp [write, hi]

theorem write_left_ne {j : ι} (hj : j ≠ i) : (s.write i p).left j = s.left j :=
  Function.update_of_ne hj ..

theorem Ordered.write (h : s.Ordered places) (hn : places.Nodup) (hi : s.left i = p :: ps)
    (ho : ¬s.Overtakes i p) : (s.write i p).Ordered places where
  value_le q := by
    by_cases hq : q = p
    case pos => rw [hq, write_value_self]; exact h.version_le i
    case neg => rw [write_value_ne hq]; exact h.value_le q
  version_le := h.version_le
  suffix     := (Function.forall_update_iff s.left fun _ l => l <:+ places).mpr
    ⟨(List.tail_suffix _).trans <| h.suffix i, fun j _ => h.suffix j⟩
  le_version j q hj := by
    have hj := write_left_subset hj
    by_cases hq : q = p
    case neg => rw [write_value_ne hq]; exact h.le_version j q hj
    case pos =>
      rw [hq] at hj ⊢
      rw [write_value_self]
      exact Nat.not_lt.mp fun hl => ho ⟨j, hj, hl⟩
  le_value j q hj := by
    by_cases hji : j = i
    case neg =>
      rw [write_left_ne hji] at hj
      exact (h.le_value j q hj).trans <| h.value_le_write hi
    case pos =>
      rw [hji, write_left_self hi] at hj
      rw [hji]
      by_cases hq : q = p
      case pos => rw [hq, write_value_self]; exact le_refl _
      case neg =>
        rw [write_value_ne hq]
        exact h.le_value i q <| hi ▸ List.not_mem_cons_of_ne_of_not_mem hq hj
  follows q r := by
    have hp : p ∉ ps := (List.nodup_cons.mp <| hi ▸ hn.sublist (h.suffix i).sublist).left
    by_cases hr : r = p
    case pos =>
      subst hr
      rw [write_value_self]
      by_cases hq : q = r
      case pos => rw [hq, write_value_self]; exact .inl <| le_refl _
      case neg =>
        rw [write_value_ne hq]
        rcases h.follows q r with hle | ⟨j, hv, hqj, hrj⟩
        case inl => exact .inl <| hle.trans <| h.le_version i r <| hi ▸ List.mem_cons_self
        case inr =>
          by_cases hji : j = i
          case pos => exact .inl <| hji ▸ hv.ge
          case neg => exact .inr ⟨j, hv, by rwa [write_left_ne hji], by rwa [write_left_ne hji]⟩
    case neg =>
      rw [write_value_ne hr]
      by_cases hq : q = p
      case pos =>
        rw [hq, write_value_self]
        by_cases hm : r ∈ ps
        case pos => exact .inr ⟨i, rfl, by rwa [write_left_self hi], by rwa [write_left_self hi]⟩
        case neg => exact .inl <| h.le_value i r <| hi ▸ List.not_mem_cons_of_ne_of_not_mem hr hm
      case neg =>
        rw [write_value_ne hq]
        refine (h.follows q r).imp_right ?_
        rintro ⟨j, hv, hqj, hrj⟩
        by_cases hji : j = i
        case neg => exact ⟨j, hv, by rwa [write_left_ne hji], by rwa [write_left_ne hji]⟩
        case pos =>
          rw [hji, hi] at hqj hrj
          rw [hji] at hv
          refine ⟨i, hv, ?_, ?_⟩
          · rw [write_left_self hi]
            exact fun hm => hqj <| List.mem_cons_of_mem _ hm
          · rw [write_left_self hi]
            exact (List.mem_cons.mp hrj).resolve_left hr

-- A publisher has yet to write an older version than the one that the place already has.
def Overtaken (s : Publication ι π) : Prop :=
  ∃ i, ∃ p ∈ s.left i, s.version i < s.value p

omit [DecidableEq ι] [DecidableEq π] in
theorem not_overtaken (hd : ∀ i, s.left i = []) : ¬s.Overtaken := by
  rintro ⟨i, p, hp, _⟩
  rw [hd] at hp
  cases hp

omit [DecidableEq π] in
theorem Overtaken.take (h : s.Overtaken) (hi : s.left i = []) : (s.take places i).Overtaken := by
  obtain ⟨j, p, hp, hv⟩ := h
  have hji : j ≠ i := fun e => by rw [e, hi] at hp; cases hp
  refine ⟨j, p, ?_⟩
  simp only [Publication.take, Function.update_of_ne hji]
  exact ⟨hp, hv⟩

theorem overtaken_of_overtakes (h : s.Overtakes i p) : (s.write i p).Overtaken := by
  obtain ⟨j, hp, hv⟩ := h
  have hji : j ≠ i := fun e => hv.ne <| congrArg s.version e
  exact ⟨j, p, by rwa [write_left_ne hji], by rwa [write_value_self]⟩

-- Whoever is overtaken stays so, unless it replaces newer data.
theorem Overtaken.write (h : s.Overtaken) (hi : s.left i = p :: ps)
    (hv : s.value p ≤ s.version i) : (s.write i p).Overtaken := by
  obtain ⟨j, q, hq, hl⟩ := h
  have hle : s.value q ≤ (s.write i p).value q := by
    by_cases hqp : q = p
    case pos => rwa [hqp, write_value_self]
    case neg => rw [write_value_ne hqp]
  refine ⟨j, q, ?_, hl.trans_le hle⟩
  by_cases hji : j = i
  case neg => rwa [write_left_ne hji]
  case pos =>
    subst hji
    rw [hi] at hq
    rw [write_left_self hi]
    refine (List.mem_cons.mp hq).resolve_left ?_
    rintro rfl
    exact hl.not_ge hv

end Publication
