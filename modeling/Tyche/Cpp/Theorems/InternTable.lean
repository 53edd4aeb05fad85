import Mathlib.Data.Finset.Card
import Mathlib.Data.List.GetD
import Tyche.Cpp.InternTable

namespace Cpp.InternTable

open Interning

-- The identifier of a string by its place among those that were interned.
def number (i : ℕ) : InternId :=
  .ofNat 32 (i + 1)

theorem number_toNat {i : ℕ} (h : i < 2 ^ 32 - 1) : (number i).toNat = i + 1 := by
  rw [number, BitVec.toNat_ofNat, Nat.mod_eq_of_lt (by omega)]

theorem number_ne_invalid {i : ℕ} (h : i < 2 ^ 32 - 1) : number i ≠ invalidInternId := by
  intro he
  have hn := congrArg BitVec.toNat he
  rw [number_toNat h] at hn
  exact Nat.succ_ne_zero i hn

theorem number_ne {i j : ℕ} (hi : i < j) (hj : j < 2 ^ 32 - 1) : number i ≠ number j := by
  intro he
  have hn := congrArg BitVec.toNat he
  rw [number_toNat (by omega), number_toNat hj] at hn
  omega

-- What a table without the vector gives.
theorem insert_toStringIntern {t : InternTable} {s : Bytes} :
    t.toStringIntern.intern s = ((t.insert s).snd, (t.insert s).fst.toStringIntern) := by
  rw [StringIntern.intern, insert]
  cases t.stringToId.get? s <;> rfl

-- The map and the vector are inverse to each other.
structure Holds (t : InternTable) (strings : List Bytes) : Prop where
  nodup      : strings.Nodup
  stringToId : ∀ s id, t.stringToId.get? s = some id ↔ ∃ i, strings[i]? = some s ∧ id = number i
  idToString : t.idToString = if strings = [] then [] else [] :: strings
  nextId     : t.nextId = number strings.length

variable {t : InternTable} {strings : List Bytes} {s : Bytes} {id : InternId} {i : ℕ}

theorem resolve_eq : t.resolve id = t.idToString.getD id.toNat [] := by
  rw [resolve]
  split
  case isTrue     => rfl
  case isFalse hl => exact (List.getD_eq_default _ _ <| Nat.le_of_not_lt hl).symm

theorem empty_holds : empty.Holds [] where
  nodup          := .nil
  stringToId _ _ := iff_of_false nofun <| by simp
  idToString     := rfl
  nextId         := rfl

namespace Holds

variable (h : t.Holds strings)
include h

theorem get?_eq_none_iff : t.stringToId.get? s = none ↔ s ∉ strings := by
  rw [Option.eq_none_iff_forall_ne_some, List.mem_iff_getElem?, not_exists]
  constructor
  case mp  => exact fun hn i hi => hn _ <| (h.stringToId s _).mpr ⟨i, hi, rfl⟩
  case mpr =>
    intro hn id hs
    obtain ⟨i, hi, -⟩ := (h.stringToId s id).mp hs
    exact hn i hi

theorem resolve_number (hi : strings[i]? = some s) (hl : strings.length < 2 ^ 32 - 1) :
    t.resolve (number i) = s := by
  have hlt : i < strings.length := (List.getElem?_eq_some_iff.mp hi).choose
  have hk : strings ≠ [] := List.ne_nil_of_length_pos <| by omega
  rw [resolve_eq, number_toNat (by omega), h.idToString, if_neg hk, List.getD_cons_succ,
    List.getD_eq_getElem?_getD, hi, Option.getD_some]

theorem resolve_eq_nil (hn : ∀ i < strings.length, id ≠ number i) :
    t.resolve id = [] := by
  rw [resolve_eq, h.idToString]
  split
  case isTrue  => rfl
  case isFalse =>
    cases hd : id.toNat
    case zero   => rfl
    case succ i =>
      rw [List.getD_cons_succ]
      refine List.getD_eq_default _ _ <| Nat.le_of_not_lt fun hi => hn i hi ?_
      refine BitVec.eq_of_toNat_eq ?_
      rw [number_toNat (by omega), hd]

omit h in
theorem set_resize (hl : strings.length < 2 ^ 32 - 2) :
    (resize (if strings = [] then [] else [] :: strings) (number strings.length + 1).toNat).set
      (strings.length + 1) s = [] :: (strings ++ [s]) := by
  have hn : (number strings.length + 1).toNat = strings.length + 2 := by
    have h1 : (1 : BitVec 32).toNat = 1 := rfl
    rw [BitVec.toNat_add, number_toNat (by omega), h1]
    exact Nat.mod_eq_of_lt <| by omega
  rw [hn]
  split
  case isTrue hk  => subst hk; rfl
  case isFalse hk =>
    rw [resize, List.length_cons, Nat.add_sub_add_left, List.take_of_length_le (by simp)]
    simp

omit h in
theorem concat_getElem?_iff {r : Bytes} : (strings ++ [s])[i]? = some r ↔
    strings[i]? = some r ∨ i = strings.length ∧ s = r := by
  rw [List.getElem?_append]
  split
  case isTrue hi  => rw [or_iff_left fun h => Nat.ne_of_lt hi h.left]
  case isFalse hi =>
    rw [List.getElem?_eq_none (Nat.le_of_not_lt hi), List.getElem?_singleton]
    split
    case isTrue h0  => simp; omega
    case isFalse h0 => simp; omega

-- A new string is put at the place that its identifier gives.
theorem insert (hs : s ∉ strings) (hl : strings.length < 2 ^ 32 - 2) :
    (t.insert s).fst.Holds (strings ++ [s]) ∧ (t.insert s).snd = number strings.length := by
  unfold InternTable.insert
  rw [h.get?_eq_none_iff.mpr hs]
  dsimp only
  refine ⟨⟨?_, ?_, ?_, ?_⟩, h.nextId⟩
  case refine_1 => exact List.Nodup.append h.nodup (List.nodup_singleton s) <| by simpa
  case refine_2 =>
    intro r id
    simp only [concat_getElem?_iff, or_and_right, exists_or, ← h.stringToId]
    rw [Dict.get?_set, h.nextId]
    split
    case isTrue hr  => simp [hr, h.get?_eq_none_iff.mpr hs, eq_comm]
    case isFalse hr => simp [Ne.symm hr]
  case refine_3 =>
    have hc : (number strings.length).toNat ≥ t.idToString.length := by
      rw [number_toNat (by omega), h.idToString]
      split <;> simp
    rw [if_neg (List.append_ne_nil_of_right_ne_nil _ <| List.cons_ne_nil s [])]
    dsimp only
    rw [h.nextId, if_pos hc, number_toNat (by omega), h.idToString]
    exact set_resize hl
  case refine_4 =>
    rw [h.nextId, List.length_append]
    exact (BitVec.ofNat_add ..).symm

theorem insert_old (hs : s ∈ strings) :
    (t.insert s).fst = t ∧ t.stringToId.get? s = some (t.insert s).snd := by
  rw [InternTable.insert]
  cases ht : t.stringToId.get? s
  case none   => exact absurd hs <| h.get?_eq_none_iff.mp ht
  case some d => exact ⟨rfl, rfl⟩

end Holds

section

variable {ι : Type} {u : Shared ι} {S : Finset Bytes} {s : Bytes} {id : InternId}

-- What is true of a table, of the threads that use it and of their answers.
structure Shared.Inv (S : Finset Bytes) (u : Shared ι) : Prop where
  holds    : u.table.Holds (keys u.log)
  stable   : Stable number invalidInternId [] u.log
  subset   : keys u.log ⊆ S.toList
  inserted : ∀ i s, u.inserted i = some s → s ∈ S

namespace Shared.Inv

theorem length_le (h : u.Inv S) : (keys u.log).length ≤ S.card :=
  Finset.length_toList S ▸ (h.holds.nodup.subperm h.subset).length_le

theorem start : (Shared.start : Shared ι).Inv S where
  holds    := empty_holds
  stable   := .nil
  subset   := List.nil_subset _
  inserted := nofun

theorem mem_handed (h : u.Inv S) :
    (s, id) ∈ handed u.log ↔ u.table.stringToId.get? s = some id := by
  rw [h.stable.mem_handed, h.holds.stringToId]
  simp only [eq_comm]

-- A string that is in the table is interned again.
theorem again (h : u.Inv S) (hs : u.table.stringToId.get? s = some id) :
    (u.answer <| .interned s id).Inv S := by
  obtain ⟨hl, hk⟩ := h.stable.again <| h.mem_handed.mpr hs
  exact ⟨hk ▸ h.holds, hl, hk ▸ h.subset, h.inserted⟩

theorem insert (h : u.Inv S) (hS : S.card < 2 ^ 32 - 1) (hs : s ∈ S) :
    (({ u with table := (u.table.insert s).fst } : Shared ι).answer <|
      .interned s (u.table.insert s).snd).Inv S := by
  by_cases hm : s ∈ keys u.log
  case pos =>
    obtain ⟨ht, hd⟩ := h.holds.insert_old hm
    rw [ht]
    exact h.again hd
  case neg =>
    have hk : keys u.log ++ [s] ⊆ S.toList := by
      refine List.append_subset.mpr ⟨h.subset, ?_⟩
      exact List.cons_subset.mpr ⟨Finset.mem_toList.mpr hs, List.nil_subset _⟩
    have hd : (keys u.log ++ [s]).Nodup :=
      List.Nodup.append h.holds.nodup (List.nodup_singleton s) <| by simpa
    have hl : (keys u.log).length < 2 ^ 32 - 2 := by
      have hle := (hd.subperm hk).length_le
      rw [List.length_append, List.length_singleton, Finset.length_toList] at hle
      omega
    obtain ⟨ht, hn⟩ := h.holds.insert hm hl
    obtain ⟨hg, he⟩ := h.stable.new hm (number_ne_invalid <| by omega) fun i hi =>
      number_ne hi <| by omega
    rw [hn]
    exact ⟨he ▸ ht, hg, he ▸ hk, h.inserted⟩

-- An answer that hands out nothing changes nothing.
theorem answer {e : Interning.Event Bytes InternId} (h : u.Inv S) (hh : handed [e] = [])
    (hs : Stable number invalidInternId [] (u.log ++ [e])) : (u.answer e).Inv S := by
  have hk : keys (u.log ++ [e]) = keys u.log := by
    rw [keys, handed_append, hh, List.append_nil, keys]
  exact ⟨hk ▸ h.holds, hs, hk ▸ h.subset, h.inserted⟩

theorem lookup (h : u.Inv S) : (u.answer <| .looked s <| u.table.lookup s).Inv S := by
  refine h.answer rfl <| h.stable.looked ?_ ?_
  case refine_1 =>
    intro hs
    rw [h.mem_handed, StringIntern.lookup]
    cases hd : u.table.stringToId.get? s
    case none => exact absurd hs <| h.holds.get?_eq_none_iff.mp hd
    case some => rfl
  case refine_2 =>
    intro hs
    rw [StringIntern.lookup, h.holds.get?_eq_none_iff.mpr hs]
    rfl

theorem resolve (h : u.Inv S) (hS : S.card < 2 ^ 32 - 1) :
    (u.answer <| .resolved id <| u.table.resolve id).Inv S := by
  have hl := h.length_le
  refine h.answer rfl <| h.stable.resolved ?_ ?_
  case refine_1 =>
    intro r hr
    obtain ⟨i, hi, rfl⟩ := h.stable.mem_handed.mp hr
    exact h.holds.resolve_number hi <| by omega
  case refine_2 =>
    intro hn
    refine h.holds.resolve_eq_nil fun i hi he => ?_
    exact hn _ <| h.stable.mem_handed.mpr ⟨i, List.getElem?_eq_getElem hi, he.symm⟩

end Shared.Inv

end

variable {ι : Type} [DecidableEq ι] {u u' : Shared ι} {i : ι} {a : Action ι} {as : List (Action ι)}
  {S : Finset Bytes}

-- The strings that calls of `intern` are about.
def asked : List (Action ι) → List Bytes
  | []                => []
  | .intern _ s :: as => s :: asked as
  | _ :: as           => asked as

def Action.Within (S : Finset Bytes) : Action ι → Prop
  | .intern _ s => s ∈ S
  | _           => True

namespace Shared.Inv

theorem update {o : Option Bytes} (h : u.Inv S) (ho : ∀ s, o = some s → s ∈ S) :
    ({ u with inserted := Function.update u.inserted i o } : Shared ι).Inv S := by
  refine ⟨h.holds, h.stable, h.subset, fun j r hj => ?_⟩
  dsimp only at hj
  by_cases hji : j = i
  case pos =>
    rw [hji, Function.update_self] at hj
    exact ho r hj
  case neg =>
    rw [Function.update_of_ne hji] at hj
    exact h.inserted j r hj

theorem step (h : u.Inv S) (hS : S.card < 2 ^ 32 - 1) (ha : a.Within S)
    (hs : u.step a = some u') : u'.Inv S := by
  cases a
  all_goals rw [Shared.step] at hs
  case intern i s =>
    split at hs
    case isFalse => cases hs
    case isTrue  =>
      split at hs
      all_goals cases hs
      case h_1 id hd => exact h.again hd
      case h_2       => exact h.update fun r hr => Option.some.inj hr ▸ ha
  case insert i =>
    obtain ⟨s, hi, rfl⟩ := Option.map_eq_some_iff.mp hs
    exact (h.insert hS <| h.inserted i s hi).update <| by simp
  case lookup i s =>
    split at hs
    case isFalse => cases hs
    case isTrue  =>
      cases hs
      exact h.lookup
  case resolve i id =>
    split at hs
    case isFalse => cases hs
    case isTrue  =>
      cases hs
      exact h.resolve hS

end Shared.Inv

omit [DecidableEq ι] in
theorem within_asked (h : a ∈ as) : a.Within (asked as).toFinset := by
  cases a
  case intern i s =>
    refine List.mem_toFinset.mpr ?_
    induction as
    case nil          => cases h
    case cons b as hi =>
      rcases List.mem_cons.mp h with rfl | ht
      case inl => exact .head _
      case inr =>
        cases b
        case intern   => exact .tail _ <| hi ht
        all_goals exact hi ht
  all_goals trivial

-- Whatever threads do with a table, it gives the strings the identifiers from 1 on in the order in
-- which they come up, and everything that is asked later is answered accordingly.
theorem shared_stable (hd : (asked as).toFinset.card < 2 ^ 32 - 1)
    (he : (machine ι).exec .start as = some u) : Stable number invalidInternId [] u.log := by
  have hc : (machine ι).Along (fun _ a => a.Within (asked as).toFinset) .start as :=
    Machine.along_of_forall fun _ => within_asked
  have hi := Machine.always_of_step (fun _ _ _ h => h.step hd) (Shared.Inv.start (ι := ι)) hc
  exact (hi.exec he).stable

namespace Sample

-- Two threads miss the same string and both insert it.
def race : List (Action Bool) :=
  [.intern true [97], .intern false [97], .insert false, .insert true, .resolve true 1]

end Sample

theorem shared_stable_race : ∃ u, (machine Bool).exec .start Sample.race = some u ∧
    Stable number invalidInternId [] u.log :=
  ⟨_, rfl, shared_stable (by decide : (asked Sample.race).toFinset.card < 2 ^ 32 - 1) rfl⟩

end Cpp.InternTable
