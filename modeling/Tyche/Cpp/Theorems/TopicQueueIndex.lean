import Tyche.Cpp.TopicQueueIndex

namespace Cpp

namespace TopicQueueIndex

variable {α : Type*} {x x' : TopicQueueIndex α} {m : QueueMap α} {id : InternId} {q : Option α}
variable {l : List (Option α)} {n : ℕ} {o : IndexOp α} {r : IndexResult α}

theorem get_eq : x.get id = Slots.get? x.slots id.toNat := by
  rw [get, slots]
  cases x.queues
  case none   => rfl
  case some l =>
    change (if id.toNat ≥ l.length then none else Slots.get? l id.toNat) = Slots.get? l id.toNat
    split
    case isTrue h  => exact (Slots.get?_eq_none h).symm
    case isFalse h => rfl

theorem snapshot_eq :
    x.snapshot = Slots.listing (.ofNat 32) (Slots.get? x.slots) x.slots.length := by
  rw [snapshot, slots]
  cases x.queues <;> rfl

theorem store_singleton (h : n < l.length) : Memory.store l n [q] = some (l.set n q) := by
  rw [Memory.store, if_pos (by simpa [Nat.succ_le_iff] using h), List.set_eq_take_append_cons_drop,
    if_pos h, List.append_assoc]
  rfl

-- What takes the place of a vector that is too short is twice as long, or as long as is needed.
theorem resize_some (hl : l.length < n) (hn : n ≤ 2 ^ 32) :
    resize (some l) n = some (l ++ .replicate (max (l.length * 2) n - l.length) none) := by
  have hs : l.length * 2 % 2 ^ 64 = l.length * 2 := Nat.mod_eq_of_lt (by omega)
  have hm : (if l.length * 2 < n then n else l.length * 2) = max (l.length * 2) n := by
    split <;> omega
  have hr : l.length ≤ (List.replicate (max (l.length * 2) n) (none : Option α)).length := by
    rw [List.length_replicate]
    omega
  rw [resize, Option.map_some, Option.getD_some, hs]
  change Memory.store (.replicate (if l.length * 2 < n then n else l.length * 2) none) 0 l = _
  rw [hm]
  rw [Memory.store_zero hr, List.drop_replicate]

theorem resize_none (hn : n ≤ 2 ^ 32) :
    ∃ k, resize (none : Option (List (Option α))) n = some (.replicate k none) ∧ n ≤ k ∧
      k ≤ 2 ^ 33 := by
  refine ⟨if 64 < n then n else 64, rfl, ?_, ?_⟩ <;> split <;> omega

-- In both cases there is room enough afterwards, and sizes do not grow without end.
theorem copy_eq (hl : x.slots.length ≤ 2 ^ 33) (hn : n ≤ 2 ^ 32) : ∃ k,
    copy x.queues n = some (x.slots ++ .replicate k none) ∧ n ≤ x.slots.length + k ∧
      x.slots.length + k ≤ 2 ^ 33 := by
  rw [slots] at hl ⊢
  cases hx : x.queues
  case none   =>
    obtain ⟨k, hr, hk, hk'⟩ := resize_none (α := α) hn
    exact ⟨k, hr, by simpa using hk, by simpa using hk'⟩
  case some l =>
    rw [hx, Option.getD_some] at hl
    rw [copy, Option.getD_some]
    split
    case isTrue h  => exact ⟨0, by simp, h, hl⟩
    case isFalse h => exact ⟨_, resize_some (by omega) hn, by omega, by omega⟩

theorem set_eq (id : InternId) (q : Option α) (hl : x.slots.length ≤ 2 ^ 33) : ∃ k,
    x.set id q = some ⟨some ((x.slots ++ .replicate k none).set id.toNat q)⟩ ∧
      id.toNat < x.slots.length + k ∧ x.slots.length + k ≤ 2 ^ 33 := by
  obtain ⟨k, hc, hk, hk'⟩ := copy_eq hl (Nat.succ_le_of_lt id.isLt)
  refine ⟨k, ?_, hk, hk'⟩
  have hi : id.toNat < (x.slots ++ List.replicate k none).length := by
    rw [List.length_append, List.length_replicate]
    exact hk
  rw [set, hc, Option.bind_eq_bind, Option.bind_some, store_singleton hi]
  rfl

-- The vector against the map. There is nothing behind the places that have a number.
structure Shows (x : TopicQueueIndex α) (m : QueueMap α) : Prop where
  length_le : x.slots.length ≤ 2 ^ 33
  slot      : ∀ id : InternId, Slots.get? x.slots id.toNat = m id
  beyond    : ∀ i, 2 ^ 32 ≤ i → Slots.get? x.slots i = none

theorem empty_shows : (empty : TopicQueueIndex α).Shows .empty where
  length_le  := Nat.zero_le _
  slot _     := rfl
  beyond _ _ := rfl

namespace Shows

theorem get (h : x.Shows m) : x.get id = m id :=
  get_eq.trans <| h.slot id

theorem snapshot (h : x.Shows m) : x.snapshot = m.entries := by
  calc x.snapshot
      = Slots.listing (.ofNat 32) (Slots.get? x.slots) x.slots.length := snapshot_eq
    _ = Slots.listing (.ofNat 32) (Slots.get? x.slots) (2 ^ 33) :=
      (Slots.listing_of_none h.length_le fun _ => Slots.get?_eq_none).symm
    _ = Slots.listing (.ofNat 32) (Slots.get? x.slots) (2 ^ 32) :=
      Slots.listing_of_none (Nat.pow_le_pow_right Nat.two_pos (by decide)) h.beyond
    _ = m.entries := Slots.listing_congr fun i hi => by
      rw [← h.slot, BitVec.toNat_ofNat, Nat.mod_eq_of_lt hi]

-- What setting an entry does to the vector.
theorem set (h : x.Shows m) (id : InternId) (q : Option α) : ∃ x', x.set id q = some x' ∧ x.slots.length ≤ x'.slots.length ∧
    Slots.get? x'.slots = Function.update (Slots.get? x.slots) id.toNat q ∧
      x'.Shows (Function.update m id q) := by
  obtain ⟨k, hs, hi, hk⟩ := set_eq id q h.length_le
  have hl : (x.slots ++ List.replicate k none).length = x.slots.length + k := by
    rw [List.length_append, List.length_replicate]
  have hg : Slots.get? ((x.slots ++ .replicate k none).set id.toNat q) =
      Function.update (Slots.get? x.slots) id.toNat q := by
    rw [Slots.get?_set (hl ▸ hi), Slots.get?_grow]
  refine ⟨_, hs, ?_, hg, ?_, ?_, ?_⟩
  case refine_1 =>
    change _ ≤ ((x.slots ++ .replicate k none).set id.toNat q).length
    rw [List.length_set, hl]
    exact Nat.le_add_right ..
  case refine_2 =>
    change ((x.slots ++ .replicate k none).set id.toNat q).length ≤ _
    rw [List.length_set, hl]
    exact hk
  case refine_3 =>
    intro j
    refine (congrFun hg _).trans ?_
    simp only [Function.update_apply, BitVec.toNat_inj, h.slot]
  case refine_4 =>
    intro i hi
    have hne : i ≠ id.toNat := fun he => absurd id.isLt (Nat.not_lt.mpr <| he ▸ hi)
    exact (congrFun hg i).trans <| (Function.update_of_ne hne ..).trans <| h.beyond i hi

theorem retains (h : x.Shows m) : x.Retains := by
  intro id q
  obtain ⟨x', hs, hl, hg, -⟩ := h.set id q
  exact ⟨x', hs, hl, fun i hi => (congrFun hg i).trans <| Function.update_of_ne hi ..⟩

theorem perform (h : x.Shows m) (o : IndexOp α) :
    ∃ x', x.perform o = some ((m.perform o).1, x') ∧ x'.Shows (m.perform o).2 := by
  cases o
  case get id   => exact ⟨x, by rw [TopicQueueIndex.perform, h.get]; rfl, h⟩
  case snapshot => exact ⟨x, by rw [TopicQueueIndex.perform, h.snapshot]; rfl, h⟩
  case set id q =>
    obtain ⟨x', hs, -, -, h'⟩ := h.set id q
    exact ⟨x', by rw [TopicQueueIndex.perform, hs]; rfl, h'⟩

theorem results (h : x.Shows m) (os : List (IndexOp α)) :
    x.results os = some (m.results os) := by
  induction os generalizing x m
  case nil          => rfl
  case cons o os hi =>
    obtain ⟨x', hp, h'⟩ := h.perform o
    rw [TopicQueueIndex.results, hp]
    change ((x'.results os).bind _) = _
    rw [hi h']
    rfl

theorem step (h : ∃ m, x.Shows m) (hs : (machine α).step x o = some x') : ∃ m, x'.Shows m := by
  obtain ⟨m, h⟩ := h
  obtain ⟨y, hp, h'⟩ := h.perform o
  obtain ⟨_, hp', rfl⟩ := Option.map_eq_some_iff.mp hs
  rw [hp] at hp'
  cases hp'
  exact ⟨_, h'⟩

end Shows

theorem entries_once (m : QueueMap α) : (m.entries.map Prod.fst).Nodup ∧
    ∀ id q, (id, q) ∈ m.entries ↔ m id = some q := by
  constructor
  case left  =>
    refine Slots.nodup_listing fun i hi j hj he => ?_
    have hn := congrArg BitVec.toNat he
    rwa [BitVec.toNat_ofNat, BitVec.toNat_ofNat, Nat.mod_eq_of_lt hi, Nat.mod_eq_of_lt hj] at hn
  case right =>
    intro id q
    rw [QueueMap.entries, Slots.mem_listing]
    constructor
    case mp  => rintro ⟨i, -, rfl, hq⟩; exact hq
    case mpr =>
      intro hq
      exact ⟨id.toNat, id.isLt, BitVec.ofNat_toNat .. |>.trans <| BitVec.setWidth_eq _, by
        rwa [BitVec.ofNat_toNat, BitVec.setWidth_eq]⟩

-- Whatever is done with an index, its answers are those of the map, and no entry is ever moved.
theorem refines_map (os : List (IndexOp α)) :
    (empty : TopicQueueIndex α).results os = some (QueueMap.empty.results os) ∧
      (machine α).Always Retains .empty os ∧
        ∀ m : QueueMap α, (m.entries.map Prod.fst).Nodup ∧
          ∀ id q, (id, q) ∈ m.entries ↔ m id = some q := by
  refine ⟨empty_shows.results os, ?_, entries_once⟩
  refine (Machine.invariant (I := fun x => ∃ m, x.Shows m) ?_ ⟨.empty, empty_shows⟩).mono ?_
  case refine_1 => exact fun _ _ _ h hs => Shows.step h hs
  case refine_2 => exact fun _ ⟨_, h⟩ => h.retains

example : (empty : TopicQueueIndex ℕ).results
    [.set 64 (some 5), .set 200 (some 7), .set 64 none, .get 200, .snapshot] =
      some [.done, .done, .done, .queue (some 7), .queues [(200, 7)]] := by
  decide +kernel

end TopicQueueIndex

end Cpp
