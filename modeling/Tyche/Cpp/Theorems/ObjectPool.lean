import Mathlib.Data.Set.Card
import Tyche.Cpp.ObjectPool
import Tyche.Linked
import Tyche.Spread

namespace Cpp.ObjectPool

open Linked

variable {ι : Type} [DecidableEq ι]

-- The slot that a thread is about to put back.
def Point.slots : Point → List ℕ
  | .loadFree slot       => [slot]
  | .storeNext slot _    => [slot]
  | .exchangeFree slot _ => [slot]
  | _                    => []

-- What was read of the link of the head is still so when the head is about to be exchanged.
def Point.Unchanged (pool : ObjectPool) : Point → Prop
  | .exchange head next => pool.freeList = some head → pool.next head = next
  | _                   => True

instance {pool : ObjectPool} : DecidablePred (Point.Unchanged pool)
  | .exchange head next =>
    inferInstanceAs <| Decidable (pool.freeList = some head → pool.next head = next)
  | .idle | .loadHead | .loadNext _ | .fetchSub | .loadFree _ | .storeNext .. | .exchangeFree ..
  | .fetchAdd           => inferInstanceAs <| Decidable True

namespace Users

variable {u u' : Users ι} {i j : ι} {a : Action ι} {n s : ℕ} {p q : Point} {x : Option ℕ}
  {l : List ℕ} {S A : Finset ι}

-- Where the slots are: on the free list, or with a thread that holds it or is about to put it back.
def place (u : Users ι) (l : List ℕ) : Option ι → List ℕ
  | none   => l
  | some i => (u.point i).slots ++ u.held i

-- What the free list and the threads are like between two steps. A thread that is about to put its
-- slot back has linked it, and the counter is behind by the threads that have yet to count.
structure Inv (n : ℕ) (u : Users ι) (l : List ℕ) (S A : Finset ι) : Prop where
  chain  : Chain u.pool.next u.pool.freeList l
  spread : Spread {s | s < n} (u.place l)
  linked : ∀ i s x, u.point i = .exchangeFree s x → u.pool.next s = x
  subs   : ∀ i, i ∈ S ↔ u.point i = .fetchSub
  adds   : ∀ i, i ∈ A ↔ u.point i = .fetchAdd
  count  : u.pool.available + .ofNat 64 A.card = .ofNat 64 l.length + .ofNat 64 S.card

theorem point_setPoint_self : (u.setPoint i q).point i = q :=
  Function.update_self ..

theorem point_setPoint_ne (h : j ≠ i) : (u.setPoint i q).point j = u.point j :=
  Function.update_of_ne h ..

theorem place_setPoint_self : (u.setPoint i q).place l (some i) = q.slots ++ u.held i := by
  rw [place, point_setPoint_self]
  rfl

theorem place_setPoint_ne (h : j ≠ i) :
    (u.setPoint i q).place l (some j) = u.place l (some j) := by
  rw [place, point_setPoint_ne h]
  rfl

theorem place_setPoint (hi : u.point i = p) (hs : q.slots = p.slots) :
    (u.setPoint i q).place l = u.place l := by
  funext k
  cases k
  case none   => rfl
  case some j =>
    by_cases hj : j = i
    case pos => rw [hj, place_setPoint_self, place, hi, hs]
    case neg => exact place_setPoint_ne hj

theorem spread_setPoint (h : Spread {s | s < n} (u.place l)) (hi : u.point i = p)
    (hs : q.slots = p.slots) : Spread {s | s < n} ((u.setPoint i q).place l) := by
  rw [place_setPoint hi hs]
  exact h

theorem held_setHeld_self {slots : List ℕ} : (u.setHeld i slots).held i = slots :=
  Function.update_self ..

theorem place_setHeld_ne {slots : List ℕ} (h : j ≠ i) :
    (u.setHeld i slots).place l (some j) = u.place l (some j) :=
  congrArg ((u.point j).slots ++ ·) <| Function.update_of_ne h ..

-- Which threads are at a point after one of them has moved.
theorem mem_move {r : Point} {T : Finset ι} (ht : ∀ j, j ∈ T ↔ u.point j = r)
    (hi : u.point i = p) (hr : q = r ↔ p = r) : j ∈ T ↔ (u.setPoint i q).point j = r := by
  rw [ht]
  by_cases hj : j = i
  case pos => rw [hj, point_setPoint_self, hi, hr]
  case neg => rw [point_setPoint_ne hj]

theorem mem_insert_move {T : Finset ι} (ht : ∀ j, j ∈ T ↔ u.point j = q) :
    j ∈ insert i T ↔ (u.setPoint i q).point j = q := by
  rw [Finset.mem_insert, ht]
  by_cases hj : j = i
  case pos => rw [hj, point_setPoint_self]; exact iff_of_true (.inl rfl) rfl
  case neg => rw [point_setPoint_ne hj, or_iff_right hj]

theorem mem_erase_move {T : Finset ι} (ht : ∀ j, j ∈ T ↔ u.point j = p) (hq : q ≠ p) :
    j ∈ T.erase i ↔ (u.setPoint i q).point j = p := by
  rw [Finset.mem_erase, ht]
  by_cases hj : j = i
  case pos => rw [hj, point_setPoint_self]; exact iff_of_false (fun h => h.left rfl) hq
  case neg => rw [point_setPoint_ne hj, and_iff_right hj]

theorem linked_move (h : ∀ i s x, u.point i = .exchangeFree s x → u.pool.next s = x)
    (hq : ∀ s x, q = .exchangeFree s x → u.pool.next s = x) :
    ∀ j s x, (u.setPoint i q).point j = .exchangeFree s x → u.pool.next s = x := by
  intro j s x hj
  by_cases hji : j = i
  case pos =>
    rw [hji, point_setPoint_self] at hj
    exact hq s x hj
  case neg =>
    rw [point_setPoint_ne hji] at hj
    exact h j s x hj

-- A thread goes on without having changed anything.
theorem Inv.move (h : u.Inv n l S A) (hi : u.point i = p) (hs : q.slots = p.slots)
    (hq : ∀ s x, q = .exchangeFree s x → u.pool.next s = x)
    (hf : (q = .fetchSub ↔ p = .fetchSub) ∧ (q = .fetchAdd ↔ p = .fetchAdd)) :
    (u.setPoint i q).Inv n l S A where
  chain  := h.chain
  spread := spread_setPoint h.spread hi hs
  linked := linked_move h.linked hq
  subs _ := mem_move h.subs hi hf.left
  adds _ := mem_move h.adds hi hf.right
  count  := h.count

theorem Inv.tryHead (h : u.Inv n l S A) (hi : u.point i = p) (hs : p.slots = [])
    (hf : p ≠ .fetchSub ∧ p ≠ .fetchAdd) : (u.tryHead i x).Inv n l S A := by
  cases x
  all_goals
    exact h.move hi hs.symm nofun ⟨iff_of_false nofun hf.left, iff_of_false nofun hf.right⟩

-- A slot is taken off the free list. Its link still is what was read.
theorem Inv.take (h : u.Inv n (s :: l) S A) (hi : u.point i = .exchange s x)
    (hx : u.pool.next s = x) :
    (({ u with pool := { u.pool with freeList := x } } : Users ι).setHeld i (s :: u.held i)
      |>.setPoint i .fetchSub).Inv n l (insert i S) A := by
  have hn : i ∉ S := fun hs => by cases hi.symm.trans <| (h.subs i).mp hs
  constructor
  case chain  => exact hx ▸ h.chain.right
  case spread =>
    refine h.spread.move (j := none) (k := some i) nofun rfl rfl ?_ fun k hk hi => ?_
    case refine_1 =>
      rw [place_setPoint_self, held_setHeld_self, place, hi]
      rfl
    case refine_2 =>
      cases k
      case none   => exact absurd rfl hk
      case some j =>
        have hj : j ≠ i := fun hj => hi <| congrArg some hj
        rw [place_setPoint_ne hj, place_setHeld_ne hj]
        rfl
  case linked => exact linked_move h.linked nofun
  case subs   => exact fun _ => mem_insert_move h.subs
  case adds   => exact fun _ => mem_move h.adds hi <| iff_of_false nofun nofun
  case count  =>
    have hc := h.count
    rw [List.length_cons] at hc
    rw [Finset.card_insert_of_notMem hn]
    change u.pool.available + _ = _
    bv_omega

theorem Inv.fetchSub (h : u.Inv n l S A) (hi : u.point i = .fetchSub) :
    (({ u with pool := { u.pool with available := u.pool.available - 1 } } : Users ι).setPoint i
      .idle).Inv n l (S.erase i) A := by
  have hm : i ∈ S := (h.subs i).mpr hi
  constructor
  case chain  => exact h.chain
  case spread => exact spread_setPoint h.spread hi rfl
  case linked => exact linked_move h.linked nofun
  case subs   => exact fun _ => mem_erase_move h.subs nofun
  case adds   => exact fun _ => mem_move h.adds hi <| iff_of_false nofun nofun
  case count  =>
    have hc := h.count
    rw [← Finset.card_erase_add_one hm] at hc
    change u.pool.available - 1 + _ = _
    bv_omega

theorem Inv.storeNext (h : u.Inv n l S A) (hi : u.point i = .storeNext s x) :
    (({ u with pool := { u.pool with next := Function.update u.pool.next s x } } : Users ι)
      |>.setPoint i (.exchangeFree s x)).Inv n l S A := by
  have hs : s ∈ u.place l (some i) := by
    rw [place, hi]
    exact .head _
  constructor
  case chain  => exact h.chain.update fun hl => nomatch h.spread.alone none (some i) s hl hs
  case spread => exact spread_setPoint h.spread hi rfl
  case linked =>
    intro j t y hj
    by_cases hji : j = i
    case pos =>
      rw [hji, point_setPoint_self] at hj
      cases hj
      exact Function.update_self ..
    case neg =>
      rw [point_setPoint_ne hji] at hj
      have ht : t ∈ u.place l (some j) := by
        rw [place, show u.point j = _ from hj]
        exact .head _
      refine (Function.update_of_ne ?_ ..).trans <| h.linked j t y hj
      rintro rfl
      exact hji <| Option.some.inj <| h.spread.alone _ _ _ ht hs
  case subs   => exact fun _ => mem_move h.subs hi <| iff_of_false nofun nofun
  case adds   => exact fun _ => mem_move h.adds hi <| iff_of_false nofun nofun
  case count  => exact h.count

-- A slot is put back.
theorem Inv.put (h : u.Inv n l S A) (hi : u.point i = .exchangeFree s u.pool.freeList) :
    (({ u with pool := { u.pool with freeList := some s } } : Users ι).setPoint i
      .fetchAdd).Inv n (s :: l) S (insert i A) := by
  have hn : i ∉ A := fun ha => by cases hi.symm.trans <| (h.adds i).mp ha
  constructor
  case chain  => exact ⟨rfl, h.linked i s _ hi ▸ h.chain⟩
  case spread =>
    refine h.spread.move (j := some i) (k := none) (l := u.held i) nofun ?_ ?_ rfl fun k hi hk => ?_
    case refine_1 =>
      rw [place, hi]
      rfl
    case refine_2 => exact place_setPoint_self
    case refine_3 =>
      cases k
      case none   => exact absurd rfl hk
      case some j => exact place_setPoint_ne fun hj => hi <| congrArg some hj
  case linked => exact linked_move h.linked nofun
  case subs   => exact fun _ => mem_move h.subs hi <| iff_of_false nofun nofun
  case adds   => exact fun _ => mem_insert_move h.adds
  case count  =>
    have hc := h.count
    rw [Finset.card_insert_of_notMem hn, List.length_cons]
    change u.pool.available + _ = _
    bv_omega

theorem Inv.fetchAdd (h : u.Inv n l S A) (hi : u.point i = .fetchAdd) :
    (({ u with pool := { u.pool with available := u.pool.available + 1 } } : Users ι).setPoint i
      .idle).Inv n l S (A.erase i) := by
  have hm : i ∈ A := (h.adds i).mpr hi
  constructor
  case chain  => exact h.chain
  case spread => exact spread_setPoint h.spread hi rfl
  case linked => exact linked_move h.linked nofun
  case subs   => exact fun _ => mem_move h.subs hi <| iff_of_false nofun nofun
  case adds   => exact fun _ => mem_erase_move h.adds nofun
  case count  =>
    have hc := h.count
    rw [← Finset.card_erase_add_one hm] at hc
    change u.pool.available + 1 + _ = _
    bv_omega

-- A thread begins to release a slot.
theorem Inv.release (h : u.Inv n l S A) (hi : u.point i = .idle) (hs : s ∈ u.held i) :
    ((u.setHeld i <| (u.held i).erase s).setPoint i <| .loadFree s).Inv n l S A := by
  constructor
  case chain  => exact h.chain
  case spread =>
    refine h.spread.perm fun k => ?_
    cases k
    case none   => exact .refl _
    case some j =>
      by_cases hj : j = i
      case pos =>
        rw [hj, place_setPoint_self, held_setHeld_self, place, hi]
        exact (List.perm_cons_erase hs).symm
      case neg => rw [place_setPoint_ne hj, place_setHeld_ne hj]
  case linked => exact linked_move (u := u.setHeld i _) h.linked nofun
  case subs   =>
    exact fun _ => mem_move (u := u.setHeld i _) h.subs hi <| iff_of_false nofun nofun
  case adds   =>
    exact fun _ => mem_move (u := u.setHeld i _) h.adds hi <| iff_of_false nofun nofun
  case count  => exact h.count

def Unchanged (u : Users ι) : Action ι → Prop
  | .next i _ => (u.point i).Unchanged u.pool
  | _         => True

instance : DecidablePred u.Unchanged
  | .next i _   => inferInstanceAs <| Decidable ((u.point i).Unchanged u.pool)
  | .acquire _  => inferInstanceAs <| Decidable True
  | .release .. => inferInstanceAs <| Decidable True

theorem Inv.run {spurious : Bool} (h : u.Inv n l S A) (hc : u.Unchanged (.next i spurious))
    (hs : u.run i spurious (u.point i) = some u') : ∃ l S A, u'.Inv n l S A := by
  cases hi : u.point i
  all_goals
    rw [hi, Users.run] at hs
  case idle     => cases hs
  case loadHead =>
    cases hs
    exact ⟨l, S, A, h.tryHead hi rfl ⟨nofun, nofun⟩⟩
  case loadNext =>
    cases hs
    exact ⟨l, S, A, h.move hi rfl nofun ⟨iff_of_false nofun nofun, iff_of_false nofun nofun⟩⟩
  case exchange head next =>
    split at hs
    case isTrue hf  =>
      cases hs
      have hl := h.chain
      rw [hf.left] at hl
      obtain ⟨l, rfl, -⟩ := hl.pop
      rw [Unchanged, hi] at hc
      exact ⟨l, _, A, h.take hi <| hc hf.left⟩
    case isFalse =>
      cases hs
      exact ⟨l, S, A, h.tryHead hi rfl ⟨nofun, nofun⟩⟩
  case fetchSub =>
    cases hs
    exact ⟨l, _, A, h.fetchSub hi⟩
  case loadFree =>
    cases hs
    exact ⟨l, S, A, h.move hi rfl nofun ⟨iff_of_false nofun nofun, iff_of_false nofun nofun⟩⟩
  case storeNext =>
    cases hs
    exact ⟨l, S, A, h.storeNext hi⟩
  case exchangeFree slot head =>
    split at hs
    case isTrue hf  =>
      cases hs
      exact ⟨_, S, _, h.put <| hf.left ▸ hi⟩
    case isFalse =>
      cases hs
      exact ⟨l, S, A, h.move hi rfl nofun ⟨iff_of_false nofun nofun, iff_of_false nofun nofun⟩⟩
  case fetchAdd =>
    cases hs
    exact ⟨l, S, _, h.fetchAdd hi⟩

theorem Inv.step (h : u.Inv n l S A) (hc : u.Unchanged a) (hs : u.step a = some u') :
    ∃ l S A, u'.Inv n l S A := by
  cases a
  case acquire i =>
    rw [Users.step] at hs
    split at hs
    case isFalse   => cases hs
    case isTrue hi =>
      cases hs
      exact ⟨l, S, A, h.move hi rfl nofun ⟨iff_of_false nofun nofun, iff_of_false nofun nofun⟩⟩
  case release i slot =>
    rw [Users.step] at hs
    split at hs
    case isFalse   => cases hs
    case isTrue hi =>
      cases hs
      exact ⟨l, S, A, h.release hi.left hi.right⟩
  case next i spurious => exact h.run hc hs

-- The slots that can be reached from the head of the free list, and those that threads hold.
def free (u : Users ι) : Set ℕ :=
  {s | Reaches u.pool.next u.pool.freeList s}

def taken (u : Users ι) : Set ℕ :=
  {s | ∃ i, s ∈ u.held i}

-- No slot is handed out twice, and none is lost.
structure Safe (n : ℕ) (u : Users ι) : Prop where
  once  : ∀ i, (u.held i).Nodup
  alone : ∀ i j s, s ∈ u.held i → s ∈ u.held j → i = j
  apart : ∀ s ∈ u.taken, s ∉ u.free
  count : (∀ i, u.point i = .idle) →
    u.free.ncard + u.taken.ncard = n ∧ u.pool.available.toNat = u.free.ncard

section

omit [DecidableEq ι]

theorem mem_place (h : s ∈ u.held i) : s ∈ u.place l (some i) :=
  List.mem_append_right _ h

theorem Inv.free (h : u.Inv n l S A) : u.free = l.toFinset := by
  ext s
  rw [List.coe_toFinset]
  exact h.chain.reaches_iff

theorem Inv.taken (h : u.Inv n l S A) (hi : ∀ i, u.point i = .idle) :
    u.taken = (Finset.range n \ l.toFinset : Finset ℕ) := by
  have hp : ∀ i, u.place l (some i) = u.held i := by
    intro i
    rw [place, hi]
    rfl
  ext s
  rw [Finset.mem_coe, Finset.mem_sdiff, Finset.mem_range, List.mem_toFinset]
  constructor
  case mp =>
    rintro ⟨i, hs⟩
    have hm : s ∈ u.place l (some i) := mem_place hs
    exact ⟨(h.spread.all s).mpr ⟨some i, hm⟩, fun hl => nomatch h.spread.alone none _ s hl hm⟩
  case mpr =>
    rintro ⟨hn, hl⟩
    obtain ⟨k, hk⟩ := (h.spread.all s).mp hn
    cases k
    case none   => exact absurd hk hl
    case some i => exact ⟨i, hp i ▸ hk⟩

theorem Inv.available (h : u.Inv n l S A) (hi : ∀ i, u.point i = .idle) :
    u.pool.available = .ofNat 64 l.length := by
  have hs : S = ∅ := Finset.eq_empty_of_forall_notMem fun i hm => by
    cases (hi i).symm.trans <| (h.subs i).mp hm
  have ha : A = ∅ := Finset.eq_empty_of_forall_notMem fun i hm => by
    cases (hi i).symm.trans <| (h.adds i).mp hm
  have hc := h.count
  rw [hs, ha, Finset.card_empty] at hc
  bv_omega

theorem Inv.safe (h : u.Inv n l S A) (hn : n < 2 ^ 64) : u.Safe n := by
  constructor
  case once  => exact fun i => (h.spread.once (some i)).of_append_right
  case alone =>
    exact fun i j s hi hj => Option.some.inj <| h.spread.alone _ _ s (mem_place hi) (mem_place hj)
  case apart =>
    rintro s ⟨i, hi⟩ hs
    have hl : s ∈ l := h.chain.reaches_iff.mp hs
    exact nomatch h.spread.alone none (some i) s hl (mem_place hi)
  case count =>
    intro hi
    have hl : l.toFinset ⊆ Finset.range n := by
      intro s hs
      exact Finset.mem_range.mpr <| (h.spread.all s).mpr ⟨none, List.mem_toFinset.mp hs⟩
    have hc : l.toFinset.card = l.length := List.toFinset_card_of_nodup <| h.spread.once none
    have hle := Finset.card_le_card hl
    rw [h.free, h.taken hi, Set.ncard_coe_finset, Set.ncard_coe_finset,
      Finset.card_sdiff_of_subset hl, h.available hi, BitVec.toNat_ofNat]
    rw [Finset.card_range, hc] at *
    exact ⟨by omega, Nat.mod_eq_of_lt (by omega)⟩

end

end Users

theorem chain_range {poolSize : ℕ} : ∀ {m k : ℕ}, k + m = poolSize →
    Chain (fun i => if i + 1 < poolSize then some (i + 1) else none)
      (if k < poolSize then some k else none) (List.range' k m)
  | 0, k, h     => if_neg <| by omega
  | m + 1, k, h => ⟨if_pos <| by omega, chain_range (by omega)⟩

omit [DecidableEq ι] in
theorem create_inv {poolSize : BitVec 64} {pool : ObjectPool} (h : create poolSize = some pool) :
    (Users.start (ι := ι) pool).Inv poolSize.toNat (List.range' 0 poolSize.toNat) ∅ ∅ := by
  unfold create at h
  split at h
  case isTrue     => cases h
  case isFalse hz =>
    cases h
    have hp : 0 < poolSize.toNat := Nat.pos_of_ne_zero fun h0 => hz <| BitVec.eq_of_toNat_eq h0
    constructor
    case chain =>
      have hc := chain_range (m := poolSize.toNat) (Nat.zero_add _)
      rwa [if_pos hp] at hc
    case spread =>
      constructor
      case once =>
        intro k
        cases k
        case none => exact List.nodup_range'
        case some => exact .nil
      case alone =>
        intro j k s hj hk
        cases j <;> cases k
        case none.none => rfl
        all_goals first | cases hj | cases hk
      case all =>
        intro s
        change s < _ ↔ _
        constructor
        case mp  => exact fun hs => ⟨none, List.mem_range'_1.mpr ⟨Nat.zero_le s, by omega⟩⟩
        case mpr =>
          rintro ⟨k, hk⟩
          cases k
          case none => have := List.mem_range'_1.mp hk; omega
          case some => cases hk
    case linked => nofun
    case subs   => exact fun _ => iff_of_false (Finset.notMem_empty _) nofun
    case adds   => exact fun _ => iff_of_false (Finset.notMem_empty _) nofun
    case count  => simp [Users.start]

-- As long as no link changes between the read and the exchange of a head that is still there, the
-- slots are handed out and counted right, in every state of a run.
theorem always_safe {poolSize : BitVec 64} {pool : ObjectPool} (h : create poolSize = some pool)
    {as : List (Action ι)} (hc : (machine ι).Along Users.Unchanged (.start pool) as) :
    (machine ι).Always (fun u => u.Safe poolSize.toNat) (.start pool) as := by
  have hi : (machine ι).Always (fun u => ∃ l S A, u.Inv poolSize.toNat l S A) (.start pool) as :=
    Machine.always_of_step (fun u a u' ⟨l, S, A, h⟩ hc hs => h.step hc hs)
      ⟨_, _, _, create_inv h⟩ hc
  exact hi.mono fun u ⟨l, S, A, h⟩ => h.safe poolSize.isLt

namespace Sample

def pair : ObjectPool where
  next i    := if i + 1 < 2 then some (i + 1) else none
  freeList  := some 0
  available := 2

def acquires (i : Bool) : List (Action Bool) :=
  .acquire i :: .replicate 4 (.next i false)

def releases (i : Bool) (slot : ℕ) : List (Action Bool) :=
  .release i slot :: .replicate 4 (.next i false)

end Sample

theorem always_safe_sample : (machine Bool).Always (fun u => u.Safe 2) (.start Sample.pair)
    (Sample.acquires true ++ Sample.releases true 0) :=
  always_safe (rfl : create 2 = some Sample.pair) (by decide)

-- A thread is late to exchange the head, which has been taken and put back after the next slot was
-- taken.
theorem not_always_safe : ¬∀ as : List (Action Bool),
    (machine Bool).Always (fun u => u.Safe 2) (.start Sample.pair) as := by
  intro h
  have hs := (h <| [.acquire true, .next true false, .next true false] ++ Sample.acquires false ++
    Sample.acquires false ++ Sample.releases false 0 ++ [.next true false]).exec rfl
  exact hs.apart 1 ⟨false, by decide⟩ .here

end Cpp.ObjectPool
