import Mathlib.Algebra.Order.Ring.Nat
import Mathlib.Data.Int.Notation
import Mathlib.Data.Nat.ModEq
import Tyche.Cpp.RingBuffer
import Tyche.Smearing

namespace Cpp.RingBuffer

variable {α : Type} {c : BitVec 64} {k n p p' : ℕ} {b b' : Buffer α} {f : Fifo α} {x : α}
variable {calls : List (Call α)}

section Capacity

theorem nextPowerOf2_eq {m : BitVec 64} (h : 1 < m.toNat) :
    nextPowerOf2 m = .ofNat 64 (2 ^ Nat.clog 2 m.toNat) := by
  have hm : ¬m ≤ 1 := by simpa [BitVec.le_def] using h
  have hs : (m - 1).toNat = m.toNat - 1 := by
    rw [BitVec.toNat_sub_of_le (by rw [BitVec.le_def]; exact Nat.le_of_lt h)]
    rfl
  have hz : m - 1 ≠ 0 := fun e => by
    rw [e] at hs
    simp only [BitVec.ofNat_eq_ofNat, BitVec.toNat_ofNat, Nat.zero_mod] at hs
    omega
  have hc : Nat.clog 2 m.toNat = (m.toNat - 1).log2 + 1 := by
    apply Nat.le_antisymm
    · rw [Nat.clog_le_iff_le_pow Nat.one_lt_two]
      have := Nat.lt_log2_self (n := m.toNat - 1)
      omega
    · rw [Nat.succ_le_iff, Nat.lt_clog_iff_pow_lt Nat.one_lt_two]
      have := Nat.log2_self_le (n := m.toNat - 1) (by omega)
      omega
  have ht := Smearing.covers_self.shift.shift.shift.shift.shift.shift.toNat_eq hz
  rw [hs] at ht
  rw [nextPowerOf2, if_neg hm, hc]
  apply BitVec.eq_of_toNat_eq
  have := Nat.two_pow_pos ((m.toNat - 1).log2 + 1)
  rw [BitVec.toNat_add, BitVec.toNat_ofNat]
  refine congrArg (· % 2 ^ 64) <| Eq.trans (congrArg (· + 1) ht) (by omega)

theorem clog_ne_zero : Nat.clog 2 (max c.toNat 2) ≠ 0 :=
  Nat.ne_of_gt <| Nat.clog_pos Nat.one_lt_two (by omega)

theorem bound_isLeast : IsLeast { m | max c.toNat 2 ≤ m ∧ ∃ k, m = 2 ^ k } (bound c) := by
  constructor
  case left  => exact ⟨Nat.le_pow_clog Nat.one_lt_two _, _, rfl⟩
  case right =>
    rintro _ ⟨h, k, rfl⟩
    exact Nat.pow_le_pow_right Nat.two_pos <| Nat.clog_le_of_le_pow h

theorem mask_eq : mask c = .ofNat 64 (bound c) - 1 := by
  rw [mask, bound]
  by_cases h : c < 2
  case pos =>
    have h' : c.toNat < 2 := h
    rw [if_pos h, Nat.max_eq_right (by omega), nextPowerOf2_eq (by decide)]
    rfl
  case neg =>
    have h' : ¬c.toNat < 2 := h
    rw [if_neg h, Nat.max_eq_left (by omega), nextPowerOf2_eq (by omega)]

theorem clog_le (h : c.toNat ≤ 2 ^ 63) : Nat.clog 2 (max c.toNat 2) ≤ 63 :=
  Nat.clog_le_of_le_pow (by omega)

theorem toNat_capacity (h : c.toNat ≤ 2 ^ 63) : (capacity c).toNat = bound c := by
  have hb : bound c ≤ 2 ^ 63 := Nat.pow_le_pow_right Nat.two_pos (clog_le h)
  rw [capacity, mask_eq, BitVec.sub_add_cancel, BitVec.toNat_ofNat, Nat.mod_eq_of_lt (by omega)]

theorem bound_of_lt (h : 2 ^ 63 < c.toNat) : bound c = 2 ^ 64 := by
  have := c.isLt
  have h₁ : 63 < Nat.clog 2 (max c.toNat 2) := (Nat.lt_clog_iff_pow_lt Nat.one_lt_two).mpr (by omega)
  have h₂ : Nat.clog 2 (max c.toNat 2) ≤ 64 := Nat.clog_le_of_le_pow (by omega)
  rw [bound, show Nat.clog 2 (max c.toNat 2) = 64 by omega]

end Capacity

section Positions

theorem mod_ne (h : p < p') (hn : p' < p + n) : p % n ≠ p' % n := by
  intro he
  have := Nat.le_of_dvd (by omega) <| (Nat.modEq_iff_dvd' (Nat.le_of_lt h)).mp he
  omega

theorem ofNat_succ : BitVec.ofNat 64 p + 1 = .ofNat 64 (p + 1) :=
  (BitVec.ofNat_add p 1).symm

theorem sub_toInt (h : n ≤ 2 ^ 63) :
    (BitVec.ofNat 64 p - BitVec.ofNat 64 (p + n)).toInt = -(n : ℤ) := by
  rw [BitVec.toInt_eq_toNat_cond, BitVec.toNat_sub, BitVec.toNat_ofNat, BitVec.toNat_ofNat]
  split <;> omega

theorem index_eq (hm : b.mask = .ofNat 64 (2 ^ k - 1)) (hk : k ≤ 63) :
    (BitVec.ofNat 64 p &&& b.mask).toNat = p % 2 ^ k :=
  hm ▸ Smearing.toNat_and_ones p (Nat.le_succ_of_le hk)

theorem slot?_eq (hm : b.mask = .ofNat 64 (2 ^ k - 1)) (hk : k ≤ 63) :
    b.slot? (.ofNat 64 p) = some (b.slots (p % 2 ^ k)) := by
  have hl := index_eq (p := p) hm hk
  have hs : (b.mask + 1).toNat = 2 ^ k := by
    have := Nat.two_pow_pos k
    have := Nat.pow_le_pow_right Nat.two_pos hk
    rw [hm, BitVec.toNat_add, BitVec.toNat_ofNat, show (1 : BitVec 64).toNat = 1 from rfl]
    omega
  rw [Buffer.slot?, if_pos, hl]
  rw [BitVec.lt_def, hl, hs]
  exact Nat.mod_lt _ (Nat.two_pow_pos k)

-- The position of a slot on the next lap.
theorem next_lap_eq (hm : b.mask = .ofNat 64 (2 ^ k - 1)) :
    BitVec.ofNat 64 p + b.mask + 1 = .ofNat 64 (p + 2 ^ k) := by
  have := Nat.two_pow_pos k
  rw [hm, BitVec.add_assoc, ofNat_succ, ← BitVec.ofNat_add, Nat.sub_add_cancel this]

end Positions

-- The slots of a buffer with `2 ^ k` of them: those between the two positions hold the items still
-- to be popped, and those from there on, once round the buffer, are free.
structure Tracks (k : ℕ) (b : Buffer α) (f : Fifo α) : Prop where
  mask     : b.mask = .ofNat 64 (2 ^ k - 1)
  pos      : 0 < k
  le       : k ≤ 63
  writePos : b.writePos = .ofNat 64 f.accepted.length
  readPos  : b.readPos = .ofNat 64 f.taken
  lap      : f.accepted.length ≤ f.taken + 2 ^ k
  holds    : ∀ p x, f.taken ≤ p → f.accepted[p]? = some x →
    b.slots (p % 2 ^ k) = { sequence := .ofNat 64 (p + 1), data := some x }
  free     : ∀ p, f.accepted.length ≤ p → p < f.taken + 2 ^ k →
    (b.slots (p % 2 ^ k)).sequence = .ofNat 64 p

theorem tracks_create (h : c.toNat ≤ 2 ^ 63) :
    Tracks (Nat.clog 2 (max c.toNat 2)) (create α c) .empty where
  mask     := by
    rw [create, mask_eq, bound]
    have := Nat.two_pow_pos (Nat.clog 2 (max c.toNat 2))
    bv_omega
  pos      := Nat.pos_of_ne_zero clog_ne_zero
  le       := clog_le h
  writePos := rfl
  readPos  := rfl
  lap      := Nat.zero_le _
  holds    := fun _ _ _ => nofun
  free     := fun p _ h => by
    rw [Nat.mod_eq_of_lt (by simpa [Fifo.empty] using h)]
    rfl

-- The numbers of the items accepted and taken out so far lie between the same two multiples of
-- 2 ^ 64.
def SameLap (f : Fifo α) : Prop :=
  f.taken / 2 ^ 64 = f.accepted.length / 2 ^ 64

instance : Decidable (SameLap f) :=
  inferInstanceAs <| Decidable (_ = _)

def Reply.withSize : Reply α → ℕ → Reply α
  | .pushed a _,    n => .pushed a n
  | .overwritten _, n => .overwritten n
  | .popped x _,    n => .popped x n

theorem withSize_eq_self_iff {call : Call α} :
    (specCall n f call).1.withSize p = (specCall n f call).1 ↔ p = (specCall n f call).2.size := by
  cases call
  case tryPush x => simp only [specCall]; split <;> simp [Reply.withSize]
  case pushOverwrite x => simp [specCall, Reply.withSize]
  case pop => simp [specCall, Reply.withSize]

namespace Tracks

theorem index (t : Tracks k b f) (p : ℕ) : (BitVec.ofNat 64 p &&& b.mask).toNat = p % 2 ^ k :=
  index_eq t.mask t.le

theorem slot? (t : Tracks k b f) (p : ℕ) :
    b.slot? (.ofNat 64 p) = some (b.slots (p % 2 ^ k)) :=
  slot?_eq t.mask t.le

theorem pow_le (t : Tracks k b f) : 2 ≤ 2 ^ k ∧ 2 ^ k ≤ 2 ^ 63 :=
  ⟨Nat.pow_le_pow_right Nat.two_pos t.pos, Nat.pow_le_pow_right Nat.two_pos t.le⟩

theorem size_le (t : Tracks k b f) : f.size ≤ 2 ^ k :=
  Nat.sub_le_iff_le_add'.mpr t.lap

theorem succ_slots (t : Tracks k b f) : b.readPos + b.mask + 1 = .ofNat 64 (f.taken + 2 ^ k) :=
  t.readPos ▸ next_lap_eq t.mask

-- A free slot takes the item.
theorem offer (t : Tracks k b f) (h : f.size < 2 ^ k) :
    Tracks k ({ b with writePos := b.writePos + 1 }.setSlot b.writePos
      { sequence := b.writePos + 1, data := some x }) (f.offer x) := by
  have ht := f.taken_le
  simp only [Fifo.size] at h
  constructor
  case mask     => exact t.mask
  case pos      => exact t.pos
  case le       => exact t.le
  case writePos =>
    rw [Fifo.offer_accepted, List.length_append, List.length_singleton, ← ofNat_succ, ← t.writePos]
    rfl
  case readPos  => exact t.readPos
  case lap      => simp; omega
  case holds =>
    intro p y hp hy
    simp only [Buffer.setSlot, t.writePos, t.index, ofNat_succ]
    rw [Fifo.offer_accepted, List.getElem?_append] at hy
    split at hy
    case isTrue hl =>
      rw [Function.update_of_ne <| mod_ne hl (by simp at hp; omega)]
      exact t.holds p y hp hy
    case isFalse hl =>
      obtain ⟨hz, rfl⟩ : p - f.accepted.length = 0 ∧ x = y := by
        simpa [List.getElem?_singleton] using hy
      obtain rfl : p = f.accepted.length := by omega
      rw [Function.update_self]
  case free =>
    intro p hp hl
    simp only [Fifo.offer_accepted, List.length_append, List.length_singleton] at hp
    simp only [Fifo.offer_taken] at hl
    simp only [Buffer.setSlot, t.writePos, t.index]
    rw [Function.update_of_ne (mod_ne (by omega) (by omega)).symm]
    exact t.free p (by omega) hl

-- The slot of the oldest item becomes free for the next lap, whatever is left in it.
theorem take (t : Tracks k b f) (h : f.taken < f.accepted.length) (d : Option α) :
    Tracks k ({ b with readPos := b.readPos + 1 }.setSlot b.readPos
      { sequence := b.readPos + b.mask + 1, data := d }) f.take := by
  have hl := t.lap
  constructor
  case mask     => exact t.mask
  case pos      => exact t.pos
  case le       => exact t.le
  case writePos => exact t.writePos
  case readPos  => rw [Fifo.take_taken h, ← ofNat_succ, ← t.readPos]; rfl
  case lap      => rw [Fifo.take_taken h, Fifo.take_accepted]; omega
  case holds =>
    intro p y hp hy
    rw [Fifo.take_taken h] at hp
    have hp' : p < f.accepted.length := (List.getElem?_eq_some_iff.mp hy).choose
    simp only [Buffer.setSlot, t.readPos, t.index]
    rw [Function.update_of_ne (mod_ne (by omega) (by omega)).symm]
    exact t.holds p y (by omega) hy
  case free =>
    intro p hp hp'
    simp only [Fifo.take_accepted] at hp
    rw [Fifo.take_taken h] at hp'
    rw [t.succ_slots]
    simp only [Buffer.setSlot, t.readPos, t.index]
    by_cases he : p = f.taken + 2 ^ k
    case pos => simp [he]
    case neg =>
      rw [Function.update_of_ne (mod_ne (by omega) (by omega)).symm]
      exact t.free p hp (by omega)

theorem tryPush_open (t : Tracks k b f) (h : f.size < 2 ^ k) :
    ∃ b', b.tryPushPass x b.writePos = some (.done true b') ∧ Tracks k b' (f.offer x) := by
  refine ⟨_, ?_, t.offer h⟩
  have ht := f.taken_le
  have hs := t.free f.accepted.length (Nat.le_refl _) (by rw [Fifo.size] at h; omega)
  simp [Buffer.tryPushPass, t.writePos, t.slot?, hs]

theorem tryPush_full (t : Tracks k b f) (h : f.size = 2 ^ k) :
    b.tryPushPass x b.writePos = some (.done false b) := by
  have ⟨h₂, h₆₃⟩ := t.pow_le
  have ht := f.taken_le
  rw [Fifo.size] at h
  have hl : f.accepted.length = f.taken + 2 ^ k := by omega
  have hs := t.holds f.taken _ (Nat.le_refl _) (List.getElem?_eq_getElem (by omega))
  have hd : (BitVec.ofNat 64 (f.taken + 1) - BitVec.ofNat 64 f.accepted.length).toInt =
      -((2 ^ k - 1 : ℕ) : ℤ) := by
    rw [← sub_toInt (by omega)]
    congr
    omega
  rw [← Nat.add_mod_right, ← hl] at hs
  simp only [Buffer.tryPushPass, t.writePos, t.slot?, hs, Option.bind_eq_bind, Option.bind_some, hd]
  rw [if_neg (by omega), if_pos (by omega)]

theorem oldest (t : Tracks k b f) (h : f.taken < f.accepted.length) :
    b.slot? b.readPos = some { sequence := b.readPos + 1, data := f.front? } := by
  rw [t.readPos, t.slot?, Fifo.front?_eq_some h, ofNat_succ]
  exact congrArg _ <| t.holds f.taken _ (Nat.le_refl _) (List.getElem?_eq_getElem h)

theorem discard_eq (t : Tracks k b f) (h : f.taken < f.accepted.length) :
    ∃ b', b.discard = some b' ∧ Tracks k b' f.take := by
  refine ⟨_, ?_, t.take h f.front?⟩
  simp [Buffer.discard, t.oldest h]

theorem pop_ready (t : Tracks k b f) (h : f.taken < f.accepted.length) :
    ∃ b', b.pop = some (f.front?, b') ∧ Tracks k b' f.take := by
  refine ⟨_, ?_, t.take h none⟩
  simp [Buffer.pop, t.oldest h, Fifo.front?_eq_some h]

theorem pop_empty (t : Tracks k b f) (h : f.taken = f.accepted.length) :
    b.pop = some (none, b) := by
  have hs := t.free f.taken (Nat.le_of_eq h.symm) (by have := Nat.two_pow_pos k; omega)
  have hd : (BitVec.ofNat 64 f.taken - (BitVec.ofNat 64 f.taken + 1)).toInt = -1 := by
    rw [ofNat_succ]
    exact sub_toInt (by decide)
  simp only [Buffer.pop, t.readPos, t.slot?, hs, Option.bind_eq_bind, Option.bind_some, hd]
  rfl

theorem pop_eq (t : Tracks k b f) : ∃ b', b.pop = some (f.front?, b') ∧ Tracks k b' f.take := by
  by_cases h : f.taken < f.accepted.length
  case pos => exact t.pop_ready h
  case neg =>
    have h := Nat.le_antisymm f.taken_le (Nat.le_of_not_lt h)
    rw [Fifo.front?_eq_none_iff.mpr h, Fifo.take_eq_self h]
    exact ⟨b, t.pop_empty h, t⟩

theorem size_eq_iff (t : Tracks k b f) : b.size = f.size ↔ SameLap f := by
  have h₆₃ := t.pow_le.right
  have hl := t.lap
  have ht := f.taken_le
  simp only [Buffer.size, t.writePos, t.readPos, BitVec.le_def, BitVec.toNat_sub, BitVec.toNat_ofNat,
    Fifo.size, SameLap]
  split <;> omega

theorem buffer_size_le (t : Tracks k b f) : b.size ≤ f.size := by
  have h₆₃ := t.pow_le.right
  have hl := t.lap
  have ht := f.taken_le
  simp only [Buffer.size, t.writePos, t.readPos, BitVec.le_def, BitVec.toNat_sub, BitVec.toNat_ofNat,
    Fifo.size]
  split <;> omega

theorem tryPush_eq (t : Tracks k b f) (x : α) : ∃ b',
    (∀ fuel, b.tryPush x (fuel + 1) = some (decide (f.size < 2 ^ k), b')) ∧
      Tracks k b' (if f.size < 2 ^ k then f.offer x else f) ∧ (¬f.size < 2 ^ k → b' = b) := by
  by_cases h : f.size < 2 ^ k
  case pos =>
    obtain ⟨b', hp, t'⟩ := t.tryPush_open (x := x) h
    refine ⟨b', fun fuel => ?_, by rwa [if_pos h], absurd h⟩
    rw [Buffer.tryPush, Buffer.tryPushLoop, hp, decide_eq_true h]
    rfl
  case neg =>
    have hp := t.tryPush_full (x := x) <| Nat.le_antisymm t.size_le (Nat.le_of_not_lt h)
    refine ⟨b, fun fuel => ?_, by rwa [if_neg h], fun _ => rfl⟩
    rw [Buffer.tryPush, Buffer.tryPushLoop, hp, decide_eq_false h]
    rfl

theorem pushOverwrite_eq (t : Tracks k b f) (x : α) : ∃ b',
    (∀ fuel, b.pushOverwrite x (fuel + 3) = some b') ∧ Tracks k b' (specOverwrite (2 ^ k) f x) := by
  obtain ⟨b₁, hp, t₁, he⟩ := t.tryPush_eq x
  rw [specOverwrite]
  by_cases h : f.size < 2 ^ k
  case pos =>
    refine ⟨b₁, fun fuel => ?_, by simpa only [if_pos h] using t₁⟩
    rw [Buffer.pushOverwrite, hp, decide_eq_true h]
    rfl
  case neg =>
    cases he h
    have hs := t.size_le
    have := Nat.two_pow_pos k
    have hf : f.taken < f.accepted.length := by rw [Fifo.size] at h; omega
    obtain ⟨b₂, hd, t₂⟩ := t.discard_eq hf
    have hl : f.take.size < 2 ^ k := by
      rw [Fifo.size] at hs ⊢
      rw [Fifo.take_taken hf, Fifo.take_accepted]
      omega
    obtain ⟨b₃, hp', t₃, -⟩ := t₂.tryPush_eq x
    rw [if_pos hl] at t₃
    refine ⟨b₃, fun fuel => ?_, by rwa [if_neg h]⟩
    rw [Buffer.pushOverwrite, hp, decide_eq_false h]
    simp only [Option.bind_eq_bind, Option.bind_some, hd, Bool.false_eq_true, if_false]
    rw [Buffer.pushOverwrite, hp', decide_eq_true hl]
    rfl

-- A call leaves the buffer as the bounded queue has it, and returns what that does but for the
-- size.
theorem call (t : Tracks k b f) (call : Call α) : ∃ b',
    (∀ fuel, b.call (fuel + 3) call = some ((specCall (2 ^ k) f call).1.withSize b'.size, b')) ∧
      Tracks k b' (specCall (2 ^ k) f call).2 := by
  cases call
  case tryPush x =>
    obtain ⟨b', hp, t', -⟩ := t.tryPush_eq x
    by_cases h : f.size < 2 ^ k
    all_goals
      simp only [h, if_true, if_false, decide_true, decide_false] at hp t'
      simp only [specCall, h, if_true, if_false]
      exact ⟨b', fun fuel => by rw [Buffer.call, hp]; rfl, t'⟩
  case pushOverwrite x =>
    obtain ⟨b', hp, t'⟩ := t.pushOverwrite_eq x
    exact ⟨b', fun fuel => by rw [Buffer.call, hp]; rfl, t'⟩
  case pop =>
    obtain ⟨b', hp, t'⟩ := t.pop_eq
    exact ⟨b', fun fuel => by rw [Buffer.call, hp]; rfl, t'⟩

theorem conforms_iff (t : Tracks k b f) :
    (∃ enough, ∀ fuel ≥ enough, b.replies fuel calls = some (specReplies (2 ^ k) f calls)) ↔
      (spec α (2 ^ k)).Along (fun f call => SameLap (specCall (2 ^ k) f call).2) f calls := by
  induction calls generalizing b f
  case nil => exact ⟨fun _ => trivial, fun _ => ⟨0, fun _ _ => rfl⟩⟩
  case cons call calls hi =>
    obtain ⟨b', hc, t'⟩ := t.call call
    have hr (fuel : ℕ) : b.replies (fuel + 3) (call :: calls) =
        (b'.replies (fuel + 3) calls).map ((specCall (2 ^ k) f call).1.withSize b'.size :: ·) := by
      simp only [Buffer.replies, hc, Option.bind_eq_bind, Option.bind_some]
      cases b'.replies (fuel + 3) calls <;> rfl
    have hs : (spec α (2 ^ k)).Along (fun f call => SameLap (specCall (2 ^ k) f call).2) f
          (call :: calls) ↔
        (specCall (2 ^ k) f call).1.withSize b'.size = (specCall (2 ^ k) f call).1 ∧
          (spec α (2 ^ k)).Along (fun f call => SameLap (specCall (2 ^ k) f call).2)
            (specCall (2 ^ k) f call).2 calls := by
      rw [withSize_eq_self_iff, t'.size_eq_iff]
      exact ⟨fun h => ⟨h.left, h.right _ rfl⟩, fun h => ⟨h.left, fun _ e => Option.some.inj e ▸ h.right⟩⟩
    rw [hs, ← hi t']
    constructor
    case mp =>
      intro ⟨n, h⟩
      have h (fuel : ℕ) (hf : n ≤ fuel) := h (fuel + 3) (by omega)
      simp only [hr, specReplies, Option.map_eq_some_iff, List.cons.injEq, exists_eq_right_right] at h
      refine ⟨(h n (Nat.le_refl _)).right, n + 3, fun fuel hf => ?_⟩
      obtain ⟨fuel, rfl⟩ := Nat.exists_eq_add_of_le' (Nat.le_of_add_left_le hf)
      exact (h fuel (by omega)).left
    case mpr =>
      intro ⟨he, n, h⟩
      refine ⟨n + 3, fun fuel hf => ?_⟩
      obtain ⟨fuel, rfl⟩ := Nat.exists_eq_add_of_le' (Nat.le_of_add_left_le hf)
      rw [hr, h (fuel + 3) (by omega), he]
      rfl

end Tracks

-- No call leaves items in the buffer of which some were accepted before and some after the 2 ^ 64th.
def OneLap (c : BitVec 64) (calls : List (Call α)) : Prop :=
  (spec α (bound c)).Along (fun f call => SameLap (specCall (bound c) f call).2) .empty calls

section NoSlots

-- A capacity that has no power of two above it leaves the buffer without slots.
theorem create_slot? (h : 2 ^ 63 < c.toNat) (pos : BitVec 64) : (create α c).slot? pos = none := by
  rw [Buffer.slot?, create, mask_eq, bound_of_lt h, BitVec.sub_add_cancel]
  exact if_neg BitVec.not_lt_zero

theorem create_tryPush (h : 2 ^ 63 < c.toNat) (x : α) (fuel : ℕ) :
    (create α c).tryPush x fuel = none := by
  cases fuel
  case zero => rfl
  case succ => simp [Buffer.tryPush, Buffer.tryPushLoop, Buffer.tryPushPass, create_slot? h]

theorem create_pushOverwrite (h : 2 ^ 63 < c.toNat) (x : α) (fuel : ℕ) :
    (create α c).pushOverwrite x fuel = none := by
  cases fuel
  case zero => rfl
  case succ => simp [Buffer.pushOverwrite, create_tryPush h]

theorem create_pop (h : 2 ^ 63 < c.toNat) : (create α c).pop = none := by
  simp [Buffer.pop, create_slot? h]

theorem create_call (h : 2 ^ 63 < c.toNat) (fuel : ℕ) (call : Call α) :
    (create α c).call fuel call = none := by
  cases call
  case tryPush x       => rw [Buffer.call, create_tryPush h]; rfl
  case pushOverwrite x => rw [Buffer.call, create_pushOverwrite h]; rfl
  case pop             => rw [Buffer.call, create_pop h]; rfl

end NoSlots

-- The buffer is a bounded first-in-first-out queue on exactly those sequences of calls, provided
-- that there is a power of two for its capacity.
theorem conforms_iff_oneLap (c : BitVec 64) (calls : List (Call α)) :
    Conforms c calls ↔ calls = [] ∨ (c.toNat ≤ 2 ^ 63 ∧ OneLap c calls) := by
  by_cases h : c.toNat ≤ 2 ^ 63
  case pos =>
    rw [Conforms, bound, (tracks_create h).conforms_iff, OneLap, bound]
    constructor
    case mp  => exact fun hl => .inr ⟨h, hl⟩
    case mpr => rintro (rfl | hl); exacts [trivial, hl.right]
  case neg =>
    cases calls
    case nil => simpa using ⟨0, fun _ _ => rfl⟩
    case cons call calls =>
      simp only [h, false_and, or_false, reduceCtorEq, iff_false]
      intro ⟨n, h'⟩
      have h' := h' n (Nat.le_refl _)
      rw [Buffer.replies, create_call (Nat.lt_of_not_le h)] at h'
      cases h'

-- A queue capacity of -1 is such a size.
theorem not_conforms_negative_capacity :
    ¬Conforms (BitVec.signExtend 64 (-1 : BitVec 32)) [Call.tryPush (7 : ℕ)] := by
  rintro ⟨n, h⟩
  have h := h n (Nat.le_refl _)
  rw [Buffer.replies, create_call (by decide)] at h
  cases h

end Cpp.RingBuffer
