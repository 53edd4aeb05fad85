import Mathlib.Algebra.Ring.Nat
import Mathlib.Data.Int.Notation
import Mathlib.Tactic.Common
import Tyche.SharedMemory.Queue

namespace SharedMemoryQueue

variable {c : Config} {q q' : Queue} {f : Fifo Bytes} {data : Bytes} {calls : List Call}

-- The slot holds the message that was written when `write_seq` was `i`.
structure Slot.Holds (slot : Slot) (i : ℕ) (m : Bytes) : Prop where
  sequence : slot.sequence = .ofNat 32 (i + 1)
  size     : slot.size.toNat = m.length
  data     : slot.data.take m.length = m

-- The slots of a queue that has not gone round yet: those from `write_seq` on were never written,
-- those between `read_seq` and `write_seq` hold the messages still to be read, and those before
-- `read_seq` carry the sequence that `read` leaves behind.
structure Tracks (q : Queue) (f : Fifo Bytes) : Prop where
  writeSeq : q.writeSeq.toNat = f.accepted.length
  readSeq  : q.readSeq.toNat = f.taken
  lap      : f.accepted.length ≤ q.config.slotCount.toNat
  admits   : ∀ m ∈ f.accepted, q.config.Admits m
  free     : ∀ i, f.accepted.length ≤ i → (q.slots i).sequence = .ofNat 32 i
  holds    : ∀ i m, f.taken ≤ i → f.accepted[i]? = some m → (q.slots i).Holds i m
  released : ∀ i < f.taken, (q.slots i).sequence = .ofNat 32 (i + 1) + q.config.slotCount

-- The call is made before the slots have to be used a second time: a message is only offered while
-- fewer than `slot_count` were accepted, or to a queue that was filled and not read at all (where
-- the sequences of its first slot and of `write_seq` must not be more than an `int32_t` apart), and
-- nothing is read after `slot_count` messages were.
def Config.Fresh (c : Config) (f : Fifo Bytes) : Call → Prop
  | .write data =>
    c.Admits data → f.accepted.length < c.slotCount.toNat ∨
      (f.taken = 0 ∧ c.slotCount.toNat ≤ 2 ^ 31 + 1)
  | .read => f.taken < c.slotCount.toNat

instance {f : Fifo Bytes} : ∀ call, Decidable (c.Fresh f call)
  | .write _ => inferInstanceAs <| Decidable (_ → _)
  | .read    => inferInstanceAs <| Decidable (_ < _)

def FirstLap (c : Config) (calls : List Call) : Prop :=
  c.spec.Along c.Fresh .empty calls

instance : Decidable (FirstLap c calls) :=
  inferInstanceAs <| Decidable (c.spec.Along c.Fresh .empty calls)

def messages (rs : List Reply) : List Bytes :=
  rs.filterMap fun
    | .message m _ => m
    | .written _ _ => none

theorem specReplies_messages {f' : Fifo Bytes} (h : c.spec.exec f calls = some f') :
    f'.accepted.take f'.taken = f.accepted.take f.taken ++ messages (c.specReplies f calls) := by
  induction calls generalizing f
  case nil => cases h; simp [Config.specReplies, messages]
  case cons call calls hi =>
    have ⟨_, e, h⟩ := Machine.exec_cons_eq_some_iff.mp h
    cases e
    rw [hi h]
    cases call
    case write data =>
      simp only [Config.specReplies, Config.specCall]
      split
      case isTrue =>
        rw [Fifo.offer_accepted, Fifo.offer_taken, List.take_append_of_le_length f.taken_le]
        rfl
      case isFalse => rfl
    case read =>
      simp only [Config.specReplies, Config.specCall]
      cases hf : f.front?
      case none =>
        rw [Fifo.take_eq_self (Fifo.front?_eq_none_iff.mp hf)]
        rfl
      case some m =>
        rw [Fifo.take_accepted, Fifo.taken_concat_front? hf, List.append_assoc]
        rfl

-- The messages that the bounded buffer hands out are the first ones it accepted, in that order and
-- each once.
theorem messages_eq_take_accepted (h : c.spec.exec .empty calls = some f) :
    messages (c.specReplies .empty calls) = f.accepted.take f.taken :=
  (specReplies_messages h).symm

theorem tracks_create : Tracks (create c) .empty where
  writeSeq := rfl
  readSeq  := rfl
  lap      := Nat.zero_le _
  admits   := nofun
  free     := fun _ _ => rfl
  holds    := fun _ _ _ => nofun
  released := nofun

theorem mod_eq_self {p n : BitVec 32} (h : p.toNat < n.toNat) : p % n = p :=
  BitVec.eq_of_toNat_eq <| by rw [BitVec.toNat_umod, Nat.mod_eq_of_lt h]

theorem mod_eq_zero {p n : BitVec 32} (h : p.toNat = n.toNat) : p % n = 0#32 :=
  BitVec.eq_of_toNat_eq <| by simp [BitVec.toNat_umod, h]

theorem toNat_add_one {p n : BitVec 32} (h : p.toNat < n.toNat) :
    (p + 1#32).toNat = p.toNat + 1 := by
  have := n.isLt
  rw [BitVec.toNat_add, show (1#32).toNat = 1 from rfl, Nat.mod_eq_of_lt (by omega)]

theorem ofNat_toNat_succ {p : BitVec 32} : BitVec.ofNat 32 (p.toNat + 1) = p + 1#32 := by
  rw [BitVec.ofNat_add, BitVec.ofNat_toNat, BitVec.setWidth_eq]

namespace Queue

variable {i : BitVec 32} {slot : Slot}

@[simp]
theorem setSlot_config : (q.setSlot i slot).config = q.config :=
  rfl

@[simp]
theorem setSlot_writeSeq : (q.setSlot i slot).writeSeq = q.writeSeq :=
  rfl

@[simp]
theorem setSlot_readSeq : (q.setSlot i slot).readSeq = q.readSeq :=
  rfl

@[simp]
theorem setSlot_slots_self : (q.setSlot i slot).slots i.toNat = slot :=
  Function.update_self ..

theorem setSlot_slots_ne {j : ℕ} (h : j ≠ i.toNat) : (q.setSlot i slot).slots j = q.slots j :=
  Function.update_of_ne h ..

theorem slotHeader_eq (h : i.toNat < q.config.slotCount.toNat) :
    q.slotHeader i = some (q.slots i.toNat) :=
  if_pos <| BitVec.lt_def.mpr h

@[simp]
theorem take_memcpy (dst src : Bytes) : (memcpy dst src).take src.length = src := by
  simp [memcpy]

theorem writeLoop_eq_none {pos : BitVec 32} (h : q.writePass data pos = .retry pos) (fuel : ℕ) :
    q.writeLoop data fuel pos = none := by
  induction fuel
  case zero => rfl
  case succ fuel hi => rw [writeLoop, h]; exact hi

theorem write_eq (h : q.config.Admits data) (fuel : ℕ) :
    q.write data fuel = q.writeLoop data fuel q.writeSeq := by
  have ⟨h₁, h₂⟩ := h
  rw [write, if_neg (by omega)]

theorem write_eq_of_not_admits (h : ¬q.config.Admits data) (fuel : ℕ) :
    q.write data fuel = some (false, q) := by
  rw [Config.Admits] at h
  rw [write, if_pos (by omega)]

end Queue

namespace Tracks

theorem seq_le (t : Tracks q f) : q.readSeq ≤ q.writeSeq := by
  rw [BitVec.le_def, t.readSeq, t.writeSeq]
  exact f.taken_le

theorem size_eq (t : Tracks q f) : q.size = f.size := by
  rw [Queue.size, if_pos t.seq_le, BitVec.toNat_sub_of_le t.seq_le, t.writeSeq, t.readSeq, Fifo.size]

-- A slot that was never written takes the message.
theorem write_open (t : Tracks q f) (ha : q.config.Admits data)
    (h : f.accepted.length < q.config.slotCount.toNat) :
    ∃ q', q.writePass data q.writeSeq = .done true q' ∧ Tracks q' (f.offer data) ∧
      q'.config = q.config := by
  have hw := t.writeSeq
  have hl : q.writeSeq.toNat < q.config.slotCount.toNat := hw ▸ h
  have hs : (q.slots q.writeSeq.toNat).sequence = q.writeSeq := by
    rw [t.free _ (Nat.le_of_eq hw.symm), BitVec.ofNat_toNat, BitVec.setWidth_eq]
  have ht := f.taken_le
  simp only [Queue.writePass, mod_eq_self hl, Queue.slotHeader_eq hl, hs, BitVec.sub_self,
    BitVec.toInt_zero, if_true]
  refine ⟨_, rfl, ?_, rfl⟩
  constructor
  case writeSeq => simp [toNat_add_one hl, hw]
  case readSeq  => exact t.readSeq
  case lap      => simpa using Nat.succ_le_of_lt h
  case admits   => simpa [or_imp, forall_and] using ⟨t.admits, ha⟩
  case free =>
    intro i hi
    simp only [Fifo.offer_accepted, List.length_append, List.length_singleton] at hi
    rw [Queue.setSlot_slots_ne (by omega)]
    exact t.free i (by omega)
  case holds =>
    intro i m hi hm
    rw [Fifo.offer_accepted, List.getElem?_append] at hm
    split at hm
    case isTrue hil =>
      rw [Queue.setSlot_slots_ne (by omega)]
      exact t.holds i m hi hm
    case isFalse hil =>
      obtain ⟨hz, rfl⟩ : i - f.accepted.length = 0 ∧ data = m := by
        simpa [List.getElem?_singleton] using hm
      obtain rfl : i = q.writeSeq.toNat := by omega
      have hd : data.length < 2 ^ 32 := Nat.lt_of_le_of_lt ha.right q.config.maxMsgSize.isLt
      simp only [Queue.setSlot_slots_self]
      exact ⟨ofNat_toNat_succ.symm, by simpa using hd, Queue.take_memcpy ..⟩
  case released =>
    intro i hi
    simp only [Fifo.offer_taken] at hi
    rw [Queue.setSlot_slots_ne (by omega)]
    exact t.released i hi

theorem read_ready (t : Tracks q f) (h : f.taken < f.accepted.length) :
    ∃ q', q.read = (f.front?, q') ∧ Tracks q' f.take ∧ q'.config = q.config := by
  have hr := t.readSeq
  have hl : q.readSeq.toNat < q.config.slotCount.toNat := by have := t.lap; omega
  have ⟨m, hf⟩ : ∃ m, f.front? = some m := ⟨_, Fifo.front?_eq_some h⟩
  have ha := t.admits m (List.mem_of_getElem? hf)
  have hm := t.holds f.taken m (Nat.le_refl _) hf
  rw [← hr] at hm
  have hs : (q.slots q.readSeq.toNat).sequence = q.readSeq + 1#32 :=
    hm.sequence.trans ofNat_toNat_succ
  have hz : min (q.slots q.readSeq.toNat).size.toNat q.config.maxMsgSize.toNat = m.length := by
    rw [hm.size, Nat.min_eq_left ha.right]
  simp only [Queue.read, mod_eq_self hl, Queue.slotHeader_eq hl, hs, BitVec.ofNat_eq_ofNat,
    BitVec.sub_self, BitVec.toInt_zero, if_true, hz, hm.data, hf]
  refine ⟨_, rfl, ?_, rfl⟩
  constructor
  case writeSeq => exact t.writeSeq
  case readSeq  => simp [toNat_add_one hl, hr, Fifo.take_taken h]
  case lap      => exact t.lap
  case admits   => exact t.admits
  case free =>
    intro i hi
    simp only [Fifo.take_accepted] at hi
    rw [Queue.setSlot_slots_ne (by omega)]
    exact t.free i hi
  case holds =>
    intro i m hi hm
    rw [Fifo.take_taken h] at hi
    rw [Queue.setSlot_slots_ne (by omega)]
    exact t.holds i m (by omega) hm
  case released =>
    intro i hi
    rw [Fifo.take_taken h] at hi
    by_cases he : i = q.readSeq.toNat
    case pos =>
      subst he
      rw [Queue.setSlot_slots_self, ofNat_toNat_succ]
      ac_rfl
    case neg =>
      rw [Queue.setSlot_slots_ne he]
      exact t.released i (by omega)

theorem read_empty (t : Tracks q f) (h : f.taken = f.accepted.length)
    (hl : f.taken < q.config.slotCount.toNat) : q.read = (none, q) := by
  have hr := t.readSeq
  have hl : q.readSeq.toNat < q.config.slotCount.toNat := hr ▸ hl
  have hs : (q.slots q.readSeq.toNat).sequence = q.readSeq := by
    rw [t.free _ (by omega), BitVec.ofNat_toNat, BitVec.setWidth_eq]
  have hd : (q.readSeq - (q.readSeq + 1#32)).toInt ≠ 0 := by
    rw [← BitVec.toInt_zero, ne_eq, BitVec.toInt_inj]
    bv_omega
  simp only [Queue.read, mod_eq_self hl, Queue.slotHeader_eq hl, hs, BitVec.ofNat_eq_ofNat, hd,
    if_false]

-- The sequence that the first `read` left in slot 0 is the one that announces a message to the
-- read after `slot_count` others.
theorem read_again (t : Tracks q f) (h₀ : 0 < f.taken) (hl : f.taken = q.config.slotCount.toNat) :
    q.read.1 ≠ none := by
  have hr : q.readSeq = q.config.slotCount := BitVec.eq_of_toNat_eq <| t.readSeq.trans hl
  have hs : (q.slots (0#32).toNat).sequence = 1#32 + q.config.slotCount := t.released 0 h₀
  have h₀ : (0#32).toNat < q.config.slotCount.toNat := hl ▸ h₀
  have hd : (1#32 + q.config.slotCount - (q.config.slotCount + 1#32)).toInt = 0 := by
    rw [BitVec.add_comm, BitVec.sub_self, BitVec.toInt_zero]
  simp only [Queue.read, hr, mod_eq_zero rfl, Queue.slotHeader_eq h₀, hs, BitVec.ofNat_eq_ofNat, hd,
    if_true]
  nofun

theorem writePass_full (t : Tracks q f) (h : f.accepted.length = q.config.slotCount.toNat)
    (h₀ : 0 < q.config.slotCount.toNat)
    (hd : ((q.slots 0).sequence - q.config.slotCount).toInt ≠ 0) :
    q.writePass data q.writeSeq =
      if ((q.slots 0).sequence - q.config.slotCount).toInt < 0 then .done false q
      else .retry q.writeSeq := by
  have hw : q.writeSeq = q.config.slotCount := BitVec.eq_of_toNat_eq <| t.writeSeq.trans h
  have h₀ : (0#32).toNat < q.config.slotCount.toNat := h₀
  simp only [Queue.writePass, hw, mod_eq_zero rfl, Queue.slotHeader_eq h₀]
  exact if_neg hd

-- A full queue that was not read from refuses a message, unless the difference of the sequences
-- overflows.
theorem write_full (t : Tracks q f) (h : f.accepted.length = q.config.slotCount.toNat)
    (hn : 2 ≤ q.config.slotCount.toNat) (h₀ : f.taken = 0) :
    q.writePass data q.writeSeq =
      if q.config.slotCount.toNat ≤ 2 ^ 31 + 1 then .done false q else .retry q.writeSeq := by
  have ⟨m, hm⟩ : ∃ m, f.accepted[0]? = some m := ⟨_, List.getElem?_eq_getElem (by omega)⟩
  have hs : (q.slots 0).sequence = 1#32 := (t.holds 0 m (by omega) hm).sequence
  have hl := q.config.slotCount.isLt
  have hd : (1#32 - q.config.slotCount).toInt =
      if q.config.slotCount.toNat ≤ 2 ^ 31 + 1 then
        1 - (q.config.slotCount.toNat : ℤ)
      else
        2 ^ 32 + 1 - (q.config.slotCount.toNat : ℤ) := by
    rw [BitVec.toInt_eq_toNat_cond, BitVec.toNat_sub, show (1#32).toNat = 1 from rfl]
    split <;> split <;> omega
  have hz : (1#32 - q.config.slotCount).toInt ≠ 0 := by rw [hd]; split <;> omega
  rw [t.writePass_full h (by omega) (by rwa [hs]), hs, hd]
  split
  case isTrue  => exact if_pos (by omega)
  case isFalse => exact if_neg (by omega)

-- Once slot 0 was read, its sequence is ahead of a `write_seq` that comes back to it, and the loop
-- of `write` takes this for the progress of another writer.
theorem write_again (t : Tracks q f) (h : f.accepted.length = q.config.slotCount.toNat)
    (h₀ : 0 < f.taken) : q.writePass data q.writeSeq = .retry q.writeSeq := by
  have hs : (q.slots 0).sequence = 1#32 + q.config.slotCount := t.released 0 h₀
  have := f.taken_le
  have hd : ((q.slots 0).sequence - q.config.slotCount).toInt = 1 := by
    rw [hs, BitVec.add_sub_cancel]
    rfl
  rw [t.writePass_full h (by omega) (by omega), hd]
  rfl

-- A call on the first lap returns what the bounded buffer returns.
theorem call_of_fresh (t : Tracks q f) (hn : 2 ≤ q.config.slotCount.toNat) {call : Call}
    (h : q.config.Fresh f call) :
    ∃ q', (∀ fuel, q.call (fuel + 1) call = some ((q.config.specCall f call).1, q')) ∧
      Tracks q' (q.config.specCall f call).2 ∧ q'.config = q.config := by
  have ht := f.taken_le
  have hl := t.lap
  cases call
  case read =>
    simp only [Config.Fresh] at h
    simp only [Queue.call, Config.specCall]
    by_cases he : f.taken = f.accepted.length
    case pos =>
      rw [t.read_empty he h, Fifo.take_eq_self he, Fifo.front?_eq_none_iff.mpr he]
      exact ⟨q, fun _ => by rw [t.size_eq], t, rfl⟩
    case neg =>
      obtain ⟨q', hq, t', hc⟩ := t.read_ready (by omega)
      rw [hq]
      exact ⟨q', fun _ => by rw [t'.size_eq], t', hc⟩
  case write data =>
    simp only [Queue.call, Config.specCall]
    by_cases ha : q.config.Admits data
    case neg =>
      rw [if_neg (ha ·.left)]
      exact ⟨q, fun _ => by rw [Queue.write_eq_of_not_admits ha, Option.map_some, t.size_eq], t, rfl⟩
    case pos =>
      by_cases ho : f.accepted.length < q.config.slotCount.toNat
      case pos =>
        obtain ⟨q', hq, t', hc⟩ := t.write_open ha ho
        rw [if_pos ⟨ha, by rw [Fifo.size]; omega⟩]
        refine ⟨q', fun fuel => ?_, t', hc⟩
        rw [Queue.write_eq ha, Queue.writeLoop, hq, Option.map_some, t'.size_eq]
      case neg =>
        obtain ⟨h₀, hb⟩ := (h ha).resolve_left ho
        rw [if_neg (·.right <| by rw [Fifo.size]; omega)]
        refine ⟨q, fun fuel => ?_, t, rfl⟩
        rw [Queue.write_eq ha, Queue.writeLoop, t.write_full (by omega) hn h₀, if_pos hb,
          Option.map_some, t.size_eq]

-- Any other call does not return, or returns something else.
theorem call_of_not_fresh (t : Tracks q f) (hn : 2 ≤ q.config.slotCount.toNat) {call : Call}
    (h : ¬q.config.Fresh f call) (fuel : ℕ) (q' : Queue) :
    q.call fuel call ≠ some ((q.config.specCall f call).1, q') := by
  have ht := f.taken_le
  have hl := t.lap
  cases call
  case read =>
    simp only [Config.Fresh] at h
    have he : f.taken = f.accepted.length := by omega
    have hr := t.read_again (by omega) (by omega)
    simp only [Queue.call, Config.specCall, Fifo.front?_eq_none_iff.mpr he]
    simp only [ne_eq, Option.some.injEq, Prod.mk.injEq, Reply.message.injEq, not_and]
    exact fun hm => absurd hm.left hr
  case write data =>
    simp only [Config.Fresh, Classical.not_imp, not_or, not_and] at h
    obtain ⟨ha, ho, hb⟩ := h
    have hp : q.writePass data q.writeSeq = .retry q.writeSeq := by
      by_cases h₀ : f.taken = 0
      case pos => rw [t.write_full (by omega) hn h₀, if_neg (hb h₀)]
      case neg => exact t.write_again (by omega) (by omega)
    simp only [Queue.call, Queue.write_eq ha, Queue.writeLoop_eq_none hp]
    simp

theorem conforms_iff (t : Tracks q f) (hn : 2 ≤ q.config.slotCount.toNat) :
    (∃ enough, ∀ fuel ≥ enough, q.replies fuel calls = some (q.config.specReplies f calls)) ↔
      q.config.spec.Along q.config.Fresh f calls := by
  induction calls generalizing q f
  case nil => exact ⟨fun _ => trivial, fun _ => ⟨0, fun _ _ => rfl⟩⟩
  case cons call calls hi =>
    by_cases hc : q.config.Fresh f call
    case neg =>
      refine ⟨fun ⟨n, hn'⟩ => ?_, fun h => absurd h.left hc⟩
      have h := hn' n (Nat.le_refl _)
      simp only [Queue.replies, Config.specReplies, Option.bind_eq_bind, Option.bind_eq_some_iff,
        Option.pure_def, Option.some.injEq, List.cons.injEq, Prod.exists] at h
      obtain ⟨r, q', h, rs, _, rfl, _⟩ := h
      exact absurd h <| t.call_of_not_fresh hn hc n q'
    case pos =>
      have ⟨q', hq, t', hc'⟩ := t.call_of_fresh hn hc
      have hi := hi t' (hc' ▸ hn)
      rw [hc'] at hi
      have hs : q.config.spec.Along q.config.Fresh f (call :: calls) ↔
          q.config.spec.Along q.config.Fresh (q.config.specCall f call).2 calls :=
        ⟨fun h => h.right _ rfl, fun h => ⟨hc, fun _ e => Option.some.inj e ▸ h⟩⟩
      rw [hs, ← hi]
      have hr (fuel : ℕ) : q.replies (fuel + 1) (call :: calls) =
          (q'.replies (fuel + 1) calls).map ((q.config.specCall f call).1 :: ·) := by
        simp only [Queue.replies, hq, Option.bind_eq_bind, Option.bind_some]
        cases q'.replies (fuel + 1) calls <;> rfl
      constructor
      case mp =>
        intro ⟨n, h⟩
        refine ⟨n + 1, fun fuel hf => ?_⟩
        obtain ⟨fuel, rfl⟩ := Nat.exists_eq_add_of_le' (Nat.le_of_add_left_le hf)
        have h := h (fuel + 1) (by omega)
        rw [hr, Config.specReplies, Option.map_eq_some_iff] at h
        obtain ⟨rs, h, he⟩ := h
        exact h.trans <| congrArg _ (List.cons.inj he).right
      case mpr =>
        intro ⟨n, h⟩
        refine ⟨n + 1, fun fuel hf => ?_⟩
        obtain ⟨fuel, rfl⟩ := Nat.exists_eq_add_of_le' (Nat.le_of_add_left_le hf)
        rw [hr, h (fuel + 1) (by omega)]
        rfl

end Tracks

-- The queue is a bounded first-in-first-out buffer on exactly the sequences of calls that do not go
-- round its slots.
theorem conforms_iff_firstLap (c : Config) (hn : 2 ≤ c.slotCount.toNat) (calls : List Call) :
    Conforms c calls ↔ FirstLap c calls :=
  tracks_create.conforms_iff hn

theorem conforms_two_slots :
    Conforms ⟨2, 1⟩ [.write [1], .write [2], .write [3], .read, .read] :=
  (conforms_iff_firstLap ⟨2, 1⟩ (by decide) _).mpr (by decide)

-- The third message accepted by two slots never gets in: its `write` does not return.
theorem not_conforms_second_lap :
    ¬Conforms ⟨2, 1⟩ [.write [1], .read, .write [2], .write [3]] :=
  (tracks_create (c := ⟨2, 1⟩)).conforms_iff (by decide) |>.not.mpr (by decide)

end SharedMemoryQueue
