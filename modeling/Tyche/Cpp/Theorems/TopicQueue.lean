import Tyche.Cpp.TopicQueue
import Tyche.Cpp.Theorems.RingBuffer

namespace Cpp.RingBuffer

variable {α : Type} {k n : ℕ} {b : Buffer α} {f : Fifo α} {c : BitVec 64}

theorem Tracks.pushBlocking_eq (t : Tracks k b f) (x : α) (h : f.size < 2 ^ k) : ∃ b',
    (∀ fuel, b.pushBlocking x (fuel + 2) = some b') ∧ Tracks k b' (f.offer x) := by
  obtain ⟨b', hp, t', -⟩ := t.tryPush_eq x
  rw [if_pos h] at t'
  refine ⟨b', fun fuel => ?_, t'⟩
  rw [Buffer.pushBlocking, hp, decide_eq_true h]
  rfl

theorem Tracks.pushBlocking_full (t : Tracks k b f) (x : α) (h : ¬f.size < 2 ^ k) (fuel : ℕ) :
    b.pushBlocking x fuel = none := by
  obtain ⟨b', hp, -, he⟩ := t.tryPush_eq x
  cases he h
  induction fuel
  case zero => rfl
  case succ fuel hi =>
    rw [Buffer.pushBlocking]
    cases fuel
    case zero => rfl
    case succ fuel =>
      rw [hp, decide_eq_false h]
      exact hi

namespace TopicQueue

variable {q q' : TopicQueue α} {t t' : Tally α} {s : BackpressureStrategy}
variable {call : Call α} {calls : List (Call α)}

theorem put_dropOldest (hs : q.strategy = .dropOldest) (r : Tracks k q.buffer f) (x : α) : ∃ q',
    (∀ fuel, q.put x (fuel + 3) = some (true, q')) ∧ q'.strategy = .dropOldest ∧
      Tracks k q'.buffer (specOverwrite (2 ^ k) f x) := by
  obtain ⟨b, hp, r'⟩ := r.pushOverwrite_eq x
  refine ⟨{ q with buffer := b }, fun fuel => ?_, hs, r'⟩
  simp [put, hs, hp]

theorem get_eq (r : Tracks k q.buffer f) : ∃ q',
    q.get = some (f.front?, q') ∧ q'.strategy = q.strategy ∧ Tracks k q'.buffer f.take := by
  obtain ⟨b, hp, r'⟩ := r.pop_eq
  rw [get, hp]
  cases f.front?
  case none   => exact ⟨_, rfl, rfl, r'⟩
  case some x => exact ⟨_, rfl, rfl, r'⟩

-- The counters are those of the tally, which has no bound on them.
structure Counts (k : ℕ) (s : BackpressureStrategy) (q : TopicQueue α) (t : Tally α) : Prop where
  tracks         : Tracks k q.buffer t.queue
  strategy       : q.strategy = s
  processed      : q.processed = .ofNat 64 (t.queue.taken - t.overwritten)
  dropped        : q.dropped = .ofNat 64 t.refused
  overwritten_le : t.overwritten ≤ t.queue.taken

theorem counts_create (h : c.toNat ≤ 2 ^ 63) :
    Counts (Nat.clog 2 (max c.toNat 2)) s (create (α := α) c s) .empty where
  tracks         := tracks_create h
  strategy       := rfl
  processed      := rfl
  dropped        := rfl
  overwritten_le := Nat.le_refl _

namespace Counts

theorem put_open (r : Counts k s q t) (x : α) (h : t.queue.size < 2 ^ k) : ∃ q',
    (∀ fuel, q.call (fuel + 3) (.put x) = some q') ∧
      Counts k s q' { t with queue := t.queue.offer x } := by
  obtain ⟨tracks, rfl, processed, dropped, le⟩ := r
  cases hs : q.strategy
  case dropOldest =>
    obtain ⟨b, hp, t'⟩ := tracks.pushOverwrite_eq x
    rw [specOverwrite, if_pos h] at t'
    refine ⟨{ q with buffer := b }, fun fuel => ?_, t', hs, processed, dropped, le⟩
    simp [TopicQueue.call, put, hs, hp]
  case dropNewest =>
    obtain ⟨b, hp, t', -⟩ := tracks.tryPush_eq x
    simp only [h, if_true, decide_true] at hp t'
    refine ⟨{ q with buffer := b }, fun fuel => ?_, t', hs, processed, dropped, le⟩
    simp [TopicQueue.call, put, hs, hp]
  case blockProducer =>
    obtain ⟨b, hp, t'⟩ := tracks.pushBlocking_eq x h
    refine ⟨{ q with buffer := b }, fun fuel => ?_, t', hs, processed, dropped, le⟩
    simp [TopicQueue.call, put, hs, hp]

theorem put_full (r : Counts k s q t) (x : α) (h : ¬t.queue.size < 2 ^ k)
    (hc : t.call (2 ^ k) s (.put x) = some t') : ∃ q',
    (∀ fuel, q.call (fuel + 3) (.put x) = some q') ∧ Counts k s q' t' := by
  obtain ⟨tracks, hs, processed, dropped, le⟩ := r
  have ⟨h₂, _⟩ := tracks.pow_le
  have hf : t.queue.taken < t.queue.accepted.length := by rw [Fifo.size] at h; omega
  cases s
  case dropOldest =>
    simp only [Tally.call, h, if_false, Option.some.injEq] at hc
    subst hc
    obtain ⟨b, hp, t'⟩ := tracks.pushOverwrite_eq x
    rw [specOverwrite, if_neg h] at t'
    refine ⟨{ q with buffer := b }, fun fuel => ?_, t', hs, ?_, dropped, ?_⟩
    · simp [TopicQueue.call, put, hs, hp]
    · simpa [Fifo.take_taken hf] using processed
    · simpa [Fifo.take_taken hf] using le
  case dropNewest =>
    simp only [Tally.call, h, if_false, Option.some.injEq] at hc
    subst hc
    obtain ⟨b, hp, t', -⟩ := tracks.tryPush_eq x
    simp only [h, if_false, decide_false] at hp t'
    refine ⟨{ q with buffer := b, dropped := q.dropped + 1 }, fun fuel => ?_, t', hs, processed, ?_,
      le⟩
    · simp [TopicQueue.call, put, hs, hp]
    · rw [← ofNat_succ, ← dropped]
  case blockProducer => simp [Tally.call, h] at hc

theorem get_eq (r : Counts k s q t) : ∃ q',
    (∀ fuel, q.call fuel .get = some q') ∧ Counts k s q' { t with queue := t.queue.take } := by
  obtain ⟨tracks, hs, processed, dropped, le⟩ := r
  by_cases h : t.queue.taken < t.queue.accepted.length
  case pos =>
    obtain ⟨b, hp, t'⟩ := tracks.pop_ready h
    refine ⟨{ q with buffer := b, processed := q.processed + 1 }, fun fuel => ?_, t', hs, ?_, dropped,
      ?_⟩
    · simp [TopicQueue.call, get, hp, Fifo.front?_eq_some h]
    · rw [Fifo.take_taken h, Nat.succ_sub le, Nat.succ_eq_add_one, ← ofNat_succ, ← processed]
    · rw [Fifo.take_taken h]
      exact Nat.le_succ_of_le le
  case neg =>
    have h := Nat.le_antisymm t.queue.taken_le (Nat.le_of_not_lt h)
    refine ⟨q, fun fuel => ?_, ?_⟩
    · simp [TopicQueue.call, get, tracks.pop_empty h]
    · rw [Fifo.take_eq_self h]
      exact ⟨tracks, hs, processed, dropped, le⟩

theorem call_eq (r : Counts k s q t) (h : t.call (2 ^ k) s call = some t') : ∃ q',
    (∀ fuel, q.call (fuel + 3) call = some q') ∧ Counts k s q' t' := by
  cases call
  case get =>
    cases h
    obtain ⟨q', hq, r'⟩ := r.get_eq
    exact ⟨q', fun fuel => hq (fuel + 3), r'⟩
  case put x =>
    by_cases hl : t.queue.size < 2 ^ k
    case pos =>
      simp only [Tally.call, hl, if_true, Option.some.injEq] at h
      exact h ▸ r.put_open x hl
    case neg => exact r.put_full x hl h

-- Only a producer that blocks is not answered, and then however long it waits.
theorem call_eq_none (r : Counts k s q t) (h : t.call (2 ^ k) s call = none) (fuel : ℕ) :
    q.call fuel call = none := by
  obtain ⟨tracks, hs, -⟩ := r
  cases call
  case get => cases h
  case put x =>
    by_cases hl : t.queue.size < 2 ^ k
    case pos => simp [Tally.call, hl] at h
    case neg =>
      cases s
      case dropOldest    => simp [Tally.call, hl] at h
      case dropNewest    => simp [Tally.call, hl] at h
      case blockProducer => simp [TopicQueue.call, put, hs, tracks.pushBlocking_full x hl]

theorem exec_eq (r : Counts k s q t) (h : (spec α (2 ^ k) s).exec t calls = some t') : ∃ q',
    (∀ fuel, (machine α (fuel + 3)).exec q calls = some q') ∧ Counts k s q' t' := by
  induction calls generalizing q t
  case nil => cases h; exact ⟨q, fun _ => rfl, r⟩
  case cons call calls hi =>
    obtain ⟨t₁, h₁, h⟩ := Machine.exec_cons_eq_some_iff.mp h
    obtain ⟨q₁, hq₁, r₁⟩ := r.call_eq h₁
    obtain ⟨q', hq, r'⟩ := hi r₁ h
    exact ⟨q', fun fuel => Machine.exec_cons_eq_some_iff.mpr ⟨q₁, hq₁ fuel, hq fuel⟩, r'⟩

theorem exec_eq_none (r : Counts k s q t) (h : (spec α (2 ^ k) s).exec t calls = none) (fuel : ℕ) :
    (machine α (fuel + 3)).exec q calls = none := by
  induction calls generalizing q t
  case nil => cases h
  case cons call calls hi =>
    by_contra hn
    obtain ⟨q', hq⟩ := Option.ne_none_iff_exists'.mp hn
    obtain ⟨q₁, hq₁, hq⟩ := Machine.exec_cons_eq_some_iff.mp hq
    cases hc : t.call (2 ^ k) s call
    case none => cases (r.call_eq_none hc (fuel + 3)).symm.trans hq₁
    case some t₁ =>
      obtain ⟨q₂, hq₂, r₂⟩ := r.call_eq hc
      cases (hq₂ fuel).symm.trans hq₁
      have h : (spec α (2 ^ k) s).exec t₁ calls = none := by
        rw [Machine.exec_cons, show (spec α (2 ^ k) s).step t call = some t₁ from hc] at h
        exact h
      cases (hi r₂ h).symm.trans hq

-- Each counter shows what it counts unless there is too much of it. Only the overwritten items have
-- no counter.
theorem figures (r : Counts k s q t) :
    t.queue.accepted.length + t.refused = q.processed.toNat + q.dropped.toNat + q.size ↔
      t.overwritten = 0 ∧ t.queue.accepted.length < 2 ^ 64 ∧ t.refused < 2 ^ 64 := by
  have ht := t.queue.taken_le
  have hl := r.tracks.lap
  have hb := r.tracks.pow_le.right
  have ho := r.overwritten_le
  have hs : q.size = t.queue.size ↔ _ := r.tracks.size_eq_iff
  have hn : q.size ≤ t.queue.size := r.tracks.buffer_size_le
  rw [Fifo.size] at hs hn
  rw [r.processed, r.dropped, BitVec.toNat_ofNat, BitVec.toNat_ofNat]
  simp only [SameLap] at hs
  omega

end Counts

-- The calls that are completed are those of the tally.
theorem completes_iff (h : c.toNat ≤ 2 ^ 63) :
    (∃ fuel q, (machine α (fuel + 3)).exec (create c s) calls = some q) ↔
      ∃ t, (spec α (bound c) s).exec .empty calls = some t := by
  constructor
  case mp =>
    rintro ⟨fuel, q, hq⟩
    apply Option.ne_none_iff_exists'.mp
    intro hn
    cases ((counts_create h).exec_eq_none hn fuel).symm.trans hq
  case mpr =>
    rintro ⟨t, ht⟩
    obtain ⟨q, hq, -⟩ := (counts_create h).exec_eq ht
    exact ⟨0, q, hq 0⟩

-- The put does not overwrite an item.
def Keeps (n : ℕ) (s : BackpressureStrategy) (t : Tally α) : Call α → Prop
  | .put _ => s = .dropOldest → t.queue.size < n
  | .get   => True

instance : ∀ call, Decidable (Keeps n s t call)
  | .put _ => inferInstanceAs <| Decidable (_ → _)
  | .get   => inferInstanceAs <| Decidable True

theorem Tally.call_overwritten (h : t.call n s call = some t') :
    t.overwritten ≤ t'.overwritten ∧ (t'.overwritten = t.overwritten ↔ Keeps n s t call) := by
  cases call
  case get => cases h; simp [Keeps]
  case put x =>
    by_cases hl : t.queue.size < n
    case pos =>
      simp only [Tally.call, hl, if_true, Option.some.injEq] at h
      subst h
      simp [Keeps, hl]
    case neg =>
      cases s
      case dropOldest =>
        simp only [Tally.call, hl, if_false, Option.some.injEq] at h
        subst h
        simp [Keeps, hl]
      case dropNewest =>
        simp only [Tally.call, hl, if_false, Option.some.injEq] at h
        subst h
        simp [Keeps]
      case blockProducer => simp [Tally.call, hl] at h

theorem Tally.exec_overwritten (h : (spec α n s).exec t calls = some t') :
    t.overwritten ≤ t'.overwritten ∧
      (t'.overwritten = t.overwritten ↔ (spec α n s).Along (Keeps n s) t calls) := by
  induction calls generalizing t
  case nil => cases h; exact ⟨Nat.le_refl _, fun _ => trivial, fun _ => rfl⟩
  case cons call calls hi =>
    obtain ⟨t₁, h₁, h⟩ := Machine.exec_cons_eq_some_iff.mp h
    have ⟨l₁, e₁⟩ := Tally.call_overwritten h₁
    have ⟨l₂, e₂⟩ := hi h
    refine ⟨Nat.le_trans l₁ l₂, ?_⟩
    simp only [Machine.Along, ← e₁, h₁, Option.some.injEq, forall_eq', ← e₂]
    omega

-- A put that is completed has its item accepted or refused.
theorem Tally.exec_offered (h : (spec α n s).exec t calls = some t') :
    t'.queue.accepted.length + t'.refused =
      t.queue.accepted.length + t.refused + offered calls := by
  induction calls generalizing t
  case nil => cases h; rfl
  case cons call calls hi =>
    obtain ⟨t₁, h₁, h⟩ := Machine.exec_cons_eq_some_iff.mp h
    rw [hi h]
    cases call
    case get => cases h₁; simp [offered]
    case put x =>
      have ho : offered (Call.put x :: calls) = offered calls + 1 := by simp [offered]
      have hs : t₁.queue.accepted.length + t₁.refused =
          t.queue.accepted.length + t.refused + 1 := by
        simp only [spec, Tally.call] at h₁
        split at h₁
        case isTrue => cases h₁; simp; omega
        case isFalse =>
          cases s
          case dropOldest    => cases h₁; simp; omega
          case dropNewest    => cases h₁; rfl
          case blockProducer => cases h₁
      omega

theorem create_call_eq_none (h : 2 ^ 63 < c.toNat) (fuel : ℕ) (call : Call α) :
    (create (α := α) c s).call fuel call = none := by
  have hp (x : α) : (RingBuffer.create α c).pushBlocking x fuel = none := by
    cases fuel
    case zero => rfl
    case succ => simp [Buffer.pushBlocking, create_tryPush h]
  cases call
  case get => simp [TopicQueue.call, get, create, create_pop h]
  case put x =>
    cases s
    case dropOldest    => simp [TopicQueue.call, put, create, create_pushOverwrite h]
    case dropNewest    => simp [TopicQueue.call, put, create, create_tryPush h]
    case blockProducer => simp [TopicQueue.call, put, create, hp]

-- Nothing is overwritten, and no counter wraps round.
def Counted (capacity : BitVec 64) (s : BackpressureStrategy) (calls : List (Call α)) : Prop :=
  ∀ t, (spec α (bound capacity) s).exec .empty calls = some t →
    (calls = [] ∨ capacity.toNat ≤ 2 ^ 63) ∧
    (spec α (bound capacity) s).Along (Keeps (bound capacity) s) .empty calls ∧
    t.queue.accepted.length < 2 ^ 64 ∧ t.refused < 2 ^ 64

theorem balanced_iff_counted (capacity : BitVec 64) (s : BackpressureStrategy)
    (calls : List (Call α)) : Balanced capacity s calls ↔ Counted capacity s calls := by
  rw [Balanced, Counted]
  refine forall₂_congr fun t h => ?_
  by_cases hc : capacity.toNat ≤ 2 ^ 63
  case pos =>
    obtain ⟨q, hq, r⟩ := (counts_create hc).exec_eq h
    have ho := Tally.exec_offered h
    have hw := (Tally.exec_overwritten h).right
    have hf := r.figures
    simp only [Tally.empty, Fifo.empty, List.length_nil, Nat.zero_add] at ho hw
    rw [ho, hw] at hf
    simp only [hc, or_true, true_and]
    refine Iff.trans ?_ hf
    constructor
    case mp =>
      rintro ⟨m, h⟩
      obtain ⟨q', hq', he⟩ := h (m + 3) (by omega)
      cases (hq m).symm.trans hq'
      exact he
    case mpr =>
      intro he
      refine ⟨3, fun fuel hf => ?_⟩
      obtain ⟨fuel, rfl⟩ := Nat.exists_eq_add_of_le' hf
      exact ⟨q, hq fuel, he⟩
  case neg =>
    cases calls
    case nil =>
      cases h
      simp only [true_or, true_and]
      refine iff_of_true ⟨0, fun _ _ => ⟨_, rfl, ?_⟩⟩ ⟨trivial, Nat.two_pow_pos 64, Nat.two_pow_pos 64⟩
      simp [offered, create, TopicQueue.size, Buffer.size, RingBuffer.create]
    case cons call calls =>
      simp only [reduceCtorEq, hc, or_self, false_and, iff_false]
      rintro ⟨m, h⟩
      obtain ⟨q, hq, -⟩ := h m (Nat.le_refl _)
      obtain ⟨q₁, hq₁, -⟩ := Machine.exec_cons_eq_some_iff.mp hq
      cases (create_call_eq_none (Nat.lt_of_not_le hc) m call).symm.trans hq₁

theorem not_balanced_overwrite :
    ¬Balanced 2 .dropOldest [.put 1, .put 2, .put (3 : ℕ)] := by
  intro h
  let t : Tally ℕ := ⟨⟨[1, 2, 3], 1, by decide⟩, 1, 0⟩
  have ht : (spec ℕ (bound 2) .dropOldest).exec .empty [.put 1, .put 2, .put 3] = some t := rfl
  obtain ⟨q, hq, r⟩ := (counts_create (c := 2) (by decide)).exec_eq ht
  obtain ⟨n, h⟩ := h t ht
  obtain ⟨q', hq', he⟩ := h (n + 3) (by omega)
  cases (hq n).symm.trans hq'
  exact absurd (r.figures.mp he).left (by decide)

end TopicQueue

end Cpp.RingBuffer
