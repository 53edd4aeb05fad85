import Tyche.Cpp.Gateway

namespace Cpp.Gateway

variable {τ : Type} {g g' : Gateway τ} {a : Action τ} {as : List (Action τ)} {b : Bool}

-- The steps of the callback and of the dispatch thread on the ring are those of the bounded queue
-- that a ring buffer of this size is.
theorem bound_eq : RingBuffer.bound 65536 = optionRingCapacity := by
  have h : max (BitVec.toNat (65536 : BitVec 64)) 2 = 2 ^ 16 := rfl
  rw [RingBuffer.bound, h, Nat.clog_pow 2 16 Nat.one_lt_two]
  rfl

theorem runCallback_pushing {tick : τ} (hs : g.runCallback b (.pushing tick) = some g') :
    g'.ring = (RingBuffer.specCall (RingBuffer.bound 65536) g.ring (.tryPush tick)).snd := by
  rw [runCallback] at hs
  rw [RingBuffer.specCall, bound_eq]
  cases hs
  split <;> rfl

-- The number of ticks that a thread has dealt with and yet to count, and that it holds.
def Callback.uncounted : Callback τ → ℕ
  | .counting => 1
  | _         => 0

def Dispatch.held : Dispatch τ → ℕ
  | .popping ts | .sending ts => ts.length
  | .sent ts | .failed ts     => ts.length + 1
  | .drainSending _           => 1
  | .drainSent                => 1
  | _                         => 0

-- The counts of the code, which may be negative where they are of type `int`.
def counted (g : Gateway τ) : ℤ :=
  g.ticksSent.toNat + g.droppedCount.toInt + g.errCount.toInt

-- What every step keeps.
def Accounted (g : Gateway τ) : Prop :=
  (g.ticksReceived.toNat + g.callback.uncounted : ℤ) =
    g.counted + g.ring.size + g.dispatch.held + g.ignored

def Callback.IsIdle : Callback τ → Prop
  | .idle => True
  | _     => False

-- No thread is in the middle of a tick or of a batch.
def Quiet (g : Gateway τ) : Prop :=
  g.callback.IsIdle ∧ g.dispatch.held = 0

-- Every tick that was received was sent, dropped or failed, or else is in the buffer, or was given
-- up in the drain.
def Balanced (g : Gateway τ) : Prop :=
  (g.ticksReceived.toNat : ℤ) = g.counted + g.ring.size + g.ignored

-- The buffer still is full when its oldest tick is about to be overwritten.
def Callback.Full (ring : Fifo τ) : Callback τ → Prop
  | .overwriting _ => optionRingCapacity ≤ ring.size
  | _              => True

-- No counter is at its end when it is about to be incremented.
def Callback.Fits (g : Gateway τ) : Callback τ → Prop
  | .dropping => g.droppedCount ≠ .intMax 32
  | .sent     => g.ticksSent ≠ .allOnes 64
  | .counting => g.ticksReceived ≠ .allOnes 64
  | _         => True

def Dispatch.Fits (g : Gateway τ) : Dispatch τ → Prop
  | .sent _ | .drainSent => g.ticksSent ≠ .allOnes 64
  | .failed _            => g.errCount ≠ .intMax 32
  | _                    => True

def Regular (g : Gateway τ) : Action τ → Prop
  | .callback _ => g.callback.Full g.ring ∧ g.callback.Fits g
  | .dispatch _ => g.dispatch.Fits g
  | _           => True

instance {ring : Fifo τ} : DecidablePred (Callback.Full ring)
  | .overwriting _ => inferInstanceAs <| Decidable (optionRingCapacity ≤ ring.size)
  | .idle | .pushing _ | .dropping | .sending | .sent | .counting =>
    inferInstanceAs <| Decidable True

instance : DecidablePred (Callback.Fits g)
  | .dropping => inferInstanceAs <| Decidable (g.droppedCount ≠ .intMax 32)
  | .sent     => inferInstanceAs <| Decidable (g.ticksSent ≠ .allOnes 64)
  | .counting => inferInstanceAs <| Decidable (g.ticksReceived ≠ .allOnes 64)
  | .idle | .pushing _ | .overwriting _ | .sending => inferInstanceAs <| Decidable True

instance : DecidablePred (Dispatch.Fits g)
  | .sent _ | .drainSent => inferInstanceAs <| Decidable (g.ticksSent ≠ .allOnes 64)
  | .failed _            => inferInstanceAs <| Decidable (g.errCount ≠ .intMax 32)
  | .polling | .popping _ | .sending _ | .draining | .taking | .drainSending _ | .finished =>
    inferInstanceAs <| Decidable True

instance : DecidablePred (Regular g)
  | .callback _ => inferInstanceAs <| Decidable (_ ∧ _)
  | .dispatch _ => inferInstanceAs <| Decidable (g.dispatch.Fits g)
  | .receive _ | .stop => inferInstanceAs <| Decidable True

theorem toNat_succ {x : BitVec 64} (h : x ≠ .allOnes 64) : (x + 1).toNat = x.toNat + 1 := by
  have hx : x.toNat ≠ 2 ^ 64 - 1 := fun he => h <| BitVec.eq_of_toNat_eq he
  have h1 : (1 : BitVec 64).toNat = 1 := rfl
  rw [BitVec.toNat_add, h1, Nat.mod_eq_of_lt]
  have := x.isLt
  omega

theorem toInt_succ {x : BitVec 32} (h : x ≠ .intMax 32) : (x + 1).toInt = x.toInt + 1 := by
  have hx : x.toNat ≠ 2 ^ 31 - 1 := fun he => h <| BitVec.eq_of_toNat_eq he
  rw [BitVec.toInt_eq_toNat_cond, BitVec.toInt_eq_toNat_cond]
  have h1 : (x + 1).toNat = (x.toNat + 1) % 2 ^ 32 := BitVec.toNat_add ..
  rw [h1]
  have := x.isLt
  split <;> split <;> omega

theorem size_take {f : Fifo τ} {x : τ} (h : f.front? = some x) : f.take.size + 1 = f.size := by
  have hl : f.taken < f.accepted.length := (List.getElem?_eq_some_iff.mp h).choose
  rw [Fifo.size, Fifo.size, Fifo.take_taken hl, Fifo.take_accepted]
  omega

theorem size_offer {f : Fifo τ} {x : τ} : (f.offer x).size = f.size + 1 := by
  have := f.taken_le
  rw [Fifo.size, Fifo.size, Fifo.offer_accepted, Fifo.offer_taken, List.length_append]
  simp only [List.length_cons, List.length_nil]
  omega

-- A full buffer loses a tick for each that it gets.
theorem size_specOverwrite {f : Fifo τ} {x : τ} (h : optionRingCapacity ≤ f.size) :
    (RingBuffer.specOverwrite optionRingCapacity f x).size = f.size := by
  rw [RingBuffer.specOverwrite, if_neg (Nat.not_lt.mpr h), size_offer]
  cases hf : f.front?
  case some => exact size_take hf
  case none =>
    rw [Fifo.front?_eq_none_iff] at hf
    rw [Fifo.size, hf, Nat.sub_self] at h
    cases h

theorem Accounted.runCallback (h : g.Accounted) (hf : g.callback.Full g.ring)
    (hc : g.callback.Fits g) (hs : g.runCallback b g.callback = some g') : g'.Accounted := by
  unfold Accounted counted at *
  cases hp : g.callback
  all_goals
    rw [hp, Gateway.runCallback] at hs
    rw [hp] at h hf hc
    cases hs
  all_goals simp only [Callback.uncounted] at h ⊢
  case pushing tick =>
    split
    case isTrue =>
      simp only [size_offer]
      omega
    case isFalse => exact h
  case overwriting tick =>
    rw [size_specOverwrite hf]
    exact h
  case dropping =>
    rw [toInt_succ hc]
    omega
  case sending => cases b <;> exact h
  case sent =>
    rw [toNat_succ hc]
    omega
  case counting =>
    rw [toNat_succ hc]
    omega

theorem Accounted.runDispatch (h : g.Accounted) (hc : g.dispatch.Fits g)
    (hs : g.runDispatch b g.dispatch = some g') : g'.Accounted := by
  unfold Accounted counted at *
  cases hp : g.dispatch
  all_goals
    rw [hp] at hs h hc
    try rw [Gateway.runDispatch] at hs
  all_goals simp only [Dispatch.held] at h
  case polling =>
    cases hs
    cases g.running <;> exact h
  case popping batch =>
    split at hs
    case isFalse =>
      cases hs
      exact h
    case isTrue =>
      cases hf : g.ring.front?
      all_goals
        rw [hf] at hs
        cases hs
      case none => exact h
      case some tick =>
        have := size_take hf
        simp only [Dispatch.held, List.length_append, List.length_cons, List.length_nil]
        omega
  case sending batch =>
    cases batch
    case nil =>
      cases hs
      exact h
    case cons tick ts =>
      cases hs
      cases b <;> exact h
  case sent ts =>
    cases hs
    simp only [Dispatch.held, toNat_succ hc]
    omega
  case failed ts =>
    cases hs
    simp only [Dispatch.held, toInt_succ hc]
    omega
  case draining =>
    cases hs
    split <;> exact h
  case taking =>
    cases hf : g.ring.front?
    all_goals
      rw [hf] at hs
      cases hs
    case none => exact h
    case some tick =>
      have := size_take hf
      simp only [Dispatch.held]
      omega
  case drainSending tick =>
    cases hs
    cases b
    case true  => exact h
    case false =>
      rw [if_neg Bool.false_ne_true]
      simp only [Dispatch.held]
      omega
  case drainSent =>
    cases hs
    simp only [Dispatch.held, toNat_succ hc]
    omega
  case finished => cases hs

theorem Accounted.step (h : g.Accounted) (hc : g.Regular a) (hs : g.step a = some g') :
    g'.Accounted := by
  cases a
  case receive tick =>
    cases hp : g.callback
    all_goals
      rw [Gateway.step, hp] at hs
      cases hs
    unfold Accounted at *
    rw [hp] at h
    cases tick <;> exact h
  case callback => exact h.runCallback hc.left hc.right hs
  case dispatch => exact h.runDispatch hc hs
  case stop     =>
    cases hs
    exact h

theorem Accounted.balanced (h : g.Accounted) (hq : g.Quiet) : g.Balanced := by
  obtain ⟨hi, hd⟩ := hq
  unfold Accounted at h
  cases hp : g.callback
  all_goals rw [hp] at hi
  case idle =>
    rw [hp, hd] at h
    simpa [Callback.uncounted, Balanced] using h
  all_goals cases hi

theorem start_accounted : (start : Gateway τ).Accounted :=
  rfl

-- Between ticks and batches, the counts of a run are right if the buffer was full whenever a tick
-- was overwritten.
theorem always_balanced (hc : (machine τ).Along Regular start as) :
    (machine τ).Always (fun g => g.Quiet → g.Balanced) start as := by
  have hi := Machine.always_of_step (fun _ _ _ => Accounted.step) start_accounted hc
  exact hi.mono fun _ h => h.balanced

section Published

-- The ticks that a thread is about to deal with.
def Callback.ticks : Callback τ → List τ
  | .pushing tick | .overwriting tick => [tick]
  | _                                 => []

def Dispatch.ticks : Dispatch τ → List τ
  | .popping ts | .sending ts | .sent ts | .failed ts => ts
  | .drainSending tick                                => [tick]
  | _                                                 => []

-- All ticks satisfy `P`.
structure Only (P : τ → Prop) (g : Gateway τ) : Prop where
  ring      : ∀ t ∈ g.ring.accepted, P t
  callback  : ∀ t ∈ g.callback.ticks, P t
  dispatch  : ∀ t ∈ g.dispatch.ticks, P t
  published : ∀ t ∈ g.published, P t

def Action.Only (P : τ → Prop) : Action τ → Prop
  | .receive tick => ∀ t ∈ tick, P t
  | _             => True

variable {P : τ → Prop} {f : Fifo τ} {x : τ}

theorem forall_mem_offer (h : ∀ t ∈ f.accepted, P t) (hx : P x) : ∀ t ∈ (f.offer x).accepted, P t :=
  List.forall_mem_append.mpr ⟨h, List.forall_mem_singleton.mpr hx⟩

theorem Only.runCallback (h : g.Only P) (hs : g.runCallback b g.callback = some g') :
    g'.Only P := by
  obtain ⟨hr, hc, hd, hp⟩ := h
  cases hg : g.callback
  all_goals
    rw [hg, Gateway.runCallback] at hs
    rw [hg] at hc
    cases hs
  case pushing tick =>
    have ht := List.forall_mem_singleton.mp hc
    split
    case isTrue  => exact ⟨forall_mem_offer hr ht, List.forall_mem_nil P, hd, hp⟩
    case isFalse => exact ⟨hr, hc, hd, hp⟩
  case overwriting tick =>
    have ht := List.forall_mem_singleton.mp hc
    refine ⟨?_, List.forall_mem_nil P, hd, hp⟩
    rw [RingBuffer.specOverwrite]
    split
    all_goals exact forall_mem_offer hr ht
  case sending => cases b <;> exact ⟨hr, List.forall_mem_nil P, hd, hp⟩
  all_goals exact ⟨hr, List.forall_mem_nil P, hd, hp⟩

theorem Only.runDispatch (h : g.Only P) (hs : g.runDispatch b g.dispatch = some g') :
    g'.Only P := by
  obtain ⟨hr, hc, hd, hp⟩ := h
  have hf : ∀ t, g.ring.front? = some t → P t := fun t ht => hr t <| List.mem_of_getElem? ht
  cases hg : g.dispatch
  all_goals
    rw [hg] at hs hd
    try rw [Gateway.runDispatch] at hs
  case polling =>
    cases hs
    cases g.running <;> exact ⟨hr, hc, List.forall_mem_nil P, hp⟩
  case popping batch =>
    split at hs
    case isFalse =>
      cases hs
      exact ⟨hr, hc, hd, hp⟩
    case isTrue =>
      cases ht : g.ring.front?
      all_goals
        rw [ht] at hs
        cases hs
      case none => exact ⟨hr, hc, hd, hp⟩
      case some tick =>
        have hb := List.forall_mem_append.mpr ⟨hd, List.forall_mem_singleton.mpr <| hf tick ht⟩
        exact ⟨hr, hc, hb, hp⟩
  case sending batch =>
    cases batch
    case nil =>
      cases hs
      exact ⟨hr, hc, List.forall_mem_nil P, hp⟩
    case cons tick ts =>
      have hb := List.forall_mem_cons.mp hd
      cases hs
      cases b
      case false => exact ⟨hr, hc, hb.right, hp⟩
      case true  =>
        have ht := List.forall_mem_append.mpr ⟨hp, List.forall_mem_singleton.mpr hb.left⟩
        exact ⟨hr, hc, hb.right, ht⟩
  case sent   =>
    cases hs
    exact ⟨hr, hc, hd, hp⟩
  case failed =>
    cases hs
    exact ⟨hr, hc, hd, hp⟩
  case draining =>
    cases hs
    refine ⟨hr, hc, ?_, hp⟩
    split <;> exact List.forall_mem_nil P
  case taking =>
    cases ht : g.ring.front?
    all_goals
      rw [ht] at hs
      cases hs
    case none      => exact ⟨hr, hc, List.forall_mem_nil P, hp⟩
    case some tick => exact ⟨hr, hc, List.forall_mem_singleton.mpr <| hf tick ht, hp⟩
  case drainSending tick =>
    cases hs
    cases b
    case false => exact ⟨hr, hc, List.forall_mem_nil P, hp⟩
    case true  =>
      have ht := List.forall_mem_append.mpr ⟨hp, hd⟩
      exact ⟨hr, hc, List.forall_mem_nil P, ht⟩
  case drainSent =>
    cases hs
    exact ⟨hr, hc, List.forall_mem_nil P, hp⟩
  case finished => cases hs

theorem Only.step (h : g.Only P) (ha : a.Only P) (hs : g.step a = some g') : g'.Only P := by
  cases a
  case receive tick =>
    cases hp : g.callback
    all_goals
      rw [Gateway.step, hp] at hs
      cases hs
    refine ⟨h.ring, ?_, h.dispatch, h.published⟩
    cases tick
    case none => exact List.forall_mem_nil P
    case some => exact List.forall_mem_singleton.mpr <| ha _ rfl
  case callback => exact h.runCallback hs
  case dispatch => exact h.runDispatch hs
  case stop     =>
    cases hs
    exact ⟨h.ring, h.callback, h.dispatch, h.published⟩

theorem start_only : (start : Gateway τ).Only P where
  ring      := List.forall_mem_nil P
  callback  := List.forall_mem_nil P
  dispatch  := List.forall_mem_nil P
  published := List.forall_mem_nil P

-- What is published is one of the ticks that were received.
theorem published_of_received (ha : ∀ a ∈ as, a.Only P) (he : (machine τ).exec start as = some g) :
    ∀ t ∈ g.published, P t :=
  (Machine.always_of_step (fun _ _ _ => Only.step) start_only <| Machine.along_of_forall ha).exec he
    |>.published

end Published

namespace Sample

-- A tick of an option is received and put into the buffer.
def buffered : List (Action ℕ) :=
  [.receive (some 0), .callback true, .callback true]

-- The dispatch thread pops and sends a tick.
def dispatched : List (Action ℕ) :=
  .replicate 6 (.dispatch true)

-- The dispatch thread ends with a tick that cannot be sent.
def drained : List (Action ℕ) :=
  [.stop, .dispatch true, .dispatch true, .dispatch true, .dispatch false, .dispatch true]

end Sample

theorem always_balanced_sample : (machine ℕ).Always (fun g => g.Quiet → g.Balanced) start
    (Sample.buffered ++ Sample.dispatched) :=
  always_balanced (by decide)

-- Ticks that are given up in the drain are not counted.
theorem not_always_counted : ¬∀ as : List (Action ℕ), (machine ℕ).Always
    (fun g => g.Quiet → (g.ticksReceived.toNat : ℤ) = g.counted + g.ring.size) start as := by
  intro h
  have hf := (h <| Sample.buffered ++ Sample.drained).exec rfl
  exact absurd (hf ⟨trivial, rfl⟩) <| by decide

end Cpp.Gateway
