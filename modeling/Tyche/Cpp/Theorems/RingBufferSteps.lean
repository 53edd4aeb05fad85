import Tyche.Cpp.RingBufferSteps
import Tyche.Cpp.Theorems.RingBuffer

namespace Cpp.RingBuffer.Steps

variable {ι α : Type} {k n p q r t l : ℕ} {cs : List (ι × α)} {u u' : Users ι α} {i j : ι} {x : α}
variable {log es : List (Event ι α)} {hole : Option ℕ} {pos : BitVec 64} {b : Buffer α}

section Record

theorem claims_append : claims (log ++ es) = claims log ++ claims es :=
  List.filterMap_append ..

theorem removed_append : removed (log ++ es) = removed log ++ removed es :=
  List.filterMap_append ..

theorem popped_append : popped (log ++ es) = popped log ++ popped es :=
  List.filterMap_append ..

theorem releases_append : releases (log ++ es) = releases log + releases es :=
  List.countP_append

-- Events that neither claim a position nor remove an item.
structure Quiet (es : List (Event ι α)) : Prop where
  claims  : claims es = []
  removed : removed es = []

theorem quiet_nil : Quiet ([] : List (Event ι α)) :=
  ⟨rfl, rfl⟩

variable [DecidableEq ι]

theorem lag_claim : lag j (log ++ [.claim i x]) = lag j log + 1 :=
  List.foldl_append

theorem lag_load : lag j (log ++ [.load i]) = if i = j then 0 else lag j log :=
  List.foldl_append

theorem lag_other {e : Event ι α} (hl : ∀ i, e ≠ .load i) (hc : ∀ i x, e ≠ .claim i x) :
    lag j (log ++ [e]) = lag j log := by
  cases e
  case load i    => exact absurd rfl (hl i)
  case claim i x => exact absurd rfl (hc i x)
  all_goals exact List.foldl_append

theorem lag_enter : lag j (log ++ [.enter i x]) = lag j log :=
  lag_other nofun nofun

theorem lag_refuse : lag j (log ++ [.refuse i x]) = lag j log :=
  lag_other nofun nofun

theorem lag_nothing : lag j (log ++ [.nothing]) = lag j log :=
  lag_other nofun nofun

end Record

section Positions

theorem getElem?_concat_eq_some_iff {β : Type} {l : List β} {y z : β} :
    (l ++ [z])[n]? = some y ↔ l[n]? = some y ∨ n = l.length ∧ y = z := by
  rw [List.getElem?_append]
  split
  case isTrue hl  => exact ⟨.inl, fun h => h.resolve_right fun he => Nat.ne_of_lt hl he.left⟩
  case isFalse hl =>
    rw [List.getElem?_eq_none (Nat.le_of_not_lt hl), List.getElem?_singleton]
    grind

theorem sub_toInt_eq {m : ℕ} (hl : n ≤ m + 2 ^ 63) (hr : m < n + 2 ^ 63) :
    (BitVec.ofNat 64 m - BitVec.ofNat 64 n).toInt = (m : ℤ) - n := by
  rw [BitVec.toInt_eq_toNat_cond, BitVec.toNat_sub, BitVec.toNat_ofNat, BitVec.toNat_ofNat]
  split <;> omega

theorem sub_toInt_eq_zero_iff {a b : BitVec 64} : (a - b).toInt = 0 ↔ a = b := by
  have hz : (0 : BitVec 64).toInt = 0 := BitVec.toInt_zero
  rw [← hz, BitVec.toInt_inj]
  constructor <;> intro h <;> bv_omega

theorem ofNat_inj {m : ℕ} (h : BitVec.ofNat 64 m = BitVec.ofNat 64 n) (hl : m < n + 2 ^ 64)
    (hr : n < m + 2 ^ 64) : m = n := by
  have ht := congrArg BitVec.toNat h
  rw [BitVec.toNat_ofNat, BitVec.toNat_ofNat] at ht
  omega

theorem mod_ne_of_ne {m : ℕ} (h : m ≠ n) (hl : m < n + p) (hr : n < m + p) : m % p ≠ n % p := by
  rcases Nat.lt_or_gt_of_ne h with h | h
  case inl => exact mod_ne h hr
  case inr => exact (mod_ne h hl).symm

-- Each slot has a position in the lap that begins at `r`.
theorem exists_lap (r p : ℕ) (hn : 0 < n) : ∃ q, r ≤ q ∧ q < r + n ∧ q % n = p % n := by
  refine ⟨r + (p + (n - r % n)) % n, Nat.le_add_right .., ?_, ?_⟩
  case refine_1 => exact Nat.add_lt_add_left (Nat.mod_lt _ hn) r
  case refine_2 =>
    have hr : r % n < n := Nat.mod_lt r hn
    have hd := Nat.div_add_mod r n
    have he : r + (p + (n - r % n)) = p + n * (r / n + 1) := by
      rw [Nat.mul_succ]
      omega
    rw [Nat.add_mod_mod, he, Nat.add_mul_mod_self_left]

end Positions

-- The position whose slot a producer has claimed and not yet given back.
def Point.holds : Point α → Option (BitVec 64)
  | .moveData _ pos | .storeSequence _ pos => some pos
  | _                                      => none

-- What a producer `i` has read and claimed fits the counters. A position that it is about to claim
-- has its slot free.
def Point.Fits (cs : List (ι × α)) (r n : ℕ) (i : ι) (lag : ℕ) : Point α → Prop
  | .loadSequence _ _ pos => ∃ p, pos = .ofNat 64 p ∧ p + lag = cs.length
  | .exchange _ _ pos     => ∃ p, pos = .ofNat 64 p ∧ p + lag = cs.length ∧ p < r + n
  | .moveData x pos       => ∃ p, r ≤ p ∧ pos = .ofNat 64 p ∧ cs[p]? = some (i, x)
  | .storeSequence x pos  => ∃ p, r ≤ p ∧ pos = .ofNat 64 p ∧ cs[p]? = some (i, x)
  | _                     => True

-- The item at a position has been published.
def Ready (producer : ι → Point α) (cs : List (ι × α)) (p : ℕ) (x : α) : Prop :=
  ∃ i, cs[p]? = some (i, x) ∧ (producer i).holds ≠ some (.ofNat 64 p)

def Pop.Fits (producer : ι → Point α) (cs : List (ι × α)) (t : ℕ) : Pop α → Prop
  | .idle                     => True
  | .loadSequence _           => True
  | .moveData pos             => pos = .ofNat 64 t ∧ ∃ x, Ready producer cs t x
  | .storeWritable pos result => pos = .ofNat 64 t ∧ ∃ x, Ready producer cs t x ∧ result = some x
  | .storeReadPos pos result  => pos = .ofNat 64 t ∧ ∃ i x, cs[t]? = some (i, x) ∧ result = some x

-- The consumer has emptied the slot that it reads but not given it back.
def Pop.moved : Pop α → Prop
  | .storeWritable .. => True
  | _                 => False

-- The consumer has given back the slot that it reads but not moved on.
def Pop.behind : Pop α → ℕ
  | .storeReadPos .. => 1
  | _                => 0

theorem Pop.Fits.mono {producer producer' : ι → Point α} {cs' : List (ι × α)} {p : Pop α}
    (h : p.Fits producer cs t) (hc : ∀ y, cs[t]? = some y → cs'[t]? = some y)
    (hp : ∀ i x, cs[t]? = some (i, x) → (producer' i).holds = some (.ofNat 64 t) →
      (producer i).holds = some (.ofNat 64 t)) : p.Fits producer' cs' t := by
  have hr : ∀ {x}, Ready producer cs t x → Ready producer' cs' t x := by
    rintro x ⟨i, hi, hn⟩
    exact ⟨i, hc _ hi, fun h => hn <| hp i x hi h⟩
  cases p
  case idle | loadSequence => trivial
  case moveData            =>
    obtain ⟨hp, x, hx⟩ := h
    exact ⟨hp, x, hr hx⟩
  case storeWritable       =>
    obtain ⟨hp, x, hx, he⟩ := h
    exact ⟨hp, x, hr hx, he⟩
  case storeReadPos        =>
    obtain ⟨hp, i, x, hx, he⟩ := h
    exact ⟨hp, i, x, hc _ hx, he⟩

theorem Point.Fits.concat {p : Point α} {y : ι × α} (h : p.Fits cs r n i l) :
    p.Fits (cs ++ [y]) r n i (l + 1) := by
  cases p
  case loadSequence =>
    obtain ⟨q, hq, hl⟩ := h
    exact ⟨q, hq, by rw [List.length_append, ← hl]; rfl⟩
  case exchange =>
    obtain ⟨q, hq, hl, hr⟩ := h
    exact ⟨q, hq, by rw [List.length_append, ← hl]; rfl, hr⟩
  case moveData | storeSequence =>
    obtain ⟨q, hr, hq, hy⟩ := h
    exact ⟨q, hr, hq, getElem?_concat_eq_some_iff.mpr <| .inl hy⟩
  all_goals trivial

-- The slot of the oldest item may be given back when no producer has claimed it any longer.
theorem Point.Fits.succ {p : Point α} (h : p.Fits cs r n i l)
    (hn : ∀ x, cs[r]? = some (i, x) → p.holds ≠ some (.ofNat 64 r)) : p.Fits cs (r + 1) n i l := by
  cases p
  case exchange =>
    obtain ⟨q, hq, hl, hr⟩ := h
    exact ⟨q, hq, hl, by omega⟩
  case moveData | storeSequence =>
    obtain ⟨q, hr, rfl, hy⟩ := h
    refine ⟨q, Nat.lt_of_le_of_ne hr ?_, rfl, hy⟩
    rintro rfl
    exact hn _ hy rfl
  all_goals exact h

theorem Pop.behind_le (p : Pop α) : p.behind ≤ 1 := by
  cases p <;> simp [behind]

variable [DecidableEq ι]

-- The buffer between two steps. Of the claimed positions the first `t` were removed from the queue
-- and the slots of the first `r` were given back. A slot in the `hole` has been passed by the read
-- position but not been given back.
structure Inv (k : ℕ) (u : Users ι α) (cs : List (ι × α)) (r t : ℕ) (hole : Option ℕ) : Prop where
  mask     : u.buffer.mask = .ofNat 64 (2 ^ k - 1)
  pos      : 0 < k
  le       : k ≤ 63
  told     : claims u.log = cs
  gone     : removed u.log = (cs.take t).map fun y => some y.2
  writePos : u.buffer.writePos = .ofNat 64 cs.length
  readPos  : u.buffer.readPos = .ofNat 64 t
  behind   : r = t + u.consumer.behind
  ahead    : r ≤ cs.length
  lap      : cs.length ≤ r + 2 ^ k
  sequence : ∀ p i x, r ≤ p → cs[p]? = some (i, x) → (u.buffer.slots (p % 2 ^ k)).sequence =
    .ofNat 64 (if (u.producer i).holds = some (.ofNat 64 p) then p else p + 1)
  data     : ∀ p i x, r ≤ p → cs[p]? = some (i, x) → u.producer i ≠ .moveData x (.ofNat 64 p) →
    (p = r → ¬u.consumer.moved) → (u.buffer.slots (p % 2 ^ k)).data = some x
  free     : ∀ p, cs.length ≤ p → p < r + 2 ^ k → (∀ q, hole = some q → p ≠ q + 2 ^ k) →
    (u.buffer.slots (p % 2 ^ k)).sequence = .ofNat 64 p
  hole     : ∀ q, hole = some q → q < r ∧ cs.length ≤ q + 2 ^ k ∧
    (u.buffer.slots (q % 2 ^ k)).sequence = .ofNat 64 (q + 1)
  fits     : ∀ i, (u.producer i).Fits cs r (2 ^ k) i (lag i u.log)
  popFits  : u.consumer.Fits u.producer cs t

namespace Users

@[simp]
theorem producer_setProducer_self {q : Point α} : (u.setProducer i q es).producer i = q :=
  Function.update_self ..

theorem producer_setProducer_ne {q : Point α} (h : j ≠ i) :
    (u.setProducer i q es).producer j = u.producer j :=
  Function.update_of_ne h ..

theorem holds_setProducer {q : Point α} (h : q.holds = (u.producer i).holds) :
    ((u.setProducer i q es).producer j).holds = (u.producer j).holds := by
  by_cases hj : j = i
  case pos => rw [hj, producer_setProducer_self, h]
  case neg => rw [producer_setProducer_ne hj]

theorem step_push {kind : Push} (h : u.producer i = .idle) :
    u.step (.push i kind x) = some (u.setProducer i (.loadWritePos kind x) [.enter i x]) := by
  rw [step, h]

end Users

-- A producer has moved to a point, and nothing else has changed but the buffer.
structure Moved (i : ι) (p : Point α) (es : List (Event ι α)) (u u' : Users ι α) : Prop where
  producer : u'.producer = Function.update u.producer i p
  consumer : u'.consumer = u.consumer
  log      : u'.log = u.log ++ es

namespace Moved

variable {p q : Point α} {v : Users ι α} {es' : List (Event ι α)}

theorem setProducer : Moved i p es u ((u.setBuffer b).setProducer i p es) :=
  ⟨rfl, rfl, rfl⟩

theorem self (h : Moved i p es u u') : u'.producer i = p := by
  rw [h.producer, Function.update_self]

theorem trans (h : Moved i p es u u') (h' : Moved i q es' u' v) : Moved i q (es ++ es') u v where
  producer := by rw [h'.producer, h.producer, Function.update_idem]
  consumer := h'.consumer.trans h.consumer
  log      := by rw [h'.log, h.log, List.append_assoc]

end Moved

-- The consumer has moved to a point, and nothing else has changed but the buffer.
structure Consumed (p : Pop α) (es : List (Event ι α)) (u u' : Users ι α) : Prop where
  producer : u'.producer = u.producer
  consumer : u'.consumer = p
  log      : u'.log = u.log ++ es

namespace Consumed

variable {p q : Pop α} {v : Users ι α} {es' : List (Event ι α)}

omit [DecidableEq ι] in
theorem setConsumer : Consumed p es u ((u.setBuffer b).setConsumer p es) :=
  ⟨rfl, rfl, rfl⟩

omit [DecidableEq ι] in
theorem trans (h : Consumed p es u u') (h' : Consumed q es' u' v) :
    Consumed q (es ++ es') u v where
  producer := h'.producer.trans h.producer
  consumer := h'.consumer
  log      := by rw [h'.log, h.log, List.append_assoc]

end Consumed

namespace Inv

variable {p' : Point α}

theorem slot? (h : Inv k u cs r t hole) (p : ℕ) :
    u.buffer.slot? (.ofNat 64 p) = some (u.buffer.slots (p % 2 ^ k)) :=
  slot?_eq h.mask h.le

theorem pow_le (h : Inv k u cs r t hole) : 2 ≤ 2 ^ k ∧ 2 ^ k ≤ 2 ^ 63 :=
  ⟨Nat.pow_le_pow_right Nat.two_pos h.pos, Nat.pow_le_pow_right Nat.two_pos h.le⟩

-- A producer goes on without having changed the buffer.
theorem setProducer (h : Inv k u cs r t hole) (he : Quiet es) (hp : (u.producer i).holds = none)
    (hq : p'.holds = none) (hf : p'.Fits cs r (2 ^ k) i (lag i (u.log ++ es)))
    (hl : ∀ j, j ≠ i → lag j (u.log ++ es) = lag j u.log) :
    Inv k (u.setProducer i p' es) cs r t hole := by
  have hh (j : ι) : ((u.setProducer i p' es).producer j).holds = (u.producer j).holds :=
    Users.holds_setProducer <| hq.trans hp.symm
  exact {
    h with
    told     := claims_append.trans <| by rw [h.told, he.claims, List.append_nil]
    gone     := removed_append.trans <| by rw [h.gone, he.removed, List.append_nil]
    sequence := fun q j x hr hc => by
      rw [hh]
      exact h.sequence q j x hr hc
    data     := fun q j x hr hc hn hm => by
      refine h.data q j x hr hc (fun hj => ?_) hm
      have ho := hh j
      rw [hj] at ho
      by_cases hji : j = i
      case pos =>
        rw [hji, Users.producer_setProducer_self, hq] at ho
        cases ho
      case neg =>
        rw [Users.producer_setProducer_ne hji] at hn
        exact hn hj
    fits     := fun j => by
      by_cases hj : j = i
      case pos =>
        rw [hj, Users.producer_setProducer_self]
        exact hf
      case neg =>
        rw [Users.producer_setProducer_ne hj]
        exact hl j hj ▸ h.fits j
    popFits  := h.popFits.mono (fun _ => id) fun j _ _ hj => hh j ▸ hj }

-- A producer claims the position that it has found free.
theorem claim {push : Push} (h : Inv k u cs r t none) (hi : u.producer i = .exchange push x pos)
    (hw : u.buffer.writePos = pos) (hl : lag i u.log < 2 ^ 64) :
    Inv k ((u.setBuffer { u.buffer with writePos := pos + 1 }).setProducer i (.moveData x pos)
      [.claim i x]) (cs ++ [(i, x)]) r t none := by
  obtain ⟨p, rfl, hp, hr⟩ : ∃ p, pos = .ofNat 64 p ∧ p + lag i u.log = cs.length ∧ p < r + 2 ^ k := by
    have hf := h.fits i
    rwa [hi] at hf
  obtain rfl : p = cs.length := by
    rw [h.writePos] at hw
    exact ofNat_inj hw.symm (by omega) (by omega)
  have hrc := h.ahead
  have hb := h.behind
  have h₆₃ := h.pow_le.right
  have hle : u.consumer.behind ≤ 1 := u.consumer.behind_le
  have hc : ∀ y q, cs[q]? = some y → (cs ++ [(i, x)])[q]? = some y :=
    fun _ _ hy => getElem?_concat_eq_some_iff.mpr <| .inl hy
  have hn (j : ι) (q : ℕ) (hq : q < cs.length) (hqr : r ≤ q + 1) :
      (((u.setBuffer { u.buffer with writePos := .ofNat 64 cs.length + 1 }).setProducer i
        (.moveData x (.ofNat 64 cs.length)) [.claim i x]).producer j).holds = some (.ofNat 64 q) ↔
          (u.producer j).holds = some (.ofNat 64 q) := by
    by_cases hj : j = i
    case pos =>
      rw [hj, Users.producer_setProducer_self, hi]
      refine iff_of_false (fun he => ?_) nofun
      have := ofNat_inj (Option.some.inj he) (by omega) (by omega)
      omega
    case neg =>
      rw [Users.producer_setProducer_ne hj]
      rfl
  constructor
  case mask     => exact h.mask
  case pos      => exact h.pos
  case le       => exact h.le
  case told     => exact claims_append.trans <| congrArg (· ++ [(i, x)]) h.told
  case gone     =>
    refine removed_append.trans <| (List.append_nil _).trans ?_
    rw [List.take_append_of_le_length (by omega)]
    exact h.gone
  case writePos =>
    rw [List.length_append, List.length_singleton, ← ofNat_succ]
    rfl
  case readPos  => exact h.readPos
  case behind   => exact h.behind
  case ahead    => rw [List.length_append]; omega
  case lap      => rw [List.length_append, List.length_singleton]; omega
  case sequence =>
    intro q j y hq hy
    rcases getElem?_concat_eq_some_iff.mp hy with hy | ⟨rfl, he⟩
    case inl =>
      simp only [hn j q (List.getElem?_eq_some_iff.mp hy).choose (Nat.le_succ_of_le hq)]
      exact h.sequence q j y hq hy
    case inr =>
      cases he
      rw [if_pos <| by rw [Users.producer_setProducer_self]; rfl]
      exact h.free _ (Nat.le_refl _) hr nofun
  case data     =>
    intro q j y hq hy hm hmv
    rcases getElem?_concat_eq_some_iff.mp hy with hy | ⟨rfl, he⟩
    case inl =>
      refine h.data q j y hq hy (fun hj => hm ?_) hmv
      have hji : j ≠ i := fun e => by rw [e, hi] at hj; cases hj
      rw [Users.producer_setProducer_ne hji]
      exact hj
    case inr =>
      cases he
      exact absurd Users.producer_setProducer_self hm
  case free     =>
    intro q hq hqr _
    rw [List.length_append] at hq
    exact h.free q (by omega) hqr nofun
  case hole     => nofun
  case fits     =>
    intro j
    by_cases hj : j = i
    case pos =>
      rw [hj, Users.producer_setProducer_self]
      exact ⟨cs.length, hrc, rfl, List.getElem?_concat_length⟩
    case neg =>
      rw [Users.producer_setProducer_ne hj]
      change (u.producer j).Fits _ _ _ _ (lag j (u.log ++ [.claim i x]))
      rw [lag_claim]
      exact (h.fits j).concat
  case popFits  =>
    refine h.popFits.mono (fun _ => hc _ _) fun j y hy => (hn j t ?_ ?_).mp
    case refine_1 => exact (List.getElem?_eq_some_iff.mp hy).choose
    case refine_2 => omega

-- The slots of two positions that are less than a lap apart.
theorem slots_setSlot_self {slot : Slot α} (h : Inv k u cs r t hole) :
    (u.buffer.setSlot (.ofNat 64 p) slot).slots (p % 2 ^ k) = slot := by
  rw [Buffer.setSlot, index_eq h.mask h.le]
  exact Function.update_self ..

theorem slots_setSlot_ne {slot : Slot α} (h : Inv k u cs r t hole) (hn : q % 2 ^ k ≠ p % 2 ^ k) :
    (u.buffer.setSlot (.ofNat 64 p) slot).slots (q % 2 ^ k) = u.buffer.slots (q % 2 ^ k) := by
  rw [Buffer.setSlot, index_eq h.mask h.le]
  exact Function.update_of_ne hn ..

-- A producer moves its item into the slot that it has claimed.
theorem moveData (h : Inv k u cs r t none) (hi : u.producer i = .moveData x (.ofNat 64 p))
    (hr : r ≤ p) (hy : cs[p]? = some (i, x)) :
    Inv k ((u.setBuffer <| u.buffer.setSlot (.ofNat 64 p)
      { u.buffer.slots (p % 2 ^ k) with data := some x }).setProducer i
        (.storeSequence x <| .ofNat 64 p) []) cs r t none := by
  have hs (q : ℕ) : ((u.buffer.setSlot (.ofNat 64 p) { u.buffer.slots (p % 2 ^ k) with
      data := some x }).slots (q % 2 ^ k)).sequence = (u.buffer.slots (q % 2 ^ k)).sequence := by
    by_cases hq : q % 2 ^ k = p % 2 ^ k
    case pos => rw [hq, h.slots_setSlot_self]
    case neg => rw [h.slots_setSlot_ne hq]
  have hh (j : ι) : ((u.setProducer i (.storeSequence x <| .ofNat 64 p) []).producer j).holds =
      (u.producer j).holds :=
    Users.holds_setProducer <| by rw [hi]; rfl
  exact {
    h with
    told     := claims_append.trans <| (List.append_nil _).trans h.told
    gone     := removed_append.trans <| (List.append_nil _).trans h.gone
    sequence := fun q j y hq hc => by
      refine (hs q).trans <| (h.sequence q j y hq hc).trans ?_
      rw [← hh]
      rfl
    data     := fun q j y hq hc hn hm => by
      by_cases he : q = p
      case pos =>
        subst he
        cases hy.symm.trans hc
        exact congrArg Slot.data h.slots_setSlot_self
      case neg =>
        have hlt := (List.getElem?_eq_some_iff.mp hc).choose
        have hlt' := (List.getElem?_eq_some_iff.mp hy).choose
        have hl := h.lap
        have h₆₃ := h.pow_le.right
        refine (congrArg Slot.data <| h.slots_setSlot_ne ?_).trans <|
          h.data q j y hq hc (fun hj => hn ?_) hm
        case refine_1 => exact mod_ne_of_ne he (by omega) (by omega)
        case refine_2 =>
          have hji : j ≠ i := by
            rintro rfl
            injection hi.symm.trans hj with _ hp
            exact he <| ofNat_inj hp.symm (by omega) (by omega)
          rw [Users.producer_setProducer_ne hji]
          exact hj
    free     := fun q hq hr hn => (hs q).trans <| h.free q hq hr hn
    hole     := fun q hq => nomatch hq
    fits     := fun j => by
      rw [show (Users.log _) = _ from List.append_nil u.log]
      by_cases hj : j = i
      case pos =>
        rw [hj, Users.producer_setProducer_self]
        exact ⟨p, hr, rfl, hy⟩
      case neg =>
        rw [Users.producer_setProducer_ne hj]
        exact h.fits j
    popFits  := h.popFits.mono (fun _ => id) fun j _ _ hj => hh j ▸ hj }

-- A producer publishes its item.
theorem storeSequence (h : Inv k u cs r t none) (hi : u.producer i = .storeSequence x (.ofNat 64 p))
    (hr : r ≤ p) (hy : cs[p]? = some (i, x)) :
    Inv k ((u.setBuffer <| u.buffer.setSlot (.ofNat 64 p)
      { u.buffer.slots (p % 2 ^ k) with sequence := .ofNat 64 p + 1 }).setProducer i .idle
        [.accept i x]) cs r t none := by
  have hp := (List.getElem?_eq_some_iff.mp hy).choose
  have hl := h.lap
  have h₆₃ := h.pow_le.right
  have hd (q : ℕ) : ((u.buffer.setSlot (.ofNat 64 p) { u.buffer.slots (p % 2 ^ k) with
      sequence := .ofNat 64 p + 1 }).slots (q % 2 ^ k)).data = (u.buffer.slots (q % 2 ^ k)).data := by
    by_cases hq : q % 2 ^ k = p % 2 ^ k
    case pos => rw [hq, h.slots_setSlot_self]
    case neg => rw [h.slots_setSlot_ne hq]
  exact {
    h with
    told     := claims_append.trans <| (List.append_nil _).trans h.told
    gone     := removed_append.trans <| (List.append_nil _).trans h.gone
    sequence := fun q j y hq hc => by
      by_cases he : q = p
      case pos =>
        subst he
        cases hy.symm.trans hc
        rw [if_neg <| by rw [Users.producer_setProducer_self]; exact nofun, ← ofNat_succ]
        exact congrArg Slot.sequence h.slots_setSlot_self
      case neg =>
        have hlt := (List.getElem?_eq_some_iff.mp hc).choose
        refine (congrArg Slot.sequence <| h.slots_setSlot_ne <|
          mod_ne_of_ne he (by omega) (by omega)).trans <| (h.sequence q j y hq hc).trans ?_
        by_cases hj : j = i
        case pos =>
          rw [hj, Users.producer_setProducer_self, hi, if_neg, if_neg nofun]
          exact fun hp => he <| ofNat_inj (Option.some.inj hp).symm (by omega) (by omega)
        case neg =>
          rw [Users.producer_setProducer_ne hj]
          rfl
    data     := fun q j y hq hc hn hm => (hd q).trans <| by
      refine h.data q j y hq hc (fun hj => hn ?_) hm
      have hji : j ≠ i := fun e => by rw [e, hi] at hj; cases hj
      rw [Users.producer_setProducer_ne hji]
      exact hj
    free     := fun q hq hr hn =>
      (congrArg Slot.sequence <| h.slots_setSlot_ne <|
        mod_ne_of_ne (by omega) (by omega) (by omega)).trans <| h.free q hq hr hn
    hole     := fun q hq => nomatch hq
    fits     := fun j => by
      by_cases hj : j = i
      case pos =>
        rw [hj, Users.producer_setProducer_self]
        trivial
      case neg =>
        rw [Users.producer_setProducer_ne hj]
        change (u.producer j).Fits _ _ _ _ (lag j (u.log ++ [.accept i x]))
        rw [lag_other nofun nofun]
        exact h.fits j
    popFits  := h.popFits.mono (fun _ => id) fun j _ _ hj => by
      have hji : j ≠ i := fun e => by rw [e, Users.producer_setProducer_self] at hj; cases hj
      rw [Users.producer_setProducer_ne hji] at hj
      exact hj }

-- The consumer goes on without having changed the buffer.
theorem setConsumer {p' : Pop α} (h : Inv k u cs r t hole) (he : Quiet es)
    (hb : p'.behind = u.consumer.behind) (hm : u.consumer.moved → p'.moved)
    (hf : p'.Fits u.producer cs t) (hl : ∀ j, lag j (u.log ++ es) = lag j u.log) :
    Inv k (u.setConsumer p' es) cs r t hole := {
  h with
  told    := claims_append.trans <| by rw [h.told, he.claims, List.append_nil]
  gone    := removed_append.trans <| by rw [h.gone, he.removed, List.append_nil]
  behind  := h.behind.trans <| congrArg _ hb.symm
  data    := fun q j y hq hc hn hd => h.data q j y hq hc hn fun he hc => hd he <| hm hc
  fits    := fun j => hl j ▸ h.fits j
  popFits := hf }

-- The consumer moves an item out of its slot.
theorem popMoveData (h : Inv k u cs r t hole) (hp : u.consumer = .moveData (.ofNat 64 t)) :
    Inv k ((u.setBuffer <| u.buffer.setSlot (.ofNat 64 t)
      { u.buffer.slots (t % 2 ^ k) with data := none }).setConsumer
        (.storeWritable (.ofNat 64 t) (u.buffer.slots (t % 2 ^ k)).data) []) cs r t hole := by
  obtain rfl : r = t := by rw [h.behind, hp]; rfl
  obtain ⟨-, x, i, hy, hn⟩ : Pop.Fits u.producer cs r (.moveData (.ofNat 64 r)) := hp ▸ h.popFits
  have hr := (List.getElem?_eq_some_iff.mp hy).choose
  have hl := h.lap
  have hd : (u.buffer.slots (r % 2 ^ k)).data = some x := by
    refine h.data r i x (Nat.le_refl _) hy (fun hi => hn ?_) fun _ => ?_
    case refine_1 => rw [hi]; rfl
    case refine_2 => rw [hp]; exact id
  have hs (q : ℕ) : ((u.buffer.setSlot (.ofNat 64 r) { u.buffer.slots (r % 2 ^ k) with
      data := none }).slots (q % 2 ^ k)).sequence = (u.buffer.slots (q % 2 ^ k)).sequence := by
    by_cases hq : q % 2 ^ k = r % 2 ^ k
    case pos => rw [hq, h.slots_setSlot_self]
    case neg => rw [h.slots_setSlot_ne hq]
  exact {
    h with
    told     := claims_append.trans <| (List.append_nil _).trans h.told
    gone     := removed_append.trans <| (List.append_nil _).trans h.gone
    behind   := rfl
    sequence := fun q j y hq hc => (hs q).trans <| h.sequence q j y hq hc
    data     := fun q j y hq hc hn hm => by
      have hqr : q ≠ r := fun he => hm he trivial
      have hlt := (List.getElem?_eq_some_iff.mp hc).choose
      exact (congrArg Slot.data <| h.slots_setSlot_ne <|
        mod_ne_of_ne hqr (by omega) (by omega)).trans <| h.data q j y hq hc hn fun he => absurd he hqr
    free     := fun q hq hr hn => (hs q).trans <| h.free q hq hr hn
    hole     := fun q hq => ⟨(h.hole q hq).left, (h.hole q hq).right.left,
      (hs q).trans (h.hole q hq).right.right⟩
    fits     := fun j => by
      rw [show (Users.log _) = _ from List.append_nil u.log]
      exact h.fits j
    popFits  := ⟨rfl, x, ⟨i, hy, hn⟩, hd⟩ }

-- The consumer gives a slot back.
theorem popStoreWritable {result : Option α} (h : Inv k u cs r t hole)
    (hp : u.consumer = .storeWritable (.ofNat 64 t) result) :
    Inv k ((u.setBuffer <| u.buffer.setSlot (.ofNat 64 t)
      { u.buffer.slots (t % 2 ^ k) with sequence := .ofNat 64 t + u.buffer.mask + 1 }).setConsumer
        (.storeReadPos (.ofNat 64 t) result) [.release]) cs (r + 1) t hole := by
  obtain rfl : r = t := by rw [h.behind, hp]; rfl
  obtain ⟨-, x, ⟨i, hy, hn⟩, rfl⟩ : Pop.Fits u.producer cs r (.storeWritable (.ofNat 64 r) result) :=
    hp ▸ h.popFits
  have hr := (List.getElem?_eq_some_iff.mp hy).choose
  have hl := h.lap
  have h₆₃ := h.pow_le.right
  exact {
    h with
    told     := claims_append.trans <| (List.append_nil _).trans h.told
    gone     := removed_append.trans <| (List.append_nil _).trans h.gone
    behind   := rfl
    ahead    := hr
    lap      := by omega
    sequence := fun q j y hq hc => by
      have hlt := (List.getElem?_eq_some_iff.mp hc).choose
      exact (congrArg Slot.sequence <| h.slots_setSlot_ne <|
        mod_ne_of_ne (by omega) (by omega) (by omega)).trans <|
          h.sequence q j y (Nat.le_of_succ_le hq) hc
    data     := fun q j y hq hc hn _ => by
      have hlt := (List.getElem?_eq_some_iff.mp hc).choose
      exact (congrArg Slot.data <| h.slots_setSlot_ne <|
        mod_ne_of_ne (by omega) (by omega) (by omega)).trans <|
          h.data q j y (Nat.le_of_succ_le hq) hc hn (by omega)
    free     := fun q hq hqr ho => by
      by_cases he : q = r + 2 ^ k
      case pos =>
        rw [he, Nat.add_mod_right, next_lap_eq h.mask]
        exact congrArg Slot.sequence h.slots_setSlot_self
      case neg =>
        exact (congrArg Slot.sequence <| h.slots_setSlot_ne <|
          mod_ne_of_ne (by omega) (by omega) (by omega)).trans <| h.free q hq (by omega) ho
    hole     := fun q hq => by
      obtain ⟨hqr, hlq, hs⟩ := h.hole q hq
      exact ⟨by omega, hlq, (congrArg Slot.sequence <| h.slots_setSlot_ne <|
        mod_ne_of_ne (by omega) (by omega) (by omega)).trans hs⟩
    fits     := fun j => by
      change (u.producer j).Fits _ _ _ _ (lag j (u.log ++ [.release]))
      rw [lag_other nofun nofun]
      refine (h.fits j).succ fun _ hj => ?_
      cases hy.symm.trans hj
      exact hn
    popFits  := ⟨rfl, i, x, hy, rfl⟩ }

-- The consumer moves the read position on.
theorem popStoreReadPos {result : Option α} (h : Inv k u cs r t hole)
    (hp : u.consumer = .storeReadPos (.ofNat 64 t) result) :
    Inv k ((u.setBuffer { u.buffer with readPos := .ofNat 64 t + 1 }).setConsumer .idle
      [.popped result]) cs r (t + 1) hole := by
  obtain rfl : r = t + 1 := by rw [h.behind, hp]; rfl
  obtain ⟨-, i, x, hy, rfl⟩ : Pop.Fits u.producer cs t (.storeReadPos (.ofNat 64 t) result) :=
    hp ▸ h.popFits
  exact {
    h with
    told     := claims_append.trans <| (List.append_nil _).trans h.told
    gone     := by
      refine removed_append.trans <| (congrArg (· ++ _) h.gone).trans ?_
      rw [List.take_add_one, hy, List.map_append]
      rfl
    readPos  := ofNat_succ
    behind   := rfl
    data     := fun q j y hq hc hn _ => h.data q j y hq hc hn fun _ => by rw [hp]; exact id
    fits     := fun j => by
      change (u.producer j).Fits _ _ _ _ (lag j (u.log ++ [.popped _]))
      rw [lag_other nofun nofun]
      exact h.fits j
    popFits  := trivial }

-- What the sequence of a slot tells about the oldest item.
theorem ready_iff (h : Inv k u cs r r hole) :
    (u.buffer.slots (r % 2 ^ k)).sequence = .ofNat 64 (r + 1) ↔ ∃ x, Ready u.producer cs r x := by
  have ⟨h₂, h₆₃⟩ := h.pow_le
  have hrc := h.ahead
  by_cases hr : r < cs.length
  case pos =>
    obtain ⟨⟨i, x⟩, hy⟩ : ∃ y, cs[r]? = some y := ⟨_, List.getElem?_eq_getElem hr⟩
    rw [h.sequence r i x (Nat.le_refl _) hy]
    constructor
    case mp  =>
      intro he
      refine ⟨x, i, hy, fun hn => ?_⟩
      rw [if_pos hn] at he
      have := ofNat_inj he (by omega) (by omega)
      omega
    case mpr =>
      rintro ⟨y, j, hj, hn⟩
      cases hy.symm.trans hj
      rw [if_neg hn]
  case neg =>
    refine iff_of_false (fun he => ?_) ?_
    case refine_1 =>
      by_cases ho : ∃ q, hole = some q ∧ r = q + 2 ^ k
      case pos =>
        obtain ⟨q, hq, rfl⟩ := ho
        rw [Nat.add_mod_right, (h.hole q hq).right.right] at he
        have := ofNat_inj he (by omega) (by omega)
        omega
      case neg =>
        rw [h.free r (by omega) (by omega) fun q hq he => ho ⟨q, hq, he⟩] at he
        have := ofNat_inj he (by omega) (by omega)
        omega
    case refine_2 =>
      rintro ⟨x, i, hy, -⟩
      exact hr (List.getElem?_eq_some_iff.mp hy).choose

-- What a producer finds that compares the sequence of a slot with a position it has read. It is not
-- so late that the difference leaves the range of its type.
theorem compare (h : Inv k u cs r t none) (hp : p + l = cs.length) (hl : l + 2 ^ k ≤ 2 ^ 63) :
    let diff := ((u.buffer.slots (p % 2 ^ k)).sequence - BitVec.ofNat 64 p).toInt
    (diff = 0 → p < r + 2 ^ k) ∧ (diff < 0 → cs.length = r + 2 ^ k) := by
  have ⟨h₂, h₆₃⟩ := h.pow_le
  have hrc := h.ahead
  have hlap := h.lap
  obtain ⟨q, hr, hqr, hm⟩ := exists_lap r p (Nat.two_pow_pos k)
  -- The position at which the slot is in use, or is free, and its sequence.
  obtain ⟨s, hs, hq⟩ : ∃ s, (u.buffer.slots (p % 2 ^ k)).sequence = .ofNat 64 s ∧
      (s = q ∨ s = q + 1 ∧ q < cs.length) := by
    rw [← hm]
    by_cases hq : q < cs.length
    case pos =>
      obtain ⟨⟨i, x⟩, hy⟩ : ∃ y, cs[q]? = some y := ⟨_, List.getElem?_eq_getElem hq⟩
      rw [h.sequence q i x hr hy]
      split
      case isTrue  => exact ⟨q, rfl, .inl rfl⟩
      case isFalse => exact ⟨q + 1, rfl, .inr ⟨rfl, hq⟩⟩
    case neg => exact ⟨q, h.free q (by omega) hqr nofun, .inl rfl⟩
  have hd : (BitVec.ofNat 64 s - BitVec.ofNat 64 p).toInt = (s : ℤ) - p :=
    sub_toInt_eq (by omega) (by omega)
  have hne : ¬(q < p ∧ p < q + 2 ^ k) ∧ ¬(p < q ∧ q < p + 2 ^ k) :=
    ⟨fun hn => mod_ne hn.left hn.right hm, fun hn => mod_ne hn.left hn.right hm.symm⟩
  rw [hs]
  dsimp only
  rw [hd]
  omega

section Alone

variable {kind : Push} {s : Bool}

theorem step_loadWritePos (h : Inv k u cs r t hole) (hi : u.producer i = .loadWritePos kind x) :
    ∃ u', u.step (.next i s) = some u' ∧ Inv k u' cs r t hole ∧
      Moved i (.loadSequence kind x (.ofNat 64 cs.length)) [.load i] u u' := by
  rw [Users.step, hi, Users.run, h.writePos]
  refine ⟨_, rfl, ?_, .setProducer⟩
  refine h.setProducer ⟨rfl, rfl⟩ (by rw [hi]; rfl) rfl ⟨cs.length, rfl, ?_⟩ fun j hj => ?_
  case refine_1 => rw [lag_load, if_pos rfl]; rfl
  case refine_2 => rw [lag_load, if_neg hj.symm]

theorem step_loadSequence (h : Inv k u cs r t none)
    (hi : u.producer i = .loadSequence kind x (.ofNat 64 cs.length)) (hz : lag i u.log = 0)
    (hl : cs.length < r + 2 ^ k) : ∃ u', u.step (.next i s) = some u' ∧ Inv k u' cs r t none ∧
      Moved i (.exchange kind x (.ofNat 64 cs.length)) [] u u' := by
  have hs := h.free cs.length (Nat.le_refl _) hl nofun
  simp only [Users.step, hi, Users.run, h.slot?, Option.bind_eq_bind, Option.bind_some, hs,
    sub_toInt_eq_zero_iff, if_true]
  refine ⟨_, rfl, ?_, .setProducer⟩
  refine h.setProducer quiet_nil (by rw [hi]; rfl) rfl ⟨cs.length, rfl, ?_, hl⟩ fun j _ => ?_
  case refine_1 => rw [List.append_nil, hz]; rfl
  case refine_2 => rw [List.append_nil]

theorem step_exchange (h : Inv k u cs r t none)
    (hi : u.producer i = .exchange kind x (.ofNat 64 cs.length)) (hz : lag i u.log = 0) :
    ∃ u', u.step (.next i false) = some u' ∧ Inv k u' (cs ++ [(i, x)]) r t none ∧
      Moved i (.moveData x (.ofNat 64 cs.length)) [.claim i x] u u' := by
  have hc := h.claim hi h.writePos (by omega)
  rw [Users.step, hi, Users.run, if_pos ⟨h.writePos, rfl⟩]
  exact ⟨_, rfl, hc, .setProducer⟩

theorem step_moveData (h : Inv k u cs r t none) (hi : u.producer i = .moveData x (.ofNat 64 p))
    (hr : r ≤ p) (hy : cs[p]? = some (i, x)) : ∃ u', u.step (.next i s) = some u' ∧
      Inv k u' cs r t none ∧ Moved i (.storeSequence x (.ofNat 64 p)) [] u u' := by
  have hm := h.moveData hi hr hy
  simp only [Users.step, hi, Users.run, h.slot?, Option.bind_eq_bind, Option.bind_some]
  exact ⟨_, rfl, hm, .setProducer⟩

theorem step_storeSequence (h : Inv k u cs r t none)
    (hi : u.producer i = .storeSequence x (.ofNat 64 p)) (hr : r ≤ p) (hy : cs[p]? = some (i, x)) :
    ∃ u', u.step (.next i s) = some u' ∧ Inv k u' cs r t none ∧
      Moved i .idle [.accept i x] u u' := by
  have hs := h.storeSequence hi hr hy
  simp only [Users.step, hi, Users.run, h.slot?, Option.bind_eq_bind, Option.bind_some]
  exact ⟨_, rfl, hs, .setProducer⟩

-- A producer that no other disturbs pushes its item if there is room.
theorem pushAlone (h : Inv k u cs r t none) (hi : u.producer i = .loadWritePos kind x)
    (hl : cs.length < r + 2 ^ k) : ∃ u', (machine ι α).exec u (.replicate 5 (.next i false)) = some u' ∧
      Inv k u' (cs ++ [(i, x)]) r t none ∧
        Moved i .idle [.load i, .claim i x, .accept i x] u u' := by
  obtain ⟨u₁, e₁, h₁, m₁⟩ := h.step_loadWritePos (s := false) hi
  have hz : lag i u₁.log = 0 := by rw [m₁.log, lag_load, if_pos rfl]
  obtain ⟨u₂, e₂, h₂, m₂⟩ := h₁.step_loadSequence (s := false) m₁.self hz hl
  rw [← List.append_nil u₁.log, ← m₂.log] at hz
  obtain ⟨u₃, e₃, h₃, m₃⟩ := h₂.step_exchange m₂.self hz
  have hy : (cs ++ [(i, x)])[cs.length]? = some (i, x) := List.getElem?_concat_length
  obtain ⟨u₄, e₄, h₄, m₄⟩ := h₃.step_moveData (s := false) m₃.self h.ahead hy
  obtain ⟨u₅, e₅, h₅, m₅⟩ := h₄.step_storeSequence (s := false) m₄.self h.ahead hy
  refine ⟨u₅, ?_, h₅, m₁.trans <| m₂.trans <| m₃.trans <| m₄.trans m₅⟩
  refine Machine.exec_cons_eq_some_iff.mpr ⟨u₁, e₁, Machine.exec_cons_eq_some_iff.mpr ⟨u₂, e₂, ?_⟩⟩
  refine Machine.exec_cons_eq_some_iff.mpr ⟨u₃, e₃, Machine.exec_cons_eq_some_iff.mpr ⟨u₄, e₄, ?_⟩⟩
  exact Machine.exec_cons_eq_some_iff.mpr ⟨u₅, e₅, rfl⟩

theorem step_popIdle (h : Inv k u cs r t hole) (hi : u.consumer = .idle) :
    ∃ u', u.step .pop = some u' ∧ Inv k u' cs r t hole ∧
      Consumed (.loadSequence <| .ofNat 64 t) [] u u' := by
  rw [Users.step, hi, Users.consume, h.readPos]
  refine ⟨_, rfl, ?_, .setConsumer⟩
  refine h.setConsumer quiet_nil (by rw [hi]; rfl) (by rw [hi]; exact id) trivial fun j => ?_
  rw [List.append_nil]

theorem step_popLoadSequence (h : Inv k u cs r r hole)
    (hi : u.consumer = .loadSequence (.ofNat 64 r)) (hx : ∃ x, Ready u.producer cs r x) :
    ∃ u', u.step .pop = some u' ∧ Inv k u' cs r r hole ∧ Consumed (.moveData <| .ofNat 64 r) [] u u' := by
  simp only [Users.step, hi, Users.consume, h.slot?, Option.bind_eq_bind, Option.bind_some,
    ofNat_succ, sub_toInt_eq_zero_iff, h.ready_iff.mpr hx, if_true]
  refine ⟨_, rfl, ?_, .setConsumer⟩
  refine h.setConsumer quiet_nil (by rw [hi]; rfl) (by rw [hi]; exact id) ⟨rfl, hx⟩ fun j => ?_
  rw [List.append_nil]

theorem step_popMoveData (h : Inv k u cs r t hole) (hi : u.consumer = .moveData pos) :
    ∃ u' result, u.step .pop = some u' ∧ Inv k u' cs r t hole ∧
      Consumed (.storeWritable pos result) [] u u' := by
  obtain ⟨rfl, -⟩ : Pop.Fits u.producer cs t (.moveData pos) := hi ▸ h.popFits
  have hm := h.popMoveData hi
  simp only [Users.step, hi, Users.consume, h.slot?, Option.bind_eq_bind, Option.bind_some]
  exact ⟨_, _, rfl, hm, .setConsumer⟩

theorem step_popStoreWritable {result : Option α} (h : Inv k u cs r t hole)
    (hi : u.consumer = .storeWritable pos result) : ∃ u', u.step .pop = some u' ∧
      Inv k u' cs (r + 1) t hole ∧ Consumed (.storeReadPos pos result) [.release] u u' := by
  obtain ⟨rfl, -⟩ : Pop.Fits u.producer cs t (.storeWritable pos result) := hi ▸ h.popFits
  have hm := h.popStoreWritable hi
  simp only [Users.step, hi, Users.consume, h.slot?, Option.bind_eq_bind, Option.bind_some]
  exact ⟨_, rfl, hm, .setConsumer⟩

theorem step_popStoreReadPos {result : Option α} (h : Inv k u cs r t hole)
    (hi : u.consumer = .storeReadPos pos result) : ∃ u', u.step .pop = some u' ∧
      Inv k u' cs r (t + 1) hole ∧ Consumed .idle [.popped result] u u' := by
  obtain ⟨rfl, -⟩ : Pop.Fits u.producer cs t (.storeReadPos pos result) := hi ▸ h.popFits
  have hm := h.popStoreReadPos hi
  rw [Users.step, hi, Users.consume]
  exact ⟨_, rfl, hm, .setConsumer⟩

-- A consumer that no other disturbs pops the oldest item once it has been published.
theorem popAlone (h : Inv k u cs r r hole) (hi : u.consumer = .idle)
    (hx : ∃ x, Ready u.producer cs r x) : ∃ u' result,
      (machine ι α).exec u (.replicate 5 .pop) = some u' ∧ Inv k u' cs (r + 1) (r + 1) hole ∧
        Consumed .idle [.release, .popped result] u u' := by
  obtain ⟨u₁, e₁, h₁, m₁⟩ := h.step_popIdle hi
  obtain ⟨u₂, e₂, h₂, m₂⟩ := h₁.step_popLoadSequence m₁.consumer (m₁.producer ▸ hx)
  obtain ⟨u₃, result, e₃, h₃, m₃⟩ := h₂.step_popMoveData m₂.consumer
  obtain ⟨u₄, e₄, h₄, m₄⟩ := h₃.step_popStoreWritable m₃.consumer
  obtain ⟨u₅, e₅, h₅, m₅⟩ := h₄.step_popStoreReadPos m₄.consumer
  refine ⟨u₅, result, ?_, h₅, m₁.trans <| m₂.trans <| m₃.trans <| m₄.trans m₅⟩
  refine Machine.exec_cons_eq_some_iff.mpr ⟨u₁, e₁, Machine.exec_cons_eq_some_iff.mpr ⟨u₂, e₂, ?_⟩⟩
  refine Machine.exec_cons_eq_some_iff.mpr ⟨u₃, e₃, Machine.exec_cons_eq_some_iff.mpr ⟨u₄, e₄, ?_⟩⟩
  exact Machine.exec_cons_eq_some_iff.mpr ⟨u₅, e₅, rfl⟩

end Alone

end Inv

theorem inv_start {requestedCapacity : BitVec 64} (h : requestedCapacity.toNat ≤ 2 ^ 63) :
    Inv (Nat.clog 2 (max requestedCapacity.toNat 2))
      (.start (ι := ι) (create α requestedCapacity)) [] 0 0 none := by
  have hb := tracks_create (α := α) h
  exact {
    mask     := hb.mask
    pos      := hb.pos
    le       := hb.le
    told     := rfl
    gone     := rfl
    writePos := rfl
    readPos  := rfl
    behind   := rfl
    ahead    := Nat.le_refl _
    lap      := Nat.zero_le _
    sequence := fun _ _ _ _ => nofun
    data     := fun _ _ _ _ => nofun
    free     := fun p _ hp _ => hb.free p (Nat.zero_le _) hp
    hole     := nofun
    fits     := fun _ => trivial
    popFits  := trivial }

end Cpp.RingBuffer.Steps
