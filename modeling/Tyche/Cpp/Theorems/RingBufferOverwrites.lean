import Tyche.Cpp.Theorems.RingBufferSteps

namespace Cpp.RingBuffer.Steps

variable {ι α : Type} {k n p q r t l : ℕ} {i : ι} {x y : α} {pos : BitVec 64} {hole : Option ℕ}
variable {es : List (Event ι α)}

-- The consumer has found a slot ready and has not moved on yet.
def Pop.Taking : Pop α → Prop
  | .idle           => False
  | .loadSequence _ => False
  | _               => True

instance : DecidablePred (Pop.Taking (α := α))
  | .idle | .loadSequence _                             => isFalse id
  | .moveData _ | .storeWritable .. | .storeReadPos .. => isTrue trivial

-- How many steps the consumer has left of taking an item.
def Pop.left : Pop α → ℕ
  | .moveData _       => 3
  | .storeWritable .. => 2
  | .storeReadPos ..  => 1
  | _                 => 0

theorem Pop.behind_of_not_taking {p : Pop α} (h : ¬p.Taking) : p.behind = 0 := by
  cases p
  case idle | loadSequence => rfl
  all_goals exact absurd trivial h

section Lag

variable [DecidableEq ι] {log : List (Event ι α)} {d : Option α}

theorem lag_discard : lag i (log ++ [.discard d]) = lag i log :=
  lag_other (fun _ h => by cases h) fun _ _ h => by cases h

theorem lag_release : lag i (log ++ [.release]) = lag i log :=
  lag_other (fun _ h => by cases h) fun _ _ h => by cases h

theorem lag_popped : lag i (log ++ [.popped d]) = lag i log :=
  lag_other (fun _ h => by cases h) fun _ _ h => by cases h

end Lag

namespace Inv

variable [DecidableEq ι] {u : Users ι α} {cs : List (ι × α)}

-- A producer takes the oldest item off the queue, which no consumer is taking.
theorem discard (h : Inv k u cs r r none) (hi : u.producer i = .exchangeReadPos x (.ofNat 64 r))
    (hc : ¬u.consumer.Taking) (hy : Ready u.producer cs r y) :
    Inv k ((u.setBuffer { u.buffer with readPos := .ofNat 64 r + 1 }).setProducer i
      (.storeWritable x (.ofNat 64 r)) [.discard (some y)]) cs (r + 1) (r + 1) (some r) := by
  obtain ⟨j, hy, hn⟩ := hy
  have hr := (List.getElem?_eq_some_iff.mp hy).choose
  have hl := h.lap
  have hb := Pop.behind_of_not_taking hc
  have hh (l : ι) : ((u.setProducer i (.storeWritable x (.ofNat 64 r)) [.discard (some y)]).producer
      l).holds = (u.producer l).holds :=
    Users.holds_setProducer <| by rw [hi]; rfl
  exact {
    h with
    told     := claims_append.trans <| (List.append_nil _).trans h.told
    gone     := by
      refine removed_append.trans <| (congrArg (· ++ _) h.gone).trans ?_
      rw [List.take_add_one, hy, List.map_append]
      rfl
    readPos  := ofNat_succ
    behind   := by
      change r + 1 = r + 1 + u.consumer.behind
      rw [hb]
    ahead    := hr
    lap      := by omega
    sequence := fun q l z hq hz => by
      refine (h.sequence q l z (Nat.le_of_succ_le hq) hz).trans ?_
      rw [← hh]
      rfl
    data     := fun q l z hq hz hm _ => by
      refine h.data q l z (Nat.le_of_succ_le hq) hz (fun hj => ?_) (by omega)
      have ho := hh l
      rw [hj] at ho
      by_cases hli : l = i
      case pos => rw [hli, Users.producer_setProducer_self] at ho; cases ho
      case neg => rw [Users.producer_setProducer_ne hli] at hm; exact hm hj
    free     := fun q hq hqr ho => h.free q hq (by have := ho r rfl; omega) fun _ hn => by cases hn
    hole     := fun q hq => by
      cases hq
      refine ⟨Nat.lt_succ_self r, hl, (h.sequence r j y (Nat.le_refl r) hy).trans ?_⟩
      rw [if_neg hn]
    fits     := fun l => by
      by_cases hli : l = i
      case pos => rw [hli, Users.producer_setProducer_self]; trivial
      case neg =>
        rw [Users.producer_setProducer_ne hli]
        change (u.producer l).Fits _ _ _ _ (lag l (u.log ++ [.discard _]))
        rw [lag_discard]
        refine (h.fits l).succ fun z hz => ?_
        cases hy.symm.trans hz
        exact hn
    popFits  := by
      change u.consumer.Fits _ cs (r + 1)
      cases hp : u.consumer
      case idle | loadSequence => trivial
      all_goals exact absurd (by rw [hp]; trivial) hc }

-- The producer gives the slot back that it has passed.
theorem giveBack (h : Inv k u cs r t (some q))
    (hi : u.producer i = .storeWritable x (.ofNat 64 q)) :
    Inv k ((u.setBuffer <| u.buffer.setSlot (.ofNat 64 q)
      { u.buffer.slots (q % 2 ^ k) with sequence := .ofNat 64 q + u.buffer.mask + 1 }).setProducer i
        (.loadWritePos .pushOverwrite x) []) cs r t none := by
  obtain ⟨hqr, hlq, -⟩ := h.hole q rfl
  have hrc := h.ahead
  have hh (l : ι) : ((u.setProducer i (.loadWritePos .pushOverwrite x) []).producer l).holds =
      (u.producer l).holds :=
    Users.holds_setProducer <| by rw [hi]; rfl
  have hs (p : ℕ) (hp : p % 2 ^ k ≠ q % 2 ^ k) : (u.buffer.setSlot (.ofNat 64 q)
      { u.buffer.slots (q % 2 ^ k) with sequence := .ofNat 64 q + u.buffer.mask + 1 }).slots
        (p % 2 ^ k) = u.buffer.slots (p % 2 ^ k) :=
    h.slots_setSlot_ne hp
  exact {
    h with
    told     := claims_append.trans <| (List.append_nil _).trans h.told
    gone     := removed_append.trans <| (List.append_nil _).trans h.gone
    sequence := fun p l z hp hz => by
      have hlt := (List.getElem?_eq_some_iff.mp hz).choose
      have hm : p % 2 ^ k ≠ q % 2 ^ k := mod_ne_of_ne (by omega) (by omega) (by omega)
      refine (congrArg Slot.sequence <| hs p hm).trans <| (h.sequence p l z hp hz).trans ?_
      rw [← hh]
      rfl
    data     := fun p l z hp hz hm hd => by
      have hlt := (List.getElem?_eq_some_iff.mp hz).choose
      refine (congrArg Slot.data <| hs p <| mod_ne_of_ne (by omega) (by omega) (by omega)).trans <|
        h.data p l z hp hz (fun hj => ?_) hd
      have ho := hh l
      rw [hj] at ho
      by_cases hli : l = i
      case pos => rw [hli, Users.producer_setProducer_self] at ho; cases ho
      case neg => rw [Users.producer_setProducer_ne hli] at hm; exact hm hj
    free     := fun p hp hpr _ => by
      by_cases he : p = q + 2 ^ k
      case pos =>
        rw [he, Nat.add_mod_right, next_lap_eq h.mask]
        exact congrArg Slot.sequence h.slots_setSlot_self
      case neg =>
        have hm : p % 2 ^ k ≠ (q + 2 ^ k) % 2 ^ k := mod_ne_of_ne he (by omega) (by omega)
        rw [Nat.add_mod_right] at hm
        exact (congrArg Slot.sequence <| hs p hm).trans <|
          h.free p hp hpr fun _ ho => Option.some.inj ho ▸ he
    hole     := fun _ ho => by cases ho
    fits     := fun l => by
      rw [show (Users.log _) = _ from List.append_nil u.log]
      by_cases hli : l = i
      case pos => rw [hli, Users.producer_setProducer_self]; trivial
      case neg => rw [Users.producer_setProducer_ne hli]; exact h.fits l
    popFits  := h.popFits.mono (fun _ => id) fun l _ _ hj => hh l ▸ hj }

end Inv

-- No position that uses the slot is ever claimed or removed again.
def Users.Stuck [DecidableEq ι] (n s : ℕ) (u : Users ι α) : Prop :=
  ∀ as v, (machine ι α).exec u as = some v → ∀ p, p % n = s →
    (p < (claims v.log).length → p < (claims u.log).length) ∧
      (p < (removed v.log).length → p < (removed u.log).length)

-- What is asked of a queue of `n` slots with one producer that overwrites. What leaves the queue,
-- be it popped or discarded, leaves it whole and once and in the order of the pushes. Unless only
-- the consumer is in a call, every slot can still be passed.
structure Overwritable (n : ℕ) (u : Users Unit α) : Prop where
  removed  : removed u.log <+: (claims u.log).map fun y => some y.2
  passable : (u.producer () = .idle → u.consumer = .idle) → ∀ s < n, ¬u.Stuck n s

def Action.Overwrites : Action ι α → Prop
  | .push _ kind _ => kind = .pushOverwrite
  | _              => True

-- The producer moves the read position on only while the consumer is not taking an item. The
-- consumer only finds a slot ready while it is still the oldest one.
def Users.Apart (u : Users Unit α) : Action Unit α → Prop
  | .push ..  => True
  | .next _ _ =>
    match u.producer () with
    | .exchangeReadPos _ rpos => u.buffer.readPos = rpos → ¬u.consumer.Taking
    | _                       => True
  | .pop      =>
    match u.consumer with
    | .loadSequence pos => u.buffer.readPos = pos ∨
      ∀ slot ∈ u.buffer.slot? pos, slot.sequence ≠ pos + 1
    | _                 => True

instance : DecidablePred (Action.Overwrites (ι := ι) (α := α))
  | .push _ kind _  => inferInstanceAs <| Decidable (kind = .pushOverwrite)
  | .next .. | .pop => isTrue trivial

instance {u : Users Unit α} : ∀ a, Decidable (u.Apart a)
  | .push ..  => isTrue trivial
  | .next _ _ =>
    match h : u.producer () with
    | .exchangeReadPos _ rpos =>
      decidable_of_iff (u.buffer.readPos = rpos → ¬u.consumer.Taking) <| by rw [Users.Apart, h]
    | .idle | .loadWritePos .. | .loadSequence .. | .exchange .. | .moveData .. | .storeSequence ..
    | .loadReadPos _ | .loadOldest .. | .storeWritable .. =>
      isTrue <| by rw [Users.Apart, h]; trivial
  | .pop      =>
    match h : u.consumer with
    | .loadSequence pos =>
      decidable_of_iff (u.buffer.readPos = pos ∨ ∀ slot ∈ u.buffer.slot? pos,
        slot.sequence ≠ pos + 1) <| by rw [Users.Apart, h]
    | .idle | .moveData _ | .storeWritable .. | .storeReadPos .. =>
      isTrue <| by rw [Users.Apart, h]; trivial

-- What the producer has read and passed, besides what fits the counters.
def Point.Owns (cs : List (Unit × α)) (t n lag : ℕ) (hole : Option ℕ) : Point α → Prop
  | .loadWritePos kind _    => kind = .pushOverwrite ∧ hole = none
  | .loadSequence kind _ _  => kind = .pushOverwrite ∧ lag = 0 ∧ hole = none
  | .exchange kind _ _      => kind = .pushOverwrite ∧ lag = 0 ∧ hole = none
  | .loadOldest _ rpos      =>
    (∃ q, rpos = .ofNat 64 q ∧ q ≤ t ∧ cs.length ≤ q + 1 + n) ∧ hole = none
  | .exchangeReadPos _ rpos =>
    (∃ q, rpos = .ofNat 64 q ∧ q ≤ t ∧ cs.length ≤ q + 1 + n ∧ q < cs.length) ∧ hole = none
  | .storeWritable _ rpos   => ∃ q, rpos = .ofNat 64 q ∧ hole = some q
  | _                       => hole = none

theorem Point.Owns.mono {cs : List (Unit × α)} {t' : ℕ} {p : Point α} (h : p.Owns cs t n l hole)
    (ht : t ≤ t') : p.Owns cs t' n l hole := by
  cases p
  case loadOldest      =>
    obtain ⟨⟨q, hp, hq, hl⟩, ho⟩ := h
    exact ⟨⟨q, hp, hq.trans ht, hl⟩, ho⟩
  case exchangeReadPos =>
    obtain ⟨⟨q, hp, hq, hl⟩, ho⟩ := h
    exact ⟨⟨q, hp, hq.trans ht, hl⟩, ho⟩
  all_goals exact h

-- How many steps the producer is at most from claiming a position, if the consumer stays where it
-- is. A position that it has read may be an old one, and after it there may be no room.
def Point.rank (room : Bool) (readPos : BitVec 64) : Point α → ℕ
  | .moveData ..            => 15
  | .storeSequence ..       => 14
  | .idle                   => 13
  | .loadOldest _ rpos      => if rpos = readPos then 7 else 12
  | .exchangeReadPos _ rpos => if rpos = readPos then 6 else 11
  | .loadWritePos ..        => if room then 4 else 10
  | .loadSequence ..        => if room then 3 else 9
  | .loadReadPos _          => 8
  | .storeWritable ..       => 5
  | .exchange ..            => 2

structure Owned (k : ℕ) (u : Users Unit α) (cs : List (Unit × α)) (r t : ℕ) (hole : Option ℕ) :
    Prop where
  inv  : Inv k u cs r t hole
  owns : (u.producer ()).Owns cs t (2 ^ k) (lag () u.log) hole

namespace Owned

variable {u u' : Users Unit α} {cs cs' : List (Unit × α)} {r' t' : ℕ} {hole' : Option ℕ}
variable {a : Action Unit α} {p : Point α} {events : List (Event Unit α)} {kind : Push} {s : Bool}

def rank (k : ℕ) (u : Users Unit α) (cs : List (Unit × α)) (r : ℕ) : ℕ :=
  (u.producer ()).rank (cs.length < r + 2 ^ k) u.buffer.readPos

-- A step that does not fail spuriously brings the producer nearer to claiming a position.
def Nearer (k : ℕ) (u u' : Users Unit α) (cs cs' : List (Unit × α)) (r r' : ℕ) : Prop :=
  cs'.length = cs.length + 1 ∨ cs'.length = cs.length ∧ rank k u' cs' r' < rank k u cs r

structure Next (k : ℕ) (s : Bool) (u u' : Users Unit α) (cs cs' : List (Unit × α)) (r r' t' : ℕ)
    (hole' : Option ℕ) : Prop where
  step     : u.step (.next () s) = some u'
  owned    : Owned k u' cs' r' t' hole'
  consumer : u'.consumer = u.consumer
  nearer   : s = false → ¬u.consumer.Taking → Nearer k u u' cs cs' r r'

def Goes (k : ℕ) (s : Bool) (u : Users Unit α) (cs : List (Unit × α)) (r : ℕ) : Prop :=
  ∃ u' cs' r' t' hole', Next k s u u' cs cs' r r' t' hole'

-- The producer goes on without having changed the buffer.
theorem goOn (h : Inv k u cs r t none) (he : Quiet events) (hp : (u.producer ()).holds = none)
    (hq : p.holds = none) (hf : p.Fits cs r (2 ^ k) () (lag () (u.log ++ events)))
    (ho : p.Owns cs t (2 ^ k) (lag () (u.log ++ events)) none) :
    Owned k (u.setProducer () p events) cs r t none where
  inv  := h.setProducer he hp hq hf fun _ hj => absurd rfl hj
  owns := by
    rw [Users.producer_setProducer_self]
    exact ho

theorem nearer_goOn (hr : p.rank (cs.length < r + 2 ^ k) u.buffer.readPos <
    (u.producer ()).rank (cs.length < r + 2 ^ k) u.buffer.readPos) :
    Nearer k u (u.setProducer () p events) cs cs r r := by
  refine .inr ⟨rfl, ?_⟩
  rw [rank, Users.producer_setProducer_self]
  exact hr

-- The producer has loaded the write position.
theorem goOn_load (h : Inv k u cs r t none) (hp : (u.producer ()).holds = none) :
    Owned k (u.setProducer () (.loadSequence .pushOverwrite x u.buffer.writePos) [.load ()]) cs r t
      none := by
  have hl : lag () (u.log ++ [.load ()]) = 0 := lag_load.trans <| if_pos rfl
  refine goOn h ⟨rfl, rfl⟩ hp rfl ⟨cs.length, h.writePos, ?_⟩ ⟨rfl, hl, rfl⟩
  rw [hl]
  rfl

-- An item whose slot was not given back is ready, unless its producer holds the slot.
theorem ready (hp : (u.producer ()).holds = none) (hr : r < cs.length) :
    Ready u.producer cs r cs[r].2 :=
  ⟨(), List.getElem?_eq_getElem hr, by rw [hp]; simp⟩

theorem next_loadWritePos (h : Owned k u cs r t hole) (hp : u.producer () = .loadWritePos kind x) :
    Goes k s u cs r := by
  obtain ⟨rfl, rfl⟩ : kind = .pushOverwrite ∧ hole = none := by
    have ho := h.owns
    rwa [hp] at ho
  refine ⟨_, cs, r, t, none, ?_, goOn_load (x := x) h.inv (by rw [hp]; rfl), rfl,
    fun _ _ => nearer_goOn ?_⟩
  case refine_1 => rw [Users.step, hp]; rfl
  case refine_2 =>
    rw [hp, Point.rank, Point.rank]
    split <;> omega

theorem next_loadSequence (h : Owned k u cs r t hole)
    (hp : u.producer () = .loadSequence kind x pos) : Goes k s u cs r := by
  obtain ⟨rfl, hl, rfl⟩ : kind = .pushOverwrite ∧ lag () u.log = 0 ∧ hole = none := by
    have ho := h.owns
    rwa [hp] at ho
  obtain ⟨q, rfl, hq⟩ : ∃ q, pos = .ofNat 64 q ∧ q + lag () u.log = cs.length := by
    have hf := h.inv.fits ()
    rwa [hp] at hf
  obtain rfl : q = cs.length := by omega
  have hn : (u.producer ()).holds = none := by rw [hp]; rfl
  have ⟨h₂, h₆₃⟩ := h.inv.pow_le
  have hlap := h.inv.lap
  have hl' : lag () (u.log ++ []) = 0 := by rw [List.append_nil, hl]
  by_cases hr : cs.length < r + 2 ^ k
  case pos =>
    have hs := h.inv.free cs.length (Nat.le_refl _) hr fun _ ho => by cases ho
    refine ⟨u.setProducer () (.exchange .pushOverwrite x (.ofNat 64 cs.length)) [], cs, r, t, none,
      ?_, ?_, rfl, fun _ _ => nearer_goOn ?_⟩
    case refine_1 =>
      simp only [Users.step, hp, Users.run, h.inv.slot?, Option.bind_eq_bind, Option.bind_some, hs,
        sub_toInt_eq_zero_iff, if_true]
    case refine_2 =>
      refine goOn h.inv quiet_nil hn rfl ⟨cs.length, rfl, ?_, hr⟩ ⟨rfl, hl', rfl⟩
      rw [hl']
      rfl
    case refine_3 => rw [hp, Point.rank, Point.rank, if_pos (decide_eq_true hr)]; decide
  case neg =>
    obtain ⟨y, hy⟩ : ∃ y, cs[r]? = some y := ⟨_, List.getElem?_eq_getElem (by omega)⟩
    have hs := h.inv.sequence r () y.2 (Nat.le_refl r) hy
    rw [if_neg <| by rw [hn]; simp] at hs
    have hc : cs.length = r + 2 ^ k := by omega
    have hd : (BitVec.ofNat 64 (r + 1) - BitVec.ofNat 64 (r + 2 ^ k)).toInt = 1 - 2 ^ k := by
      rw [sub_toInt_eq (by omega) (by omega)]
      push_cast
      omega
    have hz : ¬(1 - 2 ^ k : ℤ) = 0 ∧ (1 - 2 ^ k : ℤ) < 0 := by
      have : (2 : ℤ) ≤ 2 ^ k := by exact_mod_cast h₂
      omega
    refine ⟨u.setProducer () (.loadReadPos x) [], cs, r, t, none, ?_, ?_, rfl,
      fun _ _ => nearer_goOn ?_⟩
    case refine_1 =>
      simp only [Users.step, hp, Users.run, h.inv.slot?, Option.bind_eq_bind, Option.bind_some]
      rw [hc, Nat.add_mod_right, hs, hd, if_neg hz.left, if_pos hz.right]
      rfl
    case refine_2 => exact goOn h.inv quiet_nil hn rfl trivial rfl
    case refine_3 =>
      rw [hp, Point.rank, Point.rank, if_neg (by rw [decide_eq_true_eq]; exact hr)]
      decide

theorem next_exchange (h : Owned k u cs r t hole) (hp : u.producer () = .exchange kind x pos) :
    Goes k s u cs r := by
  obtain ⟨rfl, hl, rfl⟩ : kind = .pushOverwrite ∧ lag () u.log = 0 ∧ hole = none := by
    have ho := h.owns
    rwa [hp] at ho
  obtain ⟨q, rfl, hq, hr⟩ : ∃ q, pos = .ofNat 64 q ∧ q + lag () u.log = cs.length ∧
      q < r + 2 ^ k := by
    have hf := h.inv.fits ()
    rwa [hp] at hf
  obtain rfl : q = cs.length := by omega
  cases s
  case false =>
    have hi := h.inv.claim hp h.inv.writePos (by omega)
    refine ⟨_, cs ++ [((), x)], r, t, none, ?_, ⟨hi, ?_⟩, rfl, fun _ _ => .inl List.length_append⟩
    case refine_1 => rw [Users.step, hp, Users.run, if_pos ⟨h.inv.writePos, rfl⟩]
    case refine_2 => rw [Users.producer_setProducer_self]; rfl
  case true  =>
    refine ⟨_, cs, r, t, none, ?_, goOn_load (x := x) h.inv (by rw [hp]; rfl), rfl,
      fun hs => by cases hs⟩
    rw [Users.step, hp, Users.run, if_neg fun he => by cases he.right]

theorem next_moveData (h : Owned k u cs r t hole) (hp : u.producer () = .moveData x pos) :
    Goes k s u cs r := by
  obtain rfl : hole = none := by
    have ho := h.owns
    rwa [hp] at ho
  obtain ⟨q, hr, rfl, hy⟩ : ∃ q, r ≤ q ∧ pos = .ofNat 64 q ∧ cs[q]? = some ((), x) := by
    have hf := h.inv.fits ()
    rwa [hp] at hf
  have hm := h.inv.moveData hp hr hy
  refine ⟨_, cs, r, t, none, ?_, ⟨hm, ?_⟩, rfl, fun _ _ => .inr ⟨rfl, ?_⟩⟩
  case refine_1 =>
    simp only [Users.step, hp, Users.run, h.inv.slot?, Option.bind_eq_bind, Option.bind_some]
  case refine_2 => rw [Users.producer_setProducer_self]; rfl
  case refine_3 => rw [rank, rank, Users.producer_setProducer_self, hp]; exact Nat.lt_succ_self 14

theorem next_storeSequence (h : Owned k u cs r t hole) (hp : u.producer () = .storeSequence x pos) :
    Goes k s u cs r := by
  obtain rfl : hole = none := by
    have ho := h.owns
    rwa [hp] at ho
  obtain ⟨q, hr, rfl, hy⟩ : ∃ q, r ≤ q ∧ pos = .ofNat 64 q ∧ cs[q]? = some ((), x) := by
    have hf := h.inv.fits ()
    rwa [hp] at hf
  have hm := h.inv.storeSequence hp hr hy
  refine ⟨_, cs, r, t, none, ?_, ⟨hm, ?_⟩, rfl, fun _ _ => .inr ⟨rfl, ?_⟩⟩
  case refine_1 =>
    simp only [Users.step, hp, Users.run, h.inv.slot?, Option.bind_eq_bind, Option.bind_some]
  case refine_2 => rw [Users.producer_setProducer_self]; rfl
  case refine_3 => rw [rank, rank, Users.producer_setProducer_self, hp]; exact Nat.lt_succ_self 13

theorem next_loadReadPos (h : Owned k u cs r t hole) (hp : u.producer () = .loadReadPos x) :
    Goes k s u cs r := by
  obtain rfl : hole = none := by
    have ho := h.owns
    rwa [hp] at ho
  have hlap := h.inv.lap
  have hb := h.inv.behind
  have hle := u.consumer.behind_le
  refine ⟨u.setProducer () (.loadOldest x u.buffer.readPos) [], cs, r, t, none, ?_, ?_, rfl,
    fun _ _ => nearer_goOn ?_⟩
  case refine_1 => rw [Users.step, hp]; rfl
  case refine_2 =>
    refine goOn h.inv quiet_nil (by rw [hp]; rfl) rfl trivial ⟨⟨t, h.inv.readPos, ?_⟩, rfl⟩
    exact ⟨Nat.le_refl t, by omega⟩
  case refine_3 => rw [hp, Point.rank, Point.rank, if_pos rfl]; decide

theorem next_loadOldest {rpos : BitVec 64} (h : Owned k u cs r t hole)
    (hp : u.producer () = .loadOldest x rpos) : Goes k s u cs r := by
  obtain ⟨⟨q, rfl, hq, hl⟩, rfl⟩ : (∃ q, rpos = .ofNat 64 q ∧ q ≤ t ∧ cs.length ≤ q + 1 + 2 ^ k) ∧
      hole = none := by
    have ho := h.owns
    rwa [hp] at ho
  have hn : (u.producer ()).holds = none := by rw [hp]; rfl
  have ⟨h₂, h₆₃⟩ := h.inv.pow_le
  have hrc := h.inv.ahead
  have hb := h.inv.behind
  by_cases hs : (u.buffer.slots (q % 2 ^ k)).sequence = .ofNat 64 (q + 1)
  case pos =>
    refine ⟨u.setProducer () (.exchangeReadPos x (.ofNat 64 q)) [], cs, r, t, none, ?_, ?_, rfl,
      fun _ _ => nearer_goOn ?_⟩
    case refine_1 =>
      simp only [Users.step, hp, Users.run, h.inv.slot?, Option.bind_eq_bind, Option.bind_some,
        ofNat_succ, sub_toInt_eq_zero_iff, hs, if_true]
    case refine_2 =>
      refine goOn h.inv quiet_nil hn rfl trivial ⟨⟨q, rfl, hq, hl, ?_⟩, rfl⟩
      by_contra hc
      obtain rfl : q = cs.length := by omega
      rw [h.inv.free _ (Nat.le_refl _) (by omega) fun _ ho => by cases ho] at hs
      have := ofNat_inj hs (by omega) (by omega)
      omega
    case refine_3 =>
      rw [hp, Point.rank, Point.rank]
      split <;> omega
  case neg =>
    refine ⟨u.setProducer () (.loadWritePos .pushOverwrite x) [], cs, r, t, none, ?_, ?_, rfl,
      fun _ hc => nearer_goOn ?_⟩
    case refine_1 =>
      simp only [Users.step, hp, Users.run, h.inv.slot?, Option.bind_eq_bind, Option.bind_some,
        ofNat_succ, sub_toInt_eq_zero_iff, hs, if_false]
    case refine_2 => exact goOn h.inv quiet_nil hn rfl trivial ⟨rfl, rfl⟩
    case refine_3 =>
      rw [hp, Point.rank, Point.rank, h.inv.readPos]
      rw [Pop.behind_of_not_taking hc] at hb
      obtain rfl : r = t := hb
      by_cases he : q = r
      case pos =>
        subst he
        -- A position that was read a moment ago and is not ready has not been claimed.
        have hrq : ¬q < cs.length := fun hlt => hs <| h.inv.ready_iff.mpr ⟨_, ready hn hlt⟩
        rw [if_pos rfl, if_pos (decide_eq_true (by omega))]
        decide
      case neg =>
        rw [if_neg fun hqr => he <| ofNat_inj hqr (by omega) (by omega)]
        split <;> omega

theorem next_exchangeReadPos {rpos : BitVec 64} (h : Owned k u cs r t hole)
    (hp : u.producer () = .exchangeReadPos x rpos)
    (hc : u.buffer.readPos = rpos → ¬u.consumer.Taking) :
    Goes k s u cs r := by
  obtain ⟨⟨q, rfl, hq, hl, hlt⟩, rfl⟩ : (∃ q, rpos = .ofNat 64 q ∧ q ≤ t ∧
      cs.length ≤ q + 1 + 2 ^ k ∧ q < cs.length) ∧ hole = none := by
    have ho := h.owns
    rwa [hp] at ho
  have hn : (u.producer ()).holds = none := by rw [hp]; rfl
  have ⟨h₂, h₆₃⟩ := h.inv.pow_le
  have hrc := h.inv.ahead
  have hb := h.inv.behind
  by_cases he : u.buffer.readPos = .ofNat 64 q
  case pos =>
    have ht := hc he
    rw [Pop.behind_of_not_taking ht] at hb
    obtain rfl : r = t := hb
    obtain rfl : r = q := ofNat_inj (h.inv.readPos.symm.trans he) (by omega) (by omega)
    have hy := ready hn hlt
    have hd : (u.buffer.slots (r % 2 ^ k)).data = some cs[r].2 := by
      refine h.inv.data r () _ (Nat.le_refl r) (List.getElem?_eq_getElem hlt) ?_ fun _ hm => ?_
      case refine_1 => rw [hp]; simp
      case refine_2 =>
        cases hcp : u.consumer
        case storeWritable => rw [hcp] at ht; exact ht trivial
        all_goals rw [hcp] at hm; exact hm
    have hi := h.inv.discard hp ht hy
    refine ⟨_, cs, r + 1, r + 1, some r, ?_, ⟨hi, ?_⟩, rfl, fun _ _ => .inr ⟨rfl, ?_⟩⟩
    case refine_1 =>
      rw [Users.step, hp, Users.run, if_pos he, h.inv.slot?, Option.bind_some, hd]
    case refine_2 =>
      rw [Users.producer_setProducer_self]
      exact ⟨r, rfl, rfl⟩
    case refine_3 =>
      rw [rank, rank, Users.producer_setProducer_self, hp, Point.rank, Point.rank, if_pos he.symm]
      decide
  case neg =>
    refine ⟨u.setProducer () (.loadWritePos .pushOverwrite x) [], cs, r, t, none, ?_, ?_, rfl,
      fun _ _ => nearer_goOn ?_⟩
    case refine_1 =>
      rw [Users.step, hp, Users.run, if_neg he]
    case refine_2 => exact goOn h.inv quiet_nil hn rfl trivial ⟨rfl, rfl⟩
    case refine_3 =>
      rw [hp, Point.rank, Point.rank, if_neg (Ne.symm he)]
      split <;> omega

theorem next_storeWritable {rpos : BitVec 64} (h : Owned k u cs r t hole)
    (hp : u.producer () = .storeWritable x rpos) : Goes k s u cs r := by
  obtain ⟨q, rfl, rfl⟩ : ∃ q, rpos = .ofNat 64 q ∧ hole = some q := by
    have ho := h.owns
    rwa [hp] at ho
  obtain ⟨hq, hl, -⟩ := h.inv.hole q rfl
  have hi := h.inv.giveBack hp
  refine ⟨_, cs, r, t, none, ?_, ⟨hi, ?_⟩, rfl, fun _ _ => .inr ⟨rfl, ?_⟩⟩
  case refine_1 =>
    simp only [Users.step, hp, Users.run, h.inv.slot?, Option.bind_eq_bind, Option.bind_some]
  case refine_2 =>
    rw [Users.producer_setProducer_self]
    exact ⟨rfl, rfl⟩
  case refine_3 =>
    rw [rank, rank, Users.producer_setProducer_self, hp, Point.rank, Point.rank,
      if_pos (decide_eq_true (by omega))]
    decide

-- The producer always has a step.
theorem next (h : Owned k u cs r t hole) (hi : u.producer () ≠ .idle) (hc : u.Apart (.next () s)) :
    Goes k s u cs r := by
  cases hp : u.producer ()
  case idle            => exact absurd hp hi
  case loadWritePos    => exact h.next_loadWritePos hp
  case loadSequence    => exact h.next_loadSequence hp
  case exchange        => exact h.next_exchange hp
  case moveData        => exact h.next_moveData hp
  case storeSequence   => exact h.next_storeSequence hp
  case loadReadPos     => exact h.next_loadReadPos hp
  case loadOldest      => exact h.next_loadOldest hp
  case exchangeReadPos =>
    rw [Users.Apart, hp] at hc
    exact h.next_exchangeReadPos hp hc
  case storeWritable   => exact h.next_storeWritable hp

theorem push (h : Owned k u cs r t hole) (hi : u.producer () = .idle) :
    Owned k (u.setProducer () (.loadWritePos .pushOverwrite x) [.enter () x]) cs r t none := by
  obtain rfl : hole = none := by
    have ho := h.owns
    rwa [hi] at ho
  exact goOn h.inv ⟨rfl, rfl⟩ (by rw [hi]; rfl) rfl trivial ⟨rfl, rfl⟩

theorem consumed {c : Pop α} (h : Owned k u cs r t hole) (hi : Inv k u' cs r' t' hole)
    (hm : Consumed c events u u') (ht : t ≤ t') (hl : lag () (u.log ++ events) = lag () u.log) :
    Owned k u' cs r' t' hole where
  inv  := hi
  owns := by
    rw [hm.producer, hm.log, hl]
    exact h.owns.mono ht

-- The consumer always has a step.
theorem pop (h : Owned k u cs r t hole) (hc : u.Apart .pop) : ∃ u' r' t', u.step .pop = some u' ∧
    Owned k u' cs r' t' hole ∧ (u.consumer.Taking → u'.consumer.left < u.consumer.left) := by
  cases hp : u.consumer
  case idle =>
    obtain ⟨u', e, hi, hm⟩ := h.inv.step_popIdle hp
    exact ⟨u', r, t, e, h.consumed hi hm (Nat.le_refl t) <| by rw [List.append_nil], False.elim⟩
  case loadSequence pos =>
    obtain ⟨q, rfl⟩ : ∃ q, pos = .ofNat 64 q := ⟨pos.toNat, by simp⟩
    rw [Users.Apart, hp] at hc
    by_cases hs : (u.buffer.slots (q % 2 ^ k)).sequence = .ofNat 64 q + 1
    case pos =>
      have hq : BitVec.ofNat 64 q = .ofNat 64 t :=
        (hc.resolve_right fun hn => hn _ (h.inv.slot? q) hs).symm.trans h.inv.readPos
      obtain rfl : r = t := by rw [h.inv.behind, hp]; rfl
      have hr : (u.buffer.slots (r % 2 ^ k)).sequence = .ofNat 64 (r + 1) := by
        have hq' : some (u.buffer.slots (q % 2 ^ k)) = some (u.buffer.slots (r % 2 ^ k)) := by
          rw [← h.inv.slot?, ← h.inv.slot?, hq]
        rw [← Option.some.inj hq', hs, hq, ofNat_succ]
      rw [hq] at hp
      obtain ⟨u', e, hi, hm⟩ := h.inv.step_popLoadSequence hp <| h.inv.ready_iff.mp hr
      exact ⟨u', r, r, e, h.consumed hi hm (Nat.le_refl r) <| by rw [List.append_nil], False.elim⟩
    case neg =>
      refine ⟨u.setConsumer .idle [.nothing], r, t, ?_, ?_, False.elim⟩
      case refine_1 =>
        simp only [Users.step, hp, Users.consume, h.inv.slot?, Option.bind_eq_bind,
          Option.bind_some, sub_toInt_eq_zero_iff, hs, if_false]
      case refine_2 =>
        refine h.consumed ?_ ⟨rfl, rfl, rfl⟩ (Nat.le_refl t) lag_nothing
        exact h.inv.setConsumer ⟨rfl, rfl⟩ (by rw [hp]; rfl) (by rw [hp]; exact id) trivial
          fun _ => lag_nothing
  case moveData pos =>
    obtain ⟨u', result, e, hi, hm⟩ := h.inv.step_popMoveData hp
    refine ⟨u', r, t, e, h.consumed hi hm (Nat.le_refl t) <| by rw [List.append_nil], fun _ => ?_⟩
    rw [hm.consumer]
    exact Nat.lt_succ_self 2
  case storeWritable pos result =>
    obtain ⟨u', e, hi, hm⟩ := h.inv.step_popStoreWritable hp
    refine ⟨u', r + 1, t, e, h.consumed hi hm (Nat.le_refl t) lag_release, fun _ => ?_⟩
    rw [hm.consumer]
    exact Nat.lt_succ_self 1
  case storeReadPos pos result =>
    obtain ⟨u', e, hi, hm⟩ := h.inv.step_popStoreReadPos hp
    refine ⟨u', r, t + 1, e, h.consumed hi hm (Nat.le_succ t) lag_popped, fun _ => ?_⟩
    rw [hm.consumer]
    exact Nat.lt_succ_self 0

-- The consumer takes the item that it is taking.
theorem settle (h : Owned k u cs r t hole) : ∃ as v r' t', (machine Unit α).exec u as = some v ∧
    Owned k v cs r' t' hole ∧ ¬v.consumer.Taking := by
  induction hn : u.consumer.left using Nat.strong_induction_on generalizing u r t
  case h n ih =>
    by_cases hc : u.consumer.Taking
    case neg => exact ⟨[], u, r, t, rfl, h, hc⟩
    case pos =>
      have ha : u.Apart .pop := by
        rw [Users.Apart]
        split
        case h_1 hp => rw [hp] at hc; exact hc.elim
        case h_2    => trivial
      obtain ⟨u₁, r₁, t₁, e₁, h₁, hl⟩ := h.pop ha
      obtain ⟨as, v, r', t', e, hv⟩ := ih _ (hn ▸ hl hc) h₁ rfl
      exact ⟨.pop :: as, v, r', t', Machine.exec_cons_eq_some_iff.mpr ⟨u₁, e₁, e⟩, hv⟩

-- The producer claims another position while the consumer stays where it is.
theorem advance (h : Owned k u cs r t hole) (hc : ¬u.consumer.Taking) (x : α) :
    ∃ as v cs' r' t' hole', (machine Unit α).exec u as = some v ∧ Owned k v cs' r' t' hole' ∧
      ¬v.consumer.Taking ∧ cs'.length = cs.length + 1 := by
  induction hn : rank k u cs r using Nat.strong_induction_on generalizing u cs r t hole
  case h n ih =>
    by_cases hi : u.producer () = .idle
    case pos =>
      have hr : rank k (u.setProducer () (.loadWritePos .pushOverwrite x) [.enter () x]) cs r <
          n := by
        rw [← hn, rank, rank, Users.producer_setProducer_self, hi, Point.rank, Point.rank]
        split <;> omega
      obtain ⟨as, v, cs', r', t', hole', e, hv⟩ := ih _ hr (h.push hi) hc rfl
      exact ⟨.push () .pushOverwrite x :: as, v, cs', r', t', hole',
        Machine.exec_cons_eq_some_iff.mpr ⟨_, Users.step_push hi, e⟩, hv⟩
    case neg =>
      have ha : u.Apart (.next () false) := by
        rw [Users.Apart]
        split
        case h_1 => exact fun _ => hc
        case h_2 => trivial
      obtain ⟨u₁, cs₁, r₁, t₁, hole₁, h₁⟩ := h.next hi ha
      rcases h₁.nearer rfl hc with hl | ⟨hl, hr⟩
      case inl =>
        exact ⟨[.next () false], u₁, cs₁, r₁, t₁, hole₁,
          Machine.exec_cons_eq_some_iff.mpr ⟨u₁, h₁.step, rfl⟩, h₁.owned, h₁.consumer ▸ hc, hl⟩
      case inr =>
        obtain ⟨as, v, cs', r', t', hole', e, hv⟩ := ih _ (hn ▸ hr) h₁.owned (h₁.consumer ▸ hc) rfl
        rw [hl] at hv
        exact ⟨.next () false :: as, v, cs', r', t', hole',
          Machine.exec_cons_eq_some_iff.mpr ⟨u₁, h₁.step, e⟩, hv⟩

theorem advances (h : Owned k u cs r t hole) (hc : ¬u.consumer.Taking) (x : α) (m : ℕ) :
    ∃ as v cs' r' t' hole', (machine Unit α).exec u as = some v ∧ Owned k v cs' r' t' hole' ∧
      cs'.length = cs.length + m := by
  induction m generalizing u cs r t hole
  case zero      => exact ⟨[], u, cs, r, t, hole, rfl, h, rfl⟩
  case succ m hm =>
    obtain ⟨as, u₁, cs₁, r₁, t₁, hole₁, e₁, h₁, hc₁, hl⟩ := h.advance hc x
    obtain ⟨bs, v, cs', r', t', hole', e, hv, hl'⟩ := hm h₁ hc₁
    refine ⟨as ++ bs, v, cs', r', t', hole', ?_, hv, by omega⟩
    rw [Machine.exec_append, e₁, Option.bind_some, e]

theorem not_stuck [Nonempty α] {s : ℕ} (h : Owned k u cs r t hole) (hs : s < 2 ^ k) :
    ¬u.Stuck (2 ^ k) s := by
  intro hst
  obtain ⟨x⟩ := ‹Nonempty α›
  obtain ⟨as, u₁, r₁, t₁, e₁, h₁, hc⟩ := h.settle
  obtain ⟨bs, v, cs', r', t', hole', e, hv, hl⟩ := h₁.advances hc x (2 ^ k)
  obtain ⟨p, hp, hlt, hm⟩ := exists_lap cs.length s (Nat.two_pow_pos k)
  have he : (machine Unit α).exec u (as ++ bs) = some v := by
    rw [Machine.exec_append, e₁, Option.bind_some, e]
  have hc := (hst (as ++ bs) v he p <| hm.trans <| Nat.mod_eq_of_lt hs).left
  rw [hv.inv.told, h.inv.told] at hc
  omega

theorem overwritable [Nonempty α] (h : Owned k u cs r t hole) : Overwritable (2 ^ k) u where
  removed      := by
    rw [h.inv.gone, h.inv.told]
    exact (List.take_prefix _ _).map _
  passable _ _ := h.not_stuck

theorem step (h : Owned k u cs r t hole) (ho : a.Overwrites) (hc : u.Apart a)
    (e : (machine Unit α).step u a = some u') : ∃ cs' r' t' hole', Owned k u' cs' r' t' hole' := by
  cases a
  case push i kind x =>
    obtain rfl : kind = .pushOverwrite := ho
    by_cases hi : u.producer () = .idle
    case pos =>
      cases (Users.step_push hi).symm.trans e
      exact ⟨cs, r, t, none, h.push hi⟩
    case neg =>
      change u.step (.push () .pushOverwrite x) = some u' at e
      rw [Users.step] at e
      split at e
      case h_1 hp => exact absurd hp hi
      case h_2    => cases e
  case next i s =>
    by_cases hi : u.producer () = .idle
    case pos =>
      simp only [Users.step, hi, Users.run, reduceCtorEq] at e
    case neg =>
      obtain ⟨v, cs', r', t', hole', hv⟩ := h.next hi hc
      cases hv.step.symm.trans e
      exact ⟨cs', r', t', hole', hv.owned⟩
  case pop =>
    obtain ⟨v, r', t', hv, h', -⟩ := h.pop hc
    cases hv.symm.trans e
    exact ⟨cs, r', t', hole, h'⟩

end Owned

-- With one producer that overwrites, items leave the queue once and in order, and the queue never
-- gets stuck, as long as the two threads do not take the same item.
theorem always_overwritable [Nonempty α] {requestedCapacity : BitVec 64}
    (h : requestedCapacity.toNat ≤ 2 ^ 63) {as : List (Action Unit α)}
    (ho : ∀ a ∈ as, a.Overwrites)
    (hc : (machine Unit α).Along Users.Apart (.start <| create α requestedCapacity) as) :
    (machine Unit α).Always (Overwritable (capacity requestedCapacity).toNat)
      (.start <| create α requestedCapacity) as := by
  obtain ⟨k, hk⟩ : ∃ k, k = Nat.clog 2 (max requestedCapacity.toNat 2) := ⟨_, rfl⟩
  have hs : Owned k (.start <| create α requestedCapacity) [] 0 0 none :=
    ⟨hk ▸ inv_start h, rfl⟩
  have ha : (machine Unit α).Always (fun u => ∃ cs r t hole, Owned k u cs r t hole)
      (.start <| create α requestedCapacity) as :=
    Machine.always_of_step (fun _ _ _ ⟨_, _, _, _, h⟩ hc e => h.step hc.left hc.right e)
      ⟨_, _, _, _, hs⟩ ((Machine.along_of_forall ho).and hc)
  rw [toNat_capacity h, bound, ← hk]
  exact ha.mono fun _ ⟨_, _, _, _, h⟩ => h.overwritable

-- The queue looks full, and its oldest item is never ready.
def Jammed (b : Buffer α) : Prop :=
  ∃ slot, b.slot? b.readPos = some slot ∧ slot.sequence ≠ b.readPos + 1 ∧
    b.slot? b.writePos = some slot ∧ (slot.sequence - b.writePos).toInt < 0

-- Where a producer can be that gets nowhere.
def Point.Loops (b : Buffer α) : Point α → Prop
  | .idle                   => True
  | .loadWritePos ..        => True
  | .loadSequence _ _ pos   => pos = b.writePos
  | .loadReadPos _          => True
  | .loadOldest _ rpos      => rpos = b.readPos
  | _                       => False

structure Frozen (b : Buffer α) (cs : List (Unit × α)) (ds : List (Option α)) (u : Users Unit α) :
    Prop where
  buffer   : u.buffer = b
  claims   : claims u.log = cs
  removed  : removed u.log = ds
  consumer : u.consumer = .idle ∨ u.consumer = .loadSequence b.readPos
  producer : (u.producer ()).Loops b

namespace Frozen

variable {b : Buffer α} {cs : List (Unit × α)} {ds : List (Option α)} {u u' : Users Unit α}
variable {a : Action Unit α} {as : List (Action Unit α)} {events : List (Event Unit α)}

theorem setProducer {p : Point α} (h : Frozen b cs ds u) (hp : p.Loops b) (he : Quiet events) :
    Frozen b cs ds (u.setProducer () p events) where
  buffer   := h.buffer
  claims   := claims_append.trans <| by rw [h.claims, he.claims, List.append_nil]
  removed  := removed_append.trans <| by rw [h.removed, he.removed, List.append_nil]
  consumer := h.consumer
  producer := by
    rw [Users.producer_setProducer_self]
    exact hp

theorem setConsumer {c : Pop α} (h : Frozen b cs ds u)
    (hc : c = .idle ∨ c = .loadSequence b.readPos) (he : Quiet events) :
    Frozen b cs ds (u.setConsumer c events) where
  buffer   := h.buffer
  claims   := claims_append.trans <| by rw [h.claims, he.claims, List.append_nil]
  removed  := removed_append.trans <| by rw [h.removed, he.removed, List.append_nil]
  consumer := hc
  producer := h.producer

theorem next {s : Bool} (hb : Jammed b) (h : Frozen b cs ds u)
    (e : u.run () s (u.producer ()) = some u') : Frozen b cs ds u' := by
  obtain ⟨slot, hr, hn, hw, hd⟩ := hb
  have hl := h.producer
  cases hp : u.producer () <;> rw [hp] at e hl
  case idle         => cases e
  case loadWritePos =>
    cases e
    exact h.setProducer (congrArg Buffer.writePos h.buffer) ⟨rfl, rfl⟩
  case loadSequence kind x pos =>
    obtain rfl : pos = b.writePos := hl
    simp only [Users.run, h.buffer, hw, Option.bind_eq_bind, Option.bind_some, if_neg (ne_of_lt hd),
      if_pos hd, Option.some.injEq] at e
    subst e
    cases kind
    case tryPush       => exact h.setProducer trivial ⟨rfl, rfl⟩
    case pushOverwrite => exact h.setProducer trivial quiet_nil
  case loadReadPos  =>
    cases e
    exact h.setProducer (congrArg Buffer.readPos h.buffer) quiet_nil
  case loadOldest x rpos =>
    obtain rfl : rpos = b.readPos := hl
    simp only [Users.run, h.buffer, hr, Option.bind_eq_bind, Option.bind_some,
      sub_toInt_eq_zero_iff, if_neg hn, Option.some.injEq] at e
    subst e
    exact h.setProducer trivial quiet_nil
  all_goals exact hl.elim

theorem pop (hb : Jammed b) (h : Frozen b cs ds u) (e : u.consume u.consumer = some u') :
    Frozen b cs ds u' := by
  obtain ⟨slot, hr, hn, -⟩ := hb
  rcases h.consumer with hp | hp <;> rw [hp] at e
  case inl =>
    cases e
    exact h.setConsumer (.inr <| congrArg _ <| congrArg Buffer.readPos h.buffer) quiet_nil
  case inr =>
    simp only [Users.consume, h.buffer, hr, Option.bind_eq_bind, Option.bind_some,
      sub_toInt_eq_zero_iff, if_neg hn, Option.some.injEq] at e
    subst e
    exact h.setConsumer (.inl rfl) ⟨rfl, rfl⟩

theorem step (hb : Jammed b) (h : Frozen b cs ds u) (e : u.step a = some u') :
    Frozen b cs ds u' := by
  cases a
  case push i kind x =>
    rw [Users.step] at e
    split at e
    case h_1 => cases e; exact h.setProducer trivial ⟨rfl, rfl⟩
    case h_2 => cases e
  case next i s      => exact h.next hb e
  case pop           => exact h.pop hb e

theorem exec (hb : Jammed b) (h : Frozen b cs ds u) (e : (machine Unit α).exec u as = some u') :
    Frozen b cs ds u' := by
  induction as generalizing u
  case nil           => cases e; exact h
  case cons a as hi =>
    obtain ⟨u₁, e₁, e⟩ := Machine.exec_cons_eq_some_iff.mp e
    exact hi (h.step hb e₁) e

-- No thread ever gets past any slot.
theorem stuck {s : ℕ} (hb : Jammed b) (h : Frozen b cs ds u) : u.Stuck n s := by
  intro as v e p _
  have hv := h.exec hb e
  rw [hv.claims, hv.removed, h.claims, h.removed]
  exact ⟨id, id⟩

end Frozen

namespace Sample

def overwrite (item : ℕ) : List (Action Unit ℕ) :=
  .push () .pushOverwrite item :: .replicate 5 (.next () false)

def nexts (n : ℕ) : List (Action Unit ℕ) :=
  .replicate n <| .next () false

def takes (n : ℕ) : List (Action Unit ℕ) :=
  .replicate n .pop

-- The consumer reads the read position before the producer discards the oldest item, and looks at
-- its slot afterwards.
def overwritten : List (Action Unit ℕ) :=
  overwrite 1 ++ overwrite 2 ++ takes 1 ++ .push () .pushOverwrite 3 :: nexts 11 ++ takes 6

-- The producer discards the item that the consumer is taking, and the consumer gives the slot back
-- after the next item was published in it.
def torn : List (Action Unit ℕ) :=
  overwrite 1 ++ overwrite 2 ++ takes 2 ++ .push () .pushOverwrite 3 :: nexts 5 ++ takes 1 ++
    nexts 6 ++ takes 2 ++ takes 5 ++ overwrite 4

end Sample

theorem always_overwritable_sample :
    (machine Unit ℕ).Always (Overwritable (capacity 2).toNat) (.start <| create ℕ 2)
      Sample.overwritten :=
  always_overwritable (by decide) (by decide) (by decide)

theorem torn_stuck : ∃ v, (machine Unit ℕ).exec (.start <| create ℕ 2) Sample.torn = some v ∧
    v.producer () = .idle ∧ v.consumer = .idle ∧ removed v.log = [some 1, some 1, some 2] ∧
      claims v.log = [((), 1), ((), 2), ((), 3), ((), 4)] ∧ v.Stuck (capacity 2).toNat 0 := by
  refine ⟨_, rfl, rfl, rfl, rfl, rfl, ?_⟩
  exact Frozen.stuck ⟨_, rfl, by decide, rfl, by decide⟩ ⟨rfl, rfl, rfl, .inl rfl, trivial⟩

-- The item 1 is both discarded and popped, and the item 3 and its slot are lost.
theorem not_always_overwritable :
    (¬∀ (requestedCapacity : BitVec 64) (as : List (Action Unit ℕ)), (∀ a ∈ as, a.Overwrites) →
      (machine Unit ℕ).Always (fun u => removed u.log <+: (claims u.log).map fun y => some y.2)
        (.start <| create ℕ requestedCapacity) as) ∧
    ¬∀ (requestedCapacity : BitVec 64) (as : List (Action Unit ℕ)), (∀ a ∈ as, a.Overwrites) →
      (machine Unit ℕ).Always (fun u => (u.producer () = .idle → u.consumer = .idle) →
        ∀ s < (capacity requestedCapacity).toNat, ¬u.Stuck (capacity requestedCapacity).toNat s)
        (.start <| create ℕ requestedCapacity) as := by
  obtain ⟨v, e, -, hc, hr, hcl, hs⟩ := torn_stuck
  have ho : ∀ a ∈ Sample.torn, a.Overwrites := by decide
  constructor
  case left  =>
    intro h
    have hp := (h 2 _ ho).exec e
    rw [hr, hcl] at hp
    exact absurd hp <| by decide
  case right => exact fun h => (h 2 _ ho).exec e (fun _ => hc) 0 (by decide) hs

end Cpp.RingBuffer.Steps
