import Tyche.Cpp.Theorems.RingBufferSteps

namespace Cpp.RingBuffer.Steps

variable {ι α : Type} {k n r t : ℕ} {cs : List (ι × α)} {u u' : Users ι α} {i j : ι}
variable {x : α} {l log es : List (Event ι α)} {a : Action ι α} {as : List (Action ι α)}

-- The call is still within itself.
theorem Within.self_append (h : Within i log log) (he : ∀ e ∈ es, ¬e.Ends i) :
    Within i (log ++ es) (log ++ es) := by
  obtain ⟨l, l', l'', x, h₀, h₁, hn⟩ := h
  obtain rfl : l'' = [] := List.self_eq_append_right.mp h₁
  refine ⟨l, l' ++ es, [], x, by rw [h₀, List.append_assoc]; rfl, (List.append_nil _).symm, ?_⟩
  rw [List.append_nil] at hn ⊢
  exact List.forall_mem_append.mpr ⟨hn, he⟩

theorem within_enter : Within i (log ++ [.enter i x]) (log ++ [.enter i x]) :=
  ⟨log, [], [], x, rfl, (List.append_nil _).symm, nofun⟩

-- The events of the consumer.
def Event.Pops : Event ι α → Prop
  | .release  => True
  | .popped _ => True
  | .nothing  => True
  | _         => False

-- At most one event is added to a log.
theorem refused_append {P : ι → List (Event ι α) → Prop} (hl : es.length ≤ 1)
    (h : ∀ i x l, l ++ [.refuse i x] <+: log → P i l) (hr : ∀ i x, es = [.refuse i x] → P i log)
    (i : ι) (x : α) (l : List (Event ι α)) (hp : l ++ [.refuse i x] <+: log ++ es) : P i l := by
  match es, hl with
  | [], _  => exact h i x l <| List.append_nil log ▸ hp
  | [e], _ =>
    rcases List.prefix_concat_iff.mp hp with he | hp
    case inl =>
      obtain ⟨rfl, hs⟩ := List.append_inj' he rfl
      exact hr i x hs.symm
    case inr => exact h i x l hp

variable [DecidableEq ι]

-- The call of `i` that the log ends within has seen the queue full.
def SeenFull (n : ℕ) (i : ι) (log : List (Event ι α)) : Prop :=
  ∃ l₀, Within i l₀ log ∧ (claims l₀).length = releases l₀ + n

-- What is asked of a queue of `n` slots that is filled with `try_push` and emptied with `pop`. The
-- items are popped whole, each at most once, in the order in which positions were claimed for them,
-- which for one producer is the order of its calls. A call that returned false has seen the queue
-- full.
structure Lawful (n : ℕ) (log : List (Event ι α)) : Prop where
  popped  : popped log <+: (claims log).map fun y => some y.2
  order   : ∀ i, claimed i log = accepted i log ∨ ∃ x, claimed i log = accepted i log ++ [x]
  bounded : (claims log).length ≤ releases log + n
  refused : ∀ i x l, l ++ [.refuse i x] <+: log → SeenFull n i l

-- When no producer is in a call any longer, further pops get all that was accepted.
def Drains (u : Users ι α) : Prop :=
  (∀ i, u.producer i = .idle) → (∀ i, claimed i u.log = accepted i u.log) ∧
    ∃ enough, ∀ m ≥ enough, ∃ u', (machine ι α).exec u (.replicate m .pop) = some u' ∧
      claims u'.log = claims u.log ∧ popped u'.log = (claims u.log).map fun y => some y.2

def Action.Tries : Action ι α → Prop
  | .push _ kind _ => kind = .tryPush
  | _              => True

-- So many positions have been claimed since a producer read the write position that the difference
-- of the positions would overflow.
def Users.Prompt (n : ℕ) (u : Users ι α) : Action ι α → Prop
  | .next i _ =>
    match u.producer i with
    | .loadSequence .. => lag i u.log + n ≤ 2 ^ 63
    | .exchange ..     => lag i u.log < 2 ^ 64
    | _                => True
  | _         => True

instance : DecidablePred (Action.Tries (ι := ι) (α := α))
  | .push _ kind _   => inferInstanceAs <| Decidable (kind = .tryPush)
  | .next .. | .pop  => inferInstanceAs <| Decidable True

instance {u : Users ι α} : ∀ a, Decidable (u.Prompt n a)
  | .next i _ =>
    match h : u.producer i with
    | .loadSequence .. => decidable_of_iff (lag i u.log + n ≤ 2 ^ 63) <| by rw [Users.Prompt, h]
    | .exchange ..     => decidable_of_iff (lag i u.log < 2 ^ 64) <| by rw [Users.Prompt, h]
    | .idle | .loadWritePos .. | .moveData .. | .storeSequence .. | .loadReadPos .. | .loadOldest ..
    | .exchangeReadPos .. | .storeWritable .. => isTrue <| by rw [Users.Prompt, h]; trivial
  | .push .. | .pop => inferInstanceAs <| Decidable True

def Point.Tries : Point α → Prop
  | .idle                  => True
  | .loadWritePos push _   => push = .tryPush
  | .loadSequence push _ _ => push = .tryPush
  | .exchange push _ _     => push = .tryPush
  | .moveData _ _          => True
  | .storeSequence _ _     => True
  | _                      => False

-- The item for which a position is claimed in a call that has not returned.
def Point.pending : Point α → List α
  | .moveData x _      => [x]
  | .storeSequence x _ => [x]
  | _                  => []

-- What the log tells of the calls between two steps.
structure Told (n : ℕ) (u : Users ι α) (r : ℕ) : Prop where
  released : releases u.log = r
  gone     : popped u.log = removed u.log
  pending  : ∀ i, claimed i u.log = accepted i u.log ++ (u.producer i).pending
  inside   : ∀ i, u.producer i = .idle ∨ Within i u.log u.log
  refused  : ∀ i x l, l ++ [.refuse i x] <+: u.log → SeenFull n i l
  tries    : ∀ i, (u.producer i).Tries
  fresh    : ∀ pos, u.consumer = .loadSequence pos → u.buffer.readPos = pos

-- The events of a producer.
def Event.By (i : ι) : Event ι α → Prop
  | .enter j _  => j = i
  | .load j     => j = i
  | .claim j _  => j = i
  | .accept j _ => j = i
  | .refuse j _ => j = i
  | _           => False

theorem claimed_append : claimed i (log ++ es) = claimed i log ++ claimed i es := by
  rw [claimed, claims_append, List.filter_append, List.map_append]
  rfl

theorem accepted_append : accepted i (log ++ es) = accepted i log ++ accepted i es :=
  List.filterMap_append ..

section By

variable (h : ∀ e ∈ es, e.By i)
include h

omit [DecidableEq ι] in
theorem not_ends_of_by (hj : j ≠ i) : ∀ e ∈ es, ¬e.Ends j := by
  intro e he
  have hb := h e he
  cases e
  case accept | refuse => exact fun hi => hj <| hi.symm.trans hb
  all_goals exact id

omit [DecidableEq ι] in
theorem releases_of_by : releases es = 0 := by
  refine List.countP_eq_zero.mpr fun e he => ?_
  have hb := h e he
  cases e
  case release => exact hb.elim
  all_goals simp

omit [DecidableEq ι] in
theorem popped_of_by : popped es = [] := by
  refine List.filterMap_eq_nil_iff.mpr fun e he => ?_
  have hb := h e he
  cases e
  case popped => exact hb.elim
  all_goals rfl

omit [DecidableEq ι] in
theorem removed_of_by : removed es = [] := by
  refine List.filterMap_eq_nil_iff.mpr fun e he => ?_
  have hb := h e he
  cases e
  case popped | discard => exact hb.elim
  all_goals rfl

theorem claimed_of_by (hj : j ≠ i) : claimed j es = [] := by
  rw [claimed, List.map_eq_nil_iff, List.filter_eq_nil_iff]
  intro y hy
  obtain ⟨e, he, hc⟩ := List.mem_filterMap.mp hy
  have hb := h e he
  cases e
  case claim =>
    cases hc
    exact fun hi => hj <| (of_decide_eq_true hi).symm.trans hb
  all_goals cases hc

theorem accepted_of_by (hj : j ≠ i) : accepted j es = [] := by
  refine List.filterMap_eq_nil_iff.mpr fun e he => ?_
  have hb := h e he
  cases e
  case accept => exact if_neg fun hi => hj <| hi.symm.trans hb
  all_goals rfl

end By

-- A producer makes a step of its own, on a buffer that may be another one but for the read position.
theorem Told.setProducer {b : Buffer α} {p : Point α} (h : Told n u r)
    (hb : b.readPos = u.buffer.readPos) (hl : es.length ≤ 1) (ho : ∀ e ∈ es, e.By i)
    (hp : (u.producer i).pending ++ claimed i es = accepted i es ++ p.pending)
    (hi : p = .idle ∨ Within i (u.log ++ es) (u.log ++ es))
    (hr : ∀ x, es = [.refuse i x] → SeenFull n i u.log)
    (ht : p.Tries) : Told n ((u.setBuffer b).setProducer i p es) r := by
  constructor
  case released =>
    refine releases_append.trans ?_
    rw [releases_of_by ho]
    exact h.released
  case gone     =>
    refine popped_append.trans <| Eq.trans ?_ removed_append.symm
    rw [popped_of_by ho, removed_of_by ho]
    exact congrArg (· ++ []) h.gone
  case pending  =>
    intro j
    refine claimed_append.trans <| Eq.trans ?_ (congrArg (· ++ _) accepted_append.symm)
    change claimed j u.log ++ _ = accepted j u.log ++ _ ++ _
    rw [h.pending]
    by_cases hj : j = i
    case pos =>
      subst hj
      rw [Users.producer_setProducer_self, List.append_assoc, hp, List.append_assoc]
    case neg =>
      rw [Users.producer_setProducer_ne hj, claimed_of_by ho hj, accepted_of_by ho hj,
        List.append_nil, List.append_nil]
      rfl
  case inside   =>
    intro j
    by_cases hj : j = i
    case pos =>
      rw [hj, Users.producer_setProducer_self]
      exact hi
    case neg =>
      rw [Users.producer_setProducer_ne hj]
      exact (h.inside j).imp_right fun hw => hw.self_append <| not_ends_of_by ho hj
  case refused  =>
    refine refused_append hl h.refused fun j x he => ?_
    obtain rfl : j = i := ho (.refuse j x) (he ▸ List.mem_singleton_self _)
    exact hr x he
  case tries    =>
    intro j
    by_cases hj : j = i
    case pos =>
      rw [hj, Users.producer_setProducer_self]
      exact ht
    case neg =>
      rw [Users.producer_setProducer_ne hj]
      exact h.tries j
  case fresh    => exact fun pos hc => hb.trans <| h.fresh pos hc

section Pops

variable (h : ∀ e ∈ es, e.Pops)
include h

omit [DecidableEq ι] in
theorem not_ends_of_pops : ∀ e ∈ es, ¬e.Ends i := by
  intro e he
  have hb := h e he
  cases e
  case accept | refuse => exact hb.elim
  all_goals exact id

omit [DecidableEq ι] in
theorem popped_of_pops : popped es = removed es := by
  induction es
  case nil          => rfl
  case cons e es hi =>
    rw [List.forall_mem_cons] at h
    have hb := h.left
    have hs := hi h.right
    cases e
    case popped => exact congrArg _ hs
    case discard => exact hb.elim
    all_goals exact hs

theorem claimed_of_pops : claimed i es = [] := by
  rw [claimed, List.map_eq_nil_iff, List.filter_eq_nil_iff]
  intro y hy
  obtain ⟨e, he, hc⟩ := List.mem_filterMap.mp hy
  have hb := h e he
  cases e
  case claim => exact hb.elim
  all_goals cases hc

theorem accepted_of_pops : accepted i es = [] := by
  refine List.filterMap_eq_nil_iff.mpr fun e he => ?_
  have hb := h e he
  cases e
  case accept => exact hb.elim
  all_goals rfl

end Pops

-- The consumer makes a step, on a buffer that may be another one.
theorem Told.setConsumer {b : Buffer α} {p : Pop α} (h : Told n u r) (hl : es.length ≤ 1)
    (ho : ∀ e ∈ es, e.Pops) (hf : ∀ pos, p = .loadSequence pos → b.readPos = pos) :
    Told n ((u.setBuffer b).setConsumer p es) (r + releases es) where
  released := releases_append.trans <| congrArg (· + _) h.released
  gone     := by
    refine popped_append.trans <| Eq.trans ?_ removed_append.symm
    rw [popped_of_pops ho]
    exact congrArg (· ++ _) h.gone
  pending j := by
    refine claimed_append.trans <| Eq.trans ?_ (congrArg (· ++ _) accepted_append.symm)
    rw [claimed_of_pops ho, accepted_of_pops ho, List.append_nil, List.append_nil]
    exact h.pending j
  inside j := (h.inside j).imp_right fun hw => hw.self_append <| not_ends_of_pops ho
  refused  := refused_append hl h.refused fun j x he =>
    (ho (.refuse j x) <| he ▸ List.mem_singleton_self _).elim
  tries    := h.tries
  fresh    := hf

-- What holds of a buffer of `2 ^ k` slots between two steps.
def Good (k : ℕ) (u : Users ι α) : Prop :=
  ∃ cs r t, Inv k u cs r t none ∧ Told (2 ^ k) u r

theorem Inv.seenFull (h : Inv k u cs r t none) (ht : Told (2 ^ k) u r) (hi : u.producer i ≠ .idle)
    (hf : cs.length = r + 2 ^ k) : SeenFull (2 ^ k) i u.log :=
  ⟨u.log, (ht.inside i).resolve_left hi, by rw [h.told, ht.released, hf]⟩

theorem Good.push {kind : Push} (h : Good k u) (hk : kind = .tryPush)
    (e : u.step (.push i kind x) = some u') : Good k u' := by
  obtain ⟨cs, r, t, h, ht⟩ := h
  subst hk
  rw [Users.step] at e
  split at e
  case h_2 => cases e
  case h_1 hp =>
    cases e
    refine ⟨cs, r, t, ?_, ?_⟩
    case refine_1 =>
      refine h.setProducer ⟨rfl, rfl⟩ (by rw [hp]; rfl) rfl trivial fun j _ => ?_
      exact lag_enter
    case refine_2 =>
      refine ht.setProducer rfl (Nat.le_refl _) ?_ (by rw [hp]; rfl) (.inr within_enter) (by simp) rfl
      exact List.forall_mem_singleton.mpr rfl

theorem Point.pending_eq_nil {p : Point α} (h : p.holds = none) : p.pending = [] := by
  cases p
  case moveData | storeSequence => cases h
  all_goals rfl

-- A producer goes on in a call without having claimed a position.
theorem Inv.goOn {p : Point α} (h : Inv k u cs r t none) (ht : Told (2 ^ k) u r)
    (hi : u.producer i ≠ .idle) (hp : (u.producer i).holds = none) (hq : p.holds = none)
    (he : es = [] ∨ es = [.load i]) (hf : p.Fits cs r (2 ^ k) i (lag i (u.log ++ es)))
    (htr : p.Tries) : Good k (u.setProducer i p es) := by
  have hw := (ht.inside i).resolve_left hi
  refine ⟨cs, r, t, ?_, ?_⟩
  case refine_1 =>
    rcases he with rfl | rfl
    case inl =>
      refine h.setProducer quiet_nil hp hq hf fun j _ => ?_
      rw [List.append_nil]
    case inr =>
      refine h.setProducer ⟨rfl, rfl⟩ hp hq hf fun j hj => ?_
      rw [lag_load, if_neg hj.symm]
  case refine_2 =>
    have hpe : (u.producer i).pending = [] := Point.pending_eq_nil hp
    have hqe : p.pending = [] := Point.pending_eq_nil hq
    rcases he with rfl | rfl
    case inl =>
      refine ht.setProducer rfl (Nat.zero_le _) nofun ?_ (.inr ?_) nofun htr
      case refine_1 => rw [hpe, hqe]; rfl
      case refine_2 => exact hw.self_append nofun
    case inr =>
      refine ht.setProducer rfl (Nat.le_refl _) ?_ ?_ (.inr ?_) nofun htr
      case refine_1 => exact List.forall_mem_singleton.mpr rfl
      case refine_2 => rw [hpe, hqe]; rfl
      case refine_3 => exact hw.self_append <| List.forall_mem_singleton.mpr id

theorem Inv.loadSequence {kind : Push} {pos : BitVec 64} {spurious : Bool} (h : Inv k u cs r t none)
    (ht : Told (2 ^ k) u r) (hp : u.producer i = .loadSequence kind x pos)
    (hl : lag i u.log + 2 ^ k ≤ 2 ^ 63) (e : u.run i spurious (.loadSequence kind x pos) = some u') :
    Good k u' := by
  obtain ⟨p, rfl, hpl⟩ : ∃ p, pos = .ofNat 64 p ∧ p + lag i u.log = cs.length := by
    have hf := h.fits i
    rwa [hp] at hf
  obtain rfl : kind = .tryPush := by
    have htr := ht.tries i
    rwa [hp] at htr
  have hi : u.producer i ≠ .idle := by simp [hp]
  have hn : (u.producer i).holds = none := by rw [hp]; rfl
  have hd := h.compare hpl hl
  simp only [Users.run, h.slot?, Option.bind_eq_bind, Option.bind_some] at e
  split at e
  case isTrue hz =>
    cases e
    exact h.goOn ht hi hn rfl (.inl rfl) ⟨p, rfl, by rw [List.append_nil, hpl], hd.left hz⟩ rfl
  case isFalse =>
    split at e
    case isTrue hneg =>
      cases e
      have hfull := h.seenFull ht hi <| hd.right hneg
      refine ⟨cs, r, t, ?_, ?_⟩
      case refine_1 =>
        exact h.setProducer ⟨rfl, rfl⟩ hn rfl trivial fun j _ => lag_refuse
      case refine_2 =>
        refine ht.setProducer rfl (Nat.le_refl _) ?_ (by rw [hp]; rfl) (.inl rfl) (fun _ _ => hfull)
          trivial
        exact List.forall_mem_singleton.mpr rfl
    case isFalse =>
      cases e
      exact h.goOn ht hi hn rfl (.inl rfl) trivial rfl

theorem Inv.exchange {kind : Push} {pos : BitVec 64} {spurious : Bool} (h : Inv k u cs r t none)
    (ht : Told (2 ^ k) u r) (hp : u.producer i = .exchange kind x pos)
    (hl : lag i u.log < 2 ^ 64) (e : u.run i spurious (.exchange kind x pos) = some u') :
    Good k u' := by
  obtain rfl : kind = .tryPush := by
    have htr := ht.tries i
    rwa [hp] at htr
  have hi : u.producer i ≠ .idle := by simp [hp]
  rw [Users.run] at e
  split at e
  case isTrue hw =>
    cases e
    refine ⟨_, r, t, h.claim hp hw.left hl, ?_⟩
    refine ht.setProducer rfl (Nat.le_refl _) (List.forall_mem_singleton.mpr rfl) ?_ (.inr ?_) (by simp)
      trivial
    case refine_1 => rw [hp]; simp [claimed, claims, accepted, Point.pending]
    case refine_2 =>
      exact ((ht.inside i).resolve_left hi).self_append <| List.forall_mem_singleton.mpr id
  case isFalse =>
    cases e
    refine h.goOn ht hi (by rw [hp]; rfl) rfl (.inr rfl) ⟨cs.length, h.writePos, ?_⟩ rfl
    rw [lag_load, if_pos rfl]
    rfl

theorem Good.next {spurious : Bool} (h : Good k u) (hc : u.Prompt (2 ^ k) (.next i spurious))
    (e : u.step (.next i spurious) = some u') : Good k u' := by
  obtain ⟨cs, r, t, h, ht⟩ := h
  have hf := h.fits i
  have htr := ht.tries i
  rw [Users.step] at e
  rw [Users.Prompt] at hc
  cases hp : u.producer i
  case idle =>
    rw [hp] at e
    cases e
  case loadWritePos kind x =>
    rw [hp] at e htr
    cases e
    refine h.goOn ht (by simp [hp]) (by rw [hp]; rfl) rfl (.inr rfl)
      ⟨cs.length, h.writePos, ?_⟩ htr
    rw [lag_load, if_pos rfl]
    rfl
  case loadSequence kind x pos =>
    rw [hp] at e hc
    exact h.loadSequence ht hp hc e
  case exchange kind x pos =>
    rw [hp] at e hc
    exact h.exchange ht hp hc e
  case moveData x pos =>
    rw [hp] at e hf
    obtain ⟨p, hr, rfl, hy⟩ := hf
    simp only [Users.run, h.slot?, Option.bind_eq_bind, Option.bind_some] at e
    cases e
    refine ⟨cs, r, t, h.moveData hp hr hy, ?_⟩
    refine ht.setProducer rfl (Nat.zero_le _) (List.forall_mem_nil _) (by rw [hp]; rfl) (.inr ?_)
      (by simp) trivial
    exact ((ht.inside i).resolve_left <| by simp [hp]).self_append (List.forall_mem_nil _)
  case storeSequence x pos =>
    rw [hp] at e hf
    obtain ⟨p, hr, rfl, hy⟩ := hf
    simp only [Users.run, h.slot?, Option.bind_eq_bind, Option.bind_some] at e
    cases e
    refine ⟨cs, r, t, h.storeSequence hp hr hy, ?_⟩
    refine ht.setProducer rfl (Nat.le_refl _) (List.forall_mem_singleton.mpr rfl) ?_ (.inl rfl) (by simp)
      trivial
    rw [hp]
    simp [claimed, claims, accepted, Point.pending]
  all_goals
    rw [hp] at htr
    exact htr.elim

-- How far the consumer has come in a call.
def Pop.progress : Pop α → ℕ
  | .idle             => 0
  | .loadSequence _   => 1
  | .moveData _       => 2
  | .storeWritable .. => 3
  | .storeReadPos ..  => 4

-- The consumer always has a step, and gets on with it when there is an item for it.
theorem Inv.pop (h : Inv k u cs r t none) (ht : Told (2 ^ k) u r) :
    ∃ u' r' t', u.step .pop = some u' ∧ Inv k u' cs r' t' none ∧ Told (2 ^ k) u' r' ∧ t ≤ t' ∧
      u'.producer = u.producer ∧ ((∃ x, Ready u.producer cs t x) →
        5 * t' + u'.consumer.progress = 5 * t + u.consumer.progress + 1) := by
  have hf := h.popFits
  rw [Users.step]
  cases hp : u.consumer
  case idle =>
    refine ⟨_, r, t, rfl, ?_, ht.setConsumer (Nat.zero_le _) (List.forall_mem_nil _) ?_, Nat.le_refl _,
      rfl, fun _ => rfl⟩
    case refine_1 =>
      refine h.setConsumer quiet_nil (by rw [hp]; rfl) (by rw [hp]; exact id) trivial fun j => ?_
      rw [List.append_nil]
    case refine_2 =>
      rintro pos ⟨⟩
      rfl
  case loadSequence pos =>
    obtain rfl : r = t := by rw [h.behind, hp]; rfl
    have hr := ht.fresh pos hp
    rw [h.readPos] at hr
    rw [← hr]
    simp only [Users.consume, h.slot?, Option.bind_eq_bind, Option.bind_some, ofNat_succ,
      sub_toInt_eq_zero_iff]
    by_cases hx : (u.buffer.slots (r % 2 ^ k)).sequence = .ofNat 64 (r + 1)
    case pos =>
      rw [if_pos hx]
      refine ⟨_, r, r, rfl, ?_, ht.setConsumer (Nat.zero_le _) (List.forall_mem_nil _) (by simp),
        Nat.le_refl _, rfl, fun _ => rfl⟩
      refine h.setConsumer quiet_nil (by rw [hp]; rfl) (by rw [hp]; exact id)
        ⟨rfl, h.ready_iff.mp hx⟩ fun j => ?_
      rw [List.append_nil]
    case neg =>
      rw [if_neg hx]
      refine ⟨_, r, r, rfl, ?_, ht.setConsumer (Nat.le_refl _) ?_ (by simp), Nat.le_refl _, rfl, ?_⟩
      case refine_1 =>
        exact h.setConsumer ⟨rfl, rfl⟩ (by rw [hp]; rfl) (by rw [hp]; exact id) trivial fun _ =>
          lag_nothing
      case refine_2 => exact List.forall_mem_singleton.mpr trivial
      case refine_3 => exact fun hr => absurd (h.ready_iff.mpr hr) hx
  case moveData pos =>
    rw [hp] at hf
    obtain ⟨rfl, -⟩ := hf
    simp only [Users.consume, h.slot?, Option.bind_eq_bind, Option.bind_some]
    exact ⟨_, r, t, rfl, h.popMoveData hp, ht.setConsumer (Nat.zero_le _) (List.forall_mem_nil _)
      (by simp), Nat.le_refl _, rfl, fun _ => rfl⟩
  case storeWritable pos result =>
    rw [hp] at hf
    obtain ⟨rfl, -⟩ := hf
    simp only [Users.consume, h.slot?, Option.bind_eq_bind, Option.bind_some]
    refine ⟨_, r + 1, t, rfl, h.popStoreWritable hp, ht.setConsumer (Nat.le_refl _) ?_ (by simp),
      Nat.le_refl _, rfl, fun _ => rfl⟩
    exact List.forall_mem_singleton.mpr trivial
  case storeReadPos pos result =>
    rw [hp] at hf
    obtain ⟨rfl, -⟩ := hf
    refine ⟨_, r, t + 1, rfl, h.popStoreReadPos hp, ht.setConsumer (Nat.le_refl _) ?_ (by simp),
      Nat.le_succ _, rfl, fun _ => rfl⟩
    exact List.forall_mem_singleton.mpr trivial

theorem Good.pop (h : Good k u) (e : u.step .pop = some u') : Good k u' := by
  obtain ⟨cs, r, t, h, ht⟩ := h
  obtain ⟨v, r', t', hv, h', ht', -⟩ := h.pop ht
  cases hv.symm.trans e
  exact ⟨cs, r', t', h', ht'⟩

theorem Good.step (h : Good k u) (ht : a.Tries) (hc : u.Prompt (2 ^ k) a)
    (e : (machine ι α).step u a = some u') : Good k u' := by
  cases a
  case push i kind x    => exact h.push ht e
  case next i spurious  => exact h.next hc e
  case pop              => exact h.pop e

theorem Good.lawful (h : Good k u) : Lawful (2 ^ k) u.log := by
  obtain ⟨cs, r, t, h, ht⟩ := h
  constructor
  case popped  =>
    rw [ht.gone, h.gone, h.told]
    exact (List.take_prefix _ _).map _
  case order   =>
    intro i
    rw [ht.pending]
    cases hp : u.producer i
    case moveData x pos | storeSequence x pos => exact .inr ⟨x, rfl⟩
    all_goals exact .inl <| List.append_nil _
  case bounded => rw [h.told, ht.released]; exact h.lap
  case refused => exact ht.refused

theorem Pop.progress_le (p : Pop α) : p.progress ≤ 4 := by
  cases p <;> simp [progress]

-- Pops in a row, while no producer is in a call.
theorem Inv.drain {m : ℕ} (h : Inv k u cs r t none) (ht : Told (2 ^ k) u r)
    (hi : ∀ i, u.producer i = .idle) (hm : 5 * cs.length ≤ 5 * t + u.consumer.progress + m) :
    ∃ u' r', (machine ι α).exec u (.replicate m .pop) = some u' ∧ Inv k u' cs r' cs.length none ∧
      Told (2 ^ k) u' r' := by
  have htc : t ≤ cs.length := by
    have := h.ahead
    have := h.behind
    omega
  induction m generalizing u r t
  case zero =>
    have := u.consumer.progress_le
    obtain rfl : t = cs.length := by omega
    exact ⟨u, r, rfl, h, ht⟩
  case succ m ih =>
    obtain ⟨u₁, r₁, t₁, he, h₁, ht₁, hle, hpr, hprog⟩ := h.pop ht
    have hc₁ : t₁ ≤ cs.length := by
      have := h₁.ahead
      have := h₁.behind
      omega
    have hm₁ : 5 * cs.length ≤ 5 * t₁ + u₁.consumer.progress + m := by
      by_cases hlt : t < cs.length
      case pos =>
        obtain ⟨⟨j, x⟩, hy⟩ : ∃ y, cs[t]? = some y := ⟨_, List.getElem?_eq_getElem hlt⟩
        have := hprog ⟨x, j, hy, by rw [hi j]; exact nofun⟩
        omega
      case neg => omega
    obtain ⟨u', r', he', h', ht'⟩ := ih h₁ ht₁ (fun i => hpr ▸ hi i) hm₁ hc₁
    exact ⟨u', r', Machine.exec_cons_eq_some_iff.mpr ⟨u₁, he, he'⟩, h', ht'⟩

theorem Good.drains (h : Good k u) : Drains u := by
  obtain ⟨cs, r, t, h, ht⟩ := h
  intro hi
  constructor
  case left =>
    intro i
    rw [ht.pending, hi]
    exact List.append_nil _
  case right =>
    refine ⟨5 * cs.length, fun m hm => ?_⟩
    obtain ⟨u', r', he, h', ht'⟩ := h.drain ht hi (m := m) (by omega)
    refine ⟨u', he, h'.told.trans h.told.symm, ?_⟩
    rw [ht'.gone, h'.gone, h.told, List.take_length]

theorem good_start {requestedCapacity : BitVec 64} (h : requestedCapacity.toNat ≤ 2 ^ 63) :
    Good (Nat.clog 2 (max requestedCapacity.toNat 2))
      (.start (ι := ι) (create α requestedCapacity)) := by
  refine ⟨[], 0, 0, inv_start h, ?_⟩
  constructor
  case released => rfl
  case gone     => rfl
  case pending  => exact fun _ => rfl
  case inside   => exact fun _ => .inl rfl
  case refused  => exact fun i x l hl => absurd (List.prefix_nil.mp hl) (by simp)
  case tries    => exact fun _ => trivial
  case fresh    => nofun

-- As long as no producer is so late that positions wrap around, what is pushed with `try_push` is
-- popped as from a queue, in every state of a run.
theorem always_lawful {requestedCapacity : BitVec 64} (h : requestedCapacity.toNat ≤ 2 ^ 63)
    {as : List (Action ι α)} (ht : ∀ a ∈ as, a.Tries)
    (hc : (machine ι α).Along (Users.Prompt (capacity requestedCapacity).toNat)
      (.start <| create α requestedCapacity) as) :
    (machine ι α).Always (fun u => Lawful (capacity requestedCapacity).toNat u.log ∧ Drains u)
      (.start <| create α requestedCapacity) as := by
  rw [toNat_capacity h] at hc ⊢
  have hg := Machine.always_of_step (fun _ _ _ h hc e => Good.step h hc.left hc.right e)
    (good_start (ι := ι) (α := α) h) ((Machine.along_of_forall ht).and hc)
  exact hg.mono fun u h => ⟨h.lawful, h.drains⟩

namespace Sample

def pushes (i : Bool) (item : ℕ) : List (Action Bool ℕ) :=
  .push i .tryPush item :: .replicate 5 (.next i false)

def pops : List (Action Bool ℕ) :=
  .replicate 5 .pop

end Sample

theorem always_lawful_sample : (machine Bool ℕ).Always
    (fun u => Lawful (capacity 2).toNat u.log ∧ Drains u) (.start <| create ℕ 2)
      (Sample.pushes true 5 ++ Sample.pushes false 7 ++ Sample.pops) :=
  always_lawful (by decide) (by decide) (by decide)

section Overtaken

variable {m : ℕ} {v v' : Users Bool ℕ} {cs : List (Bool × ℕ)} {ls es' : List (Event Bool ℕ)}

-- One producer has read the write position 0, and `m` items have gone through two slots since, one
-- at a time.
structure Overtaken (m : ℕ) (v : Users Bool ℕ) : Prop where
  inv      : ∃ cs, cs.length = m ∧ Inv 1 v cs m m none
  late     : v.producer true = .loadSequence .tryPush 5 0
  other    : v.producer false = .idle
  consumer : v.consumer = .idle
  empty    : (claims v.log).length = releases v.log
  single   : ∀ l, l <+: v.log → (claims l).length ≤ releases l + 1

def Sample.round : List (Action Bool ℕ) :=
  Sample.pushes false 7 ++ Sample.pops

theorem single_append (he : (claims ls).length = releases ls)
    (hs : ∀ l, l <+: ls → (claims l).length ≤ releases l + 1)
    (h : ∀ l ∈ es'.inits, (claims l).length ≤ releases l + 1) :
    ∀ l, l <+: ls ++ es' → (claims l).length ≤ releases l + 1 := by
  intro l hl
  rcases List.prefix_or_prefix_of_prefix hl (List.prefix_append ls es') with hp | ⟨l', rfl⟩
  case inl => exact hs l hp
  case inr =>
    have := h l' <| (List.mem_inits ..).mpr <| (List.prefix_append_right_inj ls).mp hl
    rw [claims_append, releases_append, List.length_append]
    omega

theorem Overtaken.round (h : Overtaken m v) :
    ∃ v', (machine Bool ℕ).exec v Sample.round = some v' ∧ Overtaken (m + 1) v' := by
  obtain ⟨cs, rfl, hinv⟩ := h.inv
  have h₁ : Inv 1 (v.setProducer false (.loadWritePos .tryPush 7) [.enter false 7]) cs cs.length
      cs.length none :=
    hinv.setProducer ⟨rfl, rfl⟩ (by rw [h.other]; rfl) rfl trivial fun j _ => lag_other nofun nofun
  obtain ⟨v₂, e₂, h₂, m₂⟩ := h₁.pushAlone Users.producer_setProducer_self (by omega)
  have hx : ∃ x, Ready v₂.producer (cs ++ [(false, 7)]) cs.length x :=
    ⟨7, false, List.getElem?_concat_length, by rw [m₂.self]; exact nofun⟩
  obtain ⟨v₃, result, e₃, h₃, m₃⟩ := h₂.popAlone (m₂.consumer.trans h.consumer) hx
  have hlog : v₃.log = v.log ++ [.enter false 7, .load false, .claim false 7, .accept false 7,
      .release, .popped result] := by
    rw [m₃.log, m₂.log]
    simp [Users.setProducer]
  refine ⟨v₃, ?_, ?_⟩
  case refine_1 =>
    have e₁ : (machine Bool ℕ).step v (.push false .tryPush 7) = some _ :=
      Users.step_push h.other
    have e₂ := Machine.exec_cons_eq_some_iff.mpr ⟨_, e₁, e₂⟩
    exact Machine.exec_append.trans <| (congrArg (Option.bind · _) e₂).trans e₃
  case refine_2 =>
    constructor
    case inv      => exact ⟨_, List.length_append, h₃⟩
    case late     =>
      rw [m₃.producer, m₂.producer, Function.update_of_ne (by decide)]
      exact (Users.producer_setProducer_ne (by decide)).trans h.late
    case other    => rw [m₃.producer, m₂.self]
    case consumer => exact m₃.consumer
    case empty    =>
      rw [hlog, claims_append, releases_append, List.length_append, h.empty]
      rfl
    case single   =>
      rw [hlog]
      exact single_append h.empty h.single <| by simp [List.inits, claims, releases]

theorem Overtaken.rounds (h : Overtaken m v) (n : ℕ) : ∃ v', (machine Bool ℕ).exec v
    (List.replicate n Sample.round).flatten = some v' ∧ Overtaken (m + n) v' := by
  induction n generalizing m v
  case zero      => exact ⟨v, rfl, h⟩
  case succ n hi =>
    obtain ⟨v₁, e₁, h₁⟩ := h.round
    obtain ⟨v₂, e₂, h₂⟩ := hi h₁
    refine ⟨v₂, ?_, by rwa [Nat.add_right_comm] at h₂⟩
    rw [List.replicate_succ, List.flatten_cons, Machine.exec_append, e₁]
    exact e₂

-- What it then finds in the slot looks older than its position.
theorem Overtaken.refuses (h : Overtaken (2 ^ 63) v) :
    v.step (.next true false) = some (v.setProducer true .idle [.refuse true 5]) := by
  obtain ⟨cs, hl, hinv⟩ := h.inv
  have hs := hinv.free (2 ^ 63) (Nat.le_of_eq hl) (by omega) nofun
  have h0 : v.buffer.slot? 0 = some (v.buffer.slots (2 ^ 63 % 2 ^ 1)) := hinv.slot? 0
  simp only [Users.step, h.late, Users.run, h0, Option.bind_eq_bind, Option.bind_some, hs]
  rfl

def Sample.late : List (Action Bool ℕ) :=
  [.push true .tryPush 5, .next true false]

theorem overtaken_late : ∃ v, (machine Bool ℕ).exec (.start <| create ℕ 2) Sample.late = some v ∧
    Overtaken 0 v := by
  have hk : Nat.clog 2 (max (2 : BitVec 64).toNat 2) = 1 := Nat.clog_pow 2 1 Nat.one_lt_two
  have hs : Inv (Nat.clog 2 (max (2 : BitVec 64).toNat 2)) (.start (ι := Bool) <| create ℕ 2) [] 0 0
      none := inv_start (by decide)
  rw [hk] at hs
  have h₁ : Inv 1 (Users.setProducer (.start <| create ℕ 2) true (.loadWritePos .tryPush 5)
      [.enter true 5]) [] 0 0 none :=
    hs.setProducer ⟨rfl, rfl⟩ rfl rfl trivial fun _ _ => lag_other nofun nofun
  obtain ⟨v, e, h₂, m⟩ := h₁.step_loadWritePos (s := false) Users.producer_setProducer_self
  have hlog : v.log = [.enter true 5, .load true] := m.log
  refine ⟨v, Machine.exec_cons_eq_some_iff.mpr ⟨_, rfl, ?_⟩, ?_⟩
  case refine_1 => exact Machine.exec_cons_eq_some_iff.mpr ⟨_, e, rfl⟩
  case refine_2 =>
    constructor
    case inv      => exact ⟨[], rfl, h₂⟩
    case late     => exact m.self
    case other    => rw [m.producer]; rfl
    case consumer => exact m.consumer
    case empty    => rw [hlog]; rfl
    case single   =>
      rw [hlog]
      have hs : ∀ l, l <+: ([] : List (Event Bool ℕ)) → (claims l).length ≤ releases l + 1 := by
        simp [claims]
      exact fun l hl => single_append rfl hs (by simp [List.inits, claims, releases]) l hl

end Overtaken

-- A producer that is late by 2 ^ 63 positions is told that a queue of two slots is full that never
-- held more than one item.
theorem overtaken_not_lawful : ∃ as : List (Action Bool ℕ), (∀ a ∈ as, a.Tries) ∧
    ∃ v, (machine Bool ℕ).exec (.start <| create ℕ 2) as = some v ∧
      ¬Lawful (capacity 2).toNat v.log := by
  obtain ⟨v₀, e₀, h₀⟩ := overtaken_late
  obtain ⟨n, hn⟩ : ∃ n, n = 2 ^ 63 := ⟨_, rfl⟩
  obtain ⟨v, e, hv⟩ := h₀.rounds n
  rw [Nat.zero_add, hn] at hv
  have hr : ∀ a ∈ Sample.round, a.Tries := by decide
  refine ⟨Sample.late ++ (List.replicate n Sample.round).flatten ++ [.next true false], ?_, _,
    (Machine.exec_concat <| by rw [Machine.exec_append, e₀]; exact e).trans hv.refuses, fun hl => ?_⟩
  case refine_1 =>
    simp only [List.forall_mem_append, List.forall_mem_singleton]
    refine ⟨⟨by decide, fun a ha => ?_⟩, trivial⟩
    obtain ⟨l, hl, ha⟩ := List.mem_flatten.mp ha
    exact hr a <| List.eq_of_mem_replicate hl ▸ ha
  case refine_2 =>
    obtain ⟨l₀, ⟨_, _, l₁, _, -, hp, -⟩, hf⟩ := hl.refused true 5 v.log (List.prefix_refl _)
    have := hv.single l₀ ⟨l₁, hp.symm⟩
    have hc : (capacity 2).toNat = 2 := rfl
    omega

-- A buffer without slots has nothing to pop from.
theorem not_drains {requestedCapacity : BitVec 64} (h : 2 ^ 63 < requestedCapacity.toNat) :
    ¬Drains (.start <| create α requestedCapacity : Users ι α) := by
  intro hd
  obtain ⟨n, hn⟩ := (hd fun _ => rfl).right
  obtain ⟨v, hv, -⟩ := hn (n + 2) (Nat.le_add_right ..)
  rw [List.replicate_succ, Machine.exec_cons_eq_some_iff] at hv
  obtain ⟨v₁, h₁, hv⟩ := hv
  rw [List.replicate_succ, Machine.exec_cons_eq_some_iff] at hv
  obtain ⟨v₂, h₂, -⟩ := hv
  cases h₁
  have hs : (create α requestedCapacity).slot? 0 = none := create_slot? h 0
  change ((create α requestedCapacity).slot? 0 >>= _) = some v₂ at h₂
  rw [hs] at h₂
  cases h₂

-- Besides, a pop may find nothing although an item was accepted before it began: the other producer
-- has claimed the position before that item and not published its own.
theorem not_linearisable :
    ((∃ as : List (Action Bool ℕ), (∀ a ∈ as, a.Tries) ∧
      ∃ v, (machine Bool ℕ).exec (.start <| create ℕ 2) as = some v ∧
        ¬Lawful (capacity 2).toNat v.log) ∧
      ¬Drains (.start <| create ℕ (.ofNat 64 (2 ^ 63 + 1)) : Users Bool ℕ)) ∧
    ∃ v v', (machine Bool ℕ).exec (.start <| create ℕ 2) ([.push true .tryPush 5, .next true false,
      .next true false, .next true false] ++ Sample.pushes false 7) = some v ∧ v.consumer = .idle ∧
        accepted false v.log = [7] ∧ popped v.log = [] ∧
          (machine Bool ℕ).exec v [.pop, .pop] = some v' ∧ v'.log = v.log ++ [.nothing] :=
  ⟨⟨overtaken_not_lawful, not_drains (by decide)⟩, _, _, rfl, rfl, rfl, rfl, rfl, rfl⟩

end Cpp.RingBuffer.Steps
