import Tyche.Aging
import Tyche.Python.Theorems.TopicQueues
import Tyche.Python.Workers

namespace Python

open Proc

namespace Events

variable {s s' : Events} {works : List Bytes → Bool} {last last' : ℕ → ℚ} {topic : Key} {q : ℕ}
variable {frames : List Bytes} {queue : TopicQueue} {capacity : Value}

-- The queue that the egress worker is about to take an entry from.
def taken? (s : Events) : Option ℕ :=
  s.snapshot.head?.bind fun (_, q) => if (s.queues q).items = [] then none else some q

-- No module takes part in the topic.
def Unreferenced (s : Events) (topic : Key) : Prop :=
  s.topicSubscribers.getD topic [] = [] ∧ s.topicProducers.getD topic [] = []

instance : DecidablePred s.Unreferenced :=
  fun _ => inferInstanceAs <| Decidable (_ ∧ _)

-- What the engine knows about the queues.
structure Known (s : Events) (last : ℕ → ℚ) : Prop where
  tracked : Aging.Tracked s.topicQueues s.created s.topicLastAccess.get? last
  keys    : ∀ t, ∀ k ∈ s.topicEventMap.get? t, k = t
  current : ∀ x ∈ s.snapshot, s.topicQueues.get? x.1 = some x.2

-- The states agree about what is known.
structure Agree (s s' : Events) : Prop where
  now             : s'.now = s.now
  topicQueues     : s'.topicQueues = s.topicQueues
  created         : s'.created = s.created
  topicLastAccess : s'.topicLastAccess = s.topicLastAccess
  topicEventMap   : s'.topicEventMap = s.topicEventMap
  snapshot        : s'.snapshot = s.snapshot

namespace Known

theorem agree (h : s.Known last) (ha : s.Agree s') : s'.Known last where
  tracked := ha.topicQueues ▸ ha.created ▸ ha.topicLastAccess ▸ h.tracked
  keys    := ha.topicEventMap ▸ h.keys
  current := ha.snapshot ▸ ha.topicQueues ▸ h.current

theorem of_last (h : s.Known last) (hl : ∀ b < s.created, last' b = last b) : s.Known last' :=
  ⟨h.tracked.of_last hl, h.keys, h.current⟩

theorem newQueue (h : s.Known last) (ht : topic ∉ s.topicQueues) :
    (s.newQueue topic capacity).Known last where
  tracked     := h.tracked.add ht
  keys        := h.keys
  current x m := by
    have hx := h.current x m
    have hne : x.1 ≠ topic := fun he => ht <| he ▸ Dict.mem_of_get? hx
    exact (Dict.get?_set_ne hne).trans hx

theorem touch (h : s.Known last) (hq : s.topicQueues.get? topic = some q) :
    (s.touch topic).Known (Function.update last q s.now) where
  tracked := h.tracked.use hq
    (fun t ht => by
      rw [Option.mem_def, Events.touch, Dict.get?_set_self] at ht
      exact (Option.some.inj ht).symm)
    fun _ hj => Dict.get?_set_ne hj
  keys    := h.keys
  current := h.current

theorem queueKey (h : s.Known last) : s.topicEventMap.getD topic topic = topic := by
  rw [Dict.getD]
  cases hk : s.topicEventMap.get? topic
  case none   => rfl
  case some k => exact h.keys topic k hk

theorem registerInterface {m : ModuleId} {i : Interface} (h : s.Known last) :
    (s.registerInterface m i topic).Known last := by
  have hc : (s.configure topic i).Known last := by
    refine ⟨h.tracked, fun t k hk => ?_, h.current⟩
    rw [configure, Dict.get?_set] at hk
    split at hk
    case isTrue ht => exact (Option.some.inj hk).symm.trans ht.symm
    case isFalse   => exact h.keys t k hk
  have hn : (if topic ∈ (s.configure topic i).topicQueues then s.configure topic i
      else (s.configure topic i).newQueue topic i.maxQueueDepth).Known last := by
    split
    case isTrue     => exact hc
    case isFalse ht => exact hc.newQueue ht
  rw [Events.registerInterface]
  cases i.pattern <;> exact hn.agree ⟨rfl, rfl, rfl, rfl, rfl, rfl⟩

theorem registerInterfaces {m : ModuleId} {is : List Interface} (h : s.Known last) :
    (Events.registerInterfaces m is s).2.Known last := by
  induction is generalizing s
  case nil          => exact h
  case cons i is hi =>
    unfold Events.registerInterfaces
    split
    case h_1 => exact h
    case h_2 => exact hi h.registerInterface

theorem registerModule {info : ModuleInfo} (h : s.Known last) :
    (s.registerModule info).2.Known last := by
  have hm : Events.Known { s with modules := s.modules.set info.moduleId info } last :=
    h.agree ⟨rfl, rfl, rfl, rfl, rfl, rfl⟩
  exact hm.registerInterfaces

end Known

theorem unregisterInterfaces_agree {m : ModuleId} {is : List Interface} :
    s.Agree (unregisterInterfaces m is s).2 := by
  induction is generalizing s
  case nil          => exact ⟨rfl, rfl, rfl, rfl, rfl, rfl⟩
  case cons i is hi =>
    unfold unregisterInterfaces
    split
    · exact ⟨rfl, rfl, rfl, rfl, rfl, rfl⟩
    · exact ⟨hi.now, hi.topicQueues, hi.created, hi.topicLastAccess, hi.topicEventMap, hi.snapshot⟩

theorem unregisterModule_agree {m : ModuleId} : s.Agree (s.unregisterModule m).2 := by
  unfold unregisterModule
  split
  case h_1      => exact ⟨rfl, rfl, rfl, rfl, rfl, rfl⟩
  case h_2 info _ =>
    have ha : s.Agree (unregisterInterfaces m info.interfaces s).2 := unregisterInterfaces_agree
    split
    case h_1 he =>
      rw [he] at ha
      exact ⟨ha.now, ha.topicQueues, ha.created, ha.topicLastAccess, ha.topicEventMap, ha.snapshot⟩
    case h_2 he => rwa [he] at ha

theorem applyBackpressure_eq : ∃ r queue,
    (applyBackpressure q topic frames).run (exec works) s = (r, s.setQueue q queue) := by
  rw [run_applyBackpressure]
  cases (s.maxDepth topic).number
  case error    => exact ⟨_, s.queues q, by rw [setQueue_self]⟩
  case ok depth => exact ⟨_, _, rfl⟩

theorem setQueue_agree : s.Agree (s.setQueue q queue) :=
  ⟨rfl, rfl, rfl, rfl, rfl, rfl⟩

-- The queue that a message is offered to.
def offered? (s : Events) (frames : List Bytes) : Option ℕ :=
  if raised ((enqueueFromXsub frames).run (exec fun _ => true) s).1 then none
  else (s.offer? frames).map Offer.queue

section Enqueue

variable {topicFrame frame : Bytes}

theorem run_enqueue_of_some (hd : decode topicFrame = .ok topic)
    (hk : s.topicEventMap.getD topic topic = topic) (hq : s.topicQueues.get? topic = some q) :
    let x := (enqueueFromXsub (topicFrame :: frame :: frames)).run (exec works) s
    ∃ queue, raised x.1 = true ∧ x.2 = s.setQueue q queue ∨
      raised x.1 = false ∧ x.2 = (s.setQueue q queue).touch topic := by
  obtain ⟨r, queue, hr⟩ := @applyBackpressure_eq s works topic q (topicFrame :: frame :: frames)
  simp only [enqueueFromXsub, hd, run_bind, run_lift, run_op, exec, hk, hq, hr]
  cases r
  case error => exact ⟨queue, .inl ⟨rfl, rfl⟩⟩
  case ok    => exact ⟨queue, .inr ⟨rfl, rfl⟩⟩

theorem run_enqueue_of_none (hd : decode topicFrame = .ok topic)
    (hk : s.topicEventMap.getD topic topic = topic) (hq : s.topicQueues.get? topic = none) :
    (s.newQueue topic s.capacity).Agree
      ((enqueueFromXsub (topicFrame :: frame :: frames)).run (exec works) s).2 := by
  obtain ⟨r, queue, hr⟩ := @applyBackpressure_eq ({ s with locked := true }.newQueue topic s.capacity)
    works topic s.created (topicFrame :: frame :: frames)
  have hc : capacity { s with locked := true } = s.capacity := rfl
  simp only [enqueueFromXsub, hd, run_bind, run_lift, run_op, exec, hk, hq, withLock,
    getOrCreateQueue, run_after, hc, hr]
  cases r <;> exact ⟨rfl, rfl, rfl, rfl, rfl, rfl⟩

theorem offer?_eq (hd : decode topicFrame = .ok topic)
    (hk : s.topicEventMap.getD topic topic = topic) :
    (s.offer? (topicFrame :: frame :: frames)).map Offer.queue =
      some ((s.topicQueues.get? topic).getD s.created) := by
  simp only [offer?, hd, hk]
  cases s.topicQueues.get? topic <;> rfl

-- The last use of the queue that the message is offered to is now.
theorem Known.enqueue (h : s.Known last)
    (hl : ∀ b < s.created, last' b = if s.offered? frames = some b then s.now else last b) :
    ((enqueueFromXsub frames).run (exec fun _ => true) s).2.Known last' := by
  have unused (hu : ∀ b < s.created, s.offered? frames ≠ some b) : s.Known last' :=
    h.of_last fun b hb => (hl b hb).trans <| if_neg <| hu b hb
  have absent (ho : s.offer? frames = none) :
      ((enqueueFromXsub frames).run (exec fun _ => true) s).2.Known last' := by
    rw [run_enqueueFromXsub_none ho]
    refine unused fun b _ => ?_
    rw [offered?, ho]
    split <;> exact nofun
  rcases frames with _ | ⟨topicFrame, _ | ⟨frame, frames⟩⟩
  · exact absent rfl
  · exact absent rfl
  · cases hd : decode topicFrame
    case error => exact absent <| by simp only [offer?, hd]
    case ok topic =>
      have ho : (s.offer? (topicFrame :: frame :: frames)).map Offer.queue = _ :=
        offer?_eq hd h.queueKey
      cases hq : s.topicQueues.get? topic
      case none =>
        have hu : s.Known last' := unused fun b hb => by
          rw [offered?, ho, hq, Option.getD_none]
          split
          · exact nofun
          · exact fun he => Nat.ne_of_gt hb <| Option.some.inj he
        have hn : (s.newQueue topic s.capacity).Known last' :=
          hu.newQueue <| Dict.get?_eq_none_iff.mp hq
        exact hn.agree <| run_enqueue_of_none hd h.queueKey hq
      case some q =>
        obtain ⟨queue, ⟨hr, hs⟩ | ⟨hr, hs⟩⟩ := @run_enqueue_of_some s (fun _ => true) topic q frames
          topicFrame frame hd h.queueKey hq
        case inl =>
          rw [hs]
          refine Known.agree (unused fun b _ => ?_) setQueue_agree
          rw [offered?, hr, if_pos rfl]
          exact nofun
        case inr =>
          rw [hs]
          have hn : (s.setQueue q queue).Known last := h.agree setQueue_agree
          have ht := hn.touch hq
          refine ht.of_last fun b hb => (hl b hb).trans ?_
          rw [offered?, hr, ho, hq, Function.update_apply]
          exact if_congr (by simp [eq_comm]) rfl rfl

end Enqueue

section Drain

variable {entry : QueueEntry}

theorem run_drainEntry : let x := (drainEntry topic entry).run (exec works) s
    raised x.1 = true ∧ x.2 = s ∨ raised x.1 = false ∧ x.2 = s.touch topic := by
  simp only [drainEntry, run_bind, run_op, run_lift, exec]
  cases (s.ttl topic).exceededBy (s.now - entry.enqueueTime)
  case error => exact .inl ⟨rfl, rfl⟩
  case ok b  =>
    cases b
    case false => exact .inr ⟨rfl, rfl⟩
    case true  =>
      simp only [if_true, run_bind, run_catching, run_op, exec]
      generalize works _ = w
      cases w <;> exact .inr ⟨rfl, rfl⟩

theorem run_drain_of_none (h : s.taken? = none) :
    let x := drain.run (exec works) s
    x.2 = { s with snapshot := x.2.snapshot } ∧
      (x.2.snapshot = s.topicQueues.entries ∨ x.2.snapshot = s.snapshot.tail) := by
  simp only [drain, run_bind, run_op, exec]
  cases hn : s.snapshot.head?
  case none   => exact ⟨rfl, .inl rfl⟩
  case some x =>
    have hi : (s.queues x.2).items = [] := by
      by_contra hi
      simp [taken?, hn, hi] at h
    simp only [run_bind, run_op, exec, hi]
    exact ⟨trivial, .inr trivial⟩

theorem run_drain_of_some (h : s.taken? = some q) :
    ∃ t queue, (t, q) ∈ s.snapshot ∧
      let x := drain.run (exec works) s
      raised x.1 = true ∧ x.2 = s.setQueue q queue ∨
        raised x.1 = false ∧ x.2 = (s.setQueue q queue).touch t := by
  obtain ⟨⟨t, q'⟩, hn, h⟩ := Option.bind_eq_some_iff.mp h
  dsimp only at h
  split at h <;> cases h
  case isFalse hi =>
    obtain ⟨entry, es, hi⟩ := List.exists_cons_of_ne_nil hi
    refine ⟨t, { s.queues q with
      items     := es
      processed := (s.queues q).processed + 1
      drained   := (s.queues q).drained ++ [entry] }, List.mem_of_mem_head? hn, ?_⟩
    simp only [drain, run_bind, run_op, exec, hn, hi]
    exact run_drainEntry

-- The last use of the queue that the egress worker takes an entry from is now.
theorem Known.drain (h : s.Known last) (hl : ∀ b < s.created, last' b =
      if (if raised (drain.run (exec works) s).1 then none else s.taken?) = some b then s.now
      else last b) :
    (drain.run (exec works) s).2.Known last' := by
  have unused (hu : ∀ b < s.created,
      (if raised (Python.drain.run (exec works) s).1 then none else s.taken?) ≠ some b) :
      s.Known last' := h.of_last fun b hb => (hl b hb).trans <| if_neg <| hu b hb
  cases ht : s.taken?
  case none =>
    have hu : s.Known last' := unused fun b _ => by
      rw [ht]
      split <;> exact nofun
    obtain ⟨hs, hn⟩ := @run_drain_of_none s works ht
    rw [hs]
    refine ⟨hu.tracked, hu.keys, fun x hx => ?_⟩
    rcases hn with hn | hn
    case inl => exact Dict.get?_eq_some_iff.mpr <| hn ▸ hx
    case inr => exact h.current x <| List.mem_of_mem_tail <| hn ▸ hx
  case some q =>
    obtain ⟨t, queue, hm, ⟨hr, hs⟩ | ⟨hr, hs⟩⟩ := @run_drain_of_some s works q ht
    case inl =>
      rw [hs]
      refine Known.agree (unused fun b _ => ?_) setQueue_agree
      rw [hr, if_pos rfl]
      exact nofun
    case inr =>
      rw [hs]
      have hn : (s.setQueue q queue).Known last := h.agree setQueue_agree
      have hx := hn.touch (h.current _ hm)
      refine hx.of_last fun b hb => (hl b hb).trans ?_
      rw [hr, ht, Function.update_apply]
      exact if_congr (by simp [eq_comm]) rfl rfl

end Drain

section Collect

-- The topics that the monitor removes.
def dead (s : Events) : List Key :=
  s.topicQueues.keys.filter fun t => decide (s.Idle s.now t)

theorem run_deletes {l : List Key} (hn : l.Nodup) (hl : ∀ t ∈ l, t ∈ s.topicQueues) :
    (each (fun t => do op (.delete t); op (.popLastAccess t)) l).run (exec works) s =
      (.ok (), { s with
        topicQueues     := l.foldl Dict.erase s.topicQueues
        topicLastAccess := l.foldl Dict.erase s.topicLastAccess }) := by
  induction l generalizing s
  case nil => rfl
  case cons t l hi =>
    rw [List.nodup_cons] at hn
    rw [List.forall_mem_cons] at hl
    rw [run_each_cons]
    simp only [run_bind, run_op, exec, hl.left, if_true]
    refine hi hn.right fun t' ht' => ?_
    exact Dict.mem_erase.mpr ⟨fun he => hn.left <| he ▸ ht', hl.right t' ht'⟩

theorem run_collectTopics : collectTopics.run (exec works) s = (.ok (), { s with
    topicQueues     := s.dead.foldl Dict.erase s.topicQueues
    topicLastAccess := s.dead.foldl Dict.erase s.topicLastAccess
    locked          := false }) := by
  have hs {s' : Events} {l : List Key} {time : ℚ} :
      (select (fun t => op (.isIdle time t)) l : PyEvents (List Key)).run (exec works) s' =
        (.ok <| l.filter fun t => decide (s'.Idle time t), s') := by
    rw [run_select (q := fun t => .ok (decide (s'.Idle time t))) fun _ => rfl, chosen_ok]
  have hd {t : Key} (ht : t ∈ s.dead) : t ∈ s.topicQueues := (List.mem_filter.mp ht).left
  simp only [collectTopics, withLock, run_bind, run_op, exec, run_after, hs]
  rw [run_deletes (s := { s with locked := true })]
  · rfl
  · exact s.topicQueues.keys_nodup.filter _
  · exact fun t ht => hd ht

theorem idle_iff : s.Idle s.now topic ↔
    s.Unreferenced topic ∧ ∃ t ∈ s.topicLastAccess.get? topic, topicQueueTtl < s.now - t := by
  rw [Idle, Unreferenced, and_assoc]
  refine and_congr_right fun _ => and_congr_right fun _ => ?_
  rw [Dict.getD]
  cases s.topicLastAccess.get? topic
  case none => simp [topicQueueTtl]
  case some => simp

theorem Known.collect (h : s.Known last) (hn : s.snapshot = []) :
    (collectTopics.run (exec works) s).2.Known last ∧
      Aging.Sweeps s.topicQueues (collectTopics.run (exec works) s).2.topicQueues
        s.topicLastAccess.get? s.Unreferenced topicQueueTtl s.now := by
  rw [run_collectTopics]
  exact ⟨⟨h.tracked.erase fun _ => Dict.get?_foldl_erase, h.keys, hn ▸ nofun⟩,
    Aging.sweeps_filter fun _ => idle_iff⟩

end Collect

theorem start_known {now : ℚ} {queueCapacity : Option ℤ} : (start now queueCapacity).Known last :=
  ⟨.empty, nofun, nofun⟩

end Events

namespace Ledger

variable {works : List Bytes → Bool}

-- The queue that an operation puts a message into, or takes one from.
def usedQueue (l : Ledger) : Action → Option ℕ
  | .enqueue frames => l.events.offered? frames
  | .egress works   =>
    if raised (drain.run (Events.exec works) l.events).1 then none else l.events.taken?
  | _               => none

-- The monitor does not come in while the egress worker goes through the queues.
def Whole (l : Ledger) : Action → Prop
  | .collect => l.events.snapshot = []
  | _        => True

instance {l : Ledger} : ∀ a, Decidable (l.Whole a)
  | .collect => inferInstanceAs <| Decidable (_ = [])
  | .register _ | .unregister _ | .enqueue _ | .egress _ | .tick _ => isTrue trivial

-- The topics that the monitor removes.
def Removed (s s' : Aging.Aged Ledger ℚ) (topic : Key) : Prop :=
  topic ∈ s.state.events.topicQueues ∧ topic ∉ s'.state.events.topicQueues

-- The topics without modules with whose queues nothing has been done for too long.
def Due (s : Aging.Aged Ledger ℚ) : Key → Prop :=
  Aging.Due s.state.events.topicQueues s.last s.state.events.Unreferenced Events.topicQueueTtl
    s.state.events.now

instance {s : Aging.Aged Ledger ℚ} : DecidablePred (Due s) :=
  fun _ => inferInstanceAs <| Decidable (Aging.Due ..)

end Ledger

def aging : Aging.System Ledger Ledger.Action ℚ where
  toMachine := topicQueues
  now l     := l.events.now
  made l    := l.events.created
  used      := Ledger.usedQueue

namespace aging

open Aging

variable {s s' : Aged Ledger ℚ} {a : Ledger.Action} {as : List Ledger.Action} {now : ℚ}
variable {capacity : Option ℤ} {topic : Key}

theorem step_known (e : aging.aged.step s a = some s') (h : s.state.events.Known s.last)
    (hw : s.state.Whole a) : s'.state.events.Known s'.last := by
  obtain ⟨l, last⟩ := s'
  obtain ⟨hl, rfl⟩ : s.state.step a = some l ∧ last = aging.lastAfter s a := System.aged_step e
  have unused (hu : s.state.usedQueue a = none) : s.state.events.Known (aging.lastAfter s a) :=
    h.of_last <| System.lastAfter_of_none (y := aging) hu
  have used : ∀ b < s.state.events.created, aging.lastAfter s a b =
      if s.state.usedQueue a = some b then s.state.events.now else s.last b :=
    fun _ hb => System.lastAfter_of_lt (y := aging) hb
  cases a
  case tick =>
    simp only [Ledger.step, Option.ite_none_right_eq_some, Option.some.injEq] at hl
    cases hl.right
    exact ⟨(unused rfl).tracked, (unused rfl).keys, (unused rfl).current⟩
  case register   => cases hl; exact (unused rfl).registerModule
  case unregister => cases hl; exact (unused rfl).agree Events.unregisterModule_agree
  case enqueue    => cases hl; exact h.enqueue used
  case egress     => cases hl; exact h.drain used
  case collect    => cases hl; exact ((unused rfl).collect hw).left

theorem exec_known (e : aging.aged.exec ⟨.start now capacity, fun _ => now⟩ as = some s)
    (c : aging.aged.Along (fun s a => s.state.Whole a) ⟨.start now capacity, fun _ => now⟩ as) :
    s.state.events.Known s.last :=
  (Machine.always_of_step (I := fun s => s.state.events.Known s.last)
    (fun _ _ _ h hw e => step_known e h hw) Events.start_known c).exec e

-- The monitor removes no topic that it should keep. It removes all that it should remove if there
-- is a last access to each of them.
theorem collect_exact_iff
    (e : aging.aged.exec ⟨.start now capacity, fun _ => now⟩ as = some s)
    (c : aging.aged.Along (fun s a => s.state.Whole a) ⟨.start now capacity, fun _ => now⟩ as)
    (hw : s.state.Whole .collect) (h : aging.aged.step s .collect = some s') :
    (∀ t, Ledger.Removed s s' t → Ledger.Due s t) ∧
      ((∀ t, Ledger.Removed s s' t ↔ Ledger.Due s t) ↔
        ∀ t, Ledger.Due s t → t ∈ s.state.events.topicLastAccess) := by
  have hk := exec_known e c
  obtain ⟨l, last⟩ := s'
  obtain ⟨h, -⟩ : s.state.step .collect = some l ∧ _ := System.aged_step h
  cases h
  have hs := (@Events.Known.collect s.state.events (fun _ => true) s.last hk hw).right
  refine ⟨fun t => hk.tracked.due_of_removed hs, (hk.tracked.removed_iff_due hs).trans ?_⟩
  refine forall_congr' fun _ => imp_congr_right fun _ => ?_
  rw [Option.isSome_iff_exists, ← Dict.mem_iff]

end aging

end Python
