import Tyche.Aging
import Tyche.Cpp.Theorems.Broadcast

namespace Cpp

open Proc

namespace Events

variable {s s' : Events} {works : List Bytes → Bool} {last last' : ℕ → ℚ} {topic : Bytes} {q : ℕ}
variable {queue : TopicQueue} {item : QueueItem}

-- The last access to a topic. There was none if its time is 0.
def seen (s : Events) (topic : Bytes) : Option ℚ :=
  if s.lastAccess.getD topic 0 = 0 then none else some <| s.lastAccess.getD topic 0

-- The queue that the egress worker is about to take an item from.
def taken? (s : Events) : Option ℕ :=
  s.snapshot.head?.bind fun (_, q) => if (s.queues q).items = [] then none else some q

-- No module takes part in the topic.
def Unreferenced (s : Events) (topic : Bytes) : Prop :=
  s.topicSubscribers.getD topic [] = [] ∧ s.topicProducers.getD topic [] = []

instance : DecidablePred s.Unreferenced :=
  fun _ => inferInstanceAs <| Decidable (_ ∧ _)

-- What the engine knows about the queues.
structure Known (s : Events) (last : ℕ → ℚ) : Prop where
  tracked : Aging.Tracked s.topicQueues s.created s.seen last
  current : ∀ x ∈ s.snapshot, s.topicQueues.get? x.1 = some x.2

-- The states agree about what is known.
structure Agree (s s' : Events) : Prop where
  topicQueues : s'.topicQueues = s.topicQueues
  created     : s'.created = s.created
  lastAccess  : s'.lastAccess = s.lastAccess
  snapshot    : s'.snapshot = s.snapshot

theorem seen_touch {t : Bytes} {time : ℚ} : (s.touch topic time).seen t =
    if t = topic then (if time = 0 then none else some time) else s.seen t := by
  simp only [seen, touch, Dict.getD, Dict.get?_set]
  split <;> rfl

theorem seen_getOrCreate : (s.getOrCreate topic).2.seen = s.seen := by
  funext t
  unfold getOrCreate
  split
  case h_1 => rfl
  case h_2 =>
    have hl : (if topic ∈ s.lastAccess then s.lastAccess else s.lastAccess.set topic 0).getD t 0 =
        s.lastAccess.getD t 0 := by
      split
      case isTrue     => rfl
      case isFalse hn =>
        rw [Dict.getD, Dict.getD, Dict.get?_set]
        split
        case isTrue ht => rw [ht, Dict.get?_eq_none_iff.mpr hn]; rfl
        case isFalse   => rfl
    simp only [seen, hl]

namespace Known

theorem agree (h : s.Known last) (ha : s.Agree s') : s'.Known last where
  tracked := by
    have hs : s'.seen = s.seen := by
      funext t
      simp only [seen, ha.lastAccess]
    exact ha.topicQueues ▸ ha.created ▸ hs ▸ h.tracked
  current := ha.snapshot ▸ ha.topicQueues ▸ h.current

theorem of_last (h : s.Known last) (hl : ∀ b < s.created, last' b = last b) : s.Known last' :=
  ⟨h.tracked.of_last hl, h.current⟩

theorem getOrCreate (h : s.Known last) : (s.getOrCreate topic).2.Known last := by
  have hs : (s.getOrCreate topic).2.seen = s.seen := seen_getOrCreate
  unfold Events.getOrCreate at hs ⊢
  split
  case h_1    => exact h
  case h_2 hq =>
    have ht : topic ∉ s.topicQueues := Dict.get?_eq_none_iff.mp hq
    simp only [hq] at hs
    refine ⟨?_, fun x m => ?_⟩
    · rw [hs]
      exact h.tracked.add ht
    · have hx := h.current x m
      have hne : x.1 ≠ topic := fun he => ht <| he ▸ Dict.mem_of_get? hx
      exact (Dict.get?_set_ne hne).trans hx

theorem touch {time : ℚ} (h : s.Known last) (hq : s.topicQueues.get? topic = some q) :
    (s.touch topic time).Known (Function.update last q time) where
  tracked := h.tracked.use hq
    (fun t ht => by
      rw [seen_touch, if_pos rfl] at ht
      split at ht <;> cases ht
      rfl)
    fun _ hj => seen_touch.trans <| if_neg hj
  current := h.current

-- A message is put into the queue of a topic, which may be new.
theorem accept (h : s.Known last) (ha : ((s.getOrCreate topic).2.touch topic s.now).Agree s')
    (hl : ∀ b < s.created, last' b = if s.topicQueues.get? topic = some b then s.now else last b)
    (hn : ∀ b, s.created ≤ b → last' b = s.now) : s'.Known last' := by
  refine Known.agree ?_ ha
  cases hq : s.topicQueues.get? topic
  case none =>
    have hu : s.Known last' := h.of_last fun b hb => (hl b hb).trans <| if_neg <| hq ▸ nofun
    have hg : (s.getOrCreate topic).2.topicQueues.get? topic = some s.created := by
      simp only [Events.getOrCreate, hq, Dict.get?_set_self]
    have hc : (s.getOrCreate topic).2.Known last' := hu.getOrCreate
    have ht : ((s.getOrCreate topic).2.touch topic s.now).Known
        (Function.update last' s.created s.now) := hc.touch hg
    rwa [← hn s.created le_rfl, Function.update_eq_self, hn s.created le_rfl] at ht
  case some q =>
    have hg : (s.getOrCreate topic).2 = s := by simp only [Events.getOrCreate, hq]
    rw [hg]
    refine (h.touch hq).of_last fun b hb => (hl b hb).trans ?_
    rw [hq, Function.update_apply]
    exact if_congr (by simp [eq_comm]) rfl rfl

theorem registerInterface {m : ModuleId} {i : Interface} (h : s.Known last) :
    (s.registerInterface m i).Known last := by
  have hc : (s.getOrCreate i.eventType).2.Known last := h.getOrCreate
  rw [Events.registerInterface]
  cases i.pattern <;> exact hc.agree ⟨rfl, rfl, rfl, rfl⟩

theorem registerModule {info : ModuleInfo} (h : s.Known last) :
    (s.registerModule info).Known last := by
  have hf (is : List Interface) (s : Events) (h : s.Known last) :
      (is.foldl (Events.registerInterface info.moduleId) s).Known last := by
    induction is generalizing s
    case nil         => exact h
    case cons _ _ hi => exact hi _ h.registerInterface
  exact hf _ _ <| h.agree ⟨rfl, rfl, rfl, rfl⟩

end Known

theorem unregisterModule_agree {m : ModuleId} : s.Agree (s.unregisterModule m) := by
  rw [unregisterModule]
  split <;> exact ⟨rfl, rfl, rfl, rfl⟩

section Arrival

variable {ev : Event} {data frame : Bytes} {frames : List Bytes}

theorem run_inject : ((s.getOrCreate topic).2.touch topic s.now).Agree
    ((inject ev topic data).run (exec works) s).2 := by
  simp only [inject, run_bind, run_op, exec]
  have hn : (s.getOrCreate topic).2.now = s.now := by
    rw [getOrCreate]
    split <;> rfl
  rw [← hn]
  exact ⟨rfl, rfl, rfl, rfl⟩

theorem run_proxyEvent : ((s.getOrCreate topic).2.touch topic s.now).Agree
    ((proxyEvent ev (topic :: frame :: frames)).run (exec works) s).2 := by
  simp only [proxyEvent, enqueueFromXsub, run_bind, run_op, exec, getOrCreate]
  generalize works (topic :: frame :: frames) = w
  cases hq : s.topicQueues.get? topic <;> cases w <;>
    simp only [Bool.false_eq_true, if_false, if_true, hq, run_bind, run_op, run_pure, exec,
      getOrCreate] <;> exact ⟨rfl, rfl, rfl, rfl⟩

end Arrival

section Drain

theorem run_drainItem : (s.touch topic s.now).Agree
    ((drainItem topic item).run (exec works) s).2 := by
  simp only [drainItem, run_bind, run_op, exec]
  by_cases hx : item.Expired s.now
  case neg =>
    simp only [hx, if_false, run_bind, run_op, exec]
    exact ⟨rfl, rfl, rfl, rfl⟩
  case pos =>
    simp only [hx, if_true, run_bind, run_op, exec]
    split <;> exact ⟨rfl, rfl, rfl, rfl⟩

theorem run_drain_of_none (h : s.taken? = none) :
    let s' := (drain.run (exec works) s).2
    s.Agree { s' with snapshot := s.snapshot } ∧
      (s'.snapshot = s.topicQueues.entries ∨ s'.snapshot = s.snapshot.tail) := by
  simp only [drain, run_bind, run_op, exec]
  cases hn : s.snapshot.head?
  case none   => exact ⟨⟨rfl, rfl, rfl, rfl⟩, .inl rfl⟩
  case some x =>
    have hi : (s.queues x.2).items = [] := by
      by_contra hi
      simp [taken?, hn, hi] at h
    simp only [run_bind, run_op, exec, TopicQueue.get_nil hi]
    exact ⟨⟨rfl, rfl, rfl, rfl⟩, .inr rfl⟩

theorem run_drain_of_some (h : s.taken? = some q) : ∃ t, (t, q) ∈ s.snapshot ∧
    (s.touch t s.now).Agree (drain.run (exec works) s).2 := by
  obtain ⟨⟨t, q'⟩, hn, h⟩ := Option.bind_eq_some_iff.mp h
  dsimp only at h
  split at h <;> cases h
  case isFalse hi =>
    obtain ⟨item, items, hi⟩ := List.exists_cons_of_ne_nil hi
    refine ⟨t, List.mem_of_mem_head? hn, ?_⟩
    simp only [drain, run_bind, run_op, exec, hn, TopicQueue.get_cons hi]
    obtain ⟨ht, hc, hl, hs⟩ := run_drainItem (s := s.setQueue q
      { s.queues q with items := items, drained := (s.queues q).drained ++ [item] })
    exact ⟨ht, hc, hl, hs⟩

-- The last use of the queue that the egress worker takes an item from is now.
theorem Known.drain (h : s.Known last)
    (hl : ∀ b < s.created, last' b = if s.taken? = some b then s.now else last b) :
    (drain.run (exec works) s).2.Known last' := by
  cases ht : s.taken?
  case none =>
    have hu : s.Known last' := h.of_last fun b hb => (hl b hb).trans <| if_neg <| ht ▸ nofun
    obtain ⟨ha, hn⟩ := @run_drain_of_none s works ht
    have hd := hu.agree ha
    refine ⟨hd.tracked, fun x hx => ?_⟩
    rw [show _ = _ from ha.topicQueues]
    rcases hn with hn | hn
    case inl => exact Dict.get?_eq_some_iff.mpr <| hn ▸ hx
    case inr => exact h.current x <| List.mem_of_mem_tail <| hn ▸ hx
  case some q =>
    obtain ⟨t, hm, ha⟩ := @run_drain_of_some s works q ht
    refine Known.agree ?_ ha
    refine (h.touch <| h.current _ hm).of_last fun b hb => (hl b hb).trans ?_
    rw [ht, Function.update_apply]
    exact if_congr (by simp [eq_comm]) rfl rfl

end Drain

section Collect

variable {active : List Bytes}

-- The topic is to be removed if it is not one of these.
def Stale (s : Events) (topic : Bytes) : Prop :=
  ∃ t ∈ s.seen topic, topicQueueTtl < s.now - t

instance {s : Events} {topic : Bytes} : Decidable (s.Stale topic) :=
  inferInstanceAs <| Decidable (∃ t ∈ _, _)

theorem run_collectTopic : (collectTopic s.now active topic).run (exec works) s =
    (.ok (), if topic ∉ active ∧ s.Stale topic then s.erase topic else s) := by
  unfold collectTopic
  split
  case isTrue ha => rw [if_neg fun h => h.left ha]; rfl
  case isFalse ha =>
    simp only [run_bind, run_op, exec]
    have hs : topicQueueTtl < s.now -
        (if s.lastAccess.getD topic 0 = 0 then s.now else s.lastAccess.getD topic 0) ↔
        s.Stale topic := by
      rw [Stale, seen]
      split <;> simp [topicQueueTtl]
    simp only [hs, ha, not_false_eq_true, true_and]
    split <;> rfl

theorem erase_seen {t : Bytes} : (s.erase topic).seen t = if t = topic then none else s.seen t := by
  have hl : (s.erase topic).lastAccess.getD t 0 =
      if t = topic then 0 else s.lastAccess.getD t 0 := by
    rw [erase, Dict.getD, Dict.get?_erase]
    split <;> rfl
  rw [seen, hl]
  split
  case isTrue  => rfl
  case isFalse => rfl

theorem run_collects {l : List Bytes} (hn : l.Nodup) :
    (each (collectTopic s.now active) l).run (exec works) s =
      (.ok (), (l.filter fun t => t ∉ active ∧ s.Stale t).foldl erase s) := by
  induction l generalizing s
  case nil          => rfl
  case cons t l hi =>
    rw [List.nodup_cons] at hn
    rw [run_each_cons, run_collectTopic, List.filter_cons]
    dsimp only
    by_cases ht : t ∉ active ∧ s.Stale t
    case neg => rw [if_neg ht, if_neg <| by simpa using ht, hi hn.right]
    case pos =>
      have hs : l.filter (fun t' => decide (t' ∉ active ∧ (s.erase t).Stale t')) =
          l.filter fun t' => decide (t' ∉ active ∧ s.Stale t') := by
        refine List.filter_congr fun t' ht' => ?_
        have hne : t' ≠ t := fun he => hn.left <| he ▸ ht'
        simp only [Stale, erase_seen, if_neg hne]
        rfl
      rw [if_pos ht, if_pos <| by simpa using ht, List.foldl_cons, ← hs]
      exact hi (s := s.erase t) hn.right

theorem foldl_erase {l : List Bytes} : l.foldl erase s = { s with
    topicQueues := l.foldl Dict.erase s.topicQueues
    lastAccess  := l.foldl Dict.erase s.lastAccess } := by
  induction l generalizing s
  case nil         => rfl
  case cons _ _ hi => exact hi

theorem mem_activeTopics : topic ∉ s.activeTopics ↔ s.Unreferenced topic := by
  have ha {d : Dict Bytes (List ModuleId)} :
      topic ∈ (d.entries.filter (·.2 ≠ [])).map Prod.fst ↔ d.getD topic [] ≠ [] := by
    simp only [List.mem_map, List.mem_filter, Prod.exists, exists_and_right, exists_eq_right,
      ← Dict.get?_eq_some_iff, Dict.getD, decide_eq_true_eq]
    cases d.get? topic <;> simp
  rw [activeTopics, List.mem_append, not_or, ha, ha, not_not, not_not, Unreferenced]

theorem run_collectTopics : (collectTopics.run (exec works) s).2 =
    (s.topicQueues.keys.filter fun t => t ∉ s.activeTopics ∧ s.Stale t).foldl erase s := by
  simp only [collectTopics, run_bind, run_op, exec]
  exact congrArg Prod.snd <| run_collects s.topicQueues.keys_nodup

theorem Known.collect (h : s.Known last) (hn : s.snapshot = []) :
    (collectTopics.run (exec works) s).2.Known last ∧
      Aging.Sweeps s.topicQueues (collectTopics.run (exec works) s).2.topicQueues s.seen
        s.Unreferenced topicQueueTtl s.now := by
  rw [run_collectTopics, foldl_erase]
  constructor
  case left  =>
    refine ⟨h.tracked.erase fun t => ?_, hn ▸ nofun⟩
    rw [seen, Dict.getD, Dict.get?_foldl_erase]
    split
    case isTrue  => rfl
    case isFalse => rfl
  case right => exact Aging.sweeps_filter fun _ => and_congr_left fun _ => mem_activeTopics

end Collect

theorem start_known {now : ℚ} {queueCapacity : BitVec 32} : (start now queueCapacity).Known last :=
  ⟨.empty, nofun⟩

end Events

namespace Broadcast

-- The queue that an operation puts a message into, or takes one from.
def usedQueue (s : Broadcast) : Action → Option ℕ
  | .event (topic :: _ :: _)             => s.events.topicQueues.get? topic
  | .inject topic _ | .injectRaw topic _ => s.events.topicQueues.get? topic
  | .bridge topic _                      =>
    if topic = [] then none else s.events.topicQueues.get? topic
  | .egress _                            => s.events.taken?
  | _                                    => none

-- The monitor does not come in while the egress worker goes through the queues.
def Whole (s : Broadcast) : Action → Prop
  | .collect => s.events.snapshot = []
  | _        => True

instance {s : Broadcast} : ∀ a, Decidable (s.Whole a)
  | .collect => inferInstanceAs <| Decidable (_ = [])
  | .tick _ | .event _ | .inject .. | .injectRaw .. | .bridge .. | .egress _ | .register _
  | .unregister _ => isTrue trivial

-- The topics that the monitor removes.
def Removed (s s' : Aging.Aged Broadcast ℚ) (topic : Bytes) : Prop :=
  topic ∈ s.state.events.topicQueues ∧ topic ∉ s'.state.events.topicQueues

-- The topics without modules with whose queues nothing has been done for too long.
def Due (s : Aging.Aged Broadcast ℚ) : Bytes → Prop :=
  Aging.Due s.state.events.topicQueues s.last s.state.events.Unreferenced Events.topicQueueTtl
    s.state.events.now

instance {s : Aging.Aged Broadcast ℚ} : DecidablePred (Due s) :=
  fun _ => inferInstanceAs <| Decidable (Aging.Due ..)

end Broadcast

def aging : Aging.System Broadcast Broadcast.Action ℚ where
  toMachine := broadcast
  now s     := s.events.now
  made s    := s.events.created
  used      := Broadcast.usedQueue

namespace aging

open Aging

variable {s s' : Aged Broadcast ℚ} {a : Broadcast.Action} {as : List Broadcast.Action} {now : ℚ}
variable {capacity : BitVec 32}

theorem step_known (e : aging.aged.step s a = some s') (h : s.state.events.Known s.last)
    (hw : s.state.Whole a) : s'.state.events.Known s'.last := by
  obtain ⟨b, last⟩ := s'
  obtain ⟨hl, rfl⟩ : s.state.step a = some b ∧ last = aging.lastAfter s a := System.aged_step e
  have unused (hu : s.state.usedQueue a = none) : s.state.events.Known (aging.lastAfter s a) :=
    h.of_last <| System.lastAfter_of_none (y := aging) hu
  have used : ∀ b < s.state.events.created, aging.lastAfter s a b =
      if s.state.usedQueue a = some b then s.state.events.now else s.last b :=
    fun _ hb => System.lastAfter_of_lt (y := aging) hb
  have made : ∀ b, s.state.events.created ≤ b → aging.lastAfter s a b = s.state.events.now :=
    fun _ hb => System.lastAfter_of_le (y := aging) hb
  cases a
  case tick =>
    simp only [Broadcast.step, Option.ite_none_right_eq_some, Option.some.injEq] at hl
    cases hl.right
    exact (unused rfl).agree ⟨rfl, rfl, rfl, rfl⟩
  case event frames =>
    cases hl
    rcases frames with _ | ⟨topic, _ | ⟨frame, frames⟩⟩
    · exact (unused rfl).agree ⟨rfl, rfl, rfl, rfl⟩
    · exact (unused rfl).agree ⟨rfl, rfl, rfl, rfl⟩
    · exact h.accept Events.run_proxyEvent used made
  case inject    => cases hl; exact h.accept Events.run_inject used made
  case injectRaw => cases hl; exact h.accept Events.run_inject used made
  case bridge topic payload =>
    cases hl
    by_cases ht : topic = []
    case pos =>
      have hr : (s.state.enter true (forwardToZmq · topic payload)).events = s.state.events := by
        simp only [Broadcast.enter, Broadcast.run, forwardToZmq, ht, if_true]
        rfl
      have hu : s.state.usedQueue (.bridge topic payload) = none := if_pos ht
      exact hr ▸ unused hu
    case neg =>
      have hr : ((s.state.events.getOrCreate topic).2.touch topic s.state.events.now).Agree
          (s.state.enter true (forwardToZmq · topic payload)).events := by
        simp only [Broadcast.enter, Broadcast.run, forwardToZmq, ht, if_false]
        exact Events.run_inject
      have hu : s.state.usedQueue (.bridge topic payload) = s.state.events.topicQueues.get? topic :=
        if_neg ht
      exact h.accept hr (hu ▸ used) made
  case egress     => cases hl; exact h.drain used
  case collect    => cases hl; exact ((unused rfl).collect hw).left
  case register   => cases hl; exact (unused rfl).registerModule
  case unregister => cases hl; exact (unused rfl).agree Events.unregisterModule_agree

theorem exec_known (e : aging.aged.exec ⟨.start now capacity, fun _ => now⟩ as = some s)
    (c : aging.aged.Along (fun s a => s.state.Whole a) ⟨.start now capacity, fun _ => now⟩ as) :
    s.state.events.Known s.last :=
  (Machine.always_of_step (I := fun s => s.state.events.Known s.last)
    (fun _ _ _ h hw e => step_known e h hw) Events.start_known c).exec e

-- The monitor removes no topic that it should keep. It removes all that it should remove if there
-- is a last access to each of them.
theorem collect_exact_iff
    (e : aging.aged.exec ⟨.start now capacity, fun _ => now⟩ as = some s)
    (c : aging.aged.Along (fun s a => s.state.Whole a) ⟨.start now capacity, fun _ => now⟩ as)
    (hw : s.state.Whole .collect) (h : aging.aged.step s .collect = some s') :
    (∀ t, Broadcast.Removed s s' t → Broadcast.Due s t) ∧
      ((∀ t, Broadcast.Removed s s' t ↔ Broadcast.Due s t) ↔
        ∀ t, Broadcast.Due s t → s.state.events.lastAccess.getD t 0 ≠ 0) := by
  have hk := exec_known e c
  obtain ⟨b, last⟩ := s'
  obtain ⟨h, -⟩ : s.state.step .collect = some b ∧ _ := System.aged_step h
  cases h
  have hs := (@Events.Known.collect s.state.events (fun _ => true) s.last hk hw).right
  refine ⟨fun t => hk.tracked.due_of_removed hs, (hk.tracked.removed_iff_due hs).trans ?_⟩
  have hd {t} : (s.state.events.seen t).isSome ↔ s.state.events.lastAccess.getD t 0 ≠ 0 := by
    rw [Events.seen]
    split <;> simp_all
  exact forall_congr' fun _ => imp_congr_right fun _ => hd

end aging

end Cpp
