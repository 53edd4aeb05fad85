import Tyche.Cpp.EventProxy
import Tyche.Machine

namespace Cpp

open Proc

namespace TopicQueue

variable {q : TopicQueue} {item : QueueItem} {items : List QueueItem}

-- The items that the egress worker has removed or has yet to remove.
def held (q : TopicQueue) : List QueueItem :=
  q.drained ++ q.items

theorem held_put : (q.put item).held.Sublist (q.held ++ [item]) := by
  unfold put held
  split
  · simp
  · simpa using ((List.tail_sublist q.items).append_right [item]).append_left q.drained

theorem mem_items_put {x : QueueItem} (h : x ∈ (q.put item).items) : x ∈ q.items ∨ x = item := by
  unfold put at h
  split at h
  · simpa using h
  · simpa using (List.mem_append.mp h).imp_left List.mem_of_mem_tail

theorem drained_put : (q.put item).drained = q.drained := by
  unfold put
  split <;> rfl

theorem get_cons (h : q.items = item :: items) :
    q.get = (some item, { q with items := items, drained := q.drained ++ [item] }) := by
  simp [get, h]

theorem get_nil (h : q.items = []) : q.get = (none, q) := by
  simp [get, h]

end TopicQueue

-- The engine, with the number of events that came in so far.
structure Broadcast where
  events : Events
  next   : ℕ

namespace Broadcast

inductive Action
  | tick (duration : ℚ)
  | event (frames : List Bytes)
  | inject (topic messageData : Bytes)
  | injectRaw (topic data : Bytes)
  | bridge (topic payload : Bytes)
  | egress (works : List Bytes → Bool)
  | collect
  | register (info : ModuleInfo)
  | unregister (m : ModuleId)

def start (now : ℚ) (queueCapacity : BitVec 32) : Broadcast where
  events := .start now queueCapacity
  next   := 0

def run (s : Broadcast) (works : List Bytes → Bool) (p : CppEvents Unit) : Broadcast :=
  { s with events := (p.run (Events.exec works) s.events).2 }

-- An event comes in. Messages can be sent.
def enter (s : Broadcast) (injected : Bool) (p : Event → CppEvents Unit) : Broadcast :=
  { s.run (fun _ => true) (p ⟨s.next, injected⟩) with next := s.next + 1 }

def step (s : Broadcast) : Action → Option Broadcast
  | .tick duration   =>
    if 0 ≤ duration then some { s with events := s.events.elapse duration } else none
  | .event frames    => some <| s.enter false (proxyEvent · frames)
  | .inject topic d  => some <| s.enter true (injectEvent · topic d)
  | .injectRaw t d   => some <| s.enter true (injectEventRaw · t d)
  | .bridge topic d  => some <| s.enter true (forwardToZmq · topic d)
  | .egress works    => some <| s.run works drain
  | .collect         => some <| s.run (fun _ => true) collectTopics
  | .register info   => some { s with events := s.events.registerModule info }
  | .unregister m    => some { s with events := s.events.unregisterModule m }

-- The event of an item that the egress worker has removed was sent once or persisted once, and not
-- both.
def Settled (s : Broadcast) : Prop :=
  ∀ q, ∀ item ∈ (s.events.queues q).drained,
    s.events.sent.count item.event + s.events.persisted.count item.event = 1

-- The item that the egress worker is about to remove.
def removed? (s : Events) : Option QueueItem :=
  s.snapshot.head?.bind fun (_, q) => (s.queues q).items.head?

-- An item is persisted if and only if its event was injected.
def Accounted (s : Broadcast) : Action → Prop
  | .egress works => ∀ item ∈ removed? s.events,
    item.event.injected ↔ item.Expired s.events.now ∧ works [item.message]
  | _             => True

instance {s : Broadcast} : ∀ a, Decidable (s.Accounted a)
  | .egress works => inferInstanceAs <| Decidable (∀ item ∈ removed? s.events,
    item.event.injected ↔ item.Expired s.events.now ∧ works [item.message])
  | .tick _ | .event _ | .inject .. | .injectRaw .. | .bridge .. | .collect | .register _
  | .unregister _ => isTrue trivial

variable {s s' : Broadcast} {e e' : Events} {n : ℕ} {q : ℕ} {ev : Event} {item : QueueItem}
variable {frames : List Bytes} {topic data : Bytes} {works : List Bytes → Bool}

-- What is known about the events whose items the queues hold.
structure Inv (s : Broadcast) : Prop where
  numbered : ∀ q, ∀ x ∈ (s.events.queues q).held, x.event.number < s.next
  sent     : ∀ q, ∀ x ∈ (s.events.queues q).held,
    s.events.sent.count x.event = if x.event.injected then 0 else 1
  nodup    : ∀ q, ((s.events.queues q).held.map QueueItem.event).Nodup
  apart    : ∀ p q, p ≠ q → ∀ x ∈ (s.events.queues p).held, ∀ y ∈ (s.events.queues q).held,
    x.event ≠ y.event
  known    : ∀ e ∈ s.events.sent ++ s.events.persisted, e.number < s.next
  waiting  : ∀ q, ∀ x ∈ (s.events.queues q).items, x.event ∉ s.events.persisted

-- The states agree about the items and the events.
structure Alike (e e' : Events) : Prop where
  queues    : e'.queues = e.queues
  sent      : e'.sent = e.sent
  persisted : e'.persisted = e.persisted

theorem Alike.trans {e₁ : Events} (h₁ : Alike e e₁) (h₂ : Alike e₁ e') : Alike e e' where
  queues    := h₂.queues.trans h₁.queues
  sent      := h₂.sent.trans h₁.sent
  persisted := h₂.persisted.trans h₁.persisted

theorem Inv.alike (h : Inv ⟨e, n⟩) (ha : Alike e e') : Inv ⟨e', n⟩ := by
  obtain ⟨hq, hs, hp⟩ := ha
  exact ⟨by simpa only [hq] using h.numbered, by simpa only [hq, hs] using h.sent,
    by simpa only [hq] using h.nodup, by simpa only [hq] using h.apart,
    by simpa only [hs, hp] using h.known, by simpa only [hq, hp] using h.waiting⟩

theorem settled_alike (ha : Alike e e') : Settled ⟨e', n⟩ ↔ Settled ⟨e, n⟩ := by
  simp only [Settled, ha.queues, ha.sent, ha.persisted]

-- What an event that comes in leaves of the engine.
structure Enters (ev : Event) (e e' : Events) : Prop where
  queues    : e'.queues = e.queues ∨ ∃ q item, item.event = ev ∧
    e'.queues = (e.setQueue q <| (e.queues q).put item).queues
  sent      : e'.sent = if ev.injected then e.sent else e.sent ++ [ev]
  persisted : e'.persisted = e.persisted

theorem alike_getOrCreate : Alike e (e.getOrCreate topic).2 := by
  unfold Events.getOrCreate
  split <;> exact ⟨rfl, rfl, rfl⟩

theorem Enters.put {e₁ : Events} (h₁ : e₁.queues = e.queues) (hi : item.event = ev)
    (hq : e'.queues = (e₁.setQueue q <| (e₁.queues q).put item).queues)
    (hs : e'.sent = if ev.injected then e.sent else e.sent ++ [ev])
    (hp : e'.persisted = e.persisted) : Enters ev e e' := by
  refine ⟨.inr ⟨q, item, hi, ?_⟩, hs, hp⟩
  simp only [hq, Events.setQueue, h₁]

theorem enters_proxyEvent (he : ev.injected = false) :
    Enters ev e ((proxyEvent ev frames).run (Events.exec fun _ => true) e).2 := by
  simp only [proxyEvent, run_bind, run_op, Events.exec, if_true]
  unfold enqueueFromXsub
  split
  case h_2 => exact ⟨.inl rfl, by simp [he], rfl⟩
  case h_1 t _ _ =>
    simp only [run_bind, run_op, Events.exec]
    cases e.topicQueues.get? t
    case some q =>
      simp only [run_bind, run_op, run_pure, Events.exec]
      exact .put rfl rfl rfl (by simp [he]; rfl) rfl
    case none   =>
      simp only [run_bind, run_op, Events.exec]
      have ha : Alike { e with sent := e.sent ++ [ev] }
          (Events.getOrCreate { e with sent := e.sent ++ [ev] } t).2 := alike_getOrCreate
      exact .put ha.queues rfl rfl (ha.sent.trans <| by simp [he]) ha.persisted

theorem enters_inject (he : ev.injected) :
    Enters ev e ((inject ev topic data).run (Events.exec fun _ => true) e).2 := by
  simp only [inject, run_bind, run_op, Events.exec]
  have ha : Alike e (e.getOrCreate topic).2 := alike_getOrCreate
  exact .put ha.queues rfl rfl (ha.sent.trans <| by simp [he]) ha.persisted

theorem enters_forwardToZmq (he : ev.injected) :
    Enters ev e ((forwardToZmq ev topic data).run (Events.exec fun _ => true) e).2 := by
  unfold forwardToZmq
  split
  · exact ⟨.inl rfl, by simp [he], rfl⟩
  · exact enters_inject he

-- An item that is new has the event that came in, and there is at most one.
theorem Enters.held (he : Enters ev e e') : ∃ p, ∀ q, ∃ new : List QueueItem,
    (e'.queues q).held.Sublist ((e.queues q).held ++ new) ∧
      (new = [] ∨ q = p ∧ ∃ item, new = [item] ∧ item.event = ev) := by
  obtain hq | ⟨p, item, hi, hq⟩ := he.queues
  case inl => exact ⟨0, fun q => ⟨[], by simp [hq], .inl rfl⟩⟩
  case inr =>
    refine ⟨p, fun q => ?_⟩
    by_cases hp : q = p
    case pos =>
      refine ⟨[item], ?_, .inr ⟨hp, item, rfl, hi⟩⟩
      simpa [hq, Events.setQueue, hp] using TopicQueue.held_put
    case neg => exact ⟨[], by simp [hq, Events.setQueue, hp], .inl rfl⟩

theorem Enters.mem_held {x : QueueItem} (he : Enters ev e e') (hx : x ∈ (e'.queues q).held) :
    x ∈ (e.queues q).held ∨ x.event = ev := by
  obtain ⟨p, hp⟩ := he.held
  obtain ⟨new, hs, hn⟩ := hp q
  obtain hx | hx := List.mem_append.mp <| hs.subset hx
  case inl => exact .inl hx
  case inr => obtain rfl | ⟨_, item, rfl, hi⟩ := hn <;> simp_all

theorem Enters.mem_items {x : QueueItem} (he : Enters ev e e') (hx : x ∈ (e'.queues q).items) :
    x ∈ (e.queues q).items ∨ x.event = ev := by
  obtain hq | ⟨p, item, hi, hq⟩ := he.queues
  case inl => exact .inl <| hq ▸ hx
  case inr =>
    simp only [hq, Events.setQueue] at hx
    split at hx
    case isTrue hp =>
      subst hp hi
      exact (TopicQueue.mem_items_put hx).imp_right <| congrArg QueueItem.event
    case isFalse   => exact .inl hx

theorem Enters.drained (he : Enters ev e e') : (e'.queues q).drained = (e.queues q).drained := by
  obtain hq | ⟨p, item, hi, hq⟩ := he.queues
  case inl => rw [hq]
  case inr =>
    simp only [hq, Events.setQueue]
    split
    case isTrue hp => rw [TopicQueue.drained_put, hp]
    case isFalse   => rfl

theorem Inv.enter (h : Inv ⟨e, n⟩) (he : Enters ev e e') (hn : ev.number = n) :
    Inv ⟨e', n + 1⟩ := by
  have hne {q x} (hx : x ∈ (e.queues q).held) : x.event ≠ ev := by
    have hl : x.event.number < n := h.numbered q x hx
    rintro rfl
    omega
  have hnm {l : List Event} (hl : ∀ e ∈ l, e.number < n) : ev ∉ l := fun hm => by
    have := hl ev hm
    omega
  have hk := h.known
  simp only [List.mem_append] at hk
  constructor
  case numbered =>
    intro q x hx
    obtain hx | rfl := he.mem_held hx
    · exact Nat.lt_succ_of_lt <| h.numbered q x hx
    · exact hn ▸ Nat.lt_succ_self _
  case sent     =>
    intro q x hx
    have hs : e.sent.count ev = 0 := List.count_eq_zero.mpr <| hnm fun e he => hk e <| .inl he
    simp only [he.sent]
    obtain hx | rfl := he.mem_held hx
    case inl =>
      have hc : e.sent.count x.event = _ := h.sent q x hx
      split
      · exact hc
      · simp [hc, (hne hx).symm]
    case inr => split <;> simp [hs]
  case nodup    =>
    intro q
    obtain ⟨p, hp⟩ := he.held
    obtain ⟨new, hs, hnew⟩ := hp q
    refine (hs.map _).nodup ?_
    obtain rfl | ⟨_, item, rfl, hi⟩ := hnew
    · simpa using h.nodup q
    · simp only [List.map_append, List.map_cons, List.map_nil, List.nodup_append]
      refine ⟨h.nodup q, List.nodup_singleton _, ?_⟩
      simp only [List.mem_map, List.mem_singleton, forall_exists_index, and_imp]
      rintro _ x hx rfl _ rfl
      exact hi ▸ hne hx
  case apart    =>
    intro q₁ q₂ hq x hx y hy
    obtain ⟨p, hp⟩ := he.held
    obtain ⟨new₁, hs₁, hn₁⟩ := hp q₁
    obtain ⟨new₂, hs₂, hn₂⟩ := hp q₂
    obtain hx | hx := List.mem_append.mp <| hs₁.subset hx <;>
      obtain hy | hy := List.mem_append.mp <| hs₂.subset hy
    case inl.inl => exact h.apart q₁ q₂ hq x hx y hy
    case inl.inr =>
      obtain rfl | ⟨_, item, rfl, hi⟩ := hn₂
      · cases hy
      · rw [List.mem_singleton.mp hy, hi]
        exact hne hx
    case inr.inl =>
      obtain rfl | ⟨_, item, rfl, hi⟩ := hn₁
      · cases hx
      · rw [List.mem_singleton.mp hx, hi]
        exact (hne hy).symm
    case inr.inr =>
      obtain rfl | ⟨h₁, _⟩ := hn₁
      · cases hx
      · obtain rfl | ⟨h₂, _⟩ := hn₂
        · cases hy
        · exact absurd (h₁.trans h₂.symm) hq
  case known    =>
    intro e₁ he₁
    simp only [he.sent, he.persisted, List.mem_append] at he₁
    split at he₁ <;> grind
  case waiting  =>
    intro q x hx
    simp only [he.persisted]
    obtain hx | rfl := he.mem_items hx
    · exact h.waiting q x hx
    · exact hnm fun e he => hk e <| .inr he

theorem settled_enter (h : Inv ⟨e, n⟩) (hs : Settled ⟨e, n⟩) (he : Enters ev e e')
    (hn : ev.number = n) : Settled ⟨e', n + 1⟩ := by
  intro q x hx
  have hx : x ∈ (e.queues q).drained := he.drained ▸ hx
  have hc : e.sent.count x.event + e.persisted.count x.event = 1 := hs q x hx
  have hne : ev ≠ x.event := by
    have hl : x.event.number < n := h.numbered q x <| List.mem_append_left _ hx
    rintro rfl
    omega
  simp only [he.sent, he.persisted]
  split
  · exact hc
  · simpa [hne] using hc

-- What the monitor does has nothing to do with items and events.
def EventOp.Quiet {β : Type} : EventOp β → Prop
  | .send .. | .put .. | .get _ | .persist .. => False
  | _                                         => True

theorem all_collectTopics : collectTopics.All EventOp.Quiet := by
  refine (all_op trivial).bind fun now => (all_op trivial).bind fun active => ?_
  refine (all_op trivial).bind fun topics => .each fun topic => ?_
  unfold collectTopic
  split
  · trivial
  · refine (all_op trivial).bind fun last => ?_
    dsimp only
    generalize (if last = 0 then now else last) = last
    split
    · exact all_op trivial
    · trivial

theorem alike_quiet {β : Type} {o : EventOp β} (ho : EventOp.Quiet o) :
    Alike e (Events.exec works o e).2 := by
  cases o <;> first | exact ⟨rfl, rfl, rfl⟩ | exact alike_getOrCreate | cases ho

theorem alike_collectTopics : Alike e (collectTopics.run (Events.exec works) e).2 :=
  all_collectTopics.run (fun _ _ ho h => h.trans <| alike_quiet ho) ⟨rfl, rfl, rfl⟩

theorem alike_registerInterface {m : ModuleId} {i : Interface} :
    Alike e (e.registerInterface m i) := by
  have h : Alike e (e.getOrCreate i.eventType).2 := alike_getOrCreate
  unfold Events.registerInterface
  dsimp only
  split <;> exact ⟨h.queues, h.sent, h.persisted⟩

theorem alike_registerModule {info : ModuleInfo} : Alike e (e.registerModule info) := by
  have hf (l : List Interface) (e' : Events) (h : Alike e e') :
      Alike e (l.foldl (Events.registerInterface info.moduleId) e') := by
    induction l generalizing e'
    case nil            => exact h
    case cons i _ hi => exact hi _ <| h.trans alike_registerInterface
  exact hf _ _ ⟨rfl, rfl, rfl⟩

theorem alike_unregisterModule {m : ModuleId} : Alike e (e.unregisterModule m) := by
  unfold Events.unregisterModule
  split <;> exact ⟨rfl, rfl, rfl⟩

-- What the egress worker does with an item that it removes.
structure Drains (works : List Bytes → Bool) (q : ℕ) (item : QueueItem) (rest : List QueueItem)
    (e e' : Events) : Prop where
  items     : (e.queues q).items = item :: rest
  queues    : e'.queues = (e.setQueue q
    { e.queues q with items := rest, drained := (e.queues q).drained ++ [item] }).queues
  sent      : e'.sent = e.sent
  persisted : e'.persisted = if item.Expired e.now ∧ works [item.message] then
    e.persisted ++ [item.event] else e.persisted

theorem run_drainItem {e' : Events}
    (h : ((drainItem topic item).run (Events.exec works) e).2 = e') :
    e'.queues = e.queues ∧ e'.sent = e.sent ∧
      e'.persisted = if item.Expired e.now ∧ works [item.message] then
        e.persisted ++ [item.event] else e.persisted := by
  subst h
  simp only [drainItem, run_bind, run_op, Events.exec]
  by_cases hx : item.Expired e.now
  case neg => simp [hx, run_bind, Events.exec, Events.touch]
  case pos =>
    by_cases hw : works [item.message]
    · simp [hx, hw, run_bind, Events.exec, Events.touch]
    · simp [hx, hw, run_bind, Events.exec, Events.touch]

theorem drain_cases : (removed? e = none ∧ Alike e (drain.run (Events.exec works) e).2) ∨
    ∃ q item rest, removed? e = some item ∧
      Drains works q item rest e (drain.run (Events.exec works) e).2 := by
  simp only [drain, removed?, run_bind, run_op, Events.exec]
  cases hn : e.snapshot.head?
  case none   => exact .inl ⟨rfl, rfl, rfl, rfl⟩
  case some x =>
    obtain ⟨topic, q⟩ := x
    simp only [run_bind, run_op, Events.exec, Option.bind_some]
    cases hi : (e.queues q).items
    case nil            =>
      simp only [TopicQueue.get_nil hi, run_op, Events.exec]
      refine .inl ⟨rfl, ?_, rfl, rfl⟩
      funext p
      simp only [Events.setQueue]
      split
      case isTrue hp => rw [hp]
      case isFalse   => rfl
    case cons item rest =>
      right
      refine ⟨q, item, rest, rfl, ?_⟩
      simp only [TopicQueue.get_cons hi]
      have ⟨hq, hs, hp⟩ := @run_drainItem (e.setQueue q
        { e.queues q with items := rest, drained := (e.queues q).drained ++ [item] })
        item topic works _ rfl
      exact ⟨hi, hq, hs, hp⟩

namespace Drains

variable {rest : List QueueItem} {p : ℕ}

theorem held (hd : Drains works q item rest e e') : (e'.queues p).held = (e.queues p).held := by
  simp only [hd.queues, Events.setQueue]
  split
  case isFalse   => rfl
  case isTrue hp => simp [hp, TopicQueue.held, hd.items]

theorem mem_held (hd : Drains works q item rest e e') : item ∈ (e.queues q).held := by
  simp [TopicQueue.held, hd.items]

theorem mem_items {x : QueueItem} (hd : Drains works q item rest e e')
    (hx : x ∈ (e'.queues p).items) : p = q ∧ x ∈ rest ∨ p ≠ q ∧ x ∈ (e.queues p).items := by
  simp only [hd.queues, Events.setQueue] at hx
  split at hx
  case isTrue hp  => exact .inl ⟨hp, hx⟩
  case isFalse hp => exact .inr ⟨hp, hx⟩

theorem drained (hd : Drains works q item rest e e') : (e'.queues p).drained =
    if p = q then (e.queues q).drained ++ [item] else (e.queues p).drained := by
  simp only [hd.queues, Events.setQueue]
  split <;> rfl

-- No other item that is held has the event of the item that is removed.
theorem nodup (hd : Drains works q item rest e e') (h : Inv ⟨e, n⟩) :
    (∀ x ∈ (e.queues q).drained, x.event ≠ item.event) ∧ ∀ x ∈ rest, x.event ≠ item.event := by
  have hn := h.nodup q
  simp only [TopicQueue.held, hd.items, List.map_append, List.map_cons, List.nodup_append,
    List.nodup_cons, List.mem_map, List.mem_cons] at hn
  grind

theorem mem_persisted {ev : Event} (hd : Drains works q item rest e e')
    (he : ev ∈ e'.persisted) : ev ∈ e.persisted ∨ ev = item.event := by
  rw [hd.persisted] at he
  split at he
  · simpa using he
  · exact .inl he

end Drains

theorem Inv.drains {rest : List QueueItem} (h : Inv ⟨e, n⟩) (hd : Drains works q item rest e e') :
    Inv ⟨e', n⟩ := by
  constructor
  case numbered => simpa only [hd.held] using h.numbered
  case sent     => simpa only [hd.held, hd.sent] using h.sent
  case nodup    => simpa only [hd.held] using h.nodup
  case apart    => simpa only [hd.held] using h.apart
  case known    =>
    intro ev he
    simp only [hd.sent, List.mem_append] at he
    obtain he | he := he
    case inl => exact h.known ev <| List.mem_append_left _ he
    case inr =>
      obtain he | rfl := hd.mem_persisted he
      · exact h.known ev <| List.mem_append_right _ he
      · exact h.numbered q item hd.mem_held
  case waiting  =>
    intro p x hx hp
    have hi {y} (hy : y ∈ rest) : y ∈ (e.queues q).items := hd.items ▸ List.mem_cons_of_mem _ hy
    obtain ⟨rfl, hx⟩ | ⟨hpq, hx⟩ := hd.mem_items hx <;>
      obtain hp | hp := hd.mem_persisted hp
    case inl.inl => exact h.waiting p x (hi hx) hp
    case inl.inr => exact (hd.nodup h).right x hx hp
    case inr.inl => exact h.waiting p x hx hp
    case inr.inr => exact h.apart p q hpq x (List.mem_append_right _ hx) item hd.mem_held hp

theorem settled_drains {rest : List QueueItem} (h : Inv ⟨e, n⟩) (hs : Settled ⟨e, n⟩)
    (hd : Drains works q item rest e e') : Settled ⟨e', n⟩ ↔
      (item.event.injected ↔ item.Expired e.now ∧ works [item.message]) := by
  have hold {p x} (hx : x ∈ (e.queues p).drained) : x.event ≠ item.event := by
    by_cases hp : p = q
    · subst hp
      exact (hd.nodup h).left x hx
    · exact h.apart p q hp x (List.mem_append_left _ hx) item hd.mem_held
  have hc : e.sent.count item.event = if item.event.injected then 0 else 1 :=
    h.sent q item hd.mem_held
  have hw : e.persisted.count item.event = 0 :=
    List.count_eq_zero.mpr <| h.waiting q item <| by simp [hd.items]
  have hp : e'.persisted.count item.event =
      if item.Expired e.now ∧ works [item.message] then 1 else 0 := by
    rw [hd.persisted]
    split <;> simp [hw]
  -- The other items that were removed are as settled as they were.
  have ho {p x} (hx : x ∈ (e.queues p).drained) :
      e'.sent.count x.event + e'.persisted.count x.event = 1 := by
    have hx' : e.sent.count x.event + e.persisted.count x.event = 1 := hs p x hx
    rw [hd.sent, hd.persisted]
    split
    · simpa [(hold hx).symm] using hx'
    · exact hx'
  constructor
  case mp =>
    intro hs'
    have hi : e'.sent.count item.event + e'.persisted.count item.event = 1 :=
      hs' q item <| by simp [hd.drained]
    rw [hd.sent, hc, hp] at hi
    split at hi <;> split at hi <;> simp_all
  case mpr =>
    intro ha p x hx
    simp only [hd.drained] at hx
    split at hx
    case isFalse => exact ho hx
    case isTrue  =>
      obtain hx | hx := List.mem_append.mp hx
      case inl => exact ho hx
      case inr =>
        rw [List.mem_singleton.mp hx]
        simp only [hd.sent, hc, hp]
        split <;> split <;> simp_all

theorem start_inv {now : ℚ} {c : BitVec 32} : (start now c).Inv where
  numbered _ _ hx := by simp [start, Events.start, TopicQueue.held, TopicQueue.new] at hx
  sent _ _ hx     := by simp [start, Events.start, TopicQueue.held, TopicQueue.new] at hx
  nodup _         := by simp [start, Events.start, TopicQueue.held, TopicQueue.new]
  apart _ _ _ _ h := by simp [start, Events.start, TopicQueue.held, TopicQueue.new] at h
  known _ he      := by simp [start, Events.start] at he
  waiting _ _ hx  := by simp [start, Events.start, TopicQueue.new] at hx

theorem start_settled {now : ℚ} {c : BitVec 32} : (start now c).Settled := by
  simp [Settled, start, Events.start, TopicQueue.new]

-- What a step does to the engine.
inductive Does (s : Broadcast) (a : Action) (s' : Broadcast) : Prop
  | alike (ha : Alike s.events s'.events) (hn : s'.next = s.next) (hc : s.Accounted a)
  | enter (ev : Event) (he : Enters ev s.events s'.events) (hv : ev.number = s.next)
    (hn : s'.next = s.next + 1) (hc : s.Accounted a)
  | drain (works : List Bytes → Bool) (q : ℕ) (item : QueueItem) (rest : List QueueItem)
    (hd : Drains works q item rest s.events s'.events) (hn : s'.next = s.next)
    (hc : s.Accounted a ↔ (item.event.injected ↔
      item.Expired s.events.now ∧ works [item.message]))

theorem step_does {a : Action} (h : s.step a = some s') : s.Does a s' := by
  cases a
  case tick duration =>
    simp only [step] at h
    split at h <;> cases h
    exact .alike ⟨rfl, rfl, rfl⟩ rfl trivial
  case event frames     => cases h; exact .enter _ (enters_proxyEvent rfl) rfl rfl trivial
  case inject topic d   => cases h; exact .enter _ (enters_inject rfl) rfl rfl trivial
  case injectRaw t d    => cases h; exact .enter _ (enters_inject rfl) rfl rfl trivial
  case bridge topic d   => cases h; exact .enter _ (enters_forwardToZmq rfl) rfl rfl trivial
  case collect          => cases h; exact .alike alike_collectTopics rfl trivial
  case register info    => cases h; exact .alike alike_registerModule rfl trivial
  case unregister m     => cases h; exact .alike alike_unregisterModule rfl trivial
  case egress works     =>
    cases h
    obtain ⟨hr, ha⟩ | ⟨q, item, rest, hr, hd⟩ := @drain_cases s.events works
    · exact .alike ha rfl <| by simp [Accounted, hr]
    · exact .drain works q item rest hd rfl <| by simp [Accounted, hr]

theorem Inv.step {a : Action} (h : s.Inv) (e : s.step a = some s') : s'.Inv := by
  obtain ⟨e, n⟩ := s
  obtain ⟨e', n'⟩ := s'
  cases step_does e
  case alike ha hn _                => cases hn; exact h.alike ha
  case enter ev he hv hn _          => cases hn; exact h.enter he hv
  case drain works q x rest hd hn _ => cases hn; exact h.drains hd

-- A step leaves the engine settled if and only if it accounts for the item that it removes.
theorem settled_step {a : Action} (h : s.Inv) (hs : s.Settled) (e : s.step a = some s') :
    s'.Settled ↔ s.Accounted a := by
  obtain ⟨e, n⟩ := s
  obtain ⟨e', n'⟩ := s'
  cases step_does e
  case alike ha hn hc                => cases hn; exact iff_of_true ((settled_alike ha).mpr hs) hc
  case enter ev he hv hn hc          => cases hn; exact iff_of_true (settled_enter h hs he hv) hc
  case drain works q x rest hd hn hc => cases hn; exact (settled_drains h hs hd).trans hc.symm

end Broadcast

def broadcast : Machine Broadcast Broadcast.Action where
  step := Broadcast.step

namespace broadcast

open Broadcast

variable {now : ℚ} {capacity : BitVec 32} {as : List Broadcast.Action} {s : Broadcast}

-- Every event that the egress worker has removed was broadcast once or persisted once exactly in
-- the runs in which it persists the events that were injected, and only these.
theorem always_settled_iff (e : broadcast.exec (start now capacity) as = some s) :
    broadcast.Always Settled (start now capacity) as ↔
      broadcast.Along Accounted (start now capacity) as :=
  Machine.always_iff_along (fun _ _ _ h e => h.step e) (fun _ _ _ h hs e => settled_step h hs e)
    start_inv start_settled e

-- One event goes through the sockets and leaves the queue at once. The other one is injected and
-- expires.
theorem always_settled_sample :
    broadcast.Always Settled (start 0 1000) [
      .event [utf8 "t", utf8 "a"], .egress fun _ => true, .egress fun _ => true,
      .inject (utf8 "t") (utf8 "b"), .tick 61, .egress fun _ => true] := by
  obtain ⟨s, hs⟩ : ∃ s, broadcast.exec (start 0 1000) [
      .event [utf8 "t", utf8 "a"], .egress fun _ => true, .egress fun _ => true,
      .inject (utf8 "t") (utf8 "b"), .tick 61, .egress fun _ => true] = some s :=
    Option.isSome_iff_exists.mp <| by decide +kernel
  exact (always_settled_iff hs).mpr <| by decide +kernel

-- The egress worker removes what the bridge injects, but nobody sends it.
theorem not_always_settled : ¬∀ as s, broadcast.exec (start 0 1000) as = some s →
    broadcast.Always Settled (start 0 1000) as := by
  intro h
  obtain ⟨s, hs, ho⟩ : ∃ s ∈ broadcast.exec (start 0 1000)
      [.bridge (utf8 "t") (utf8 "a"), .egress fun _ => true, .egress fun _ => true],
      ∃ item ∈ (s.events.queues 0).drained,
        s.events.sent.count item.event + s.events.persisted.count item.event ≠ 1 := by
    decide +kernel
  obtain ⟨item, hi, hn⟩ := ho
  exact hn <| (h _ s hs).exec hs 0 item hi

end broadcast

end Cpp
