import Tyche.Machine
import Tyche.Python.EventProxy
import Tyche.Sample

namespace Python

open Proc

namespace TopicQueue

variable {q q' : TopicQueue} {e : QueueEntry} {depth : Floating} {strategy : BackpressureStrategy}
variable {n : ℕ}

-- What `put` and `_apply_backpressure` do to a queue.
def put (e : QueueEntry) (q : TopicQueue) : Except Error Bool × TopicQueue :=
  match q.full with
  | .error e  => (.error e, q)
  | .ok true  => (.ok false, q.drop)
  | .ok false => (.ok true, q.append e)

def evict (e : QueueEntry) (es : List QueueEntry) (q : TopicQueue) : TopicQueue :=
  { q with items := es, evicted := q.evicted ++ [e] }

def offer (depth : Floating) (strategy : BackpressureStrategy) (e : QueueEntry) (q : TopicQueue) :
    Except Error Bool × TopicQueue :=
  if depth.Exceeds q.items.length then
    ((q.put e).1.map fun _ => true, (q.put e).2)
  else
    match strategy, q.items with
    | .dropOldest, []      => (.error .indexError, q)
    | .dropOldest, a :: es =>
      match (q.evict a es).put e with
      | (.error e, q) => (.error e, q)
      | (.ok _, q)    => (.ok true, q.drop)
    | _, _                 => (.ok false, q.drop)

-- The queue can take the entry that is offered, or refuse it. An own capacity below the depth of the
-- topic, or an empty queue that is full, would make it lose the entry instead.
def Roomy (depth : Floating) (strategy : BackpressureStrategy) (q : TopicQueue) : Prop :=
  if depth.Exceeds q.items.length then
    q.full = .ok false ∧ ¬depth.ExceededBy (q.items.length + 1 : ℕ)
  else strategy = .dropOldest → q.items ≠ []

-- The last entry was put into a queue that was not full.
def Fits (q : TopicQueue) : Prop :=
  q.items ≠ [] → { q with items := q.items.tail }.full = .ok false

-- What was offered was processed, counted as dropped, or is still there.
def Balanced (n : ℕ) (q : TopicQueue) : Prop :=
  n = q.processed + q.dropped + q.items.length

theorem not_full_of_le (hq : q.full = .ok false) (hc : q'.capacity = q.capacity)
    (hl : q'.items.length ≤ q.items.length) : q'.full = .ok false := by
  simp only [full, hc] at hq ⊢
  split
  case h_1 => rfl
  case h_2 =>
    cases hx : q.capacity.number <;> simp_all [Except.map]
    exact fun hr => hq <| hr.mono <| Nat.cast_le.mpr hl

theorem Fits.take {es : List QueueEntry} (hf : q.Fits) (hi : q.items = e :: es)
    (hc : q'.capacity = q.capacity) (hq : q'.items = es) : q'.Fits := by
  have hn : { q with items := q.items.tail }.full = .ok false := hf <| by simp [hi]
  exact fun _ => not_full_of_le hn hc <| by simp [hi, hq]

theorem put_of_not_full (h : q.full = .ok false) : q.put e = (.ok true, q.append e) := by
  simp [put, h]

theorem offer_cases (hf : q.Fits) (hr : q.Roomy depth strategy) :
    (q.full = .ok false ∧ ¬depth.ExceededBy (q.items.length + 1 : ℕ) ∧
      q.offer depth strategy e = (.ok true, q.append e)) ∨
    (∃ a es, q.items = a :: es ∧ (q.evict a es).full = .ok false ∧
      q.offer depth strategy e = (.ok true, ((q.evict a es).append e).drop)) ∨
    q.offer depth strategy e = (.ok false, q.drop) := by
  unfold Roomy at hr
  unfold offer
  split at hr
  case isTrue h  =>
    exact .inl ⟨hr.left, hr.right, by simp [h, put_of_not_full hr.left, Except.map]⟩
  case isFalse h =>
    simp only [h, if_false]
    cases strategy
    case dropOldest =>
      cases hi : q.items
      case nil       => simp [hi] at hr
      case cons a es =>
        have he : (q.evict a es).full = .ok false :=
          not_full_of_le (hf <| by simp [hi]) rfl <| by simp [evict, hi]
        simp [he, put_of_not_full]
    all_goals simp

theorem offer_fits (hf : q.Fits) (hr : q.Roomy depth strategy) :
    (q.offer depth strategy e).2.Fits := by
  obtain ⟨hq, -, h⟩ | ⟨a, es, -, hq, h⟩ | h := offer_cases (e := e) hf hr <;> simp only [h]
  case inl     => exact fun _ => not_full_of_le hq rfl <| by simp [append]
  case inr.inl => exact fun _ => not_full_of_le hq rfl <| by simp [append, drop]
  case inr.inr => exact hf

theorem offer_balanced (hf : q.Fits) (hr : q.Roomy depth strategy) (hb : q.Balanced n) :
    (q.offer depth strategy e).2.Balanced (n + 1) := by
  unfold Balanced at hb ⊢
  obtain ⟨-, -, h⟩ | ⟨a, es, hi, -, h⟩ | h := offer_cases (e := e) hf hr <;> simp only [h]
  case inl     => simp [append]; omega
  case inr.inl => simp [append, evict, drop, hi] at hb ⊢; omega
  case inr.inr => simp [drop]; omega

-- A queue only grows up to the depth of its topic.
theorem offer_length (hf : q.Fits) (hr : q.Roomy depth strategy) :
    (q.offer depth strategy e).2.items.length ≤ q.items.length ∨
      ¬depth.ExceededBy (q.offer depth strategy e).2.items.length := by
  obtain ⟨-, hd, h⟩ | ⟨a, es, hi, -, h⟩ | h := offer_cases (e := e) hf hr <;> simp only [h]
  case inl     => exact .inr <| by simpa [append] using hd
  case inr.inl => simp [append, evict, drop, hi]
  case inr.inr => simp [drop]

-- An entry that was not refused is the last one.
theorem offer_last (hf : q.Fits) (hr : q.Roomy depth strategy)
    (h : (q.offer depth strategy e).1 = .ok true) :
    (q.offer depth strategy e).2.items.getLast? = some e := by
  obtain ⟨-, -, ho⟩ | ⟨a, es, -, -, ho⟩ | ho := offer_cases (e := e) hf hr <;> simp only [ho] at h ⊢
  case inl     => simp [append]
  case inr.inl => simp [append, drop]
  case inr.inr => simp at h

end TopicQueue

-- A message that is offered to the queue of a topic: the call of `_apply_backpressure` and the state
-- in which it is made.
structure Offer where
  queue  : ℕ
  topic  : Key
  frames : List Bytes
  state  : Events

def Offer.run (o : Offer) : Except Error Bool × Events :=
  (applyBackpressure o.queue o.topic o.frames).run (Events.exec fun _ => true) o.state

namespace Events

variable {s : Events} {works : List Bytes → Bool} {frames : List Bytes} {o : Offer} {e : QueueEntry}
variable {topic : Key} {q p : ℕ} {queue : TopicQueue}

def offer? (s : Events) (frames : List Bytes) : Option Offer :=
  match frames with
  | topicFrame :: _ :: _ =>
    match decode topicFrame with
    | .error _  => none
    | .ok topic =>
      let queueKey := s.topicEventMap.getD topic topic
      match s.topicQueues.get? queueKey with
      | some q => some ⟨q, queueKey, frames, s⟩
      | none   =>
        some ⟨s.created, queueKey, frames, { s with locked := true }.newQueue queueKey s.capacity⟩
  | _ => none

@[simp]
theorem setQueue_self : s.setQueue q (s.queues q) = s := by
  have hq : (fun p => if p = q then s.queues q else s.queues p) = s.queues := by
    funext p
    split <;> simp [*]
  simp only [setQueue, hq]

@[simp]
theorem setQueue_setQueue {queue' : TopicQueue} :
    (s.setQueue q queue).setQueue q queue' = s.setQueue q queue' := by
  simp only [setQueue, mk.injEq, and_self, and_true, true_and]
  funext p
  split <;> rfl

@[simp]
theorem queues_setQueue_self : (s.setQueue q queue).queues q = queue := by
  simp [setQueue]

theorem queues_setQueue_ne (h : p ≠ q) : (s.setQueue q queue).queues p = s.queues p := by
  simp [setQueue, h]

theorem exec_put :
    exec works (.put q e) s = (((s.queues q).put e).1, s.setQueue q ((s.queues q).put e).2) := by
  simp only [exec, TopicQueue.put]
  split <;> simp [*]

theorem exec_popleft : exec works (.popleft q) s =
    match (s.queues q).items with
    | []      => (.error .indexError, s)
    | a :: es => (.ok a, s.setQueue q <| (s.queues q).evict a es) :=
  rfl

theorem run_applyBackpressure :
    (applyBackpressure q topic frames).run (exec works) s =
      match (s.maxDepth topic).number with
      | .error e  => (.error e, s)
      | .ok depth =>
        let r := (s.queues q).offer depth (s.strategy topic) ⟨s.now, frames⟩
        (r.1, s.setQueue q r.2) := by
  simp only [applyBackpressure, run_bind, run_op, run_lift, exec]
  cases (s.maxDepth topic).number
  case error    => rfl
  case ok depth =>
    dsimp only [TopicQueue.offer]
    by_cases hd : depth.Exceeds (s.queues q).items.length
    case pos =>
      simp only [hd, if_true, run_bind, run_op, exec_put, run_pure]
      cases ((s.queues q).put _).1 <;> rfl
    case neg =>
      simp only [hd, if_false]
      cases s.strategy topic
      case dropOldest =>
        simp only [run_bind, run_op, exec_popleft]
        cases (s.queues q).items
        case nil       => simp
        case cons a es =>
          simp only [exec_put, queues_setQueue_self, setQueue_setQueue]
          generalize ((s.queues q).evict a es).put _ = x
          obtain ⟨_ | _, _⟩ := x <;> simp [exec]
      all_goals simp [run_bind, exec]

-- The states agree about the queues.
structure Alike (s s' : Events) : Prop where
  queues      : s.queues = s'.queues
  created     : s.created = s'.created
  topicQueues : s.topicQueues = s'.topicQueues

theorem run_enqueueFromXsub (h : o ∈ s.offer? frames) :
    ((enqueueFromXsub frames).run (exec works) s).2.Alike o.run.2 := by
  have hr {q topic frames s} : (applyBackpressure q topic frames).run (exec works) s =
      (Offer.mk q topic frames s).run := by
    simp only [Offer.run, run_applyBackpressure]
  unfold offer? at h
  split at h
  case h_2 => cases h
  case h_1 =>
    simp only [enqueueFromXsub, run_bind, run_lift, run_op, exec]
    split at h
    case h_1    => cases h
    case h_2 hd =>
      dsimp only at h
      simp only [hd]
      split at h
      case h_1 hq =>
        cases h
        simp only [hq, run_bind, hr]
        generalize Offer.run _ = x
        obtain ⟨_ | _, _⟩ := x <;> exact ⟨rfl, rfl, rfl⟩
      case h_2 hq =>
        cases h
        simp only [hq, withLock, getOrCreateQueue, run_bind, run_op, exec, capacity, run_after, hr]
        generalize Offer.run _ = x
        obtain ⟨_ | _, _⟩ := x <;> exact ⟨rfl, rfl, rfl⟩

-- A message that is not offered to any queue leaves the queues alone.
theorem run_enqueueFromXsub_none (h : s.offer? frames = none) :
    ((enqueueFromXsub frames).run (exec works) s).2 = s := by
  unfold offer? at h
  split at h
  case h_2 =>
    unfold enqueueFromXsub
    split
    case h_1 hn => exact absurd rfl <| hn _ _ _
    case h_2    => rfl
  case h_1 =>
    simp only [enqueueFromXsub, run_bind, run_lift]
    split at h
    case h_1 hd => simp [hd]
    case h_2    => dsimp only at h; split at h <;> cases h

end Events

-- The queues, with the number of messages that were offered to each of them.
structure Ledger where
  events  : Events
  offered : ℕ → ℕ

namespace Ledger

-- The egress worker takes one entry, or goes on to the next queue, at a time.
inductive Action
  | register (info : ModuleInfo)
  | unregister (m : ModuleId)
  | enqueue (frames : List Bytes)
  | egress (works : List Bytes → Bool)
  | collect
  | tick (duration : ℚ)

def start (now : ℚ) (queueCapacity : Option ℤ) : Ledger where
  events    := .start now queueCapacity
  offered _ := 0

def count (l : Ledger) (frames : List Bytes) : ℕ → ℕ :=
  match l.events.offer? frames with
  | none   => l.offered
  | some o => Function.update l.offered o.queue (l.offered o.queue + 1)

def enqueue (l : Ledger) (frames : List Bytes) : Ledger where
  events  := ((enqueueFromXsub frames).run (Events.exec fun _ => true) l.events).2
  offered := l.count frames

def step (l : Ledger) : Action → Option Ledger
  | .register info => some { l with events := (l.events.registerModule info).2 }
  | .unregister m  => some { l with events := (l.events.unregisterModule m).2 }
  | .enqueue fs    => some <| l.enqueue fs
  | .egress works  => some { l with events := (drain.run (Events.exec works) l.events).2 }
  | .collect       =>
    some { l with events := (collectTopics.run (Events.exec fun _ => true) l.events).2 }
  | .tick duration =>
    if 0 ≤ duration then some { l with events := l.events.elapse duration } else none

def Balanced (l : Ledger) : Prop :=
  ∀ q, (l.events.queues q).Balanced (l.offered q)

-- A message makes no queue grow past the maximum depth of its topic, and is the last one in its
-- queue when `_apply_backpressure` tells so.
def Contract (l : Ledger) : Action → Prop
  | .enqueue frames =>
    (∀ q, ((l.enqueue frames).events.queues q).items.length ≤ (l.events.queues q).items.length ∨
      ∃ o ∈ l.events.offer? frames, q = o.queue ∧
        ∃ depth, (l.events.maxDepth o.topic).number = .ok depth ∧
          ¬depth.ExceededBy ((l.enqueue frames).events.queues q).items.length) ∧
    ∀ o ∈ l.events.offer? frames, o.run.1 = .ok true →
      ∃ t, (o.run.2.queues o.queue).items.getLast? = some ⟨t, frames⟩
  | _ => True

-- Whenever a message is offered, there is room for it or it may be refused.
def Roomy (l : Ledger) : Action → Prop
  | .enqueue frames => ∀ o ∈ l.events.offer? frames,
    ∃ depth, (o.state.maxDepth o.topic).number = .ok depth ∧
      (o.state.queues o.queue).Roomy depth (o.state.strategy o.topic)
  | _ => True

structure Inv (l : Ledger) : Prop where
  fits     : ∀ q, (l.events.queues q).Fits
  owned    : ∀ topic q, l.events.topicQueues.get? topic = some q → q < l.events.created
  fresh    : ∀ q, l.events.created ≤ q → l.offered q = 0
  balanced : l.Balanced

variable {l l' : Ledger} {s s' : Events} {n : ℕ → ℕ} {q : ℕ} {o : Offer} {frames : List Bytes}

theorem Inv.alike (h : Inv ⟨s', n⟩) (ha : s.Alike s') : Inv ⟨s, n⟩ where
  fits     := ha.queues ▸ h.fits
  owned    := ha.created ▸ ha.topicQueues ▸ h.owned
  fresh    := ha.created ▸ h.fresh
  balanced := by simpa only [Balanced, ha.queues] using h.balanced

theorem Inv.newQueue {topic : Key} {capacity : Value} (h : Inv ⟨s, n⟩) :
    Inv ⟨s.newQueue topic capacity, n⟩ := by
  constructor
  case fits  =>
    intro q
    simp [Events.newQueue, Events.setQueue]
    split
    · exact fun hi => absurd rfl hi
    · exact h.fits q
  case owned =>
    intro t q ht
    simp [Events.newQueue, Dict.get?_set] at ht ⊢
    split at ht
    · cases ht; omega
    · have hq : q < s.created := h.owned t q ht
      omega
  case fresh => exact fun q hq => h.fresh q <| Nat.le_of_succ_le hq
  case balanced =>
    intro q
    simp [Events.newQueue, Events.setQueue]
    split
    case isTrue hq => simpa [TopicQueue.Balanced, TopicQueue.new, hq] using h.fresh _ le_rfl
    case isFalse   => exact h.balanced q

theorem Inv.setQueue {queue : TopicQueue} (h : Inv ⟨s, n⟩) (hf : queue.Fits) {k : ℕ}
    (hq : q < s.created) (hb : queue.Balanced k) :
    Inv ⟨s.setQueue q queue, Function.update n q k⟩ where
  fits p     := by
    simp [Events.setQueue]
    split
    · exact hf
    · exact h.fits p
  owned      := h.owned
  fresh p hp := by
    have hn : p ≠ q := Nat.ne_of_gt <| Nat.lt_of_lt_of_le hq hp
    simpa [hn] using h.fresh p hp
  balanced p := by
    simp [Events.setQueue, Function.update_apply]
    split
    · exact hb
    · exact h.balanced p

-- The operations of the egress worker and of the monitor.
def Quiet : ∀ {β : Type}, EventOp β → Prop
  | _, .put .. | _, .popleft _ | _, .countDropped _ | _, .newQueue _ => False
  | _, _                                                              => True

theorem Inv.quiet {β : Type} {o : EventOp β} {works : List Bytes → Bool} (ho : Quiet o)
    (h : Inv ⟨s, n⟩) : Inv ⟨(Events.exec works o s).2, n⟩ := by
  cases o
  case put | popleft | countDropped | newQueue => cases ho
  case get q =>
    simp only [Events.exec]
    split
    case h_1          => exact h
    case h_2 e es he =>
      have hb : n q = _ := h.balanced q
      have hq : q < s.created := by
        by_contra hq
        have hn : n q = 0 := h.fresh q <| Nat.le_of_not_lt hq
        simp [hn, he] at hb
      have hi {queue : TopicQueue} (hf : queue.Fits) (hb : queue.Balanced (n q)) :=
        h.setQueue hf hq hb
      simp only [Function.update_eq_self] at hi
      refine hi ((h.fits q).take he rfl rfl) ?_
      simp [TopicQueue.Balanced, he] at hb ⊢
      omega
  case delete topic =>
    simp only [Events.exec]
    split
    case isFalse => exact h
    case isTrue  =>
      refine ⟨h.fits, fun t q ht => h.owned t q ?_, h.fresh, h.balanced⟩
      simp [Dict.get?_erase] at ht
      exact ht.right
  all_goals exact h.alike ⟨rfl, rfl, rfl⟩

theorem all_quiet_drain : drain.All Quiet := by
  refine (all_op trivial).bind fun x => ?_
  cases x
  case none   => exact all_op trivial
  case some x =>
    refine (all_op trivial).bind fun e => ?_
    cases e
    case none   => exact all_op trivial
    case some e =>
      refine (all_op trivial).bind fun _ => (all_op trivial).bind fun _ => ?_
      refine All.bind trivial fun b => ?_
      cases b
      case false => exact all_op trivial
      case true  =>
        refine .bind (.catching (all_op trivial) fun _ => ?_) fun _ => all_op trivial
        trivial

theorem all_quiet_collectTopics : collectTopics.All Quiet := by
  refine (all_op trivial).bind fun _ => (all_op trivial).bind fun _ => .after ?_ fun _ => ?_
  case refine_2 => exact (all_op trivial).bind fun _ => trivial
  case refine_1 =>
    refine (all_op trivial).bind fun _ => (All.select fun _ => all_op trivial).bind fun _ => ?_
    exact .each fun _ => (all_op trivial).bind fun _ => all_op trivial

theorem Inv.run {p : PyEvents Unit} {works : List Bytes → Bool} (hp : p.All Quiet)
    (h : Inv ⟨s, n⟩) : Inv ⟨(p.run (Events.exec works) s).2, n⟩ :=
  hp.run (I := fun s => Inv ⟨s, n⟩) (fun _ _ ho h => h.quiet ho) h

theorem Inv.registerInterfaces {m : ModuleId} {is : List Interface} (h : Inv ⟨s, n⟩) :
    Inv ⟨(Events.registerInterfaces m is s).2, n⟩ := by
  induction is generalizing s
  case nil          => exact h
  case cons i is hi =>
    unfold Events.registerInterfaces
    split
    case h_1         => exact h
    case h_2 topic _ =>
      apply hi
      have hc : Inv ⟨s.configure topic i, n⟩ := h.alike ⟨rfl, rfl, rfl⟩
      have hn : Inv ⟨if topic ∈ (s.configure topic i).topicQueues then s.configure topic i
          else (s.configure topic i).newQueue topic i.maxQueueDepth, n⟩ := by
        split
        · exact hc
        · exact hc.newQueue
      unfold Events.registerInterface
      cases i.pattern <;> exact hn.alike ⟨rfl, rfl, rfl⟩

theorem unregisterInterfaces_alike {m : ModuleId} {is : List Interface} :
    (Events.unregisterInterfaces m is s).2.Alike s := by
  induction is generalizing s
  case nil          => exact ⟨rfl, rfl, rfl⟩
  case cons i is hi =>
    unfold Events.unregisterInterfaces
    split
    · exact ⟨rfl, rfl, rfl⟩
    · exact ⟨hi.queues, hi.created, hi.topicQueues⟩

theorem unregisterModule_alike {m : ModuleId} : (s.unregisterModule m).2.Alike s := by
  unfold Events.unregisterModule
  split
  case h_1      => exact ⟨rfl, rfl, rfl⟩
  case h_2 info _ =>
    have ha : (Events.unregisterInterfaces m info.interfaces s).2.Alike s :=
      unregisterInterfaces_alike
    split
    case h_1 he => rw [he] at ha; exact ⟨ha.queues, ha.created, ha.topicQueues⟩
    case h_2 he => rw [he] at ha; exact ha

-- The state in which a message is offered has the queue, maybe a new one, and nothing else is new.
theorem Inv.offer (h : l.Inv) (ho : o ∈ l.events.offer? frames) :
    Inv ⟨o.state, l.offered⟩ ∧ o.queue < o.state.created ∧ o.frames = frames ∧
      o.state.maxDepth o.topic = l.events.maxDepth o.topic ∧
      ∀ q, (o.state.queues q).items.length ≤ (l.events.queues q).items.length := by
  unfold Events.offer? at ho
  split at ho
  case h_2 => cases ho
  case h_1 =>
    split at ho
    case h_1 => cases ho
    case h_2 =>
      dsimp only at ho
      split at ho <;> cases ho
      case h_1 hq => exact ⟨h, h.owned _ _ hq, rfl, rfl, fun _ => le_rfl⟩
      case h_2    =>
        have hl : Inv ⟨{ l.events with locked := true }, l.offered⟩ := h.alike ⟨rfl, rfl, rfl⟩
        refine ⟨hl.newQueue, Nat.lt_succ_self _, rfl, rfl, fun q => ?_⟩
        simp [Events.newQueue, Events.setQueue]
        split <;> simp [TopicQueue.new]

theorem count_of_offer (ho : o ∈ l.events.offer? frames) :
    l.count frames = Function.update l.offered o.queue (l.offered o.queue + 1) := by
  simp [count, Option.mem_def.mp ho]

theorem enqueue_of_not_offer (ho : l.events.offer? frames = none) : l.enqueue frames = l := by
  simp [enqueue, count, ho, Events.run_enqueueFromXsub_none]

theorem run_offer {depth : Floating} (hd : (o.state.maxDepth o.topic).number = .ok depth) :
    ∃ e, e.frames = o.frames ∧ o.run =
      (((o.state.queues o.queue).offer depth (o.state.strategy o.topic) e).1,
        o.state.setQueue o.queue
          ((o.state.queues o.queue).offer depth (o.state.strategy o.topic) e).2) :=
  ⟨⟨o.state.now, o.frames⟩, rfl, by simp [Offer.run, Events.run_applyBackpressure, hd]⟩

theorem Inv.enqueue (h : l.Inv) (hr : l.Roomy (.enqueue frames)) : (l.enqueue frames).Inv := by
  cases ho : l.events.offer? frames
  case none   => simpa [enqueue_of_not_offer ho] using h
  case some o =>
    have ⟨hi, hq, _⟩ := h.offer ho
    have ⟨depth, hd, hr⟩ := hr o ho
    have ⟨e, _, he⟩ := run_offer hd
    have ha : (l.enqueue frames).events.Alike o.run.2 := Events.run_enqueueFromXsub ho
    have hf := TopicQueue.offer_fits (e := e) (hi.fits o.queue) hr
    have hb := TopicQueue.offer_balanced (e := e) (hi.fits o.queue) hr (hi.balanced o.queue)
    have hs := hi.setQueue hf hq hb
    rw [he] at ha
    change Inv ⟨(l.enqueue frames).events, l.count frames⟩
    simpa [count_of_offer ho] using hs.alike ha

theorem Inv.contract (h : l.Inv) (hr : l.Roomy (.enqueue frames)) :
    l.Contract (.enqueue frames) := by
  cases ho : l.events.offer? frames
  case none   =>
    simp [Contract, ho, enqueue_of_not_offer ho]
  case some o =>
    have ⟨hi, hq, hf, hm, hl⟩ := h.offer ho
    have ⟨depth, hd, hr⟩ := hr o ho
    have ⟨e, hef, he⟩ := run_offer hd
    have ha : (l.enqueue frames).events.Alike o.run.2 := Events.run_enqueueFromXsub ho
    constructor
    case left  =>
      intro q
      rw [ha.queues, he]
      by_cases hq : q = o.queue
      case neg =>
        left
        simpa [Events.queues_setQueue_ne hq] using hl q
      case pos =>
        subst hq
        simp only [Events.queues_setQueue_self]
        refine (TopicQueue.offer_length (hi.fits _) hr).imp (·.trans <| hl _) fun hg => ?_
        exact ⟨o, ho, rfl, depth, hm ▸ hd, hg⟩
    case right =>
      intro o' ho' hr'
      cases ho.symm.trans ho'
      rw [he] at hr' ⊢
      refine ⟨e.enqueueTime, ?_⟩
      simpa [← hf, ← hef] using TopicQueue.offer_last (hi.fits _) hr hr'

theorem Inv.step {a : Action} (h : l.Inv) (hr : l.Roomy a) (e : l.step a = some l') : l'.Inv := by
  cases a
  case tick d =>
    simp [Ledger.step] at e
    obtain ⟨_, rfl⟩ := e
    exact h.alike ⟨rfl, rfl, rfl⟩
  case register info =>
    cases e
    have hm {ms} : Inv ⟨{ l.events with modules := ms }, l.offered⟩ := h.alike ⟨rfl, rfl, rfl⟩
    exact hm.registerInterfaces
  case unregister m => cases e; exact h.alike unregisterModule_alike
  case enqueue fs   => cases e; exact h.enqueue hr
  case egress works => cases e; exact h.run all_quiet_drain
  case collect      => cases e; exact h.run all_quiet_collectTopics

theorem start_inv {now : ℚ} {capacity : Option ℤ} : (start now capacity).Inv where
  fits _ hi     := absurd rfl hi
  owned _ _ ht  := nomatch ht
  fresh _ _     := rfl
  balanced _    := rfl

end Ledger

instance {α : Type} {x : Except Error α} {P : α → Prop} [DecidablePred P] :
    Decidable (∃ a, x = .ok a ∧ P a) :=
  match x with
  | .ok a    => decidable_of_iff (P a) <| by simp
  | .error _ => isFalse <| by simp

instance {q : TopicQueue} {depth : Floating} {strategy : BackpressureStrategy} :
    Decidable (q.Roomy depth strategy) :=
  inferInstanceAs <| Decidable (if depth.Exceeds q.items.length then
    q.full = .ok false ∧ ¬depth.ExceededBy (q.items.length + 1 : ℕ)
  else strategy = .dropOldest → q.items ≠ [])

instance {l : Ledger} : ∀ a, Decidable (l.Roomy a)
  | .enqueue frames => inferInstanceAs <| Decidable (∀ o ∈ l.events.offer? frames, ∃ _, _ = _ ∧ _)
  | .register _ | .unregister _ | .egress _ | .collect | .tick _ => isTrue trivial

def topicQueues : Machine Ledger Ledger.Action where
  step := Ledger.step

namespace topicQueues

open Ledger

variable {now : ℚ} {capacity : Option ℤ} {as : List Ledger.Action}

theorem always_inv (c : topicQueues.Along Roomy (start now capacity) as) :
    topicQueues.Always Inv (start now capacity) as :=
  Machine.always_of_step (fun _ _ _ h hr e => h.step hr e) start_inv c

-- In every run whose messages find room or may be refused, the queues keep their contract.
theorem contract_of_roomy (c : topicQueues.Along Roomy (start now capacity) as) :
    topicQueues.Along Contract (start now capacity) as ∧
      topicQueues.Always Balanced (start now capacity) as := by
  refine ⟨(always_inv c).along c fun l a h hr => ?_, (always_inv c).mono fun _ h => h.balanced⟩
  cases a
  case enqueue => exact h.contract hr
  all_goals trivial

end topicQueues

namespace Sample

def subscriber (n : ℕ) (depth : Value) : Ledger.Action :=
  .register
    { moduleId   := Sample.worker n
      interfaces := [{ pattern := .on, eventType := .str (utf8 "t"), maxQueueDepth := depth }] }

def publication (text : String) : Ledger.Action :=
  .enqueue [utf8 "t", utf8 text]

end Sample

namespace topicQueues

open Ledger

-- The depth of the topic is raised to two by a second module, and then the queue is drained.
theorem contract_sample :
    topicQueues.Along Contract (start 0 none) [
      Sample.subscriber 1 (.int 2), Sample.subscriber 2 (.int 1), Sample.publication "a",
      Sample.publication "b", Sample.subscriber 1 (.int 2), Sample.publication "c",
      .egress fun _ => true, .egress fun _ => true, .tick 61, .collect] ∧
    topicQueues.Always Balanced (start 0 none) [
      Sample.subscriber 1 (.int 2), Sample.subscriber 2 (.int 1), Sample.publication "a",
      Sample.publication "b", Sample.subscriber 1 (.int 2), Sample.publication "c",
      .egress fun _ => true, .egress fun _ => true, .tick 61, .collect] :=
  contract_of_roomy <| by decide +kernel

-- The second module raises the depth, but the queue keeps the capacity that it was made with.
theorem not_contract : ¬∀ as l, topicQueues.exec (start 0 none) as = some l →
    topicQueues.Along Contract (start 0 none) as ∧
      topicQueues.Always Balanced (start 0 none) as := by
  intro h
  have hl : ∃ l ∈ topicQueues.exec (start 0 none)
      [Sample.subscriber 1 (.int 1), Sample.subscriber 2 (.int 2), Sample.publication "a"],
      ∃ o ∈ l.events.offer? [utf8 "t", utf8 "b"], o.run.1 = .ok true ∧
        ∀ e ∈ (o.run.2.queues o.queue).items.getLast?, e.frames ≠ [utf8 "t", utf8 "b"] := by
    decide +kernel
  obtain ⟨l, hl, o, ho, hr, hn⟩ := hl
  have hc := (h (_ ++ [Sample.publication "b"]) _ (Machine.exec_concat hl)).left.exec hl
  have ⟨t, ht⟩ := hc.left.right o ho hr
  exact hn _ ht rfl

end topicQueues

end Python
