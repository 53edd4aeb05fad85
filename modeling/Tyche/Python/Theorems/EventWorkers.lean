import Tyche.Python.EventProxy
import Tyche.Python.Theorems.Values
import Tyche.Sample

namespace Python

open Proc Threads

variable {i : EventThread} {k : Option EventTask} {α β : Type} {s : Events}
variable {works : List Bytes → Bool}

def Value.isNone : Value → Bool
  | .none => true
  | _     => false

namespace TopicQueue

-- The number of entries can be compared with the capacity.
def Limited (q : TopicQueue) : Prop :=
  q.capacity.isNone ∨ q.capacity.Comparable

instance {q : TopicQueue} : Decidable q.Limited :=
  inferInstanceAs <| Decidable (_ ∨ _)

theorem full_ok_iff {q : TopicQueue} : (∃ b, q.full = .ok b) ↔ q.Limited := by
  rw [full, Limited, ← Value.number_ok_iff]
  cases q.capacity
  case none => simp [Value.isNone]
  all_goals
    dsimp only
    cases Value.number _ <;> simp [Except.map, Value.isNone]

end TopicQueue

namespace EventOp

-- The operation does not raise, and what it returns does not make the code raise.
def Safe : ∀ {β : Type}, EventOp β → Events → Prop
  | _, .getMaxDepth topic, s => (s.maxDepth topic).Comparable
  | _, .put q _, s           => (s.queues q).Limited
  | _, .popleft q, s         => (s.queues q).items ≠ []
  | _, .getTtl topic, s      => (s.ttl topic).Comparable
  | _, _, _                  => True

instance {s : Events} : ∀ {β} (o : EventOp β), Decidable (o.Safe s)
  | _, .getMaxDepth _ => inferInstanceAs <| Decidable (Value.Comparable _)
  | _, .put ..        => inferInstanceAs <| Decidable (TopicQueue.Limited _)
  | _, .popleft _     => inferInstanceAs <| Decidable (_ ≠ [])
  | _, .getTtl _      => inferInstanceAs <| Decidable (Value.Comparable _)
  | _, .time | _, .forward _ | _, .getQueueKey _ | _, .getQueue _ | _, .lock | _, .unlock
  | _, .newQueue _ | _, .getStrategy _ | _, .len _ | _, .get _ | _, .countDropped _ | _, .touch _
  | _, .nextQueue | _, .takeSnapshot | _, .skipQueue | _, .persist .. | _, .topics | _, .isIdle ..
  | _, .delete _ | _, .popLastAccess _ => isTrue trivial

end EventOp

-- The topic of an event is a string.
def EventTask.Safe : EventTask → Prop
  | .event (topicFrame :: _ :: _) => IsUtf8 topicFrame
  | _                             => True

instance : ∀ k : EventTask, Decidable k.Safe
  | .event (_ :: _ :: _)          => inferInstanceAs <| Decidable (IsUtf8 _)
  | .event [] | .event [_] | .drain | .collect | .register _ | .unregister _ | .tick _ =>
    isTrue trivial

-- Everything that the workers take from messages and registrations has the form they rely on.
def Events.safe : Condition EventOp Events EventThread EventTask (List Bytes → Bool) where
  enter _ k _    := k.Safe
  exec _ _ _ o s := o.Safe s

instance {i : EventThread} {k : EventTask} {s : Events} : Decidable (Events.safe.enter i k s) :=
  inferInstanceAs <| Decidable k.Safe

instance {i : EventThread} {o : EventOp α} : Decidable (Events.safe.exec i k works o s) :=
  inferInstanceAs <| Decidable (o.Safe s)

namespace EventWorkers

def outline : Outline events Unit where
  Inv _ _ := True
  cond    := Events.safe
  Err _   := True

-- The code of the two workers does not raise.
def Finishes : EventThread → Except Error α → Unit → Prop
  | .proxy, r, _ | .egress, r, _ => ∃ a, r = .ok a
  | _, _, _                      => True

theorem keeps_of_safe {o : EventOp α} {Q : Except Error α → Unit → Prop}
    (h : ∀ works s, o.Safe s → Q (Events.exec works o s).1 ()) :
    Keeps outline i k Q (op o) () := by
  refine keeps_op fun s v x r s' _ _ hc he => ⟨fun _ _ => trivial, (), trivial, ?_⟩
  rw [events] at he
  dsimp only at he
  split at he
  · cases he
  · have hq := h x s hc
    rw [Option.some.inj he] at hq
    exact hq

-- An operation after which the code goes on, whatever it returns.
theorem keeps_step {o : EventOp α} {f : α → PyEvents β} {Q : Except Error β → Unit → Prop}
    (h : ∀ works s, o.Safe s → ∃ a, (Events.exec works o s).1 = .ok a ∧
      Keeps outline i k Q (f a) ()) : Keeps outline i k Q (op o >>= f) () := by
  refine keeps_bind <| keeps_of_safe fun works s hs => ?_
  obtain ⟨a, ha, hf⟩ := h works s hs
  rw [ha]
  exact hf

abbrev Ok (r : Except Error α) (_ : Unit) : Prop :=
  ∃ a, r = .ok a

theorem keeps_applyBackpressure {q : ℕ} {topic : Key} {frames : List Bytes} :
    Keeps outline i k Ok (applyBackpressure q topic frames) () := by
  have hput {e : QueueEntry} {f : Bool → PyEvents Bool}
      (hf : ∀ b, Keeps outline i k Ok (f b) ()) :
      Keeps outline i k Ok (op (.put q e) >>= f) () := by
    refine keeps_step fun works s hs => ?_
    obtain ⟨b, hb⟩ := TopicQueue.full_ok_iff.mpr hs
    cases b <;> simp only [Events.exec, hb] <;> exact ⟨_, rfl, hf _⟩
  have hdrop {b : Bool} : Keeps outline i k Ok (op (.countDropped q) >>= fun _ => pure b) () :=
    keeps_step fun _ _ _ => ⟨(), rfl, _, rfl⟩
  refine keeps_step fun _ s _ => ⟨_, rfl, ?_⟩
  generalize s.strategy topic = strategy
  refine keeps_step fun _ s hs => ⟨_, rfl, ?_⟩
  obtain ⟨x, hx⟩ := Value.number_ok_iff.mpr hs
  refine keeps_step fun _ s _ => ⟨_, rfl, ?_⟩
  refine keeps_step fun _ s _ => ⟨_, rfl, ?_⟩
  refine keeps_bind ?_
  rw [hx]
  change Keeps _ _ _ _ (ite _ _ _) _
  split
  case isTrue  => exact hput fun _ => ⟨_, rfl⟩
  case isFalse =>
    cases strategy
    case dropOldest =>
      refine keeps_step fun works s hs => ?_
      rw [Events.exec]
      cases he : (s.queues q).items
      case nil  => exact absurd he hs
      case cons => exact ⟨_, rfl, hput fun _ => hdrop⟩
    case dropNewest | blockProducer => exact hdrop

theorem keeps_withLock {p : PyEvents α} (h : Keeps outline i k Ok p ()) :
    Keeps outline i k Ok (withLock p) () := by
  refine keeps_step fun _ _ _ => ⟨(), rfl, keeps_after <| h.mono fun r _ hr => ?_⟩
  exact keeps_step fun _ _ _ => ⟨(), rfl, hr⟩

theorem keeps_enqueueFromXsub {frames : List Bytes} (h : (EventTask.event frames).Safe) :
    Keeps outline i k Ok (enqueueFromXsub frames) () := by
  match frames with
  | [] | [_]                  => exact ⟨(), rfl⟩
  | topicFrame :: frame :: fs =>
    have hd : decode topicFrame = .ok (.str topicFrame) := if_pos h
    refine keeps_bind ?_
    rw [hd]
    refine keeps_step fun _ s _ => ⟨_, rfl, ?_⟩
    generalize s.topicEventMap.getD _ _ = key
    refine keeps_step fun _ s _ => ⟨_, rfl, ?_⟩
    cases s.topicQueues.get? key
    case some q =>
      refine keeps_bind <| keeps_applyBackpressure.mono fun r _ ⟨b, hr⟩ => ?_
      rw [hr]
      exact keeps_of_safe fun _ _ _ => ⟨(), rfl⟩
    case none   =>
      refine keeps_bind <| (keeps_withLock ?_).mono fun r _ ⟨b, hr⟩ => hr ▸ ⟨(), rfl⟩
      refine keeps_bind <| keeps_bind <| keeps_of_safe fun _ s _ => ?_
      dsimp only [Events.exec]
      cases s.topicQueues.get? key
      case some q => exact keeps_applyBackpressure
      case none   => exact keeps_of_safe fun _ _ _ => keeps_applyBackpressure

theorem keeps_proxyEvent {frames : List Bytes} (h : (EventTask.event frames).Safe) :
    Keeps outline i k Ok (proxyEvent frames) () := by
  refine keeps_bind <| keeps_catching <| keeps_of_safe fun works s _ => ?_
  rw [Events.exec]
  cases works frames <;> exact keeps_enqueueFromXsub h

theorem keeps_drainEntry {topic : Key} {e : QueueEntry} :
    Keeps outline i k Ok (drainEntry topic e) () := by
  have ht : Keeps outline i k Ok (op (.touch topic)) () := keeps_of_safe fun _ _ _ => ⟨(), rfl⟩
  refine keeps_step fun _ s _ => ⟨_, rfl, keeps_step fun _ s' hs => ⟨_, rfl, keeps_bind ?_⟩⟩
  obtain ⟨b, hb⟩ := Value.exceededBy_ok_iff.mpr hs
  rw [hb]
  cases b
  case false => exact ht
  case true  =>
    refine keeps_bind <| keeps_catching <| keeps_of_safe fun works _ _ => ?_
    rw [Events.exec]
    cases works _ <;> exact ht

theorem keeps_drain : Keeps outline i k Ok drain () := by
  refine keeps_step fun _ s _ => ⟨_, rfl, ?_⟩
  cases s.snapshot.head?
  case none   => exact keeps_of_safe fun _ _ _ => ⟨(), rfl⟩
  case some x =>
    refine keeps_step fun _ s _ => ?_
    rw [Events.exec]
    cases (s.queues x.2).items
    case nil  => exact ⟨_, rfl, keeps_of_safe fun _ _ _ => ⟨(), rfl⟩⟩
    case cons => exact ⟨_, rfl, keeps_drainEntry⟩

theorem keeps_trivial {p : PyEvents α} : Keeps outline i k (fun _ _ => True) p () := by
  induction p
  case done      => trivial
  case call _ hi => exact fun _ _ _ r _ _ _ _ _ => ⟨fun _ _ => trivial, (), trivial, hi r⟩

theorem begins : Begins outline fun i => Finishes i := by
  intro i k s v s' p _ _ hc he
  refine ⟨(), trivial, ?_⟩
  cases i
  case proxy =>
    cases k <;> cases he
    exact keeps_proxyEvent hc
  case egress =>
    cases k <;> cases he
    exact keeps_drain
  all_goals exact keeps_trivial

end EventWorkers

namespace Events

-- Neither the proxy nor the egress worker was ended by an exception.
def Alive (t : Threads EventOp Error Events EventThread EventTask) : Prop :=
  ∀ e, t.code .proxy ≠ .done (.error e) ∧ t.code .egress ≠ .done (.error e)

end Events

namespace events

open EventWorkers

variable {now : ℚ} {capacity : Option ℤ}
variable {as : List (Threads.Action EventThread EventTask (List Bytes → Bool))}

theorem start_sound : Sound outline (fun i => Finishes i) (.start <| .start now capacity) :=
  ⟨fun _ => (), trivial, fun i => by cases i <;> first | exact ⟨(), rfl⟩ | trivial⟩

theorem always_alive_of_safe
    (c : (machine events).Along (Meets Events.safe) (.start <| .start now capacity) as) :
    (machine events).Always Events.Alive (.start <| .start now capacity) as := by
  refine (always_sound begins start_sound c).mono fun t ⟨v, _, h⟩ e => ⟨fun hp => ?_, fun he => ?_⟩
  case refine_1 =>
    have hk := h .proxy
    rw [hp] at hk
    obtain ⟨_, hr⟩ := hk
    cases hr
  case refine_2 =>
    have hk := h .egress
    rw [he] at hk
    obtain ⟨_, hr⟩ := hk
    cases hr

end events

namespace Sample

def subscribe (depth : Value) : Threads.Action EventThread EventTask (List Bytes → Bool) :=
  .start .registration <| .register
    { moduleId   := Sample.worker 1
      interfaces := [{ pattern := .on, eventType := .str (utf8 "t"), maxQueueDepth := depth }] }

def event : Threads.Action EventThread EventTask (List Bytes → Bool) :=
  .start .proxy <| .event [utf8 "t", utf8 "e"]

def steps (i : EventThread) (n : ℕ) :
    List (Threads.Action EventThread EventTask (List Bytes → Bool)) :=
  .replicate n <| .next i fun _ => true

end Sample

namespace events

-- A message goes through a queue of depth one, and one more is dropped for a third.
theorem always_alive_sample :
    (machine events).Always Events.Alive (.start <| .start 0 (some 10000)) (
      [Sample.subscribe (.int 1), Sample.event] ++ Sample.steps .proxy 9 ++
      [.start .egress .drain] ++ Sample.steps .egress 2 ++
      [.start .egress .drain] ++ Sample.steps .egress 5 ++
      [Sample.event] ++ Sample.steps .proxy 9 ++ [Sample.event] ++ Sample.steps .proxy 11) :=
  always_alive_of_safe <| by decide +kernel

-- A module registers a topic with a depth of zero, and the first message for it ends the proxy.
theorem not_always_alive_zero_depth : ¬∀ as t,
    (machine events).exec (.start <| .start 0 (some 10000)) as = some t →
      (machine events).Always Events.Alive (.start <| .start 0 (some 10000)) as := by
  intro ha
  have h : ∃ t ∈ (machine events).exec (.start <| .start 0 (some 10000))
      (Sample.subscribe (.int 0) :: Sample.event :: Sample.steps .proxy 8),
      (t.code .proxy).raised = true := by
    decide +kernel
  obtain ⟨t, h, hr⟩ := h
  have hn := (ha _ t h).exec h
  cases hc : t.code .proxy
  case call => rw [hc] at hr; cases hr
  case done r =>
    cases r
    case ok      => rw [hc] at hr; cases hr
    case error e => exact (hn e).left hc

end events

end Python
