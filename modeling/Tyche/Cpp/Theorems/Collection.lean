import Tyche.Cpp.EventProxy
import Tyche.Reachable

namespace Cpp

open Proc Threads

variable {β : Type} {s : Events} {q : ℕ} {topic : Bytes} {item : QueueItem}
variable {works : List Bytes → Bool}

namespace TopicQueue

-- All items that were put into the queue have left it through the egress worker, or they are still
-- in it. The queue does not count those that it overwrites.
def Balanced (q : TopicQueue) : Prop :=
  q.accepted = q.drained ++ q.items

-- There is nothing to overwrite.
def Roomy (q : TopicQueue) : Prop :=
  q.items.length < q.capacity ∨ q.items = []

instance {q : TopicQueue} : Decidable q.Roomy :=
  inferInstanceAs <| Decidable (_ ∨ _)

variable {q : TopicQueue}

theorem Balanced.put (h : q.Balanced) (hr : q.Roomy) : (q.put item).Balanced := by
  unfold TopicQueue.put
  split
  case isTrue     =>
    have h : q.accepted = _ := h
    simp [Balanced, h]
  case isFalse hl =>
    obtain hr | hr := hr
    · exact absurd hr hl
    · have h : q.accepted = _ := h
      simp [Balanced, h, hr]

theorem Balanced.get (h : q.Balanced) : q.get.2.Balanced := by
  unfold TopicQueue.get
  cases hi : q.items <;> simpa [Balanced, hi] using h

theorem items_get (h : q.items = []) : q.get.2.items = [] := by
  simp [TopicQueue.get, h]

end TopicQueue

-- Items are put into queues that the map contains and that have room, and only empty queues are
-- erased.
def EventOp.Careful : ∀ {β : Type}, EventOp β → Events → Prop
  | _, .put q _, s     => q ∈ s.topicQueues.values ∧ (s.queues q).Roomy
  | _, .erase topic, s => ∀ q ∈ s.topicQueues.get? topic, (s.queues q).items = []
  | _, _, _            => True

instance : ∀ {β} (o : EventOp β), Decidable (o.Careful s)
  | _, .put ..     => inferInstanceAs <| Decidable (_ ∧ _)
  | _, .erase _    => inferInstanceAs <| Decidable (∀ _ ∈ _, _)
  | _, .time | _, .send .. | _, .getRaw _ | _, .getOrCreate _ | _, .touch .. | _, .nextQueue
  | _, .takeSnapshot | _, .skipQueue | _, .get _ | _, .persist .. | _, .activeTopics | _, .topics
  | _, .lastAccess _ => isTrue trivial

namespace Events

-- Every item that was put into a queue was drained, or it is in a queue that the map contains.
structure Kept (s : Events) : Prop where
  balanced : ∀ q, (s.queues q).Balanced
  reached  : s.topicQueues.Reaches fun q => (s.queues q).items

def careful : Condition EventOp Events EventThread EventTask (List Bytes → Bool) where
  enter _ _ _    := True
  exec _ _ _ o s := o.Careful s

instance {i : EventThread} {k : EventTask} : Decidable (careful.enter i k s) :=
  isTrue trivial

instance {i : EventThread} {k : Option EventTask} {o : EventOp β} :
    Decidable (careful.exec i k works o s) :=
  inferInstanceAs <| Decidable (o.Careful s)

namespace Kept

theorem setQueue {queue : TopicQueue} (h : s.Kept) (hb : queue.Balanced)
    (hr : q ∈ s.topicQueues.values ∨ ((s.queues q).items = [] → queue.items = [])) :
    (s.setQueue q queue).Kept where
  balanced p := by
    unfold Events.setQueue
    dsimp only
    split
    case isTrue  => exact hb
    case isFalse => exact h.balanced p
  reached    := by
    obtain hq | he := hr
    case inl =>
      refine h.reached.put hq fun p hp => ?_
      simp [Events.setQueue, hp]
    case inr =>
      refine h.reached.shrink fun p hp => ?_
      unfold Events.setQueue
      dsimp only
      split
      case isTrue hpq => exact he <| hpq ▸ hp
      case isFalse    => exact hp

theorem getOrCreate (h : s.Kept) : (s.getOrCreate topic).2.Kept := by
  unfold Events.getOrCreate
  split
  case h_1    => exact h
  case h_2 hn => exact ⟨h.balanced, h.reached.set <| Dict.get?_eq_none_iff.mp hn⟩

theorem exec {o : EventOp β} (h : s.Kept) (ho : o.Careful s) :
    (Events.exec works o s).2.Kept := by
  cases o
  case put q item  => exact h.setQueue ((h.balanced q).put ho.right) <| .inl ho.left
  case get q       => exact h.setQueue (h.balanced q).get <| .inr TopicQueue.items_get
  case erase topic => exact ⟨h.balanced, h.reached.erase ho⟩
  case getOrCreate => exact h.getOrCreate
  case send | persist =>
    unfold Events.exec
    dsimp only
    split <;> exact ⟨h.balanced, h.reached⟩
  all_goals exact ⟨h.balanced, h.reached⟩

theorem registerModule {info : ModuleInfo} (h : s.Kept) : (s.registerModule info).Kept := by
  have hf (l : List Interface) (s : Events) (h : s.Kept) :
      (l.foldl (registerInterface info.moduleId) s).Kept := by
    induction l generalizing s
    case nil            => exact h
    case cons i l hi =>
      have hc : (s.getOrCreate i.eventType).2.Kept := h.getOrCreate
      refine hi _ ?_
      unfold registerInterface
      dsimp only
      split <;> exact ⟨hc.balanced, hc.reached⟩
  exact hf _ _ ⟨h.balanced, h.reached⟩

theorem enter {i : EventThread} {k : EventTask} {s' : Events} {p : CppEvents Unit} (h : s.Kept)
    (e : Events.enter i k s = some (s', p)) : s'.Kept := by
  unfold Events.enter at e
  split at e
  case h_7 => cases e; exact h.registerModule
  case h_8 =>
    cases e
    unfold unregisterModule
    split <;> exact ⟨h.balanced, h.reached⟩
  case h_9 =>
    split at e <;> cases e
    exact ⟨h.balanced, h.reached⟩
  all_goals cases e; try exact h

end Kept

theorem start_kept {now : ℚ} {c : BitVec 32} : (start now c).Kept where
  balanced _   := rfl
  reached _ hq := absurd rfl hq

end Events

namespace events

variable {now : ℚ} {capacity : BitVec 32}
variable {as : List (Threads.Action EventThread EventTask (List Bytes → Bool))}

theorem always_kept_of_careful
    (c : (machine events).Along (Meets Events.careful) (.start <| .start now capacity) as) :
    (machine events).Always (fun t => t.shared.Kept) (.start <| .start now capacity) as := by
  refine always_shared (fun _ _ _ _ _ h _ e => h.enter e) (fun _ _ works o s r s' h ho e => ?_)
    Events.start_kept c
  have hs : (Events.exec works o s).2 = s' := congrArg Prod.snd <| Option.some.inj e
  exact hs ▸ h.exec ho

end events

end Cpp
