import Tyche.Python.EventProxy
import Tyche.Reachable
import Tyche.Sample

namespace Python

open Proc Threads

variable {i : EventThread} {k : Option EventTask} {α β : Type} {s s' : Events} {q : ℕ}
variable {topic : Key} {works : List Bytes → Bool}

-- All entries that were put into the queue were drained or evicted, or they are still in it.
def TopicQueue.Accounted (q : TopicQueue) : Prop :=
  q.accepted.Perm (q.drained ++ q.evicted ++ q.items)

-- Whether the queue is found in the dictionary matters if it takes the entry. If it cannot compare
-- its capacity, all entries that were evicted have been counted.
def TopicQueue.PutCareful (q : TopicQueue) (found : Prop) : Prop :=
  match q.full with
  | .ok false => found
  | .ok true  => True
  | .error _  => q.evicted.length ≤ q.dropped

instance {q : TopicQueue} {found : Prop} [Decidable found] : Decidable (q.PutCareful found) :=
  match h : q.full with
  | .ok false => decidable_of_iff found <| by simp [TopicQueue.PutCareful, h]
  | .ok true  => isTrue <| by simp [TopicQueue.PutCareful, h]
  | .error _  => decidable_of_iff (q.evicted.length ≤ q.dropped) <| by
    simp [TopicQueue.PutCareful, h]

-- Entries are put into queues that the dictionary contains, and only empty queues are deleted.
def EventOp.Careful : ∀ {β : Type}, EventOp β → Events → Prop
  | _, .put q _, s      => (s.queues q).PutCareful (q ∈ s.topicQueues.values)
  | _, .delete topic, s => ∀ q ∈ s.topicQueues.get? topic, (s.queues q).items = []
  | _, _, _             => True

instance : ∀ {β} (o : EventOp β), Decidable (o.Careful s)
  | _, .put ..      => inferInstanceAs <| Decidable (TopicQueue.PutCareful _ _)
  | _, .delete _    => inferInstanceAs <| Decidable (∀ _ ∈ _, _)
  | _, .time | _, .forward _ | _, .getQueueKey _ | _, .getQueue _ | _, .lock | _, .unlock
  | _, .newQueue _ | _, .getStrategy _ | _, .getMaxDepth _ | _, .len _ | _, .get _ | _, .popleft _
  | _, .countDropped _ | _, .touch _ | _, .nextQueue | _, .takeSnapshot | _, .skipQueue
  | _, .getTtl _ | _, .persist .. | _, .topics | _, .isIdle .. | _, .popLastAccess _ =>
    isTrue trivial

-- The operation has nothing to do with the lock, the dictionary or the contents of the queues.
def EventOp.Quiet : EventOp α → Prop
  | .lock | .unlock | .newQueue _ | .put .. | .get _ | .popleft _ | .countDropped _ | .delete _ =>
    False
  | _ => True

namespace Events

def careful : Condition EventOp Events EventThread EventTask (List Bytes → Bool) where
  enter _ _ _    := True
  exec _ _ _ o s := o.Careful s

instance {i : EventThread} {k : EventTask} : Decidable (careful.enter i k s) :=
  isTrue trivial

instance {i : EventThread} {k : Option EventTask} {o : EventOp β} :
    Decidable (careful.exec i k works o s) :=
  inferInstanceAs <| Decidable (o.Careful s)

-- Every entry that was put into a queue was drained or counted as dropped, or it is in a queue that
-- the dictionary contains. Only the proxy may have evicted an entry that it is about to count.
structure Kept (t : Threads EventOp Error Events EventThread EventTask) : Prop where
  accounted : ∀ q, (t.shared.queues q).Accounted
  reached   : t.shared.topicQueues.Reaches fun q => (t.shared.queues q).items
  counted   : ∀ q, (t.shared.queues q).evicted.length ≤ (t.shared.queues q).dropped + 1
  idle      : ∀ r, t.code .proxy = .done r →
    ∀ q, (t.shared.queues q).evicted.length ≤ (t.shared.queues q).dropped

end Events

namespace Collection

-- What a thread relies on: that it has the lock, that a topic has no queue, and that it has yet to
-- count an entry that it evicted from a queue.
structure View where
  locked  : Bool
  absent  : Option Key
  evicted : Option ℕ

def View.free : View :=
  ⟨false, none, none⟩

def View.held : View :=
  ⟨true, none, none⟩

structure Inv (s : Events) (v : EventThread → View) : Prop where
  exclusive : ∀ i j, (v i).locked → (v j).locked → i = j
  locked    : ∀ i, (v i).locked → s.locked
  absent    : ∀ i, ∀ topic ∈ (v i).absent, (v i).locked ∧ topic ∉ s.topicQueues
  accounted : ∀ q, (s.queues q).Accounted
  counted   : ∀ q, (s.queues q).evicted.length ≤
    (s.queues q).dropped + if q ∈ (v .proxy).evicted then 1 else 0
  reached   : s.topicQueues.Reaches fun q => (s.queues q).items

def outline : Outline events View where
  Inv   := Inv
  cond  := Events.careful
  Err _ := True

variable {v : EventThread → View} {g : View}

theorem Inv.setQueue {queue : TopicQueue} (h : Inv s v) (hb : queue.Accounted)
    (hc : queue.evicted.length ≤ queue.dropped + if q ∈ (v .proxy).evicted then 1 else 0)
    (hr : q ∈ s.topicQueues.values ∨ ((s.queues q).items = [] → queue.items = [])) :
    Inv (s.setQueue q queue) v where
  exclusive   := h.exclusive
  locked      := h.locked
  absent      := h.absent
  accounted p := by
    simp only [Events.setQueue]
    split
    case isTrue  => exact hb
    case isFalse => exact h.accounted p
  counted p   := by
    simp only [Events.setQueue]
    split
    case isTrue hp => exact hp ▸ hc
    case isFalse   => exact h.counted p
  reached     := by
    obtain hq | he := hr
    case inl =>
      refine h.reached.put hq fun p hp => ?_
      simp [Events.setQueue, hp]
    case inr =>
      refine h.reached.shrink fun p hp => ?_
      simp only [Events.setQueue]
      split
      case isTrue hpq => exact he <| hpq ▸ hp
      case isFalse    => exact hp

-- A thread may change what it has evicted from a queue as far as the counts agree with it.
theorem Inv.view (h : Inv s v) (hl : g.locked = (v i).locked) (ha : g.absent = (v i).absent)
    (hc : ∀ q, (s.queues q).evicted.length ≤
      (s.queues q).dropped + if q ∈ (Function.update v i g .proxy).evicted then 1 else 0) :
    Inv s (Function.update v i g) := by
  have hu (j : EventThread) : (Function.update v i g j).locked = (v j).locked ∧
      (Function.update v i g j).absent = (v j).absent := by
    by_cases hj : j = i
    case pos => subst hj; simp [hl, ha]
    case neg => simp [hj]
  constructor
  case exclusive => simpa only [(hu _).left] using h.exclusive
  case locked    => simpa only [(hu _).left] using h.locked
  case absent    => simpa only [(hu _).left, (hu _).right] using h.absent
  case accounted => exact h.accounted
  case counted   => exact hc
  case reached   => exact h.reached

-- The state changes in nothing that the invariant is about.
theorem Inv.quiet (h : Inv s v) (hl : s'.locked = s.locked) (ht : s'.topicQueues = s.topicQueues)
    (hq : s'.queues = s.queues) : Inv s' v where
  exclusive := h.exclusive
  locked    := hl ▸ h.locked
  absent    := ht ▸ h.absent
  accounted := hq ▸ h.accounted
  counted   := hq ▸ h.counted
  reached   := hq ▸ ht ▸ h.reached

theorem keeps_exec {o : EventOp α} {Q : Except Error α → View → Prop}
    (h : ∀ s v works, v i = g → Inv s v → o.Careful s → ¬s.Blocked o →
      ∃ g', Inv (Events.exec works o s).2 (Function.update v i g') ∧
        Q (Events.exec works o s).1 g') : Keeps outline i k Q (op o) g := by
  refine keeps_op fun s v x r s' hv hI hc he => ⟨fun _ _ => trivial, ?_⟩
  simp only [events] at he
  split at he
  case isTrue     => cases he
  case isFalse hb =>
    have hx := h s v x hv hI hc hb
    rw [Option.some.inj he] at hx
    exact hx

theorem keeps_quiet {o : EventOp α} {Q : Except Error α → View → Prop} (ho : o.Quiet)
    (h : ∀ r, Q r g) : Keeps outline i k Q (op o) g := by
  refine keeps_exec fun s v works hv hI _ _ => ⟨g, ?_, h _⟩
  rw [← hv, Function.update_eq_self]
  cases o <;> first | exact hI.quiet rfl rfl rfl | cases ho

theorem keeps_step {o : EventOp α} {f : α → PyEvents β} {Q : Except Error β → View → Prop}
    (ho : o.Quiet) (hf : ∀ a, Keeps outline i k Q (f a) g) (he : ∀ e, Q (.error e) g) :
    Keeps outline i k Q (op o >>= f) g := by
  refine keeps_bind <| keeps_quiet ho fun r => ?_
  cases r
  case ok a    => exact hf a
  case error e => exact he e

-- The code leaves the thread with this view.
abbrev Leaves (g : View) (_ : Except Error α) (g' : View) : Prop :=
  g' = g

theorem keeps_put {e : QueueEntry} {Q : Except Error Bool → View → Prop}
    (hg : ∀ p ∈ g.evicted, p = q) (hok : ∀ b, Q (.ok b) g)
    (herr : ∀ e, Q (.error e) { g with evicted := none }) :
    Keeps outline .proxy k Q (op (.put q e)) g := by
  refine keeps_exec fun s v works hv hI hc _ => ?_
  simp only [EventOp.Careful, TopicQueue.PutCareful] at hc
  simp only [Events.exec]
  have ha : (s.queues q).accepted.Perm _ := hI.accounted q
  split at hc
  case h_1 hf =>
    simp only [hf]
    refine ⟨g, ?_, hok _⟩
    rw [← hv, Function.update_eq_self]
    refine hI.setQueue ?_ (hI.counted q) (.inl hc)
    simpa [TopicQueue.append, TopicQueue.Accounted] using ha.append_right [e]
  case h_2 hf =>
    simp only [hf]
    refine ⟨g, ?_, hok _⟩
    rw [← hv, Function.update_eq_self]
    exact hI.setQueue ha ((hI.counted q).trans <| by simp only [TopicQueue.drop]; omega) (.inr id)
  case h_3 hf =>
    simp only [hf]
    refine ⟨_, hI.view (hv ▸ rfl) (hv ▸ rfl) fun p => ?_, herr _⟩
    have hp := hI.counted p
    simp only [Function.update_self, Option.not_mem_none, if_false, Nat.add_zero]
    split at hp
    case isTrue he  => exact hg p (hv ▸ he) ▸ hc
    case isFalse    => exact hp

theorem keeps_popleft {Q : Except Error QueueEntry → View → Prop} (hg : g.evicted = none)
    (hok : ∀ e, Q (.ok e) { g with evicted := some q }) (herr : ∀ e, Q (.error e) g) :
    Keeps outline .proxy k Q (op (.popleft q)) g := by
  refine keeps_exec fun s v works hv hI _ _ => ?_
  have ha : (s.queues q).accepted.Perm _ := hI.accounted q
  simp only [Events.exec]
  cases hi : (s.queues q).items
  case nil       =>
    refine ⟨g, ?_, herr _⟩
    rw [← hv, Function.update_eq_self]
    exact hI
  case cons e es =>
    have hn : ∀ p, p ∉ (v .proxy).evicted := by simp [hv, hg]
    have hw : Inv s (Function.update v .proxy { g with evicted := some q }) := by
      refine hI.view (hv ▸ rfl) (hv ▸ rfl) fun p => ?_
      have hp := hI.counted p
      rw [if_neg <| hn p] at hp
      omega
    refine ⟨_, hw.setQueue ?_ ?_ (.inr fun h => absurd (hi.symm.trans h) (List.cons_ne_nil _ _)),
      hok _⟩
    · simpa [TopicQueue.Accounted, hi] using ha
    · have hp := hI.counted q
      rw [if_neg <| hn q] at hp
      simpa using hp

theorem keeps_countDropped {Q : Except Error Unit → View → Prop}
    (hg : ∀ p ∈ g.evicted, p = q) (h : ∀ r, Q r { g with evicted := none }) :
    Keeps outline .proxy k Q (op (.countDropped q)) g := by
  refine keeps_exec fun s v works hv hI _ _ => ⟨_, ?_, h _⟩
  have hp := hI.counted
  have hd : Inv (s.setQueue q (s.queues q).drop) v :=
    hI.setQueue (hI.accounted q) ((hp q).trans <| by simp only [TopicQueue.drop]; omega) (.inr id)
  refine hd.view (hv ▸ rfl) (hv ▸ rfl) fun p => ?_
  have hq := hp p
  simp only [Function.update_self, Option.not_mem_none, if_false, Events.setQueue]
  split
  case isTrue h  =>
    subst h
    simp only [TopicQueue.drop]
    split at hq <;> omega
  case isFalse h =>
    rw [if_neg fun he => h <| hg p <| hv ▸ he] at hq
    exact hq

theorem keeps_get {Q : Except Error (Option QueueEntry) → View → Prop} (h : ∀ r, Q r g) :
    Keeps outline i k Q (op (.get q)) g := by
  refine keeps_exec fun s v works hv hI _ _ => ⟨g, ?_, h _⟩
  have ha : (s.queues q).accepted.Perm _ := hI.accounted q
  rw [← hv, Function.update_eq_self]
  simp only [Events.exec]
  cases hi : (s.queues q).items
  case nil       => exact hI
  case cons e es =>
    refine hI.setQueue ?_ (hI.counted q) <|
      .inr fun h => absurd (hi.symm.trans h) (List.cons_ne_nil _ _)
    simp only [TopicQueue.Accounted]
    refine ha.trans ?_
    simp only [hi, List.append_assoc, List.singleton_append]
    exact List.perm_middle.append_left _

theorem counted_update (h : Inv s v) (he : g.evicted = (v i).evicted) :
    ∀ q, (s.queues q).evicted.length ≤
      (s.queues q).dropped + if q ∈ (Function.update v i g .proxy).evicted then 1 else 0 := by
  intro q
  have hv : (Function.update v i g .proxy).evicted = (v .proxy).evicted := by
    by_cases hi : EventThread.proxy = i
    case pos => subst hi; simpa using he
    case neg => rw [Function.update_of_ne hi]
  simpa only [hv] using h.counted q

theorem keeps_lock {Q : Except Error Unit → View → Prop} (h : Q (.ok ()) .held) :
    Keeps outline i k Q (op .lock) .free := by
  refine keeps_exec fun s v works hv hI _ hb => ⟨.held, ?_, h⟩
  -- Nobody has the lock.
  have hn (j : EventThread) : (v j).locked = false :=
    Bool.eq_false_iff.mpr fun hj => hb <| hI.locked j hj
  have hi {j : EventThread} (hj : (Function.update v i .held j).locked) : j = i := by
    by_contra hne
    simp [Function.update_of_ne hne, hn] at hj
  have he : View.held.evicted = (v i).evicted := hv ▸ rfl
  constructor
  case exclusive => exact fun a b ha hb => (hi ha).trans (hi hb).symm
  case locked    => exact fun _ _ => rfl
  case absent    =>
    intro j topic hj
    by_cases hji : j = i
    case pos => simp [hji, View.held] at hj
    case neg =>
      rw [Function.update_of_ne hji] at hj
      exact absurd (hI.absent j topic hj).left <| by simp [hn]
  case accounted => exact hI.accounted
  case counted   => exact counted_update (s := s) hI he
  case reached   => exact hI.reached

theorem keeps_unlock {Q : Except Error Unit → View → Prop} (h : Q (.ok ()) .free) :
    Keeps outline i k Q (op .unlock) .held := by
  refine keeps_exec fun s v works hv hI _ _ => ⟨.free, ?_, h⟩
  -- Nobody else has the lock.
  have hn (j : EventThread) : (Function.update v i .free j).locked = false := by
    by_cases hji : j = i
    case pos => simp [hji, View.free]
    case neg =>
      rw [Function.update_of_ne hji]
      exact Bool.eq_false_iff.mpr fun hj => hji <| hI.exclusive j i hj <| by rw [hv]; rfl
  have he : View.free.evicted = (v i).evicted := hv ▸ rfl
  constructor
  case exclusive => exact fun a _ ha => absurd ha <| by simp [hn]
  case locked    => exact fun a ha => absurd ha <| by simp [hn]
  case absent    =>
    intro j topic hj
    by_cases hji : j = i
    case pos => simp [hji, View.free] at hj
    case neg =>
      have hl := hn j
      rw [Function.update_of_ne hji] at hj hl
      exact absurd (hI.absent j topic hj).left <| by simp [hl]
  case accounted => exact hI.accounted
  case counted   => exact counted_update (s := s) hI he
  case reached   => exact hI.reached

-- A thread with the lock that does not find a queue knows that there is none.
theorem keeps_getQueue {Q : Except Error (Option ℕ) → View → Prop}
    (hs : ∀ q, Q (.ok (some q)) .held)
    (hn : Q (.ok none) { View.held with absent := some topic }) :
    Keeps outline i k Q (op (.getQueue topic)) .held := by
  refine keeps_exec fun s v works hv hI _ _ => ?_
  simp only [Events.exec]
  cases ht : s.topicQueues.get? topic
  case some q =>
    refine ⟨.held, ?_, hs q⟩
    rw [← hv, Function.update_eq_self]
    exact hI
  case none   =>
    have hu (j : EventThread) :
        (Function.update v i { View.held with absent := some topic } j).locked = (v j).locked := by
      by_cases hj : j = i
      case pos => subst hj; simp [hv]
      case neg => simp [hj]
    refine ⟨_, ?_, hn⟩
    constructor
    case exclusive => simpa only [hu] using hI.exclusive
    case locked    => simpa only [hu] using hI.locked
    case absent    =>
      intro j t hj
      rw [hu]
      by_cases hji : j = i
      case pos =>
        subst hji
        simp only [Function.update_self, Option.mem_some_iff] at hj
        exact ⟨by rw [hv]; rfl, hj ▸ Dict.get?_eq_none_iff.mp ht⟩
      case neg =>
        rw [Function.update_of_ne hji] at hj
        exact hI.absent j t hj
    case accounted => exact hI.accounted
    case counted   => exact counted_update hI (hv ▸ rfl)
    case reached   => exact hI.reached

theorem Inv.newQueue {capacity : Value} (h : Inv s v) (ht : topic ∉ s.topicQueues)
    (ha : ∀ j, (v j).absent = none) : Inv (s.newQueue topic capacity) v := by
  have hq : Inv (s.setQueue s.created (.new capacity)) v :=
    h.setQueue (by simp [TopicQueue.Accounted, TopicQueue.new]) (by simp [TopicQueue.new])
      (.inr fun _ => rfl)
  exact ⟨hq.exclusive, hq.locked, by simp [ha], hq.accounted, hq.counted, hq.reached.set ht⟩

theorem keeps_newQueue {Q : Except Error ℕ → View → Prop} (h : ∀ q, Q (.ok q) .held) :
    Keeps outline i k Q (op (.newQueue topic)) { View.held with absent := some topic } := by
  refine keeps_exec fun s v works hv hI _ _ => ⟨.held, ?_, h _⟩
  have ⟨hl, ht⟩ := hI.absent i topic <| by simp [hv]
  have hu (j : EventThread) : (Function.update v i .held j).locked = (v j).locked := by
    by_cases hj : j = i
    case pos => subst hj; simp [hv, View.held]
    case neg => simp [hj]
  have ha (j : EventThread) : (Function.update v i .held j).absent = none := by
    by_cases hj : j = i
    case pos => simp [hj, View.held]
    case neg =>
      rw [Function.update_of_ne hj, Option.eq_none_iff_forall_not_mem]
      exact fun t ht => hj <| hI.exclusive j i (hI.absent j t ht).left hl
  refine Inv.newQueue ?_ ht ha
  exact ⟨by simpa only [hu] using hI.exclusive, by simpa only [hu] using hI.locked,
    by simp [ha], hI.accounted, counted_update hI (hv ▸ rfl), hI.reached⟩

theorem keeps_delete {Q : Except Error Unit → View → Prop} (h : ∀ r, Q r g) :
    Keeps outline i k Q (op (.delete topic)) g := by
  refine keeps_exec fun s v works hv hI hc _ => ⟨g, ?_, h _⟩
  rw [← hv, Function.update_eq_self]
  simp only [Events.exec]
  split
  case isFalse => exact hI
  case isTrue  =>
    refine ⟨hI.exclusive, hI.locked, fun j t ht => ?_, hI.accounted, hI.counted,
      hI.reached.erase hc⟩
    have ⟨hl, hn⟩ := hI.absent j t ht
    exact ⟨hl, fun hm => hn (Dict.mem_erase.mp hm).right⟩

theorem keeps_applyBackpressure {frames : List Bytes} {l : Bool} {a : Option Key} :
    Keeps outline .proxy k (Leaves ⟨l, a, none⟩) (applyBackpressure q topic frames)
      ⟨l, a, none⟩ := by
  refine keeps_step trivial (fun strategy => ?_) fun _ => rfl
  refine keeps_step trivial (fun maxDepth => ?_) fun _ => rfl
  refine keeps_step trivial (fun now => ?_) fun _ => rfl
  refine keeps_step trivial (fun length => ?_) fun _ => rfl
  refine keeps_bind ?_
  cases maxDepth.number
  case error => exact rfl
  case ok x  =>
    change Keeps _ _ _ _ (ite _ _ _) _
    split
    case isTrue  =>
      exact keeps_bind <| keeps_put (fun _ h => absurd h <| by simp) (fun _ => rfl) fun _ => rfl
    case isFalse =>
      have hc {g : View} {b : Bool} (hg : ∀ p ∈ g.evicted, p = q) :
          Keeps outline .proxy k (Leaves { g with evicted := none })
            (op (.countDropped q) >>= fun _ => pure b) g :=
        keeps_bind <| keeps_countDropped hg fun r => by cases r <;> rfl
      cases strategy
      case dropNewest | blockProducer => exact hc fun _ h => absurd h <| by simp
      case dropOldest =>
        refine keeps_bind <| keeps_popleft rfl (fun e => ?_) fun _ => rfl
        have hg : ∀ p ∈ some q, p = q := fun p hp => (Option.mem_some_iff.mp hp).symm
        exact keeps_bind <| keeps_put hg (fun _ => hc hg) fun _ => rfl

theorem keeps_withLock {p : PyEvents α} (h : Keeps outline i k (Leaves .held) p .held) :
    Keeps outline i k (Leaves .free) (withLock p) .free := by
  refine keeps_bind <| keeps_lock <| keeps_after <| h.mono fun r g hg => ?_
  subst hg
  exact keeps_bind <| keeps_unlock rfl

theorem keeps_getOrCreateQueue :
    Keeps outline i k (Leaves .held) (getOrCreateQueue topic) .held :=
  keeps_bind <| keeps_getQueue (fun _ => rfl) <| keeps_newQueue fun _ => rfl

theorem keeps_enqueueFromXsub {frames : List Bytes} :
    Keeps outline .proxy k (Leaves .free) (enqueueFromXsub frames) .free := by
  unfold enqueueFromXsub
  split
  case h_2 => exact rfl
  case h_1 topicFrame _ _ =>
    refine keeps_bind ?_
    cases decode topicFrame
    case error    => exact rfl
    case ok topic =>
      refine keeps_step trivial (fun queueKey => ?_) fun _ => rfl
      refine keeps_step trivial (fun q => ?_) fun _ => rfl
      cases q
      case some q =>
        refine keeps_bind <| keeps_applyBackpressure.mono fun r g hg => ?_
        cases r
        case error => exact hg
        case ok    => exact keeps_quiet trivial fun _ => hg
      case none   =>
        refine keeps_bind <| (keeps_withLock ?_).mono fun r g hg => by cases r <;> exact hg
        refine keeps_bind <| keeps_getOrCreateQueue.mono fun r g hg => ?_
        subst hg
        cases r
        case error => exact rfl
        case ok    => exact keeps_applyBackpressure

theorem keeps_proxyEvent {frames : List Bytes} :
    Keeps outline .proxy k (Leaves .free) (proxyEvent frames) .free := by
  refine keeps_bind <| keeps_catching <| keeps_quiet trivial fun r => ?_
  cases r <;> exact keeps_enqueueFromXsub

theorem keeps_drainEntry {e : QueueEntry} :
    Keeps outline i k (Leaves g) (drainEntry topic e) g := by
  have ht : Keeps outline i k (Leaves g) (op (.touch topic)) g := keeps_quiet trivial fun _ => rfl
  refine keeps_step trivial (fun now => ?_) fun _ => rfl
  refine keeps_step trivial (fun ttl => keeps_bind ?_) fun _ => rfl
  cases ttl.exceededBy (now - e.enqueueTime)
  case error => exact rfl
  case ok b  =>
    cases b
    case false => exact ht
    case true  =>
      refine keeps_bind <| keeps_catching <| keeps_quiet trivial fun r => ?_
      cases r <;> exact ht

theorem keeps_drain : Keeps outline i k (Leaves g) drain g := by
  refine keeps_step trivial (fun x => ?_) fun _ => rfl
  cases x
  case none   => exact keeps_quiet trivial fun _ => rfl
  case some x =>
    refine keeps_bind <| keeps_get fun r => ?_
    cases r
    case error => exact rfl
    case ok e  =>
      cases e
      case none   => exact keeps_quiet trivial fun _ => rfl
      case some e => exact keeps_drainEntry

theorem keeps_collectTopics : Keeps outline i k (Leaves .free) collectTopics .free := by
  refine keeps_step trivial (fun now => keeps_withLock ?_) fun _ => rfl
  refine keeps_step trivial (fun topics => keeps_bind ?_) fun _ => rfl
  refine keeps_select (fun topic => keeps_quiet trivial fun r => by cases r <;> rfl) fun dead => ?_
  refine keeps_each (fun topic => keeps_bind <| keeps_delete fun r => ?_) rfl
  cases r
  case error => exact rfl
  case ok    => exact keeps_quiet trivial fun r => by cases r <;> rfl

theorem Inv.registerInterface {m : ModuleId} {x : Interface} (h : Inv s v)
    (ha : ∀ j, (v j).absent = none) : Inv (s.registerInterface m x topic) v := by
  have hq : Inv (if topic ∈ (s.configure topic x).topicQueues then s.configure topic x
      else (s.configure topic x).newQueue topic x.maxQueueDepth) v := by
    have hc : Inv (s.configure topic x) v := h.quiet rfl rfl rfl
    split
    case isTrue     => exact hc
    case isFalse ht => exact hc.newQueue ht ha
  unfold Events.registerInterface
  dsimp only
  split <;> exact hq.quiet rfl rfl rfl

theorem Inv.registerInterfaces {m : ModuleId} {xs : List Interface} (h : Inv s v)
    (ha : ∀ j, (v j).absent = none) : Inv (Events.registerInterfaces m xs s).2 v := by
  induction xs generalizing s
  case nil          => exact h
  case cons x xs hi =>
    unfold Events.registerInterfaces
    split
    case h_1 => exact h
    case h_2 => exact hi <| h.registerInterface ha

theorem Inv.unregisterInterfaces {m : ModuleId} {xs : List Interface} (h : Inv s v) :
    Inv (Events.unregisterInterfaces m xs s).2 v := by
  induction xs generalizing s
  case nil          => exact h
  case cons x xs hi =>
    unfold Events.unregisterInterfaces
    split
    case h_1 => exact h
    case h_2 => exact hi <| h.quiet rfl rfl rfl

theorem Inv.unregisterModule {m : ModuleId} (h : Inv s v) : Inv (s.unregisterModule m).2 v := by
  unfold Events.unregisterModule
  split
  case h_1      => exact h
  case h_2 info _ =>
    have hu : Inv (Events.unregisterInterfaces m info.interfaces s).2 v := h.unregisterInterfaces
    cases hr : Events.unregisterInterfaces m info.interfaces s
    case mk r s' =>
      rw [hr] at hu
      cases r
      case error => exact hu
      case ok    => exact hu.quiet rfl rfl rfl

theorem begins : Begins outline fun _ => Leaves .free := by
  intro i k s v s' p hI hv _ he
  have hv : v i = .free := hv
  refine ⟨.free, ?_⟩
  rw [← hv, Function.update_eq_self, hv]
  simp only [events, Events.enter] at he
  split at he
  case h_1 => cases he; exact ⟨hI, keeps_proxyEvent⟩
  case h_2 => cases he; exact ⟨hI, keeps_drain⟩
  case h_3 => cases he; exact ⟨hI, keeps_collectTopics⟩
  case h_4 =>
    split at he
    case isTrue     => cases he
    case isFalse hl =>
      cases he
      have ha (j : EventThread) : (v j).absent = none :=
        Option.eq_none_iff_forall_not_mem.mpr fun t ht => hl <| hI.locked j (hI.absent j t ht).left
      exact ⟨Inv.registerInterfaces (hI.quiet rfl rfl rfl) ha, rfl⟩
  case h_5 => cases he; exact ⟨hI.unregisterModule, rfl⟩
  case h_6 =>
    split at he <;> cases he
    exact ⟨hI.quiet rfl rfl rfl, rfl⟩
  case h_7 => cases he

theorem kept_of_sound {t : Threads EventOp Error Events EventThread EventTask}
    (h : Sound outline (fun _ => Leaves .free) t) : Events.Kept t := by
  obtain ⟨v, hI, h⟩ := h
  refine ⟨hI.accounted, hI.reached, fun q => (hI.counted q).trans ?_, fun r hr q => ?_⟩
  case refine_1 => split <;> omega
  case refine_2 =>
    have hp := h .proxy
    rw [hr] at hp
    have hv : v .proxy = .free := hp
    simpa [hv, View.free] using hI.counted q

end Collection

namespace events

open Collection

variable {now : ℚ} {capacity : Option ℤ}
variable {as : List (Threads.Action EventThread EventTask (List Bytes → Bool))}

theorem start_sound_free :
    Sound outline (fun _ => Leaves .free) (.start <| .start now capacity) := by
  refine ⟨fun _ => .free, ?_, fun _ => rfl⟩
  constructor <;> simp [View.free, start, Events.start, TopicQueue.Accounted, TopicQueue.new]
  exact fun _ h => absurd rfl h

theorem always_kept_of_careful
    (c : (machine events).Along (Meets Events.careful) (.start <| .start now capacity) as) :
    (machine events).Always Events.Kept (.start <| .start now capacity) as :=
  (always_sound begins start_sound_free c).mono fun _ => kept_of_sound

end events

end Python
