import Tyche.Cpp.Frames
import Tyche.Cpp.Theorems.TopicQueue

namespace Cpp.Frames

namespace Frame

variable {f g : Frame} {data : Bytes}

-- The frame stores the data, in its buffer or on the heap.
inductive Stores (f : Frame) (data : Bytes) : Prop
  | inline (fits : data.length ≤ SSO_SIZE) (size : f.size = .ofNat data.length)
      (buf : f.ssoBuf.take data.length = data)
  | heap (size : f.size = 0xFF) (ptr : f.heapPtr = some data) (len : f.heapLen = data.length)

theorem ofNat_ne_marker {n : ℕ} (h : n ≤ SSO_SIZE) : UInt8.ofNat n ≠ 0xFF := by
  intro he
  have := congrArg UInt8.toNat he
  simp only [SSO_SIZE] at h
  simp at this
  omega

theorem toNat_ofNat {n : ℕ} (h : n ≤ SSO_SIZE) : (UInt8.ofNat n).toNat = n := by
  simp only [SSO_SIZE] at h
  simp
  omega

@[simp]
theorem take_memcpy (dst src : Bytes) : (memcpy dst src).take src.length = src := by
  simp [memcpy]

theorem new_stores : (new data).Stores data := by
  by_cases h : data.length ≤ SSO_SIZE
  case pos =>
    rw [new, if_pos h]
    exact .inline h rfl (take_memcpy ..)
  case neg =>
    rw [new, if_neg h]
    exact .heap rfl rfl rfl

theorem Stores.copy (s : f.Stores data) : f.copy.Stores data := by
  cases s
  case inline h size buf =>
    rw [Frame.copy, size, if_neg (ofNat_ne_marker h), toNat_ofNat h, buf]
    exact .inline h rfl (take_memcpy ..)
  case heap size ptr len =>
    rw [Frame.copy, if_pos size, ptr, len, Option.map_some, List.take_length]
    exact .heap size rfl rfl

theorem Stores.moveAssign (s : g.Stores data) : (f.moveAssign g).Stores data := by
  cases s
  case inline h size buf =>
    rw [Frame.moveAssign, size, if_neg (ofNat_ne_marker h), toNat_ofNat h, buf]
    exact .inline h rfl (take_memcpy ..)
  case heap size ptr len =>
    rw [Frame.moveAssign, if_pos size]
    exact .heap size ptr len

theorem Stores.toVector_eq (s : f.Stores data) : f.toVector = data := by
  cases s
  case inline h size buf => rw [toVector, size, if_neg (ofNat_ne_marker h), toNat_ofNat h, buf]
  case heap size ptr len => rw [toVector, if_pos size, ptr, len, Option.getD_some, List.take_length]

end Frame

-- Any bytes survive the two copies, but only of so many frames.
theorem toVector_fixedFrames (frames : List Bytes) :
    ((fixedFrames frames).map Frame.copy).map Frame.toVector = frames.take MAX_FRAMES := by
  rw [fixedFrames, List.map_map, List.map_map]
  conv_rhs => rw [← List.map_id (frames.take MAX_FRAMES)]
  exact List.map_congr_left fun _ _ => Frame.new_stores.moveAssign.copy.toVector_eq

def truncate (m : Numbered) : Numbered :=
  (m.1, m.2.take MAX_FRAMES)

variable {k n : ℕ} {q : RingBuffer.TopicQueue QueueItem} {s s' : Topics} {i : Ideal} {topic : Bytes}
variable {f : Fifo QueueItem} {g : Fifo Numbered} {x : QueueItem} {m : Numbered}

-- The items of a queue against the messages they stand for.
structure Shows (f : Fifo QueueItem) (g : Fifo Numbered) : Prop where
  accepted : f.accepted.map QueueItem.message = g.accepted.map truncate
  taken    : f.taken = g.taken

namespace Shows

theorem length_eq (h : Shows f g) : f.accepted.length = g.accepted.length := by
  simpa using congrArg List.length h.accepted

theorem take (h : Shows f g) : Shows f.take g.take where
  accepted := h.accepted
  taken    := by simp only [Fifo.take, h.length_eq, h.taken]

theorem offer (h : Shows f g) (hx : x.message = truncate m) : Shows (f.offer x) (g.offer m) where
  accepted := by simp [h.accepted, hx]
  taken    := h.taken

theorem overwrite (h : Shows f g) (hx : x.message = truncate m) :
    Shows (RingBuffer.specOverwrite n f x) (RingBuffer.specOverwrite n g m) := by
  have hs : f.size = g.size := by rw [Fifo.size, Fifo.size, h.length_eq, h.taken]
  rw [RingBuffer.specOverwrite, RingBuffer.specOverwrite, hs]
  by_cases hn : g.size < n
  case pos => simpa only [if_pos hn] using h.offer hx
  case neg => simpa only [if_neg hn] using h.take.offer hx

theorem front? (h : Shows f g) : f.front?.map QueueItem.message = g.front?.map truncate := by
  have := congrArg (·[g.taken]?) h.accepted
  simpa [Fifo.front?, h.taken] using this

end Shows

-- The queue of the topic against the ideal one.
structure Follows (k : ℕ) (topic : Bytes) (s : Topics) (i : Ideal) : Prop where
  create  : RingBuffer.Tracks k (RingBuffer.create QueueItem (s.queueCapacity.signExtend 64)) .empty
  known   : ∀ q, s.queues.get? topic = some q →
    q.strategy = .dropOldest ∧ ∃ f, RingBuffer.Tracks k q.buffer f ∧ Shows f i.queue
  unknown : s.queues.get? topic = none → i.queue = .empty
  drained : s.drainedOf topic = i.drained.map truncate

theorem Follows.getOrCreate (r : Follows k topic s i) : (s.getOrCreate topic).strategy = .dropOldest ∧
    ∃ f, RingBuffer.Tracks k (s.getOrCreate topic).buffer f ∧ Shows f i.queue := by
  rw [Topics.getOrCreate, Dict.getD]
  cases h : s.queues.get? topic
  case none   => exact ⟨rfl, .empty, r.create, r.unknown h ▸ ⟨rfl, rfl⟩⟩
  case some q => exact r.known q h

-- The ideal queue of a topic when a message, or a call of the egress worker, has come.
def Ideal.receive (i : Ideal) (bound : ℕ) (topic : Bytes) (n : ℕ) (frames : List Bytes) : Ideal :=
  if Addressed topic frames then
    { i with queue := RingBuffer.specOverwrite bound i.queue (n, frames) }
  else
    i

def Ideal.drain (i : Ideal) (topic t : Bytes) : Ideal :=
  if t = topic then
    { queue := i.queue.take, drained := i.drained ++ i.queue.front?.toList }
  else
    i

theorem Ideal.run_receive {now : ℚ} {frames : List Bytes} {as : List Topics.Action} :
    Ideal.run k topic n i (.receive now frames :: as) =
      Ideal.run k topic (n + 1) (i.receive k topic n frames) as := by
  rw [run, receive]
  split <;> rfl

theorem Ideal.run_drain {t : Bytes} {as : List Topics.Action} :
    Ideal.run k topic n i (.drain t :: as) = Ideal.run k topic n (i.drain topic t) as := by
  rw [run, Ideal.drain]
  split <;> rfl

section Step

variable {is : Bytes → Ideal} {now : ℚ} {frames : List Bytes} {t : Bytes}

theorem drained_of (items : List QueueItem) :
    ((items.map fun item => (t, item)).filter (·.1 = topic)).map (·.2.message) =
      if t = topic then items.map QueueItem.message else [] := by
  split
  case isTrue ht  => simp [ht, List.filter_map, Function.comp_def]
  case isFalse ht => simp [ht]

theorem follows_receive (r : ∀ topic, Follows k topic s (is topic)) (now : ℚ) (frames : List Bytes) :
    ∃ s', (∀ fuel, s.enqueueFromXsub now frames (fuel + 3) = some s') ∧
      s'.received = s.received + 1 ∧
      ∀ topic, Follows k topic s' ((is topic).receive (2 ^ k) topic s.received frames) := by
  have short (h : frames.length < 2) (topic : Bytes) :
      Follows k topic { s with received := s.received + 1 }
        ((is topic).receive (2 ^ k) topic s.received frames) := by
    have r := r topic
    rw [Ideal.receive, if_neg (by rw [Addressed]; omega)]
    exact ⟨r.create, r.known, r.unknown, r.drained⟩
  rcases frames with _ | ⟨t, _ | ⟨second, rest⟩⟩
  · exact ⟨_, fun _ => rfl, rfl, short (by simp)⟩
  · exact ⟨_, fun _ => rfl, rfl, short (by simp)⟩
  · obtain ⟨hs, f, tr, sh⟩ := (r t).getOrCreate
    have ⟨q, hq, hs', tr'⟩ := RingBuffer.TopicQueue.put_dropOldest hs tr
      { enqueueTime := now, frames := (fixedFrames (t :: second :: rest)).map Frame.copy,
        number := s.received }
    refine ⟨_, fun fuel => by rw [Topics.enqueueFromXsub, hq]; rfl, rfl, fun topic => ?_⟩
    have r := r topic
    by_cases ht : topic = t
    case pos =>
      subst ht
      rw [Ideal.receive, if_pos ⟨rfl, by simp⟩]
      refine ⟨r.create, fun q' h => ?_, fun h => ?_, r.drained⟩
      · cases Dict.get?_set_self.symm.trans h
        exact ⟨hs', _, tr', sh.overwrite <| Prod.ext rfl <| toVector_fixedFrames _⟩
      · cases Dict.get?_set_self.symm.trans h
    case neg =>
      rw [Ideal.receive, if_neg fun h => ht <| (Option.some.inj h.left).symm]
      refine ⟨r.create, fun q' h => ?_, fun h => ?_, r.drained⟩
      · exact r.known q' <| (Dict.get?_set_ne ht).symm.trans h
      · exact r.unknown <| (Dict.get?_set_ne ht).symm.trans h

theorem follows_drain (r : ∀ topic, Follows k topic s (is topic)) (t : Bytes) :
    ∃ s', s.drain t = some s' ∧ s'.received = s.received ∧
      ∀ topic, Follows k topic s' ((is topic).drain topic t) := by
  cases hq : s.queues.get? t
  case none =>
    refine ⟨s, by rw [Topics.drain, hq], rfl, fun topic => ?_⟩
    have r := r topic
    rw [Ideal.drain]
    split
    case isFalse => exact r
    case isTrue ht =>
      subst ht
      have hi := r.unknown hq
      rw [hi]
      refine ⟨r.create, fun q h => ?_, fun _ => rfl, ?_⟩
      · cases hq.symm.trans h
      · simpa [Fifo.front?, Fifo.empty] using r.drained
  case some q =>
    obtain ⟨hs, f, tr, sh⟩ := (r t).known q hq
    obtain ⟨q', hg, hs', tr'⟩ := RingBuffer.TopicQueue.get_eq tr
    let items := f.front?.toList
    let s' := { s with
      queues := s.queues.set t q', drained := s.drained ++ items.map fun item => (t, item) }
    have hd (topic : Bytes) : s'.drainedOf topic = s.drainedOf topic ++
        if t = topic then items.map QueueItem.message else [] := by
      rw [← drained_of, Topics.drainedOf, List.filter_append, List.map_append]
      rfl
    refine ⟨s', by simp [Topics.drain, hq, hg, s', items], rfl, fun topic => ?_⟩
    have r := r topic
    by_cases ht : t = topic
    case pos =>
      subst ht
      rw [Ideal.drain, if_pos rfl]
      refine ⟨r.create, fun q'' h => ?_, fun h => ?_, ?_⟩
      · cases Dict.get?_set_self.symm.trans h
        exact ⟨hs'.trans hs, _, tr', sh.take⟩
      · cases Dict.get?_set_self.symm.trans h
      · rw [hd, if_pos rfl, r.drained, List.map_append, ← Option.toList_map, ← Option.toList_map,
          sh.front?]
    case neg =>
      rw [Ideal.drain, if_neg ht]
      refine ⟨r.create, fun q'' h => ?_, fun h => ?_, ?_⟩
      · exact r.known q'' <| (Dict.get?_set_ne (Ne.symm ht)).symm.trans h
      · exact r.unknown <| (Dict.get?_set_ne (Ne.symm ht)).symm.trans h
      · rw [hd, if_neg ht, List.append_nil, r.drained]

theorem follows_exec (r : ∀ topic, Follows k topic s (is topic)) (as : List Topics.Action) :
    ∃ s', (∀ fuel, (Topics.machine (fuel + 3)).exec s as = some s') ∧
      ∀ topic, Follows k topic s' (.run (2 ^ k) topic s.received (is topic) as) := by
  induction as generalizing s is
  case nil => exact ⟨s, fun _ => rfl, r⟩
  case cons a as hi =>
    cases a
    case receive now frames =>
      obtain ⟨s₁, h₁, hn, r₁⟩ := follows_receive r now frames
      obtain ⟨s', h, r'⟩ := hi r₁
      refine ⟨s', fun fuel => Machine.exec_cons_eq_some_iff.mpr ⟨s₁, h₁ fuel, h fuel⟩, fun topic => ?_⟩
      rw [Ideal.run_receive, ← hn]
      exact r' topic
    case drain t =>
      obtain ⟨s₁, h₁, hn, r₁⟩ := follows_drain r t
      obtain ⟨s', h, r'⟩ := hi r₁
      refine ⟨s', fun fuel => Machine.exec_cons_eq_some_iff.mpr ⟨s₁, h₁, h fuel⟩, fun topic => ?_⟩
      rw [Ideal.run_drain, ← hn]
      exact r' topic

end Step

section Order

variable {as : List Topics.Action} {l : List Numbered}

def Ideal.Drains (i : Ideal) : Prop :=
  i.drained.Sublist <| i.queue.accepted.take i.queue.taken

theorem Ideal.Drains.receive (d : i.Drains) (topic : Bytes) (frames : List Bytes) :
    (i.receive k topic n frames).Drains ∧
      (i.receive k topic n frames).queue.accepted = i.queue.accepted ++
        if Addressed topic frames then [(n, frames)] else [] := by
  rw [Ideal.receive]
  split
  case isFalse => exact ⟨d, (List.append_nil _).symm⟩
  case isTrue =>
    have he : (RingBuffer.specOverwrite k i.queue (n, frames)).accepted =
        i.queue.accepted ++ [(n, frames)] := by
      rw [RingBuffer.specOverwrite]
      split <;> rfl
    have hl : i.queue.taken ≤ (RingBuffer.specOverwrite k i.queue (n, frames)).taken := by
      rw [RingBuffer.specOverwrite]
      split
      case isTrue  => exact Nat.le_refl _
      case isFalse => simp only [Fifo.offer_taken, Fifo.take]; split <;> omega
    refine ⟨?_, he⟩
    rw [Drains, he]
    refine d.trans ?_
    rw [← List.take_append_of_le_length i.queue.taken_le]
    exact List.take_sublist_take_left hl

theorem Ideal.Drains.drain (d : i.Drains) (topic t : Bytes) :
    (i.drain topic t).Drains ∧ (i.drain topic t).queue.accepted = i.queue.accepted := by
  rw [Ideal.drain]
  split
  case isFalse => exact ⟨d, rfl⟩
  case isTrue =>
    refine ⟨?_, rfl⟩
    cases hf : i.queue.front?
    case none   => simpa [Drains, Fifo.take_eq_self (Fifo.front?_eq_none_iff.mp hf)] using d
    case some m =>
      simp only [Drains, Fifo.take_accepted, Fifo.taken_concat_front? hf]
      exact d.append_right _

theorem Ideal.Drains.run (d : i.Drains) (topic : Bytes) (as : List Topics.Action) :
    (i.run k topic n as).Drains ∧
    (Ideal.run k topic n i as).queue.accepted = i.queue.accepted ++ received topic n as := by
  induction as generalizing i n
  case nil => exact ⟨d, (List.append_nil _).symm⟩
  case cons a as hi =>
    cases a
    case receive now frames =>
      have ⟨d₁, h₁⟩ := d.receive (k := k) (n := n) topic frames
      have ⟨d₂, h₂⟩ := hi (n := n + 1) d₁
      rw [Ideal.run_receive, h₂, h₁, received]
      refine ⟨d₂, ?_⟩
      split <;> simp
    case drain t =>
      have ⟨d₁, h₁⟩ := d.drain topic t
      have ⟨d₂, h₂⟩ := hi (n := n) d₁
      rw [Ideal.run_drain, h₂, h₁, received]
      exact ⟨d₂, rfl⟩

theorem Ideal.drained_sublist :
    (Ideal.run k topic n .empty as).drained.Sublist (received topic n as) := by
  have hd : Ideal.empty.Drains := List.nil_sublist _
  have ⟨hd, ha⟩ := hd.run (k := k) (n := n) topic as
  exact hd.trans <| ha ▸ List.take_sublist ..

theorem le_of_mem_received (h : m ∈ received topic n as) : n ≤ m.1 := by
  induction as generalizing n
  case nil => cases h
  case cons a as hi =>
    cases a
    case drain t => exact hi h
    case receive now frames =>
      rw [received] at h
      split at h
      case isFalse => exact Nat.le_of_succ_le (hi h)
      case isTrue =>
        rcases List.mem_cons.mp h with rfl | h
        · exact Nat.le_refl _
        · exact Nat.le_of_succ_le (hi h)

theorem nodup_received : ((received topic n as).map Prod.fst).Nodup := by
  induction as generalizing n
  case nil => exact .nil
  case cons a as hi =>
    cases a
    case drain t => exact hi
    case receive now frames =>
      rw [received]
      split
      case isFalse => exact hi
      case isTrue =>
        refine List.nodup_cons.mpr ⟨fun h => ?_, hi⟩
        obtain ⟨m, hm, he⟩ := List.mem_map.mp h
        have := le_of_mem_received hm
        omega

theorem map_truncate_sublist_iff {ms : List Numbered} (h : l.Sublist ms)
    (hn : (ms.map Prod.fst).Nodup) :
    (l.map truncate).Sublist ms ↔ ∀ m ∈ l, m.2.length ≤ MAX_FRAMES := by
  constructor
  case mp =>
    intro hs m hm
    have he : truncate m = m :=
      List.inj_on_of_nodup_map hn (hs.subset <| List.mem_map_of_mem hm) (h.subset hm) rfl
    have := congrArg (·.2.length) he
    simp [truncate] at this
    exact this
  case mpr =>
    intro hm
    have he : ∀ m ∈ l, truncate m = id m := fun m h =>
      Prod.ext rfl <| List.take_of_length_le (hm m h)
    rwa [List.map_congr_left he, List.map_id]

end Order

-- A message that is put into a queue.
def Topics.Action.Enqueues : Topics.Action → Prop
  | .receive _ frames => 2 ≤ frames.length
  | .drain _          => False

-- Nothing is enqueued at all, or the queues can be made and each message that is drained has as many
-- frames as are kept.
def Fits (queueCapacity : BitVec 32) (topic : Bytes) (as : List Topics.Action) : Prop :=
  (∀ a ∈ as, ¬a.Enqueues) ∨ (0 ≤ queueCapacity.toInt ∧
    ∀ m ∈ (Ideal.run (RingBuffer.bound (queueCapacity.signExtend 64)) topic 0 .empty as).drained,
      m.2.length ≤ MAX_FRAMES)

variable {as : List Topics.Action} {c : BitVec 32}

theorem capacity_le_iff : (c.signExtend 64).toNat ≤ 2 ^ 63 ↔ 0 ≤ c.toInt := by
  have h := BitVec.toInt_signExtend_of_le (x := c) (v := 64) (by decide)
  have hl := c.isLt
  rw [BitVec.toInt_eq_toNat_cond (c.signExtend 64)] at h
  rw [BitVec.toInt_eq_toNat_cond c] at h ⊢
  split at h <;> split at h <;> omega

theorem received_eq_nil (h : ∀ a ∈ as, ¬a.Enqueues) : received topic n as = [] := by
  induction as generalizing n
  case nil => rfl
  case cons a as hi =>
    have ⟨ha, has⟩ := List.forall_mem_cons.mp h
    clear h
    cases a
    case drain t => exact hi has
    case receive now frames =>
      rw [received, if_neg fun hd => ha hd.right]
      exact hi has

theorem start_drain (h : s.queues = ∅) (t : Bytes) : s.drain t = some s := by
  rw [Topics.drain, h]
  rfl

theorem exec_idle (h : s.queues = ∅) (ha : ∀ a ∈ as, ¬a.Enqueues) :
    ∃ s', (∀ fuel, (Topics.machine fuel).exec s as = some s') ∧ s'.drained = s.drained := by
  induction as generalizing s
  case nil => exact ⟨s, fun _ => rfl, rfl⟩
  case cons a as hi =>
    have ⟨hn, has⟩ := List.forall_mem_cons.mp ha
    clear ha
    cases a
    case drain t =>
      obtain ⟨s', he, hd⟩ := hi h has
      exact ⟨s', fun fuel => Machine.exec_cons_eq_some_iff.mpr ⟨s, start_drain h t, he fuel⟩, hd⟩
    case receive now frames =>
      obtain ⟨s', he, hd⟩ := hi (s := { s with received := s.received + 1 }) h has
      refine ⟨s', fun fuel => Machine.exec_cons_eq_some_iff.mpr ⟨_, ?_, he fuel⟩, hd⟩
      rcases frames with _ | ⟨t, _ | ⟨second, rest⟩⟩
      · rfl
      · rfl
      · exact absurd (by simp [Topics.Action.Enqueues]) hn

-- Without slots no message gets into a queue.
theorem not_enqueues_of_exec (hc : ¬0 ≤ s.queueCapacity.toInt) (hs : s.queues = ∅) {fuel : ℕ}
    (h : (Topics.machine fuel).exec s as = some s') : ∀ a ∈ as, ¬a.Enqueues := by
  induction as generalizing s
  case nil => exact List.forall_mem_nil _
  case cons a as hi =>
    obtain ⟨s₁, h₁, h⟩ := Machine.exec_cons_eq_some_iff.mp h
    cases a
    case drain t =>
      cases (start_drain hs t).symm.trans h₁
      exact List.forall_mem_cons.mpr ⟨id, hi hc hs h⟩
    case receive now frames =>
      let r : Topics := { s with received := s.received + 1 }
      rcases frames with _ | ⟨t, _ | ⟨second, rest⟩⟩
      · cases h₁
        exact List.forall_mem_cons.mpr ⟨by simp [Topics.Action.Enqueues], hi (s := r) hc hs h⟩
      · cases h₁
        exact List.forall_mem_cons.mpr ⟨by simp [Topics.Action.Enqueues], hi (s := r) hc hs h⟩
      · have hq : s.getOrCreate t = .create (s.queueCapacity.signExtend 64) .dropOldest := by
          rw [Topics.getOrCreate, hs]
          rfl
        have hp (x : QueueItem) : (s.getOrCreate t).put x fuel = none := by
          have hc := Nat.lt_of_not_le <| capacity_le_iff.not.mpr hc
          rw [hq]
          simpa [RingBuffer.TopicQueue.call] using RingBuffer.TopicQueue.create_call_eq_none hc fuel (.put x)
        have hn : s.enqueueFromXsub now (t :: second :: rest) fuel = none := by
          simp only [Topics.enqueueFromXsub, hp, Option.bind_eq_bind, Option.bind_none]
        cases hn.symm.trans h₁

theorem whole_iff_drained (hc : 0 ≤ c.toInt) : Whole c topic as ↔
    ∀ m ∈ (Ideal.run (RingBuffer.bound (c.signExtend 64)) topic 0 .empty as).drained,
      m.2.length ≤ MAX_FRAMES := by
  have tr := RingBuffer.tracks_create (α := QueueItem) (capacity_le_iff.mpr hc)
  have r (topic : Bytes) :
      Follows (Nat.clog 2 (max (c.signExtend 64).toNat 2)) topic (.start c) .empty :=
    ⟨tr, nofun, fun _ => rfl, rfl⟩
  obtain ⟨s, hs, r'⟩ := follows_exec r as
  have hw : Whole c topic as ↔ (s.drainedOf topic).Sublist (received topic 0 as) := by
    constructor
    case mp =>
      rintro ⟨n, h⟩
      obtain ⟨s', hs', h⟩ := h (n + 3) (by omega)
      cases (hs n).symm.trans hs'
      exact h
    case mpr =>
      intro h
      refine ⟨3, fun fuel hf => ?_⟩
      obtain ⟨fuel, rfl⟩ := Nat.exists_eq_add_of_le' hf
      exact ⟨s, hs fuel, h⟩
  rw [hw, (r' topic).drained]
  exact map_truncate_sublist_iff Ideal.drained_sublist nodup_received

-- The messages drained are whole exactly if none of them has more frames than an item keeps.
theorem whole_iff_fits (queueCapacity : BitVec 32) (topic : Bytes) (as : List Topics.Action) :
    Whole queueCapacity topic as ↔ Fits queueCapacity topic as := by
  by_cases hc : 0 ≤ queueCapacity.toInt
  case pos =>
    rw [whole_iff_drained hc]
    refine ⟨fun h => .inr ⟨hc, h⟩, ?_⟩
    rintro (h | ⟨-, h⟩)
    case inr => exact h
    case inl =>
      intro m hm
      have := Ideal.drained_sublist.subset hm
      rw [received_eq_nil h] at this
      cases this
  case neg =>
    simp only [Fits, hc, false_and, or_false]
    constructor
    case mp =>
      rintro ⟨n, h⟩
      obtain ⟨s, hs, -⟩ := h n (Nat.le_refl _)
      exact not_enqueues_of_exec (s := .start queueCapacity) hc rfl hs
    case mpr =>
      intro h
      obtain ⟨s, hs, hd⟩ := exec_idle (s := .start queueCapacity) rfl h
      refine ⟨0, fun fuel _ => ⟨s, hs fuel, ?_⟩⟩
      rw [Topics.drainedOf, hd]
      exact List.nil_sublist _

-- The last of five frames is lost.
theorem not_whole_five_frames :
    ¬Whole 10000 [116] [.receive 0 [[116], [1], [2], [3], [4]], .drain [116]] := by
  rw [whole_iff_drained (by decide)]
  intro h
  exact absurd (h (0, [[116], [1], [2], [3], [4]]) (List.mem_singleton.mpr rfl)) (by decide)

end Cpp.Frames
