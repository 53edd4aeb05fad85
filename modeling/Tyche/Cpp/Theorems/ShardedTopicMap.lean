import Tyche.Cpp.Events
import Tyche.Cpp.ShardedTopicMap

namespace Cpp

namespace ShardedTopicQueueMap

variable {τ : Type} {s s' : ShardedTopicQueueMap τ} {t topic : Bytes} {b : Bucket τ} {now : τ}
variable {queues : Dict Bytes ℕ}

section Lookup

variable {α : Type} {l : List (Bytes × α)} {a : α}

theorem lookup_filter_ne :
    (l.filter (·.1 ≠ topic)).lookup t = if t = topic then none else l.lookup t := by
  induction l
  case nil         => simp
  case cons e l hi =>
    obtain ⟨k, v⟩ := e
    by_cases hk : k = topic
    case pos =>
      simp only [hk, ne_eq, not_true_eq_false, decide_false, Bool.false_eq_true,
        not_false_eq_true, List.filter_cons_of_neg, List.lookup_cons] at hi ⊢
      rw [hi]
      by_cases ht : t = topic <;> simp [ht, beq_false_of_ne]
    case neg =>
      rw [List.filter_cons_of_pos (by simpa using hk), List.lookup_cons, List.lookup_cons, hi]
      by_cases ht : t = k
      case pos => subst ht; simp [hk]
      case neg => simp [beq_false_of_ne ht]

theorem lookup_touchRecord :
    (touchRecord topic a l).lookup t = if t = topic then some a else l.lookup t := by
  induction l
  case nil         =>
    by_cases ht : t = topic <;> simp [touchRecord, List.lookup_cons, ht, beq_false_of_ne]
  case cons e l hi =>
    obtain ⟨k, v⟩ := e
    unfold touchRecord
    split
    case isTrue hk  =>
      subst hk
      by_cases ht : t = k <;> simp [List.lookup_cons, ht, beq_false_of_ne]
    case isFalse hk =>
      rw [List.lookup_cons, List.lookup_cons, hi]
      by_cases ht : t = k
      case pos => subst ht; simp [hk]
      case neg => simp [beq_false_of_ne ht]

theorem lookup_concat :
    (l ++ [(topic, a)]).lookup t = (l.lookup t).or (if t = topic then some a else none) := by
  rw [List.lookup_append]
  by_cases ht : t = topic <;> simp [List.lookup_cons, ht, beq_false_of_ne]

theorem lookup_eq_some_iff (h : (l.map Prod.fst).Nodup) : l.lookup t = some a ↔ (t, a) ∈ l :=
  calc
    l.lookup t = some a ↔ (Dict.mk l h).get? t = some a := by
      rw [Dict.get?, lawful_beq_subsingleton List.instBEq instBEqOfDecidableEq]
    _ ↔ (t, a) ∈ l := Dict.get?_eq_some_iff

end Lookup

theorem bucketIndex_setBucket : (s.setBucket topic b).bucketIndex t = s.bucketIndex t :=
  rfl

theorem bucket_setBucket : (s.setBucket topic b).bucket t =
    if s.bucketIndex t = s.bucketIndex topic then b else s.bucket t := by
  unfold bucket setBucket
  simp only [Function.update_apply]
  rfl

-- The entries of the buckets are those of a dictionary, each in the bucket of its topic.
structure Holds (s : ShardedTopicQueueMap τ) (queues : Dict Bytes ℕ) : Prop where
  count  : s.bucketCount ≠ 0
  mask   : s.bucketMask = s.bucketCount - 1
  lookup : ∀ t, (s.bucket t).entries.lookup t = queues.get? t
  placed : ∀ i, ∀ e ∈ (s.buckets i).entries, s.bucketIndex e.1 = i
  nodup  : ∀ i, ((s.buckets i).entries.map Prod.fst).Nodup

theorem Holds.index_lt (h : s.Holds queues) : (s.bucketIndex t).toNat < s.bucketCount.toNat := by
  have hc := h.count
  have hm : (s.bucketIndex t).toNat ≤ s.bucketMask.toNat := by
    rw [bucketIndex, BitVec.toNat_and]
    exact Nat.and_le_right
  rw [h.mask] at hm
  bv_omega

theorem Holds.mem_snapshot {q : ℕ} (h : s.Holds queues) :
    (t, q) ∈ s.snapshot ↔ (t, q) ∈ queues.entries := by
  rw [← Dict.get?_eq_some_iff, ← h.lookup, bucket, lookup_eq_some_iff <| h.nodup _, snapshot,
    List.mem_flatMap]
  constructor
  case mp =>
    rintro ⟨i, _, hm⟩
    rwa [h.placed _ _ hm]
  case mpr =>
    intro hm
    refine ⟨(s.bucketIndex t).toNat, List.mem_range.mpr h.index_lt, ?_⟩
    rwa [BitVec.ofNat_toNat, BitVec.setWidth_eq]

theorem Holds.snapshot_nodup (h : s.Holds queues) : s.snapshot.Nodup := by
  refine List.nodup_flatMap.mpr ⟨fun i _ => (h.nodup _).of_map, ?_⟩
  refine List.nodup_range.imp_of_mem ?_
  intro i j hi hj hne e hei hej
  have he := (h.placed _ e hei).symm.trans (h.placed _ e hej)
  have hb := s.bucketCount.isLt
  rw [List.mem_range] at hi hj
  refine hne ?_
  have he := congrArg BitVec.toNat he
  rwa [BitVec.toNat_ofNat, BitVec.toNat_ofNat, Nat.mod_eq_of_lt (by omega),
    Nat.mod_eq_of_lt (by omega)] at he

theorem Holds.snapshot_perm (h : s.Holds queues) : s.snapshot.Perm queues.entries :=
  (List.perm_ext_iff_of_nodup h.snapshot_nodup queues.nodup.of_map).mpr fun _ => h.mem_snapshot

theorem size_eq : s.size = s.snapshot.length := by
  rw [size, snapshot, List.length_flatMap]

theorem Holds.setBucket {queues' : Dict Bytes ℕ} (h : s.Holds queues)
    (hl : ∀ t, s.bucketIndex t = s.bucketIndex topic → b.entries.lookup t = queues'.get? t)
    (ho : ∀ t, t ≠ topic → queues'.get? t = queues.get? t)
    (hp : ∀ e ∈ b.entries, s.bucketIndex e.1 = s.bucketIndex topic)
    (hn : (b.entries.map Prod.fst).Nodup) : (s.setBucket topic b).Holds queues' where
  count    := h.count
  mask     := h.mask
  lookup t := by
    rw [bucket_setBucket]
    split
    case isTrue ht  => exact hl t ht
    case isFalse ht => rw [h.lookup, ho t fun he => ht <| he ▸ rfl]
  placed i e he := by
    rw [bucketIndex_setBucket]
    unfold ShardedTopicQueueMap.setBucket at he
    dsimp only at he
    rw [Function.update_apply] at he
    split at he
    case isTrue hi => exact hi ▸ hp e he
    case isFalse   => exact h.placed i e he
  nodup i := by
    unfold ShardedTopicQueueMap.setBucket
    dsimp only
    rw [Function.update_apply]
    split
    · exact hn
    · exact h.nodup i

theorem Holds.of_eq (h : s.Holds queues) (hc : s'.bucketCount = s.bucketCount)
    (hm : s'.bucketMask = s.bucketMask) (hb : s'.buckets = s.buckets) : s'.Holds queues := by
  obtain ⟨c, m, b, made⟩ := s
  obtain ⟨c', m', b', made'⟩ := s'
  cases hc
  cases hm
  cases hb
  exact ⟨h.count, h.mask, h.lookup, h.placed, h.nodup⟩

theorem Holds.erase (h : s.Holds queues) : (s.erase topic).Holds (queues.erase topic) := by
  refine h.setBucket (fun t ht => ?_) (fun t ht => Dict.get?_erase_ne ht) (fun e he => ?_) ?_
  case refine_1 =>
    have hb : s.bucket t = s.bucket topic := congrArg s.buckets ht
    rw [lookup_filter_ne, Dict.get?_erase, ← h.lookup, hb]
  case refine_2 => exact h.placed _ e (List.mem_of_mem_filter he)
  case refine_3 => exact (h.nodup _).sublist <| List.filter_sublist.map _

theorem Holds.touch (h : s.Holds queues) : (s.touch topic now).Holds queues := by
  refine h.setBucket (fun t ht => ?_) (fun t _ => rfl) (h.placed _) (h.nodup _)
  have hb : s.bucket t = s.bucket topic := congrArg s.buckets ht
  rw [← h.lookup, hb]

theorem Holds.add {q : ℕ} {times : List (Bytes × τ)} (h : s.Holds queues)
    (hq : queues.get? topic = none) :
    (s.setBucket topic ⟨(s.bucket topic).entries ++ [(topic, q)], times⟩).Holds
      (queues.set topic q) := by
  refine h.setBucket (fun t ht => ?_) (fun t ht => Dict.get?_set_ne ht) (fun e he => ?_) ?_
  case refine_1 =>
    have hb : s.bucket t = s.bucket topic := congrArg s.buckets ht
    dsimp only
    rw [lookup_concat, Dict.get?_set, ← hb, h.lookup]
    split
    case isTrue he => rw [he, hq, Option.none_or]
    case isFalse   => rw [Option.or_none]
  case refine_2 =>
    obtain he | he := List.mem_append.mp he
    case inl => exact h.placed _ e he
    case inr => rw [List.mem_singleton.mp he]
  case refine_3 =>
    dsimp only
    rw [List.map_append, List.nodup_append]
    refine ⟨h.nodup _, List.nodup_singleton _, ?_⟩
    intro t ht t' ht' he
    obtain ⟨⟨k, v⟩, hm, rfl⟩ := List.mem_map.mp ht
    have hv := (lookup_eq_some_iff <| h.nodup _).mpr hm
    cases List.mem_singleton.mp ht'
    dsimp only at he hv
    rw [he] at hv
    cases hq.symm.trans <| (h.lookup topic).symm.trans hv

def record (s : ShardedTopicQueueMap τ) (t : Bytes) : Option τ :=
  (s.bucket t).lastAccessTimes.lookup t

theorem record_erase :
    (s.erase topic).record t = if t = topic then none else s.record t := by
  unfold record erase
  rw [bucket_setBucket]
  split
  case isTrue ht  =>
    have hb : s.bucket t = s.bucket topic := congrArg s.buckets ht
    rw [lookup_filter_ne, hb]
  case isFalse ht => rw [if_neg fun he : t = topic => ht <| he ▸ rfl]

theorem record_touch :
    (s.touch topic now).record t = if t = topic then some now else s.record t := by
  unfold record touch
  rw [bucket_setBucket]
  split
  case isTrue ht  =>
    have hb : s.bucket t = s.bucket topic := congrArg s.buckets ht
    rw [lookup_touchRecord, hb]
  case isFalse ht => rw [if_neg fun he : t = topic => ht <| he ▸ rfl]

-- Both maps have the same queues, each with the time of its last access. The times may differ.
structure Relates (s : ShardedTopicQueueMap τ) (d : TopicQueueMap τ) : Prop
    extends Holds s d.queues where
  made     : s.made = d.made
  recorded : ∀ t q, d.queues.get? t = some q → ∃ la, s.record t = some la
  timed    : ∀ t q, d.queues.get? t = some q → ∃ la, d.times.get? t = some la

theorem Relates.erase {d : TopicQueueMap τ} (h : s.Relates d) : (s.erase topic).Relates
    { d with queues := d.queues.erase topic, times := d.times.erase topic } where
  toHolds         := h.toHolds.erase
  made            := h.made
  recorded t q ht := by
    rw [Dict.get?_erase] at ht
    split at ht
    case isTrue     => cases ht
    case isFalse he => rw [record_erase, if_neg he]; exact h.recorded t q ht
  timed t q ht    := by
    rw [Dict.get?_erase] at ht ⊢
    split at ht
    case isTrue     => cases ht
    case isFalse he => rw [if_neg he]; exact h.timed t q ht

theorem Relates.touch {d : TopicQueueMap τ} (h : s.Relates d) :
    (s.touch topic now).Relates { d with times := d.times.set topic now } where
  toHolds         := h.toHolds.touch
  made            := h.made
  recorded t q ht := by
    rw [record_touch]
    split
    · exact ⟨now, rfl⟩
    · exact h.recorded t q ht
  timed t q ht    := by
    rw [Dict.get?_set]
    split
    · exact ⟨now, rfl⟩
    · exact h.timed t q ht

variable [Zero τ] {d : TopicQueueMap τ} {o : MapOp τ} {capacity : BitVec 64}

theorem lastAccess_eq : s.lastAccess t = (s.record t).getD 0 :=
  rfl

-- An older record of the topic hides the new one.
theorem record_create : (s.create topic capacity).record t =
    (s.record t).or (if t = topic then some 0 else none) := by
  have hc : (s.create topic capacity).bucket t = (s.setBucket topic
    { entries         := (s.bucket topic).entries ++ [(topic, s.made.length)]
      lastAccessTimes := (s.bucket topic).lastAccessTimes ++ [(topic, 0)] }).bucket t := rfl
  unfold record
  rw [hc, bucket_setBucket]
  split
  case isTrue ht  =>
    have hb : s.bucket t = s.bucket topic := congrArg s.buckets ht
    rw [lookup_concat, hb]
  case isFalse ht => rw [if_neg fun he : t = topic => ht <| he ▸ rfl, Option.or_none]

theorem Relates.create (h : s.Relates d) (hq : d.queues.get? topic = none) :
    (s.create topic capacity).Relates (d.create topic capacity) where
  toHolds  := by
    rw [TopicQueueMap.create, ← h.made]
    exact (h.toHolds.add hq).of_eq rfl rfl rfl
  made     := congrArg (· ++ [capacity]) h.made
  recorded t q ht := by
    rw [record_create]
    by_cases he : t = topic
    case pos => cases s.record t <;> exact ⟨_, by rw [if_pos he]; rfl⟩
    case neg =>
      have ht : d.queues.get? t = some q := (Dict.get?_set_ne he).symm.trans ht
      obtain ⟨la, hla⟩ := h.recorded t q ht
      exact ⟨la, by rw [hla, Option.some_or]⟩
  timed t q ht := by
    by_cases he : t = topic
    case pos => exact ⟨0, he ▸ Dict.get?_set_self⟩
    case neg =>
      have ht : d.queues.get? t = some q := (Dict.get?_set_ne he).symm.trans ht
      obtain ⟨la, hla⟩ := h.timed t q ht
      exact ⟨la, (Dict.get?_set_ne he).trans hla⟩

theorem Relates.perform (h : s.Relates d) : (s.perform o).2.Relates (d.perform o).2 := by
  cases o
  case getOrCreate topic capacity out =>
    simp only [ShardedTopicQueueMap.perform, getOrCreate, TopicQueueMap.perform, h.lookup]
    cases hq : d.queues.get? topic
    case some => exact h
    case none => exact h.create hq
  case erase => exact h.erase
  case touch => exact h.touch
  all_goals exact h

-- The two maps give the same results as long as they have the same times.
theorem agree_iff (h : s.Relates d) : (shardedTopicQueueMap τ).Agree (topicQueueMap τ) (s, d) ↔
    ∀ t, s.lastAccess t = d.lastAccess t := by
  constructor
  case mp  => exact fun ha t => MapResult.time.inj <| ha <| .lastAccess t
  case mpr =>
    intro ht o
    change (s.perform o).1 = (d.perform o).1
    cases o
    case getOrCreate topic capacity out =>
      simp only [perform, getOrCreate, TopicQueueMap.perform, h.lookup]
      cases hq : d.queues.get? topic
      case none   => simp only [h.made]
      case some q =>
        obtain ⟨la, hs⟩ := h.recorded topic q hq
        obtain ⟨la', hd⟩ := h.timed topic q hq
        have ht := ht topic
        rw [lastAccess_eq, TopicQueueMap.lastAccess, Dict.getD, hs, hd] at ht
        have hs : (s.bucket topic).lastAccessTimes.lookup topic = some la := hs
        cases (ht : la = la')
        simp only [hs, hd]
    case find topic       => exact congrArg MapResult.found <| h.lookup topic
    case getRaw topic     => exact congrArg MapResult.found <| h.lookup topic
    case lastAccess topic => exact congrArg MapResult.time <| ht topic
    case snapshot         =>
      exact congrArg MapResult.queues <| Multiset.coe_eq_coe.mpr h.snapshot_perm
    case size             =>
      exact congrArg MapResult.count <| size_eq.trans h.snapshot_perm.length_eq
    all_goals rfl

-- A queue is only made for a topic that has no time.
def Clean (d : TopicQueueMap τ) : MapOp τ → Prop
  | .getOrCreate topic .. => topic ∉ d.queues → d.lastAccess topic = 0
  | _                     => True

instance [DecidableEq τ] : ∀ o, Decidable (Clean d o)
  | .getOrCreate .. => inferInstanceAs <| Decidable (_ → _)
  | .find _ | .getRaw _ | .erase _ | .touch .. | .lastAccess _ | .snapshot | .size => isTrue trivial

theorem lastAccess_create : (s.create topic capacity).lastAccess t = s.lastAccess t := by
  rw [lastAccess_eq, lastAccess_eq, record_create]
  cases s.record t
  case some => rfl
  case none => rw [Option.none_or]; split <;> rfl

theorem agree_perform_iff (h : s.Relates d) (ha : ∀ t, s.lastAccess t = d.lastAccess t) :
    (∀ t, (s.perform o).2.lastAccess t = (d.perform o).2.lastAccess t) ↔ Clean d o := by
  cases o
  case getOrCreate topic capacity out =>
    simp only [ShardedTopicQueueMap.perform, getOrCreate, TopicQueueMap.perform, h.lookup, Clean]
    cases hq : d.queues.get? topic
    case some => exact iff_of_true ha fun hn => absurd (Dict.mem_of_get? hq) hn
    case none =>
      have hd : ∀ t, (d.create topic capacity).lastAccess t =
          if t = topic then 0 else d.lastAccess t := by
        intro t
        unfold TopicQueueMap.lastAccess TopicQueueMap.create Dict.getD
        rw [Dict.get?_set]
        split <;> rfl
      simp only [lastAccess_create, ha, hd, Dict.get?_eq_none_iff.mp hq, not_false_eq_true,
        true_implies]
      constructor
      case mp  => exact fun he => (he topic).trans <| if_pos rfl
      case mpr =>
        intro he t
        split
        case isTrue ht => rw [ht, he]
        case isFalse   => rfl
  case erase topic     =>
    refine iff_of_true (fun t => ?_) trivial
    have ht := ha t
    rw [lastAccess_eq] at ht
    simp only [ShardedTopicQueueMap.perform, lastAccess_eq, record_erase, TopicQueueMap.perform,
      TopicQueueMap.lastAccess, Dict.getD, Dict.get?_erase]
    split
    · rfl
    · exact ht
  case touch topic now =>
    refine iff_of_true (fun t => ?_) trivial
    have ht := ha t
    rw [lastAccess_eq] at ht
    simp only [ShardedTopicQueueMap.perform, lastAccess_eq, record_touch, TopicQueueMap.perform,
      TopicQueueMap.lastAccess, Dict.getD, Dict.get?_set]
    split
    · rfl
    · exact ht
  all_goals exact iff_of_true ha trivial

theorem always_agree_iff (h : s.Relates d) (ha : ∀ t, s.lastAccess t = d.lastAccess t)
    {os : List (MapOp τ)} :
    ((shardedTopicQueueMap τ).beside (topicQueueMap τ)).Always
        ((shardedTopicQueueMap τ).Agree (topicQueueMap τ)) (s, d) os ↔
      (topicQueueMap τ).machine.Along Clean d os := by
  refine Component.always_agree_iff (fun _ _ _ h => h.perform) (fun s d o h hs => ?_) h
    ((agree_iff h).mpr ha)
  exact (agree_iff h.perform).trans <| agree_perform_iff h <| (agree_iff h).mp hs

omit [Zero τ] in
theorem empty_relates {count : BitVec 64} (h : count ≠ 0) :
    (empty count (count - 1) : ShardedTopicQueueMap τ).Relates .empty where
  count    := h
  mask     := rfl
  lookup _ := rfl
  placed _ := nofun
  nodup _  := .nil
  made     := rfl
  recorded := nofun
  timed    := nofun

section New

variable {bucketCount p q : BitVec 64} {rounds k : ℕ}

theorem roundUp_ge (h : roundUp bucketCount rounds p = some q) : bucketCount ≤ q := by
  induction rounds generalizing p
  case zero      => cases h
  case succ n hi =>
    unfold roundUp at h
    split at h
    case isTrue     => exact hi h
    case isFalse hn => cases h; exact BitVec.not_lt.mp hn

-- The powers of two end at `2 ^ 63`. The next one is 0, which is never large enough.
theorem roundUp_zero (h : 0 < bucketCount) : roundUp bucketCount rounds 0 = none := by
  induction rounds
  case zero      => rfl
  case succ n hi => rw [roundUp, if_pos h]; exact hi

theorem toNat_shiftLeft_one (h : p.toNat = 2 ^ k) (hk : k < 63) :
    (p <<< 1).toNat = 2 ^ (k + 1) := by
  have hp : 2 ^ (k + 1) < 2 ^ 64 := Nat.pow_lt_pow_right (by omega) (by omega)
  rw [BitVec.toNat_shiftLeft, h, Nat.shiftLeft_eq, ← Nat.pow_add, Nat.mod_eq_of_lt hp]

theorem roundUp_some (hb : bucketCount.toNat ≤ 2 ^ 63) (h : p.toNat = 2 ^ k) (hk : k ≤ 63) :
    ∃ q, roundUp bucketCount (64 - k) p = some q := by
  induction hn : 63 - k generalizing p k
  case zero =>
    obtain rfl : k = 63 := by omega
    have hp : ¬p < bucketCount := by bv_omega
    exact ⟨p, by rw [roundUp, if_neg hp]⟩
  case succ n hi =>
    have hr : 64 - k = (64 - (k + 1)) + 1 := by omega
    rw [hr, roundUp]
    split
    case isTrue  => exact hi (toNat_shiftLeft_one h (by omega)) (by omega) (by omega)
    case isFalse => exact ⟨p, rfl⟩

theorem roundUp_none (hb : ¬bucketCount.toNat ≤ 2 ^ 63) (h : p.toNat = 2 ^ k) (hk : k ≤ 63) :
    roundUp bucketCount rounds p = none := by
  induction rounds generalizing p k
  case zero      => rfl
  case succ n hi =>
    have hp : 2 ^ k ≤ 2 ^ 63 := Nat.pow_le_pow_right (by omega) hk
    rw [roundUp, if_pos (by bv_omega)]
    obtain hk | rfl := hk.lt_or_eq
    case inl => exact hi (toNat_shiftLeft_one h hk) hk
    case inr =>
      have hz : p <<< 1 = 0 := by
        apply BitVec.eq_of_toNat_eq
        rw [BitVec.toNat_shiftLeft, h]
        rfl
      rw [hz]
      exact roundUp_zero (by bv_omega)

end New

section Events

variable {s : ShardedTopicQueueMap ℚ} {e : Events} {now : ℚ}

-- The two dictionaries that the events of the engine are modelled with, older records included.
structure Stores (s : ShardedTopicQueueMap ℚ) (e : Events) : Prop
    extends Holds s e.topicQueues where
  records : ∀ t, s.record t = e.lastAccess.get? t
  created : s.made.length = e.created

theorem Stores.touch (h : s.Stores e) : (s.touch topic now).Stores (e.touch topic now) where
  toHolds   := h.toHolds.touch
  records t := by rw [record_touch, h.records, Events.touch, Dict.get?_set]
  created   := h.created

theorem Stores.erase (h : s.Stores e) : (s.erase topic).Stores (e.erase topic) where
  toHolds   := h.toHolds.erase
  records t := by rw [record_erase, h.records, Events.erase, Dict.get?_erase]
  created   := h.created

theorem Stores.getOrCreate (h : s.Stores e) : ∃ la,
    (s.getOrCreate topic capacity false).1 = .queue (e.getOrCreate topic).1 la ∧
      (s.getOrCreate topic capacity false).2.Stores (e.getOrCreate topic).2 := by
  unfold ShardedTopicQueueMap.getOrCreate Events.getOrCreate
  rw [h.lookup]
  cases hq : e.topicQueues.get? topic
  case some => exact ⟨none, rfl, h⟩
  case none =>
    refine ⟨none, congrArg (MapResult.queue · none) h.created, ?_, fun t => ?_, ?_⟩
    case refine_1 => exact h.created ▸ (h.toHolds.add hq).of_eq rfl rfl rfl
    case refine_2 =>
      rw [record_create, h.records]
      by_cases hm : topic ∈ e.lastAccess
      case pos =>
        obtain ⟨v, hv⟩ := Dict.mem_iff.mp hm
        simp only [hm, if_true]
        split
        case isTrue he => rw [he, hv, Option.some_or]
        case isFalse   => rw [Option.or_none]
      case neg =>
        simp only [hm, if_false, Dict.get?_set]
        split
        case isTrue he => rw [he, Dict.get?_eq_none_iff.mpr hm, Option.none_or]
        case isFalse   => rw [Option.or_none]
    case refine_3 => simp [create, h.created]

end Events

variable {bucketCount : BitVec 64} {rounds : ℕ} {os : List (MapOp τ)}

omit [Zero τ] in
theorem new_relates (hc : 1 ≤ bucketCount) (h : new bucketCount rounds = some s) :
    s.Relates .empty := by
  unfold new at h
  split at h
  case isTrue  =>
    obtain ⟨p, hp, rfl⟩ := Option.map_eq_some_iff.mp h
    exact empty_relates fun hz => by have := roundUp_ge hp; bv_omega
  case isFalse =>
    cases h
    exact empty_relates fun hz => by bv_omega

omit [Zero τ] in
-- The constructor returns unless the next power of two is beyond 64 bits.
theorem new_some_iff : (∃ rounds, ∃ s : ShardedTopicQueueMap τ, new bucketCount rounds = some s) ↔
    bucketCount.toNat ≤ 2 ^ 63 := by
  have hp : (1 : BitVec 64).toNat = 2 ^ 0 := rfl
  constructor
  case mp  =>
    rintro ⟨rounds, s, h⟩
    by_contra hb
    unfold new at h
    rw [roundUp_none hb hp (by omega)] at h
    split at h
    case isTrue     => cases h
    case isFalse hn =>
      have h₁ : bucketCount.msb = true := by
        rw [BitVec.msb_eq_decide, decide_eq_true_eq]
        omega
      have h₂ : (bucketCount - 1).msb = true := by
        rw [BitVec.msb_eq_decide, decide_eq_true_eq]
        bv_omega
      have hm := congrArg BitVec.msb <| not_not.mp hn
      rw [BitVec.msb_and, h₁, h₂] at hm
      cases hm
  case mpr =>
    intro hb
    obtain ⟨q, hq⟩ := roundUp_some hb hp (by omega)
    refine ⟨64, ?_⟩
    unfold new
    split
    case isTrue  => exact ⟨_, by rw [hq]; rfl⟩
    case isFalse => exact ⟨_, rfl⟩

theorem start_agree (h : new bucketCount rounds = some s) (t : Bytes) :
    s.lastAccess t = (TopicQueueMap.empty : TopicQueueMap τ).lastAccess t := by
  unfold new at h
  split at h
  case isTrue  => obtain ⟨p, hp, rfl⟩ := Option.map_eq_some_iff.mp h; rfl
  case isFalse => cases h; rfl

-- The sharded map is made, and it gives the results of the two dictionaries, exactly as long as no
-- queue is made for a topic that was touched without one.
theorem refines_iff (hc : 1 ≤ bucketCount) :
    (∃ rounds s, new bucketCount rounds = some s ∧
      ((shardedTopicQueueMap τ).beside (topicQueueMap τ)).Always
        ((shardedTopicQueueMap τ).Agree (topicQueueMap τ)) (s, .empty) os) ↔
      bucketCount.toNat ≤ 2 ^ 63 ∧ (topicQueueMap τ).machine.Along Clean .empty os := by
  rw [← new_some_iff (τ := τ), ← exists_and_right]
  refine exists_congr fun rounds => ?_
  rw [← exists_and_right]
  refine exists_congr fun s => and_congr_right fun h => ?_
  exact always_agree_iff (new_relates hc h) <| start_agree h

end ShardedTopicQueueMap

namespace Sample

def touched : List (MapOp ℕ) :=
  [.touch (utf8 "t") 5, .getOrCreate (utf8 "t") 16 false]

def recreated : List (MapOp ℕ) :=
  [.getOrCreate (utf8 "t") 16 false, .touch (utf8 "t") 5, .erase (utf8 "t"),
    .getOrCreate (utf8 "t") 16 true, .snapshot]

end Sample

namespace ShardedTopicQueueMap

theorem refines_sample : ∃ rounds s, new 100 rounds = some s ∧
    ((shardedTopicQueueMap ℕ).beside (topicQueueMap ℕ)).Always
      ((shardedTopicQueueMap ℕ).Agree (topicQueueMap ℕ)) (s, .empty) Sample.recreated :=
  (refines_iff (by decide)).mpr ⟨by decide, by decide⟩

-- A topic is touched before its queue is made, so its time is not that of the new queue.
theorem not_refines : ¬∀ (bucketCount : BitVec 64) (os : List (MapOp ℕ)), 1 ≤ bucketCount →
    ∃ rounds s, new bucketCount rounds = some s ∧
      ((shardedTopicQueueMap ℕ).beside (topicQueueMap ℕ)).Always
        ((shardedTopicQueueMap ℕ).Agree (topicQueueMap ℕ)) (s, .empty) os := by
  intro hr
  obtain ⟨rounds, s, h, ha⟩ := hr 256 Sample.touched (by decide)
  have hc := (always_agree_iff (new_relates (by decide) h) <| start_agree h).mp ha
  have hn := (hc.right _ rfl).left
  exact absurd hn (by decide)

end ShardedTopicQueueMap

end Cpp
