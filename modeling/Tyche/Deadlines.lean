import Tyche.Cpp.JobRouter
import Tyche.Fields

open Msgpack

-- A number as a client sends it.
inductive Number
  | int (value : ℤ)
  | float (value : Floating)
  | decimal (value : Decimal)

namespace Number

def object : Number → Object
  | .int i     => (Python.Datum.int i).object
  | .float x   => .float x
  | .decimal d => (Python.Datum.decimal d).object

theorem object_int {i : ℤ} :
    (Number.int i).object = if 0 ≤ i then .uint (.ofInt 64 i) else .int (.ofInt 64 i) := by
  rw [object, Python.Datum.object]

def value : Number → Floating
  | .int i     => .fin i
  | .float x   => x
  | .decimal d => .fin d.value

-- An integer has 64 bits.
def Fits : Number → Prop
  | .int i => -2 ^ 63 ≤ i ∧ i < 2 ^ 64
  | _      => True

structure IsSingle (x : Number) : Prop where
  fits     : x.Fits
  toSingle : x.value.toSingle = x.value

-- What the engine in C++ reads in a field of a message.
def field? : Number → Option Floating
  | .int i     => if 0 ≤ i then some <| .fin i else none
  | .float x   => some x
  | .decimal _ => none

-- What the engine in C++ reads in the payload.
def entry? : Number → Option Floating
  | .int i     => some <| .single <| i.bmod (2 ^ 32)
  | .float x   => some x
  | .decimal _ => none

end Number

-- The timeouts that a request has under a key, in a field and in its payload. A field may be nil.
structure PackedMessage.Sends (r : PackedMessage) (key : String) (x y : Option Number) : Prop where
  field    : r.fields.lookup (utf8 key) = x.map Number.object ∨
    x = none ∧ r.fields.lookup (utf8 key) = some .nil
  entry    : r.payload.lookup (utf8 key) = y.map Number.object
  isSingle : ∀ z, x = some z ∨ y = some z → z.IsSingle

-- The engine in Python reads the payload only. What the engine in C++ reads in the field is what is
-- in the payload, or else the default. Where it reads nothing there, the payload has no decimal
-- other than the default, and an integer of 32 bits at most.
def Alike (default : ℚ) (field entry : Option Number) : Prop :=
  match field.bind Number.field? with
  | some x => x = (entry.map Number.value).getD (.fin default)
  | none   =>
    match entry with
    | some (.int i)     => -2 ^ 31 ≤ i ∧ i < 2 ^ 31
    | some (.decimal d) => d.value = default
    | _                 => True

namespace Python

variable {n : ℕ} {kvs : List (Bytes × Object)} {k : Bytes} {o : Object}

theorem decode_number {x : Number} {v : Value} (hx : x.Fits)
    (h : decodeObject n x.object = .ok v) : v.number = .ok x.value := by
  cases x
  case int i     =>
    rw [Number.object, Datum.decode_int hx] at h
    cases h
    rfl
  case float x   =>
    rw [Number.object, decodeObject] at h
    cases h
    rfl
  case decimal d =>
    rw [Number.object, Datum.decode_decimal] at h
    cases h
    rfl

theorem timeout_dict {es : List (Key × Value)} {key : String} {default : ℚ} :
    timeout (.dict es) key default =
      .ok ((es.lookup (.str <| utf8 key)).getD (.float (.fin default) 0)) := by
  unfold timeout
  cases es <;> rfl

-- The timeout that the engine in Python reads.
theorem timeout_eq {r : PackedMessage} {ts : List Token} {m : FullMessage} {key : String}
    {x y : Option Number} {default : ℚ} (hu : unpackb ts = .ok (.map <| strings r.fields))
    (h : deserialize n ts = .ok m) (hd : m.payload.IsDict) (hs : r.Sends key x y) :
    ∃ v, timeout m.payload key default = .ok v ∧
      v.number = .ok ((y.map Number.value).getD (.fin default)) := by
  obtain ⟨p, es, hp, he⟩ := payload_eq hu h hd
  rw [hp, timeout_dict]
  refine ⟨_, rfl, ?_⟩
  obtain ⟨hn, hl⟩ | ⟨o, q, v, hf, hv, hl⟩ := lookup_decodeEntries (k := utf8 key) he
  case inl =>
    rw [hl]
    rw [hs.entry, Option.map_eq_none_iff] at hn
    rw [hn]
    rfl
  case inr =>
    rw [hs.entry, Option.map_eq_some_iff] at hf
    obtain ⟨y, rfl, rfl⟩ := hf
    rw [hl]
    exact decode_number (hs.isSingle y <| .inr rfl).fits hv

end Python

namespace Cpp

variable {kvs : List (Bytes × Object)} {k : Bytes} {m m' : Message}

theorem reads_waitTimeout :
    Reads readField "wait_timeout" Message.waitTimeout fun o x => some ((unpackSingle o).or x) where
  self m o m' h := by
    simp +decide only [readField, if_true, if_false] at h
    cases h
    rfl
  ne _ _ _ _ hk h := (Message.readsOnly_of_readField h).waitTimeout hk

theorem reads_runTimeout :
    Reads readField "run_timeout" Message.runTimeout fun o x => some ((unpackSingle o).or x) where
  self m o m' h := by
    simp +decide only [readField, if_true, if_false] at h
    cases h
    rfl
  ne _ _ _ _ hk h := (Message.readsOnly_of_readField h).runTimeout hk

theorem toInt_setWidth {i : ℤ} : ((BitVec.ofInt 64 i).setWidth 32).toInt = i.bmod (2 ^ 32) := by
  have hi : ((i % (2 ^ 64 : ℕ)).toNat : ℤ) % (2 ^ 32 : ℕ) = i % (2 ^ 32 : ℕ) := by omega
  rw [BitVec.toInt_setWidth, BitVec.toNat_ofInt, Int.bmod_def, Int.bmod_def, hi]

theorem unpackSingle_object {x : Number} (h : x.IsSingle) : unpackSingle x.object = x.field? := by
  cases x
  case int i     =>
    have hi : -2 ^ 63 ≤ i ∧ i < 2 ^ 64 := h.fits
    have hs : Floating.single i = .fin i := h.toSingle
    rw [Number.object_int, Number.field?]
    by_cases h0 : 0 ≤ i
    case pos =>
      have hn : ((i % (2 ^ 64 : ℕ)).toNat : ℤ) = i := by omega
      have hq : (((i % (2 ^ 64 : ℕ)).toNat : ℕ) : ℚ) = i := by
        rw [← Int.cast_natCast, hn]
      rw [if_pos h0, if_pos h0, unpackSingle, BitVec.toNat_ofInt, hq, hs]
    case neg => rw [if_neg h0, if_neg h0]; rfl
  case float x   => exact congrArg some h.toSingle
  case decimal d => rfl

theorem toSingle_object {x : Number} {v : Any} (h : x.IsSingle)
    (hv : unpackObject x.object = some v) : v.toSingle? = x.entry? := by
  cases x
  case int i     =>
    rw [Number.entry?, ← toInt_setWidth]
    rw [Number.object_int] at hv
    split at hv <;> cases hv <;> rfl
  case float x   => cases hv; exact congrArg some h.toSingle
  case decimal d =>
    unfold Number.object Python.Datum.object unpackObject at hv
    obtain ⟨p, -, rfl⟩ := Option.map_eq_some_iff.mp hv
    rfl

variable {r : PackedMessage} {ts : List Token} {key : String} {x y : Option Number}

-- What a timeout in a field is read as.
theorem field_eq {get : Message → Option Floating}
    (hr : Reads readField key get fun o x => some ((unpackSingle o).or x)) (hg : get {} = none)
    (hs : r.Sends key x y) (h : (strings r.fields).foldlM readField {} = some m) :
    get m = x.bind Number.field? := by
  have hf := hr.foldlM r.fields_nodup h
  rw [hg] at hf
  obtain hl | ⟨rfl, hl⟩ := hs.field
  case inl =>
    rw [hl] at hf
    cases x
    case none   => exact hf
    case some x =>
      have hx := unpackSingle_object <| hs.isSingle x <| .inl rfl
      rw [Option.map_some, Option.elim_some, Option.or_none, Option.some.injEq] at hf
      exact hf.symm.trans hx
  case inr =>
    rw [hl] at hf
    exact (Option.some.inj hf).symm

theorem entry_eq (hs : r.Sends key x y) (h : (strings r.fields).foldlM readField {} = some m) :
    (m.payload.lookup (utf8 key)).bind Any.toSingle? = y.bind Number.entry? := by
  have hp := reads_payload.foldlM r.fields_nodup h
  rw [r.lookup_payload] at hp
  obtain ⟨hn, hl⟩ | ⟨o, v, hf, hv, hl⟩ := lookup_unpackPayload (k := utf8 key) r.payload_nodup hp
  case inl =>
    rw [hs.entry, Option.map_eq_none_iff] at hn
    rw [hl, hn]
    rfl
  case inr =>
    rw [hs.entry, Option.map_eq_some_iff] at hf
    obtain ⟨y, rfl, rfl⟩ := hf
    rw [hl, Option.bind_some, Option.bind_some]
    exact toSingle_object (hs.isSingle y <| .inr rfl) hv

end Cpp

theorem single_bmod_iff {i : ℤ} (h : Floating.single i = .fin i) :
    Floating.single (i.bmod (2 ^ 32) : ℤ) = .fin i ↔ -2 ^ 31 ≤ i ∧ i < 2 ^ 31 := by
  constructor
  case mp =>
    intro hs
    have hl : -2 ^ 31 ≤ i.bmod (2 ^ 32) := Int.le_bmod (by decide)
    have hu : i.bmod (2 ^ 32) < 2 ^ 31 := Int.bmod_lt (by decide)
    have ha : |((i.bmod (2 ^ 32) : ℤ) : ℚ)| ≤ 2 ^ 31 := by
      rw [abs_le]
      exact ⟨by exact_mod_cast hl, by exact_mod_cast hu.le⟩
    have hd := Floating.abs_single_sub_le ha hs
    have hd : |i - i.bmod (2 ^ 32)| ≤ 2 ^ 8 := by exact_mod_cast hd
    rw [abs_le] at hd
    rw [Int.bmod_def] at hd hl hu
    omega
  case mpr =>
    intro hi
    rwa [Int.bmod_eq_of_le (by omega) (by omega)]

theorem alike_iff {x y : Option Number} {default : ℚ} (hy : ∀ z, y = some z → z.IsSingle) :
    (y.map Number.value).getD (.fin default) =
        (x.bind Number.field?).getD ((y.bind Number.entry?).getD (.fin default)) ↔
      Alike default x y := by
  unfold Alike
  cases x.bind Number.field?
  case some t => exact eq_comm
  case none   =>
    cases y
    case none   => exact iff_of_true rfl trivial
    case some z =>
      cases z
      case int i     => exact eq_comm.trans <| single_bmod_iff (hy _ rfl).toSingle
      case float     => exact iff_of_true rfl trivial
      case decimal d => simp [Number.entry?, Number.value]

-- What the engine in Python reads as a timeout is the number that the engine in C++ reads.
def SameTimeout (m : Python.Message) (m' : Cpp.Message) (field : Option Floating) (key : String)
    (default : ℚ) : Prop :=
  ∃ v, Python.timeout m.payload key default = .ok v ∧
    v.number = .ok (m'.timeout field (utf8 key) (.fin default))

namespace Python

-- A job that is tracked has the timeouts of its request.
def Op.Tracks (msg : Message) : ∀ {β : Type}, Op β → Prop
  | _, .track _ info => timeout msg.payload "wait_timeout" 30 = .ok info.waitTimeout ∧
      timeout msg.payload "run_timeout" 60 = .ok info.runTimeout
  | _, _             => True

section Tracks

open Proc

variable {msg : Message} {m : ModuleId} {topic : Hashed} {c : Key} {o : Output}
variable {identity topicFrame messageFrame : Bytes}

theorem trySend_tracks : (trySend o).All (Op.Tracks msg) :=
  .catching (.bind (all_op trivial) fun _ => trivial) fun _ => trivial

theorem isMarkedFor_tracks : (isMarkedFor m topic).All (Op.Tracks msg) := by
  refine .bind (all_op trivial) fun b => ?_
  cases b
  case false => trivial
  case true  => exact .bind (all_op trivial) fun _ => trivial

theorem isReportedAvailable_tracks : (isReportedAvailable m topic).All (Op.Tracks msg) := by
  refine .bind (all_op trivial) fun _ => .bind trivial fun b => ?_
  cases b
  case false => trivial
  case true  => exact .bind trivial fun _ => trivial

theorem isHandlerAvailable_tracks : (isHandlerAvailable m topic).All (Op.Tracks msg) := by
  refine .bind isMarkedFor_tracks fun b => ?_
  cases b
  case false => exact isReportedAvailable_tracks
  case true  => trivial

theorem nextHandler_tracks {hs : List ModuleId} : (nextHandler c m hs).All (Op.Tracks msg) :=
  .bind (all_op trivial) fun _ => .bind (all_op trivial) fun _ => trivial

theorem handleJobRequest_tracks :
    (handleJobRequest identity topicFrame messageFrame msg).All (Op.Tracks msg) := by
  refine .bind (all_op trivial) fun now => .lift fun wait hw => .lift fun run hr =>
    .lift fun topic _ => .bind (all_op trivial) fun handlers =>
    .bind (.select fun _ => isHandlerAvailable_tracks) fun available => ?_
  cases available
  case nil =>
    dsimp only
    split
    · exact .bind trySend_tracks fun _ => trivial
    · exact .lift fun _ _ => .bind (all_op (And.intro hw hr)) fun _ => all_op trivial
  case cons h hs =>
    refine .bind nextHandler_tracks fun _ => .lift fun _ _ => .bind (all_op trivial) fun _ =>
      .bind (all_op (And.intro hw hr)) fun _ => .bind trySend_tracks fun b => ?_
    cases b
    case false => exact .bind (all_op trivial) fun _ => .bind (all_op trivial) fun _ => trivial
    case true  => trivial

end Tracks

end Python

namespace Cpp.TycheEngine

variable {s : TycheEngine} {identity topicFrame messageFrame c : Bytes} {msg : Message}
variable {info : JobTrackingInfo}

theorem selectHandler_jobTracking {s' : TycheEngine} {topic : Bytes} {handler : ModuleId}
    (h : s.selectHandler topic = some (handler, s')) : s'.jobTracking = s.jobTracking := by
  obtain ⟨_, -, h⟩ := Option.map_eq_some_iff.mp h
  cases h
  rfl

-- The job has the timeouts of its request.
def Timed (msg : Message) (info : JobTrackingInfo) : Prop :=
  info.waitTimeout = msg.timeout msg.waitTimeout (utf8 "wait_timeout") (.fin 30) ∧
  info.runTimeout = msg.timeout msg.runTimeout (utf8 "run_timeout") (.fin 60)

theorem timed_of_set {d : Dict Bytes JobTrackingInfo} {j : Bytes} {info' : JobTrackingInfo}
    (hw : Timed msg info') (h : info ∈ (d.set j info').get? c) :
    info ∈ d.get? c ∨ Timed msg info := by
  rw [Dict.get?_set] at h
  split at h
  case isTrue  => cases h; exact .inr hw
  case isFalse => exact .inl h

theorem handleRequest_tracks
    (h : info ∈ (s.handleRequest identity topicFrame messageFrame msg).jobTracking.get? c) :
    info ∈ s.jobTracking.get? c ∨ Timed msg info := by
  unfold handleRequest at h
  dsimp only at h
  split at h
  case h_1 =>
    split at h
    case isTrue  => exact .inl h
    case isFalse => exact timed_of_set (And.intro rfl rfl) h
  case h_2 handler s' hs =>
    have ht := selectHandler_jobTracking hs
    exact (timed_of_set (And.intro rfl rfl) h).imp_left (ht ▸ ·)

end Cpp.TycheEngine

section Timeouts

variable {n : ℕ} {r : PackedMessage} {ts : List Token} {m : Python.FullMessage} {m' : Cpp.Message}
variable {x y z w : Option Number} {key : String} {default : ℚ}
variable {get : Cpp.Message → Option Floating}

theorem sameTimeout_iff (hu : Python.unpackb ts = .ok (.map <| strings r.fields))
    (h : Python.deserialize n ts = .ok m) (hd : m.payload.IsDict)
    (h' : Cpp.deserialize ts = some m')
    (hr : Cpp.Reads Cpp.readField key get fun o x => some ((Cpp.unpackSingle o).or x))
    (hg : get {} = none)
    (hs : r.Sends key x y) :
    SameTimeout m.toMessage m' (get m') key default ↔ Alike default x y := by
  have hf := Cpp.foldlM_of_deserialize hu h'
  obtain ⟨v, hv, hn⟩ : ∃ v, Python.timeout m.payload key default = .ok v ∧
      v.number = .ok ((y.map Number.value).getD (.fin default)) :=
    Python.timeout_eq hu h hd hs
  have ht : m'.timeout (get m') (utf8 key) (.fin default) =
      (x.bind Number.field?).getD ((y.bind Number.entry?).getD (.fin default)) := by
    rw [Cpp.Message.timeout, Cpp.field_eq hr hg hs hf, Cpp.entry_eq hs hf]
  rw [← alike_iff fun z hz => hs.isSingle z <| .inr hz, ← ht]
  constructor
  case mp =>
    rintro ⟨_, hv', hn'⟩
    cases hv.symm.trans hv'
    exact Except.ok.inj <| hn.symm.trans hn'
  case mpr => exact fun he => ⟨v, hv, hn.trans <| congrArg _ he⟩

-- The two engines give a request the same timeouts exactly if they are the same in the payload for
-- both of them.
theorem same_timeouts_iff (hu : Python.unpackb ts = .ok (.map <| strings r.fields))
    (h : Python.deserialize n ts = .ok m) (hd : m.payload.IsDict)
    (h' : Cpp.deserialize ts = some m')
    (hw : r.Sends "wait_timeout" x y) (hr : r.Sends "run_timeout" z w) :
    SameTimeout m.toMessage m' m'.waitTimeout "wait_timeout" 30 ∧
      SameTimeout m.toMessage m' m'.runTimeout "run_timeout" 60 ↔
    Alike 30 x y ∧ Alike 60 z w := by
  rw [sameTimeout_iff hu h hd h' Cpp.reads_waitTimeout rfl hw,
    sameTimeout_iff hu h hd h' Cpp.reads_runTimeout rfl hr]

end Timeouts

namespace Sample

theorem fields_nodup {a b c d e : Object} : ([(utf8 "msg_type", a), (utf8 "sender", b),
    (utf8 "event", c), (utf8 "payload", d), (utf8 "wait_timeout", e)].map Prod.fst).Nodup := by
  have hn : [utf8 "msg_type", utf8 "sender", utf8 "event", utf8 "payload",
    utf8 "wait_timeout"].Nodup := by decide +kernel
  exact hn

-- A request with a wait timeout in a field and maybe one in its payload.
def request (entries : List (Bytes × Object)) (h : (entries.map Prod.fst).Nodup) :
    PackedMessage where
  fields         := [(utf8 "msg_type", .str <| utf8 "req"), (utf8 "sender", .str <| utf8 "a"),
    (utf8 "event", .str <| utf8 "t"), (utf8 "payload", .map <| strings entries),
    (utf8 "wait_timeout", .float <| .fin 5)]
  payload        := entries
  fields_nodup   := fields_nodup
  payload_nodup  := h
  lookup_payload := rfl

def requestTokens (entries : List Token) : List Token :=
  [.map 5, .str <| utf8 "msg_type", .str <| utf8 "req", .str <| utf8 "sender", .str <| utf8 "a",
    .str <| utf8 "event", .str <| utf8 "t", .str <| utf8 "payload"] ++ entries ++
    [.str <| utf8 "wait_timeout", .float <| .fin 5]

theorem sends_wait : (request [(utf8 "wait_timeout", .uint 5)] <| List.nodup_singleton _).Sends
    "wait_timeout" (some <| .float <| .fin 5) (some <| .int 5) where
  field    := .inl rfl
  entry    := rfl
  isSingle := by
    rintro z (h | h) <;> cases h
    · exact ⟨trivial, by decide +kernel⟩
    · exact ⟨by unfold Number.Fits; decide, by decide +kernel⟩

theorem sends_run : (request [(utf8 "wait_timeout", .uint 5)] <| List.nodup_singleton _).Sends
    "run_timeout" none none where
  field    := .inl rfl
  entry    := rfl
  isSingle := by
    rintro z (h | h) <;> cases h

end Sample

-- The field repeats what the payload has.
theorem same_timeouts_iff_sample : ∃ m m',
    Python.deserialize 0 (Sample.requestTokens
      [.map 1, .str <| utf8 "wait_timeout", .uint 5]) = .ok m ∧
    Cpp.deserialize (Sample.requestTokens
      [.map 1, .str <| utf8 "wait_timeout", .uint 5]) = some m' ∧
    SameTimeout m.toMessage m' m'.waitTimeout "wait_timeout" 30 ∧
    SameTimeout m.toMessage m' m'.runTimeout "run_timeout" 60 := by
  obtain ⟨m, hm, hd⟩ : ∃ m, Python.deserialize 0 (Sample.requestTokens
      [.map 1, .str <| utf8 "wait_timeout", .uint 5]) = .ok m ∧ m.payload.IsDict :=
    ⟨_, rfl, trivial⟩
  obtain ⟨m', hm'⟩ : ∃ m', Cpp.deserialize (Sample.requestTokens
      [.map 1, .str <| utf8 "wait_timeout", .uint 5]) = some m' :=
    ⟨_, rfl⟩
  exact ⟨m, m', hm, hm', (same_timeouts_iff rfl hm hd hm' Sample.sends_wait Sample.sends_run).mpr
    ⟨rfl, trivial⟩⟩

-- The payload has no entry, and the engine in Python does not read the field.
theorem not_same_timeouts : ∃ m m',
    Python.deserialize 0 (Sample.requestTokens [.map 0]) = .ok m ∧
    Cpp.deserialize (Sample.requestTokens [.map 0]) = some m' ∧
    ¬SameTimeout m.toMessage m' m'.waitTimeout "wait_timeout" 30 := by
  refine ⟨_, _, rfl, rfl, ?_⟩
  rintro ⟨v, hv, hn⟩
  cases hv
  exact absurd (Except.ok.inj hn) <| by decide +kernel
