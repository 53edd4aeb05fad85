import Tyche.Cpp.Flat

namespace Cpp.Flat

variable {a b : Write} {bs bs' mem : Bytes} {v : Value} {es : List (Bytes × Value)} {n : ℕ}
variable {msg : Message} {byte : UInt8} {s : Bytes}

-- What a part of the second pass writes at the pointer, which it leaves behind that.
def Writes (a : Write) (bs : Bytes) : Prop :=
  ∀ as cs, a.run ⟨as ++ cs, as.length⟩ =
    if bs.length ≤ cs.length then
      some ((), ⟨as ++ bs ++ cs.drop bs.length, (as ++ bs).length⟩)
    else
      none

theorem Writes.nil : Writes (return ()) [] := by
  intro as cs
  rw [if_pos (show ([] : Bytes).length ≤ cs.length from Nat.zero_le _), List.append_nil]
  rfl

theorem Writes.bind (ha : Writes a bs) (hb : Writes b bs') : Writes (do a; b) (bs ++ bs') := by
  intro as cs
  have hl : (bs ++ bs').length = bs.length + bs'.length := List.length_append
  rw [StateT.run_bind, ha]
  split
  case isFalse h => rw [if_neg (by omega)]; rfl
  case isTrue h  =>
    change b.run ⟨(as ++ bs) ++ cs.drop bs.length, (as ++ bs).length⟩ = _
    rw [hb, List.length_drop, List.drop_drop]
    split
    case isFalse h' => rw [if_neg (by omega)]
    case isTrue h'  => rw [if_pos (by omega), List.append_assoc as, hl]

theorem writes_copy (hn : n = bs.length) : Writes (do memcpy bs; advance n) bs := by
  intro as cs
  rw [StateT.run_bind]
  change ((Memory.store (as ++ cs) as.length bs).map fun mem => ((), { mem, p := as.length })) >>=
    (fun r : Unit × Cursor => some ((), { r.2 with p := r.2.p + n })) = _
  split
  case isFalse h => rw [Memory.store_none rfl (by omega)]; rfl
  case isTrue h  =>
    rw [Memory.store_append rfl h, List.length_append, hn]
    rfl

theorem Writes.copy (hn : n = bs.length) (hb : Writes b bs') :
    Writes (do memcpy bs; advance n; b) (bs ++ bs') := by
  have h := (writes_copy hn).bind hb
  rwa [bind_assoc] at h

theorem writes_push : Writes (push byte) [byte] :=
  writes_copy rfl

def valueBytes : Value → Bytes
  | .string s => 0x01 :: (littleEndian 4 s.length ++ s)
  | .double d => 0x02 :: littleEndian 8 d.toNat
  | .int i    => 0x03 :: littleEndian 4 i.toNat
  | .int64 i  => 0x04 :: littleEndian 8 i.toNat
  | .uint64 n => 0x05 :: littleEndian 8 n.toNat
  | .float f  => 0x06 :: littleEndian 4 f.toNat
  | .bool b   => [0x07, if b then 1 else 0]
  | _         => [0x00]

def entriesBytes : List (Bytes × Value) → Bytes
  | []           => []
  | (k, v) :: es => littleEndian 4 k.length ++ (k ++ (valueBytes v ++ entriesBytes es))

def payloadBytes (es : List (Bytes × Value)) : Bytes :=
  if es.isEmpty then [] else littleEndian 4 es.length ++ entriesBytes es

theorem writes_number {k : ℕ} :
    Writes (do memcpy (littleEndian k n); advance k) (littleEndian k n) :=
  writes_copy length_littleEndian.symm

theorem writes_value : Writes (writeValue v) (valueBytes v) := by
  cases v
  case string s => exact writes_push.bind <| .copy length_littleEndian.symm <| writes_copy rfl
  case bool     => exact writes_push.bind writes_push
  case bytes    => exact writes_push
  case other    => exact writes_push
  all_goals exact writes_push.bind writes_number

theorem writes_entries : Writes (writeEntries es) (entriesBytes es) := by
  induction es
  case nil          => exact .nil
  case cons e es hi => exact .copy length_littleEndian.symm <| .copy rfl <| writes_value.bind hi

theorem writes_payload : Writes (writePayload es) (payloadBytes es) := by
  rw [writePayload, payloadBytes]
  split
  case isTrue  => exact .nil
  case isFalse => exact .copy length_littleEndian.symm writes_entries

theorem writes_string : Writes (writeString s) s := by
  rw [writeString]
  split
  case isTrue    => exact writes_copy rfl
  case isFalse h =>
    rw [List.length_eq_zero_iff.mp (Nat.eq_zero_of_not_pos h)]
    exact .nil

theorem length_valueBytes : (valueBytes v).length = 1 + valueSize v := by
  cases v <;> simp [valueBytes, valueSize, length_littleEndian]
  omega

-- The size of the region of a payload: that of its entries' number, and for each of them those of
-- the key's length, of the key, of a type marker and of the value.
def regionSize : List (Bytes × Value) → ℕ
  | [] => 0
  | es => 4 + (es.map fun e => 4 + e.1.length + 1 + valueSize e.2).sum

theorem length_entriesBytes :
    (entriesBytes es).length = (es.map fun e => 4 + e.1.length + 1 + valueSize e.2).sum := by
  induction es
  case nil          => rfl
  case cons e es hi =>
    rw [entriesBytes, List.map_cons, List.sum_cons, ← hi]
    simp only [List.length_append, length_littleEndian, length_valueBytes]
    omega

theorem length_payloadBytes : (payloadBytes es).length = regionSize es := by
  cases es
  case nil  => rfl
  case cons =>
    change (littleEndian 4 _ ++ entriesBytes _).length = _
    rw [List.length_append, length_littleEndian, length_entriesBytes]
    rfl

theorem foldl_size : es.foldl (fun len e => len + (4 + e.1.length) + 1 + valueSize e.2) n =
    n + (es.map fun e => 4 + e.1.length + 1 + valueSize e.2).sum := by
  induction es generalizing n
  case nil          => rfl
  case cons e es hi =>
    rw [List.foldl_cons, hi, List.map_cons, List.sum_cons]
    omega

-- The first pass counts the bytes that the second one writes.
theorem payloadLen_eq : payloadLen es = regionSize es := by
  cases es
  case nil  => rfl
  case cons => exact foldl_size

-- What setting fields of the header, each of them behind the last one, does to the memory.
def Sets (a : Write) (offset : ℕ) (bs : Bytes) (n : ℕ) : Prop :=
  ∀ as cs p, as.length = offset → bs.length ≤ cs.length →
    a.run ⟨as ++ cs, p⟩ = some ((), ⟨as ++ bs ++ cs.drop bs.length, p + n⟩)

theorem sets_advance {offset : ℕ} : Sets (advance n) offset [] n := by
  intro as cs p _ _
  rw [List.append_nil]
  rfl

theorem Sets.field {offset k x : ℕ} (ha : Sets a (offset + k) bs n) :
    Sets (do setField offset (littleEndian k x); a) offset (littleEndian k x ++ bs) n := by
  intro as cs p ho hl
  rw [List.length_append, length_littleEndian] at hl
  have hr : (setField offset (littleEndian k x)).run ⟨as ++ cs, p⟩ =
      some ((), ⟨as ++ littleEndian k x ++ cs.drop k, p⟩) := by
    change (Memory.store (as ++ cs) offset (littleEndian k x)).map _ = _
    rw [Memory.store_append ho.symm (by rw [length_littleEndian]; omega), length_littleEndian]
    rfl
  rw [StateT.run_bind, hr]
  change a.run ⟨(as ++ littleEndian k x) ++ cs.drop k, p⟩ = _
  rw [ha _ _ _ (by rw [List.length_append, length_littleEndian, ho])
    (by rw [List.length_drop]; omega)]
  rw [List.length_append, length_littleEndian, List.drop_drop, List.append_assoc as]

-- Numbers behind each other, with their sizes.
def fieldsBytes : List (ℕ × ℕ) → Bytes
  | []           => []
  | (k, x) :: fs => littleEndian k x ++ fieldsBytes fs

-- The fields of the header without the bytes behind them, which are not set.
def headerBytes (msg : Message) : Bytes :=
  fieldsBytes [
    (1, msg.msgType.toNat),
    (1, msg.durability.toNat),
    (2, msg.sender.length),
    (2, msg.event.length),
    (2, if 65535 < payloadLen msg.payload then 65535 else payloadLen msg.payload),
    (4, totalSize msg),
    (8, (msg.timestamp.getD 0).toNat)]

theorem sets_header : Sets (writeHeader msg) 0 (headerBytes msg) headerSize :=
  .field <| .field <| .field <| .field <| .field <| .field <| .field sets_advance

theorem length_headerBytes : (headerBytes msg).length = 20 := by
  simp only [headerBytes, fieldsBytes, List.length_append, length_littleEndian, List.length_nil]

-- What the buffer begins with after both passes.
def messageBytes (msg : Message) (pad : Bytes) : Bytes :=
  headerBytes msg ++ (pad ++ (msg.sender ++ (msg.event ++ payloadBytes msg.payload)))

theorem length_messageBytes {pad : Bytes} (hp : pad.length = 4) :
    (messageBytes msg pad).length = totalSize msg := by
  simp only [messageBytes, List.length_append, length_headerBytes, length_payloadBytes, hp,
    totalSize, headerSize, payloadLen_eq]
  omega

theorem run_writeMessage (h : totalSize msg ≤ mem.length) :
    ∃ pad, pad.length = 4 ∧ (writeMessage msg).run ⟨mem, 0⟩ =
      some ((), ⟨messageBytes msg pad ++ mem.drop (totalSize msg), totalSize msg⟩) := by
  generalize hb : msg.sender ++ (msg.event ++ payloadBytes msg.payload) = body
  have hm : totalSize msg = 24 + body.length := by
    simp only [← hb, List.length_append, length_payloadBytes, totalSize, headerSize, payloadLen_eq]
    omega
  refine ⟨(mem.drop 20).take 4, by rw [List.length_take, List.length_drop]; omega, ?_⟩
  have hh : (writeHeader msg).run ⟨mem, 0⟩ = some ((), ⟨headerBytes msg ++ mem.drop 20, 24⟩) := by
    have := @sets_header msg [] mem 0 rfl (by rw [length_headerBytes]; omega)
    rw [length_headerBytes] at this
    exact this
  have hs : headerBytes msg ++ mem.drop 20 =
      headerBytes msg ++ (mem.drop 20).take 4 ++ mem.drop 24 := by
    have hd : mem.drop 24 = (mem.drop 20).drop 4 := by rw [List.drop_drop]
    rw [List.append_assoc, hd, List.take_append_drop]
  have hl : (headerBytes msg ++ (mem.drop 20).take 4).length = 24 := by
    rw [List.length_append, length_headerBytes, List.length_take, List.length_drop]
    omega
  have hw : Writes
      (do writeString msg.sender; writeString msg.event; writePayload msg.payload) body :=
    hb ▸ writes_string.bind (writes_string.bind writes_payload)
  have hr := hw (headerBytes msg ++ (mem.drop 20).take 4) (mem.drop 24)
  rw [hl, ← hs, if_pos (by rw [List.length_drop]; omega), List.length_append, hl, ← hm,
    List.drop_drop, ← hm] at hr
  rw [writeMessage, StateT.run_bind, hh, messageBytes, hb, ← List.append_assoc (headerBytes msg)]
  exact hr

-- The message is the whole of what is written, and it is written if there is room for it.
theorem serializeFlat_eq {capacity : ℕ} (hc : capacity ≤ mem.length) :
    if capacity < totalSize msg then
      serializeFlat msg capacity (some mem) = some (0, some mem)
    else
      ∃ pad, pad.length = 4 ∧ serializeFlat msg capacity (some mem) =
        some (totalSize msg, some (messageBytes msg pad ++ mem.drop (totalSize msg))) := by
  have ht : headerSize ≤ totalSize msg := by rw [totalSize]; omega
  split
  case isTrue h =>
    rw [serializeFlat, if_pos h]
    split <;> rfl
  case isFalse h =>
    obtain ⟨pad, hp, hr⟩ := @run_writeMessage mem msg (by omega)
    refine ⟨pad, hp, ?_⟩
    rw [serializeFlat, if_neg (by omega), if_neg h, hr]
    rfl

theorem writes_within {capacity : ℕ} (hc : capacity ≤ mem.length) :
    (totalSize msg ≤ mem.length →
      ∃ mem', (writeMessage msg).run ⟨mem, 0⟩ = some ((), ⟨mem', totalSize msg⟩)) ∧
    serializeFlat msg capacity none = some (0, none) ∧
    ∃ n mem', serializeFlat msg capacity (some mem) = some (n, some mem') ∧
      (n = 0 ∧ mem' = mem ∨ n = totalSize msg ∧ n ≤ capacity ∧ mem'.length = mem.length ∧
        mem'.drop n = mem.drop n) := by
  refine ⟨fun h => ?_, rfl, ?_⟩
  case refine_1 =>
    obtain ⟨pad, -, hr⟩ := run_writeMessage h
    exact ⟨_, hr⟩
  case refine_2 =>
    have hs := @serializeFlat_eq mem msg capacity hc
    split at hs
    case isTrue  => exact ⟨0, mem, hs, .inl ⟨rfl, rfl⟩⟩
    case isFalse =>
      obtain ⟨pad, hp, hr⟩ := hs
      have hl := @length_messageBytes msg pad hp
      refine ⟨_, _, hr, .inr ⟨rfl, by omega, ?_, List.drop_left' hl⟩⟩
      rw [List.length_append, List.length_drop, hl]
      omega

theorem writes_within_sample :
    let mem := List.replicate 40 0
    let msg : Message := { sender := [1], payload := [([2], .int 3)] }
    (totalSize msg ≤ mem.length →
      ∃ mem', (writeMessage msg).run ⟨mem, 0⟩ = some ((), ⟨mem', totalSize msg⟩)) ∧
    serializeFlat msg 39 none = some (0, none) ∧
    ∃ n mem', serializeFlat msg 39 (some mem) = some (n, some mem') ∧
      (n = 0 ∧ mem' = mem ∨ n = totalSize msg ∧ n ≤ 39 ∧ mem'.length = mem.length ∧
        mem'.drop n = mem.drop n) :=
  writes_within (by decide)

variable {data : Bytes} {offset k len p x : ℕ}

-- A field of the header, and a part of what follows it.
def field (data : Bytes) (offset k : ℕ) : ℕ :=
  ofLittleEndian ((data.drop offset).take k)

def slice (data : Bytes) (p len : ℕ) : Bytes :=
  (data.drop p).take len

theorem readField_eq (h : offset + k ≤ data.length) :
    readField data offset k = some (field data offset k) := by
  rw [readField, Memory.load, if_pos h]
  rfl

theorem field_lt : field data offset k < 256 ^ k := by
  refine lt_of_lt_of_le ofLittleEndian_lt <| Nat.pow_le_pow_right (by omega) ?_
  rw [List.length_take]
  exact min_le_left ..

theorem field_append {as cs : Bytes} (ho : as.length = offset) :
    field (as ++ (littleEndian k x ++ cs)) offset k = x % 256 ^ k := by
  rw [field, List.drop_left' ho, List.take_left' length_littleEndian, ofLittleEndian_littleEndian]

theorem readString_of_le (h : p + len ≤ data.length) :
    readString data len p = some (slice data p len, p + len) := by
  rw [readString]
  split
  case isTrue     => rw [Memory.load, if_pos h]; rfl
  case isFalse hn =>
    have h0 : len = 0 := by omega
    subst h0
    rfl

theorem readString_of_lt (h : data.length < p + len) : readString data len p = some ([], p) := by
  rw [readString, if_neg (by omega)]
  rfl

theorem readString_cases (hp : p ≤ data.length) :
    ∃ s p', readString data len p = some (s, p') ∧ s.length ≤ len ∧ p' ≤ data.length := by
  rcases Nat.lt_or_ge data.length (p + len) with h | h
  case inl => exact ⟨_, _, readString_of_lt h, Nat.zero_le _, hp⟩
  case inr =>
    refine ⟨_, _, readString_of_le h, ?_, h⟩
    rw [slice, List.length_take]
    exact min_le_left ..

-- The bytes of a payload that was not decoded.
def raw (payload : List (Bytes × Value)) : Bytes :=
  match payload.lookup (utf8 "__flat__") with
  | some (.bytes b) => b
  | _               => []

theorem readPayload_eq (hp : p ≤ data.length) :
    ∃ payload, readPayload data len p = some payload ∧ raw payload = slice data p len := by
  have hs : (slice data p len).length = min len (data.length - p) := by
    rw [slice, List.length_take, List.length_drop]
  rw [readPayload]
  split
  case isTrue h  =>
    refine ⟨_, by rw [Memory.load, if_pos (by omega)]; rfl, ?_⟩
    rw [slice, ← List.length_drop, ← List.take_eq_take_min]
    rfl
  case isFalse h => exact ⟨[], rfl, (List.length_eq_zero_iff.mp (by omega)).symm⟩

-- What the decoder returns where the total size is no reason to reject the data.
theorem deserializeFlat_eq (h : headerSize ≤ data.length)
    (ht : field data Header.totalSize 4 ≤ data.length) :
    ∃ sender p event p' payload,
      readString data (field data Header.senderLen 2) headerSize = some (sender, p) ∧
      readString data (field data Header.eventLen 2) p = some (event, p') ∧
      raw payload = slice data p' (field data Header.payloadLen 2) ∧
      sender.length ≤ field data Header.senderLen 2 ∧
      event.length ≤ field data Header.eventLen 2 ∧
      deserializeFlat (some data) = some {
        msgType    := .ofNat 32 (field data Header.msgType 1)
        durability := .ofNat 32 (field data Header.durability 1)
        timestamp  := some (.ofNat 64 (field data Header.timestamp 8))
        sender     := sender
        event      := event
        payload    := payload } := by
  have hf {offset k : ℕ} (ho : offset + k ≤ 24) :
      readField data offset k = some (field data offset k) :=
    readField_eq (le_trans ho h)
  obtain ⟨sender, p, hs, hsl, hp⟩ := @readString_cases data (field data Header.senderLen 2) headerSize h
  obtain ⟨event, p', he, hel, hp'⟩ := @readString_cases data (field data Header.eventLen 2) p hp
  obtain ⟨payload, hr, hrp⟩ := @readPayload_eq data (field data Header.payloadLen 2) p' hp'
  refine ⟨sender, p, event, p', payload, hs, he, hrp, hsl, hel, ?_⟩
  rw [deserializeFlat, if_neg (Nat.not_lt.mpr h), hf (by decide)]
  change (if data.length < field data Header.totalSize 4 then _ else _) = _
  rw [if_neg (Nat.not_lt.mpr ht), hf (by decide), hf (by decide), hf (by decide), hf (by decide)]
  change (readString data (field data Header.senderLen 2) headerSize >>= _) = _
  rw [hs]
  change (readField data Header.eventLen 2 >>= _) = _
  rw [hf (by decide)]
  change (readString data (field data Header.eventLen 2) p >>= _) = _
  rw [he]
  change (readField data Header.payloadLen 2 >>= _) = _
  rw [hf (by decide)]
  change (readPayload data (field data Header.payloadLen 2) p' >>= _) = _
  rw [hr]
  rfl

theorem deserializeFlat_rejects
    (h : data.length < headerSize ∨ data.length < field data Header.totalSize 4) :
    deserializeFlat (some data) = some errorMarker := by
  by_cases hd : data.length < headerSize
  case pos => rw [deserializeFlat, if_pos hd]; rfl
  case neg =>
    rw [deserializeFlat, if_neg hd, readField_eq (le_trans (by decide) (Nat.not_lt.mp hd))]
    change (if data.length < field data Header.totalSize 4 then _ else _) = _
    rw [if_pos (h.resolve_left hd)]
    rfl

-- No read leaves the data.
theorem deserializeFlat_isSome {data : Option Bytes} : (deserializeFlat data).isSome := by
  cases data
  case none      => rfl
  case some data =>
    by_cases h : data.length < headerSize ∨ data.length < field data Header.totalSize 4
    case pos => rw [deserializeFlat_rejects h]; rfl
    case neg =>
      rw [not_or, Nat.not_lt, Nat.not_lt] at h
      obtain ⟨_, _, _, _, _, -, -, -, -, -, he⟩ := deserializeFlat_eq h.left h.right
      rw [he]
      rfl

-- The parts of the data that the header describes make up the total size, and the message consists
-- of them.
structure WellFormed (data : Bytes) (msg : Message) : Prop where
  total   : headerSize + field data Header.senderLen 2 + field data Header.eventLen 2 +
    field data Header.payloadLen 2 = field data Header.totalSize 4
  within  : field data Header.totalSize 4 ≤ data.length
  sender  : msg.sender = slice data headerSize (field data Header.senderLen 2)
  event   : msg.event = slice data (headerSize + field data Header.senderLen 2)
    (field data Header.eventLen 2)
  payload : raw msg.payload = slice data
    (headerSize + field data Header.senderLen 2 + field data Header.eventLen 2)
    (field data Header.payloadLen 2)

theorem wellFormed
    (ht : headerSize + field data Header.senderLen 2 + field data Header.eventLen 2 +
      field data Header.payloadLen 2 = field data Header.totalSize 4)
    (hw : field data Header.totalSize 4 ≤ data.length) :
    ∃ msg, deserializeFlat (some data) = some msg ∧ WellFormed data msg := by
  obtain ⟨sender, p, event, p', payload, hs, he, hr, -, -, hd⟩ := deserializeFlat_eq (by omega) hw
  rw [readString_of_le (by omega)] at hs
  cases hs
  rw [readString_of_le (by omega)] at he
  cases he
  exact ⟨_, hd, ht, hw, rfl, rfl, hr⟩

theorem rejects_malformed_iff :
    (∃ msg, deserializeFlat (some data) = some msg ∧ (msg = errorMarker ∨ WellFormed data msg)) ↔
      data.length < headerSize ∨ data.length < field data Header.totalSize 4 ∨
      headerSize + field data Header.senderLen 2 + field data Header.eventLen 2 +
        field data Header.payloadLen 2 = field data Header.totalSize 4 := by
  by_cases h : data.length < headerSize ∨ data.length < field data Header.totalSize 4
  case pos =>
    refine iff_of_true ⟨_, deserializeFlat_rejects h, .inl rfl⟩ ?_
    exact h.imp_right .inl
  case neg =>
    rw [not_or, Nat.not_lt, Nat.not_lt] at h
    constructor
    case mp =>
      rintro ⟨msg, hd, rfl | hw⟩
      case inl =>
        obtain ⟨_, _, _, _, _, -, -, -, -, -, he⟩ := deserializeFlat_eq h.left h.right
        rw [he] at hd
        have ht : some _ = none := congrArg Message.timestamp (Option.some.inj hd)
        cases ht
      case inr => exact .inr <| .inr hw.total
    case mpr =>
      rintro (hd | hd | ht)
      case inl       => omega
      case inr.inl   => omega
      case inr.inr   =>
        obtain ⟨msg, hd, hw⟩ := wellFormed ht h.right
        exact ⟨msg, hd, .inr hw⟩

-- A header with a sender, although the total size is that of the header alone.
theorem not_rejects_malformed : ¬∀ data, ∃ msg, deserializeFlat (some data) = some msg ∧
    (msg = errorMarker ∨ WellFormed data msg) := by
  intro h
  let data : Bytes := [1, 1, 1, 0, 0, 0, 0, 0, 24] ++ List.replicate 15 0
  obtain ⟨msg, hd, rfl | hw⟩ := h data
  case inl =>
    have hn : deserializeFlat (some data) ≠ some errorMarker := by decide
    exact hn hd
  case inr =>
    have ht := hw.total
    revert ht
    decide

def Fits (msg : Message) : Prop :=
  msg.msgType.toNat < 2 ^ 8 ∧ msg.durability.toNat < 2 ^ 8 ∧ msg.sender.length < 2 ^ 16 ∧
  msg.event.length < 2 ^ 16 ∧ regionSize msg.payload < 2 ^ 16

-- The message is the same but for the payload, which is the region that was written for it.
structure Recovers (msg : Message) (data : Bytes) (decoded : Message) : Prop where
  msgType    : decoded.msgType = msg.msgType
  durability : decoded.durability = msg.durability
  sender     : decoded.sender = msg.sender
  event      : decoded.event = msg.event
  timestamp  : decoded.timestamp = some (msg.timestamp.getD 0)
  payload    : raw decoded.payload = data.drop (headerSize + msg.sender.length + msg.event.length)

variable {pad : Bytes} {decoded : Message} {fs fs' : List (ℕ × ℕ)}

theorem field_fields {cs : Bytes} :
    field (fieldsBytes (fs ++ (k, x) :: fs') ++ cs) (fs.map Prod.fst).sum k = x % 256 ^ k := by
  induction fs
  case nil          =>
    have hn : ([] : Bytes).length = 0 := rfl
    rw [List.nil_append, fieldsBytes, List.append_assoc]
    exact field_append hn
  case cons f fs hi =>
    rw [← hi, List.cons_append, fieldsBytes, List.append_assoc, List.map_cons, List.sum_cons, field,
      ← List.drop_drop, List.drop_left' length_littleEndian]
    rfl

theorem field_msgType :
    field (messageBytes msg pad) Header.msgType 1 = msg.msgType.toNat % 2 ^ 8 :=
  @field_fields _ _ [] _ _

theorem field_durability :
    field (messageBytes msg pad) Header.durability 1 = msg.durability.toNat % 2 ^ 8 :=
  @field_fields _ _ [(1, _)] _ _

theorem field_senderLen :
    field (messageBytes msg pad) Header.senderLen 2 = msg.sender.length % 2 ^ 16 :=
  @field_fields _ _ [(1, _), (1, _)] _ _

theorem field_eventLen :
    field (messageBytes msg pad) Header.eventLen 2 = msg.event.length % 2 ^ 16 :=
  @field_fields _ _ [(1, _), (1, _), (2, _)] _ _

theorem field_payloadLen (h : regionSize msg.payload < 2 ^ 16) :
    field (messageBytes msg pad) Header.payloadLen 2 = regionSize msg.payload := by
  have hf : field (messageBytes msg pad) Header.payloadLen 2 =
      (if 65535 < payloadLen msg.payload then 65535 else payloadLen msg.payload) % 2 ^ 16 :=
    @field_fields _ _ [(1, _), (1, _), (2, _), (2, _)] _ _
  rw [hf, payloadLen_eq, if_neg (by omega), Nat.mod_eq_of_lt h]

theorem field_totalSize :
    field (messageBytes msg pad) Header.totalSize 4 = totalSize msg % 2 ^ 32 :=
  @field_fields _ _ [(1, _), (1, _), (2, _), (2, _), (2, _)] _ _

theorem field_timestamp : field (messageBytes msg pad) Header.timestamp 8 =
    (msg.timestamp.getD 0).toNat % 2 ^ 64 :=
  @field_fields _ _ [(1, _), (1, _), (2, _), (2, _), (2, _), (4, _)] _ _

theorem drop_messageBytes (hp : pad.length = 4) : (messageBytes msg pad).drop headerSize =
    msg.sender ++ (msg.event ++ payloadBytes msg.payload) := by
  rw [messageBytes, ← List.append_assoc, List.drop_left']
  rw [List.length_append, length_headerBytes, hp, headerSize]

theorem slice_sender (hp : pad.length = 4) :
    slice (messageBytes msg pad) headerSize msg.sender.length = msg.sender := by
  rw [slice, drop_messageBytes hp, List.take_left]

theorem slice_event (hp : pad.length = 4) : slice (messageBytes msg pad)
    (headerSize + msg.sender.length) msg.event.length = msg.event := by
  rw [slice, ← List.drop_drop, drop_messageBytes hp, List.drop_left, List.take_left]

theorem drop_strings (hp : pad.length = 4) : (messageBytes msg pad).drop
    (headerSize + msg.sender.length + msg.event.length) = payloadBytes msg.payload := by
  rw [← List.drop_drop, ← List.drop_drop, drop_messageBytes hp, List.drop_left, List.drop_left]

theorem slice_payload (hp : pad.length = 4) : slice (messageBytes msg pad)
    (headerSize + msg.sender.length + msg.event.length) (regionSize msg.payload) =
      payloadBytes msg.payload := by
  rw [slice, drop_strings hp, ← length_payloadBytes, List.take_length]

theorem recovers (hp : pad.length = 4) (hf : Fits msg) :
    ∃ decoded, deserializeFlat (some (messageBytes msg pad)) = some decoded ∧
      Recovers msg (messageBytes msg pad) decoded := by
  obtain ⟨hm, hd, hs, he, hr⟩ := hf
  have hl := @length_messageBytes msg pad hp
  have hz : totalSize msg =
      headerSize + msg.sender.length + msg.event.length + regionSize msg.payload := by
    rw [totalSize, payloadLen_eq]
  have hh : headerSize = 24 := rfl
  have hsl : field (messageBytes msg pad) Header.senderLen 2 = msg.sender.length := by
    rw [field_senderLen, Nat.mod_eq_of_lt hs]
  have hel : field (messageBytes msg pad) Header.eventLen 2 = msg.event.length := by
    rw [field_eventLen, Nat.mod_eq_of_lt he]
  have hpl : field (messageBytes msg pad) Header.payloadLen 2 = regionSize msg.payload :=
    field_payloadLen hr
  have htl : field (messageBytes msg pad) Header.totalSize 4 = totalSize msg := by
    rw [field_totalSize, Nat.mod_eq_of_lt (by omega)]
  obtain ⟨sender, p, event, p', payload, hs', he', hr', -, -, hdec⟩ :=
    @deserializeFlat_eq (messageBytes msg pad) (by omega) (by omega)
  rw [readString_of_le (by omega)] at hs'
  cases hs'
  rw [readString_of_le (by omega)] at he'
  cases he'
  refine ⟨_, hdec, ?_, ?_, ?_, ?_, ?_, ?_⟩
  case refine_1 =>
    dsimp only
    rw [field_msgType, Nat.mod_eq_of_lt hm, BitVec.ofNat_toNat, BitVec.setWidth_eq]
  case refine_2 =>
    dsimp only
    rw [field_durability, Nat.mod_eq_of_lt hd, BitVec.ofNat_toNat, BitVec.setWidth_eq]
  case refine_3 =>
    dsimp only
    rw [hsl, slice_sender hp]
  case refine_4 =>
    dsimp only
    rw [hsl, hel, slice_event hp]
  case refine_5 =>
    dsimp only
    rw [field_timestamp, Nat.mod_eq_of_lt (BitVec.isLt _), BitVec.ofNat_toNat, BitVec.setWidth_eq]
  case refine_6 => rw [hr', hsl, hel, hpl, slice_payload hp, drop_strings hp]

-- The widths of the fields limit what can be recovered.
theorem fits_of_recovers (hp : pad.length = 4)
    (hd : deserializeFlat (some (messageBytes msg pad)) = some decoded)
    (hr : Recovers msg (messageBytes msg pad) decoded) : Fits msg := by
  have hl := @length_messageBytes msg pad hp
  have hh : headerSize ≤ totalSize msg := by rw [totalSize]; omega
  have htl : field (messageBytes msg pad) Header.totalSize 4 ≤ totalSize msg := by
    rw [field_totalSize]
    exact Nat.mod_le ..
  obtain ⟨sender, p, event, p', payload, -, -, hr', hs, he, hdec⟩ :=
    @deserializeFlat_eq (messageBytes msg pad) (by omega) (by omega)
  rw [hdec] at hd
  cases hd
  have hf {offset k : ℕ} : field (messageBytes msg pad) offset k < 256 ^ k := field_lt
  refine ⟨?_, ?_, ?_, ?_, ?_⟩
  case refine_1 =>
    rw [← hr.msgType, BitVec.toNat_ofNat]
    exact lt_of_le_of_lt (Nat.mod_le ..) hf
  case refine_2 =>
    rw [← hr.durability, BitVec.toNat_ofNat]
    exact lt_of_le_of_lt (Nat.mod_le ..) hf
  case refine_3 => exact hr.sender ▸ lt_of_le_of_lt hs hf
  case refine_4 => exact hr.event ▸ lt_of_le_of_lt he hf
  case refine_5 =>
    have hw := congrArg List.length <| hr'.symm.trans hr.payload
    rw [drop_strings hp, length_payloadBytes, slice, List.length_take] at hw
    exact hw ▸ lt_of_le_of_lt (min_le_left ..) hf

-- The property for one message and one buffer.
def RoundTrips (msg : Message) (capacity : ℕ) (mem : Bytes) : Prop :=
  ∀ n mem', serializeFlat msg capacity (some mem) = some (n, some mem') → 0 < n →
    ∃ decoded, deserializeFlat (some (mem'.take n)) = some decoded ∧
      Recovers msg (mem'.take n) decoded

theorem fits_of_roundTrips {capacity : ℕ} (hc : capacity ≤ mem.length)
    (ht : totalSize msg ≤ capacity) (h : RoundTrips msg capacity mem) : Fits msg := by
  have hs := @serializeFlat_eq mem msg capacity hc
  rw [if_neg (Nat.not_lt.mpr ht)] at hs
  obtain ⟨pad, hp, hs⟩ := hs
  obtain ⟨decoded, hd, hr⟩ := h _ _ hs (by rw [totalSize, headerSize]; omega)
  rw [List.take_left' (length_messageBytes hp)] at hd hr
  exact fits_of_recovers hp hd hr

theorem roundTrips_iff {capacity : ℕ} (hc : capacity ≤ mem.length) :
    RoundTrips msg capacity mem ↔
      (headerSize + msg.sender.length + msg.event.length + regionSize msg.payload ≤ capacity →
        Fits msg) := by
  rw [← payloadLen_eq]
  constructor
  case mp  => exact fun h ht => fits_of_roundTrips hc ht h
  case mpr =>
    intro hf n mem' he hn
    have hs := @serializeFlat_eq mem msg capacity hc
    split at hs
    case isTrue     =>
      rw [hs] at he
      cases he
      cases hn
    case isFalse ht =>
      obtain ⟨pad, hp, hs⟩ := hs
      rw [hs] at he
      cases he
      rw [List.take_left' (length_messageBytes hp)]
      exact recovers hp (hf (Nat.not_lt.mp ht))

theorem roundTrips_sample :
    let msg : Message := { sender := [1], payload := [([2], .int 3)] }
    RoundTrips msg 39 (List.replicate 40 0) ↔
      (headerSize + msg.sender.length + msg.event.length + regionSize msg.payload ≤ 39 →
        Fits msg) :=
  roundTrips_iff (by decide)

theorem exists_length (n : ℕ) : ∃ s : Bytes, s.length = n :=
  ⟨List.replicate n 0, List.length_replicate⟩

-- A sender whose length needs a bit more than the field has.
theorem not_roundTrips :
    ¬∀ msg capacity mem, capacity ≤ mem.length → RoundTrips msg capacity mem := by
  intro h
  obtain ⟨s, hs⟩ := exists_length (2 ^ 16)
  obtain ⟨mem, hm⟩ := exists_length (24 + 2 ^ 16)
  have ht : totalSize { sender := s } ≤ mem.length := by
    change 24 + s.length + 0 + 0 ≤ mem.length
    omega
  obtain ⟨-, -, hf, -, -⟩ := fits_of_roundTrips (le_refl _) ht (h _ _ mem (le_refl _))
  change s.length < 2 ^ 16 at hf
  omega

end Cpp.Flat
