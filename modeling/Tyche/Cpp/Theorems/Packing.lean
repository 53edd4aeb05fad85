import Tyche.Cpp.Packing

namespace Cpp.Packing

open Msgpack (Packer Token)

variable {p : Packer} {a b : Pack} {ts ts' : List Token} {s : Bytes} {v : Any} {msg : Message}
variable {i : BitVec 64} {mem : Bytes} {capacity : BitVec 64}

-- What a part of the encoder appends to the buffer.
def Writes (p : Packer) (a : Pack) (ts : List Token) : Prop :=
  ∀ buffer, a.run buffer = (p.tokens ts).map fun bytes => ((), buffer ++ bytes)

theorem Writes.nil : Writes p (return ()) [] := by
  intro buffer
  rw [Packer.tokens, Option.map_some, List.append_nil]
  rfl

theorem Writes.bind (ha : Writes p a ts) (hb : Writes p b ts') :
    Writes p (do a; b) (ts ++ ts') := by
  intro buffer
  rw [StateT.run_bind, ha, Packer.tokens_append]
  cases p.tokens ts
  case none      => rfl
  case some bytes =>
    change b.run (buffer ++ bytes) = _
    rw [hb]
    cases p.tokens ts' <;> simp

theorem writes_append {t : Token} (h : p.token t = some s) : Writes p (append s) [t] := by
  intro buffer
  rw [Packer.tokens, Packer.tokens, h]
  change some ((), buffer ++ s) = some ((), buffer ++ (s ++ []))
  rw [List.append_nil]

theorem writes_nil : Writes p (packNil p) [.nil] :=
  writes_append rfl

theorem writes_int64 : Writes p (packInt64 p i) [.ofInt i] := by
  rw [packInt64, Token.ofInt]
  split <;> exact writes_append rfl

theorem writes_int {i : BitVec 32} : Writes p (packInt p i) [.ofInt (i.signExtend 64)] :=
  writes_int64

theorem writes_string : Writes p (packString p s) [.str s] := by
  intro buffer
  rw [packString, Packer.tokens, Packer.tokens, Packer.token]
  split
  case isTrue  =>
    change some ((), buffer ++ _ ++ s) = some ((), buffer ++ (_ ++ []))
    rw [List.append_nil, List.append_assoc]
  case isFalse => rfl

theorem writes_strings {l : List Bytes} : Writes p (packStrings p l) (l.map .str) := by
  induction l
  case nil         => exact .nil
  case cons s l hi => exact writes_string.bind hi

mutual

theorem writes_any : ∀ {v : Any}, Writes p (packAny p v) (Cpp.packAny .float v)
  | .empty     => writes_nil
  | .double _  => writes_append rfl
  | .string _  => writes_string
  | .int _     => writes_int
  | .int64 _   => writes_int64
  | .uint64 _  => writes_append rfl
  | .float _   => writes_append rfl
  | .bool _    => writes_append rfl
  | .cstring _ => writes_string
  | .payload _ => (writes_append (t := .map _) rfl).bind writes_entries
  | .strings _ => (writes_append (t := .array _) rfl).bind writes_strings
  | .anys _    => (writes_append (t := .array _) rfl).bind writes_anys

theorem writes_entries : ∀ {m : Payload}, Writes p (packEntries p m) (Cpp.packEntries .float m)
  | []     => .nil
  | _ :: _ => writes_string.bind <| writes_any.bind writes_entries

theorem writes_anys : ∀ {l : List Any}, Writes p (packAnys p l) (Cpp.packAnys .float l)
  | []     => .nil
  | _ :: _ => writes_any.bind writes_anys

end

theorem writes_string? {s : Option Bytes} : Writes p (packString? p s) [Cpp.packString? s] := by
  cases s
  case none => exact writes_nil
  case some => exact writes_string

theorem writes_double? {x : Option Floating} :
    Writes p (packDouble? p x) [Cpp.packDouble? .float x] := by
  cases x
  case none => exact writes_nil
  case some => exact writes_append rfl

-- A key that is packed by its parts is packed as the string that it is.
theorem packKey_eq {key : String} {len : BitVec 32} (h : (utf8 key).length = len.toNat) :
    packKey p key len = packString p (utf8 key) := by
  rw [packKey, packString, if_pos (h ▸ len.isLt), ← h, List.take_length, h]
  rw [BitVec.ofNat_toNat, BitVec.setWidth_eq]

-- What the encoders have in common, where the keys are packed as strings.
def packFields (p : Packer) (msg : Message) : Pack := do
  packMap p 10
  packString p (utf8 "msg_type")
  packString p (messageTypeToStr msg.msgType)
  packString p (utf8 "sender")
  packString p msg.sender
  packString p (utf8 "event")
  packString p msg.event
  packString p (utf8 "payload")
  packMap p (.ofNat 32 msg.payload.length)
  packEntries p msg.payload
  packString p (utf8 "recipient")
  packString? p msg.recipient
  packString p (utf8 "durability")
  packInt p msg.durability
  packString p (utf8 "timestamp")
  packDouble? p msg.timestamp
  packString p (utf8 "correlation_id")
  packString? p msg.correlationId
  packString p (utf8 "wait_timeout")
  packDouble? p msg.waitTimeout
  packString p (utf8 "run_timeout")
  packDouble? p msg.runTimeout

theorem writes_map {size : BitVec 32} : Writes p (packMap p size) [.map size] :=
  writes_append rfl

theorem writes_fields : Writes p (packFields p msg) (Cpp.serialize .float msg) :=
  writes_map.bind <| writes_string.bind <| writes_string.bind <| writes_string.bind <|
  writes_string.bind <| writes_string.bind <| writes_string.bind <| writes_string.bind <|
  writes_map.bind <| writes_entries.bind <|
  writes_string.bind <| writes_string?.bind <| writes_string.bind <| writes_int.bind <|
  writes_string.bind <| writes_double?.bind <| writes_string.bind <| writes_string?.bind <|
  writes_string.bind <| writes_double?.bind <| writes_string.bind writes_double?

theorem run_fields : (packFields p msg).run [] =
    (p.tokens <| Cpp.serialize .float msg).map fun bytes => ((), bytes) :=
  writes_fields []

-- The bytes are those of the tokens.
theorem serialize_eq : serialize p msg = p.tokens (Cpp.serialize .float msg) := by
  rw [serialize]
  repeat rw [packKey_eq (by rfl)]
  change ((packFields p msg).run [] >>= fun r => some r.2) = _
  rw [run_fields]
  cases p.tokens (Cpp.serialize .float msg) <;> rfl

theorem serializeTls_eq : serializeTls p s msg = p.tokens (Cpp.serialize .float msg) := by
  change ((packFields p msg).run [] >>= fun r => some r.2) = _
  rw [run_fields]
  cases p.tokens (Cpp.serialize .float msg) <;> rfl

theorem sbuffer_eq (h : capacity.toNat < 2 ^ 31) :
    sbuffer (if capacity < 512 then 512 else (capacity.setWidth 32).signExtend 64) = some [] := by
  rw [sbuffer, if_pos]
  split
  case isTrue  => decide
  case isFalse =>
    have hm : (capacity.setWidth 32).msb = false := by
      rw [BitVec.msb_eq_false_iff_two_mul_lt, BitVec.toNat_setWidth]
      omega
    rw [BitVec.signExtend_eq_setWidth_of_msb_false hm, BitVec.toNat_setWidth, BitVec.toNat_setWidth]
    omega

theorem serializeInto_eq (h0 : 0 < capacity.toNat) (hc : capacity.toNat < 2 ^ 31)
    (hm : capacity.toNat ≤ mem.length) : serializeInto p msg capacity (some mem) =
      (p.tokens <| Cpp.serialize .float msg).map fun bytes =>
        if capacity.toNat < bytes.length then (0, some mem)
        else (bytes.length, some (bytes ++ mem.drop bytes.length)) := by
  have hz : capacity ≠ 0 := fun h => by rw [h] at h0; exact absurd h0 (Nat.lt_irrefl 0)
  rw [serializeInto, if_neg hz, sbuffer_eq hc]
  change ((packFields p msg).run [] >>= fun r => if capacity.toNat < r.2.length then
    some (0, some mem) else memcpy mem r.2 >>= fun mem => some (r.2.length, some mem)) = _
  rw [run_fields]
  cases p.tokens (Cpp.serialize .float msg)
  case none       => rfl
  case some bytes =>
    change (if capacity.toNat < bytes.length then some (0, some mem) else
      memcpy mem bytes >>= fun mem => some (bytes.length, some mem)) = _
    rw [Option.map_some]
    split
    case isTrue    => rfl
    case isFalse h => rw [memcpy, if_pos (by omega)]; rfl

theorem encoders_agree {tlsBuffer : Bytes} (h0 : 0 < capacity.toNat) (hc : capacity.toNat < 2 ^ 31)
    (hm : capacity.toNat ≤ mem.length) :
    serializeTls p tlsBuffer msg = serialize p msg ∧
    (serialize p msg = none → serializeInto p msg capacity (some mem) = none) ∧
    ∀ bytes, serialize p msg = some bytes → ∃ n mem',
      serializeInto p msg capacity (some mem) = some (n, some mem') ∧
      (n = 0 ↔ capacity.toNat < bytes.length) ∧ (n = 0 → mem' = mem) ∧
      (n ≠ 0 → n = bytes.length ∧ mem' = bytes ++ mem.drop n) := by
  rw [serializeInto_eq h0 hc hm, serialize_eq]
  refine ⟨serializeTls_eq, fun h => by rw [h]; rfl, fun bytes h => ?_⟩
  have hp : 0 < bytes.length := Packer.tokens_map_pos h
  rw [h, Option.map_some]
  split
  case isTrue hl  => exact ⟨0, mem, rfl, iff_of_true rfl hl, fun _ => rfl, fun h => absurd rfl h⟩
  case isFalse hl =>
    have hn : bytes.length ≠ 0 := by omega
    exact ⟨_, _, rfl, iff_of_false hn hl, fun h => absurd h hn, fun _ => ⟨rfl, rfl⟩⟩

theorem encoders_agree_sample :
    let p := Packer.standard fun _ => []
    let mem := List.replicate 100 0
    serializeTls p [1] {} = serialize p {} ∧
    (serialize p {} = none → serializeInto p {} 100 (some mem) = none) ∧
    ∀ bytes, serialize p {} = some bytes → ∃ n mem',
      serializeInto p {} 100 (some mem) = some (n, some mem') ∧
      (n = 0 ↔ (100 : BitVec 64).toNat < bytes.length) ∧ (n = 0 → mem' = mem) ∧
      (n ≠ 0 → n = bytes.length ∧ mem' = bytes ++ mem.drop n) :=
  encoders_agree (by decide) (by decide) (by decide)

example : serialize (.standard fun _ => []) {} |>.isSome := by
  decide

end Cpp.Packing
