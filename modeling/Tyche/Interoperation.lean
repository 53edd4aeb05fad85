import Tyche.Fields

open Msgpack

-- What the values of Python mean to the other languages, where they mean anything.
namespace Python

mutual

def Value.json? : Value → Option Json
  | .none        => some .null
  | .bool b      => some <| .bool b
  | .int i       => some <| .number <| .fin i
  | .float x _   => some <| .number x
  | .decimal x _ => some <| .number x
  | .str s       => some <| .string s
  | .list l      => (Value.jsons? l).map .array
  | .dict es     => (Value.jsonEntries? es).map .object
  | .signalingNaN | .bytes _ | .ext .. | .timestamp .. => Option.none

def Value.jsons? : List Value → Option (List Json)
  | []     => some []
  | v :: l => do
    let j ← v.json?
    let js ← Value.jsons? l
    return j :: js

def Value.jsonEntries? : List (Key × Value) → Option (List (Bytes × Json))
  | []                => some []
  | (.str k, v) :: es => do
    let j ← v.json?
    let js ← Value.jsonEntries? es
    return (k, j) :: js
  | _ :: _            => Option.none

end

mutual

def Datum.json : Datum → Json
  | .none      => .null
  | .bool b    => .bool b
  | .int i     => .number <| .fin i
  | .float x   => .number <| .fin x
  | .decimal d => .number <| .fin d.value
  | .str s     => .string s
  | .list l    => .array <| Datum.jsons l
  | .dict es   => .object <| Datum.jsonEntries es

def Datum.jsons : List Datum → List Json
  | []     => []
  | d :: l => d.json :: Datum.jsons l

def Datum.jsonEntries : List (Bytes × Datum) → List (Bytes × Json)
  | []           => []
  | (k, d) :: es => (k, d.json) :: Datum.jsonEntries es

end

def FullMessage.json? (msg : FullMessage) : Option Json := do
  let sender ← msg.sender.json?
  let event ← msg.event.json?
  let payload ← msg.payload.json?
  let recipient ← msg.recipient.json?
  let timestamp ← msg.timestamp.json?
  let correlationId ← msg.correlationId.json?
  let waitTimeout ← msg.waitTimeout.json?
  let runTimeout ← msg.runTimeout.json?
  return .object [
    (utf8 "msg_type", .string <| messageTypeValue msg.msgType),
    (utf8 "sender", sender),
    (utf8 "event", event),
    (utf8 "payload", payload),
    (utf8 "recipient", recipient),
    (utf8 "durability", .number <| .fin msg.durability.number),
    (utf8 "timestamp", timestamp),
    (utf8 "correlation_id", correlationId),
    (utf8 "wait_timeout", waitTimeout),
    (utf8 "run_timeout", runTimeout)]

def TypedMessage.json (msg : TypedMessage) : Json :=
  .object [
    (utf8 "msg_type", .string <| messageTypeValue msg.msgType),
    (utf8 "sender", .string msg.sender),
    (utf8 "event", .string msg.event),
    (utf8 "payload", .object <| Datum.jsonEntries msg.payload),
    (utf8 "recipient", msg.recipient.elim .null .string),
    (utf8 "durability", .number <| .fin msg.durability.number),
    (utf8 "timestamp", msg.timestamp.elim .null .number),
    (utf8 "correlation_id", msg.correlationId.elim .null .string),
    (utf8 "wait_timeout", msg.waitTimeout.elim .null .number),
    (utf8 "run_timeout", msg.runTimeout.elim .null .number)]

end Python

namespace Python

variable {v : Value} {l : List Value} {es : List (Key × Value)} {j : Json} {js : List Json}
variable {m : List (Bytes × Json)} {n : ℕ} {o : Object} {os : List Object} {s k : Bytes}
variable {kvs : List (Object × Object)}

theorem Value.jsons?_cons : Value.jsons? (v :: l) = some (j :: js) ↔
    v.json? = some j ∧ Value.jsons? l = some js := by
  rw [Value.jsons?]
  cases v.json? <;> cases Value.jsons? l <;> simp

theorem Value.jsonEntries?_cons : Value.jsonEntries? ((.str k, v) :: es) = some ((s, j) :: m) ↔
    k = s ∧ v.json? = some j ∧ Value.jsonEntries? es = some m := by
  rw [Value.jsonEntries?]
  cases v.json? <;> cases Value.jsonEntries? es <;> simp [and_assoc]

theorem Value.json?_eq_object (h : v.json? = some (.object m)) :
    ∃ es, v = .dict es ∧ Value.jsonEntries? es = some m := by
  cases v
  case dict es =>
    obtain ⟨_, hj, ⟨⟩⟩ := Option.map_eq_some_iff.mp h
    exact ⟨es, rfl, hj⟩
  case list l  => obtain ⟨_, _, ⟨⟩⟩ := Option.map_eq_some_iff.mp h
  all_goals cases h

-- What is decoded means this.
def DecodesAs (n : ℕ) (o : Object) (j : Json) : Prop :=
  ∃ v, decodeObject n o = .ok v ∧ v.json? = some j

def ItemsDecodeAs (n : ℕ) (os : List Object) (js : List Json) : Prop :=
  ∃ l, decodeItems n os = .ok l ∧ Value.jsons? l = some js

def EntriesDecodeAs (n : ℕ) (kvs : List (Object × Object)) (m : List (Bytes × Json)) : Prop :=
  ∃ es, decodeEntries n kvs = .ok es ∧ Value.jsonEntries? es = some m

theorem decodesAs_str : DecodesAs n (.str s) (.string s) ↔ IsUtf8 s := by
  rw [DecodesAs, decodeObject]
  split
  case isTrue h  => exact iff_of_true ⟨_, rfl, rfl⟩ h
  case isFalse h => exact iff_of_false (fun ⟨_, hv, _⟩ => by cases hv) h

-- A number is decoded as itself, whatever the packer has made of it.
theorem decodesAs_number {t : Token} {x : Floating} (h : t.number? = some x) :
    DecodesAs n (t.object []) (.number x) := by
  cases t
  case float | uint | int => cases h; exact ⟨_, rfl, rfl⟩
  all_goals cases h

theorem itemsDecodeAs_cons : ItemsDecodeAs n (o :: os) (j :: js) ↔
    DecodesAs n o j ∧ ItemsDecodeAs (n + o.weight) os js := by
  constructor
  case mp  =>
    rintro ⟨l, hl, hj⟩
    cases l
    case nil      => cases hj
    case cons v l =>
      have ⟨hv, hl⟩ := decodeItems_cons.mp hl
      have ⟨hj, hjs⟩ := Value.jsons?_cons.mp hj
      exact ⟨⟨v, hv, hj⟩, l, hl, hjs⟩
  case mpr =>
    rintro ⟨⟨v, hv, hj⟩, l, hl, hjs⟩
    exact ⟨v :: l, decodeItems_cons.mpr ⟨hv, hl⟩, Value.jsons?_cons.mpr ⟨hj, hjs⟩⟩

theorem decodesAs_array :
    DecodesAs n (.array os) (.array js) ↔ ItemsDecodeAs (n + 1) os js := by
  simp only [DecodesAs, decodeObject, bind_eq_ok]
  constructor
  case mp  =>
    rintro ⟨_, ⟨l, hl, ⟨⟩⟩, hj⟩
    obtain ⟨_, hj, ⟨⟩⟩ := Option.map_eq_some_iff.mp hj
    exact ⟨l, hl, hj⟩
  case mpr =>
    rintro ⟨l, hl, hj⟩
    exact ⟨.list l, ⟨l, hl, rfl⟩, by rw [Value.json?, hj, Option.map_some]⟩

theorem entriesDecodeAs_cons : EntriesDecodeAs n ((.str k, o) :: kvs) ((k, j) :: m) ↔
    IsUtf8 k ∧ DecodesAs (n + 1) o j ∧ EntriesDecodeAs (n + 1 + o.weight) kvs m := by
  by_cases hk : IsUtf8 k
  case neg =>
    refine iff_of_false ?_ fun h => hk h.left
    rintro ⟨es, he, -⟩
    rw [decodeEntries, decodeObject, if_neg hk] at he
    cases he
  case pos =>
    rw [and_iff_right hk]
    constructor
    case mp  =>
      rintro ⟨es, he, hj⟩
      obtain ⟨v, es', hv, he', rfl⟩ := (decodeEntries_cons hk).mp he
      have ⟨_, hj, hm⟩ := Value.jsonEntries?_cons.mp hj
      exact ⟨⟨v, hv, hj⟩, es', he', hm⟩
    case mpr =>
      rintro ⟨⟨v, hv, hj⟩, es, he, hm⟩
      exact ⟨_, (decodeEntries_cons hk).mpr ⟨v, es, hv, he, rfl⟩,
        Value.jsonEntries?_cons.mpr ⟨rfl, hj, hm⟩⟩

theorem decodesAs_map {kvs : List (Bytes × Object)} (hn : (kvs.map Prod.fst).Nodup) :
    DecodesAs n (.map <| strings kvs) (.object m) ↔
      utf8 "__decimal__" ∉ kvs.map Prod.fst ∧ EntriesDecodeAs (n + 1) (strings kvs) m := by
  have ht {es : List (Key × Value)} (he : decodeEntries (n + 1) (strings kvs) = .ok es) :
      decimalTag ∉ es.map Prod.fst ↔ utf8 "__decimal__" ∉ kvs.map Prod.fst := by
    simp [map_fst_decodeEntries he, decimalTag]
  have hk {es : List (Key × Value)} (he : decodeEntries (n + 1) (strings kvs) = .ok es) :
      (es.map Prod.fst).Nodup := by
    rw [map_fst_decodeEntries he]
    exact hn.map fun _ _ => Key.str.inj
  constructor
  case mp  =>
    rintro ⟨v, hv, hj⟩
    obtain ⟨es, rfl, hm⟩ := Value.json?_eq_object hj
    have he := decode_strings hn hv
    rw [decodeObject] at hv
    obtain ⟨es', he', hd⟩ := bind_eq_ok.mp hv
    cases he.symm.trans he'
    rw [dictOf_eq <| hk he, decodeDecimal_eq_dict] at hd
    exact ⟨(ht he).mp hd.left, es, he, hm⟩
  case mpr =>
    rintro ⟨hd, es, he, hj⟩
    refine ⟨.dict es, ?_, by rw [Value.json?, hj, Option.map_some]⟩
    rw [decodeObject, bind_eq_ok]
    refine ⟨es, he, ?_⟩
    rw [dictOf_eq <| hk he, decodeDecimal_eq_dict]
    exact ⟨(ht he).mpr hd, rfl⟩

end Python

namespace Cpp

open Python (IsUtf8)

variable {packDouble : Floating → Token} {n : ℕ}

namespace Any

mutual

-- All strings are UTF-8, and no map has the key that marks a decimal.
def Portable : Any → Prop
  | .string s  => IsUtf8 s
  | .cstring s => IsUtf8 s
  | .strings v => ∀ s ∈ v, IsUtf8 s
  | .payload m => utf8 "__decimal__" ∉ m.map Prod.fst ∧ PortableEntries m
  | .anys v    => PortableItems v
  | _          => True

def PortableEntries : List (Bytes × Any) → Prop
  | []          => True
  | (k, v) :: m => IsUtf8 k ∧ v.Portable ∧ PortableEntries m

def PortableItems : List Any → Prop
  | []     => True
  | v :: l => v.Portable ∧ PortableItems l

end

end Any

variable {v : Any} {l : List Any} {m : Payload} {n : ℕ}

theorem packedEntries_eq :
    Any.packedEntries packDouble m = strings (m.map fun e => (e.1, e.2.packed packDouble)) := by
  induction m
  case nil         => rfl
  case cons e m hi => simp [Any.packedEntries, hi, strings]

namespace Any

open Python

theorem itemsDecodeAs_strings {ss : List Bytes} :
    ItemsDecodeAs n (ss.map .str) (ss.map .string) ↔ ∀ s ∈ ss, IsUtf8 s := by
  induction ss generalizing n
  case nil          => exact iff_of_true ⟨[], rfl, rfl⟩ nofun
  case cons s ss hi =>
    rw [List.forall_mem_cons, List.map_cons, List.map_cons, itemsDecodeAs_cons, decodesAs_str, hi]

mutual

-- A value is decoded as the same value exactly if it is portable.
theorem decodesAs_packed (hp : Exact packDouble) : ∀ {v : Any} {n : ℕ}, v.Distinct →
    (DecodesAs n (v.packed packDouble) v.json ↔ v.Portable)
  | .empty, _, _      => iff_of_true ⟨_, rfl, rfl⟩ trivial
  | .bool _, _, _     => iff_of_true ⟨_, rfl, rfl⟩ trivial
  | .float x, _, _    => iff_of_true (decodesAs_number <| hp x) trivial
  | .double x, _, _   => iff_of_true (decodesAs_number <| hp x) trivial
  | .uint64 n, _, _   => iff_of_true (decodesAs_number (t := .uint n) rfl) trivial
  | .int64 _, _, _    => iff_of_true (decodesAs_number number?_ofInt) trivial
  | .int i, _, _      => by
    have hi : (i.signExtend 64).toInt = i.toInt := BitVec.toInt_signExtend_of_le (by decide)
    refine iff_of_true ?_ trivial
    rw [json, ← hi]
    exact decodesAs_number number?_ofInt
  | .string _, _, _   => decodesAs_str
  | .cstring _, _, _  => decodesAs_str
  | .strings ss, n, _ => by rw [packed, json, decodesAs_array, itemsDecodeAs_strings, Portable]
  | .anys l, n, h     => by
    rw [packed, json, decodesAs_array, itemsDecodeAs_packed hp h, Portable]
  | .payload m, n, h  => by
    have hm : (m.map fun e => (e.1, e.2.packed packDouble)).map Prod.fst = m.map Prod.fst := by
      simp
    rw [packed, json, packedEntries_eq, decodesAs_map (hm ▸ h.left), hm, ← packedEntries_eq,
      entriesDecodeAs_packed hp h.right, Portable]

theorem itemsDecodeAs_packed (hp : Exact packDouble) : ∀ {l : List Any} {n : ℕ}, DistinctItems l →
    (ItemsDecodeAs n (packedItems packDouble l) (jsons l) ↔ PortableItems l)
  | [], _, _     => iff_of_true ⟨[], rfl, rfl⟩ trivial
  | v :: l, n, h => by
    rw [packedItems, jsons, itemsDecodeAs_cons, decodesAs_packed hp h.left,
      itemsDecodeAs_packed hp h.right, PortableItems]

theorem entriesDecodeAs_packed (hp : Exact packDouble) :
    ∀ {m : Payload} {n : ℕ}, DistinctEntries m →
      (EntriesDecodeAs n (packedEntries packDouble m) (jsonEntries m) ↔ PortableEntries m)
  | [], _, _          => iff_of_true ⟨[], rfl, rfl⟩ trivial
  | (k, v) :: m, n, h => by
    rw [packedEntries, jsonEntries, entriesDecodeAs_cons, decodesAs_packed hp h.left,
      entriesDecodeAs_packed hp h.right, PortableEntries]

end

end Any

namespace Message

open Any Python

variable {msg : Message} {o : Object} {full : FullMessage}

-- All strings are UTF-8, no map is marked as a decimal, and the durability is one that a Python
-- message keeps.
structure Portable (msg : Message) : Prop where
  sender        : IsUtf8 msg.sender
  event         : IsUtf8 msg.event
  payload       : (Any.payload msg.payload).Portable
  recipient     : ∀ s ∈ msg.recipient, IsUtf8 s
  durability    : msg.durability = 1 ∨ msg.durability = 2
  correlationId : ∀ s ∈ msg.correlationId, IsUtf8 s

theorem unpackb_serialize (hp : Exact packDouble) (hs : msg.Sized) :
    unpackb (serialize packDouble msg) = .ok (.map <| fields packDouble msg) := by
  have ht : parse (tailTokens packDouble msg ++ []) = _ ++ _ :=
    parse_scalars <| arity_tailTokens hp
  have hf : parse (headTokens msg ++ (packAny packDouble (.payload msg.payload) ++
      tailTokens packDouble msg)) = (flattened <| fields packDouble msg).map some ++ [] := by
    rw [parse_scalars arity_headTokens, parse_packAny hp hs, ← List.append_nil (tailTokens _ _), ht]
    rfl
  rw [serialize_eq, unpackb, parse_container hf rfl, Token.object, pairs_flattened]

theorem sized_of_unpackb (hp : Exact packDouble)
    (hu : unpackb (serialize packDouble msg) = .ok o) : msg.Sized := by
  have hs : parse (serialize packDouble msg) = [o].map some := by
    unfold unpackb at hu
    split at hu <;> cases hu
    assumption
  have ha := arities_of_complete hs
  have hl : (packAny packDouble (.payload msg.payload)).length =
      1 + Json.weightEntries (jsonEntries msg.payload) := length_packAny
  rw [arities_serialize hp, length_serialize, List.length_singleton] at ha
  exact (arities_packAny hp).right (by omega)

theorem decodesAs_packString? {s : Option Bytes} :
    DecodesAs n ((packString? s).object []) (s.elim .null .string) ↔ ∀ t ∈ s, IsUtf8 t := by
  cases s
  case none   => exact iff_of_true ⟨_, rfl, rfl⟩ nofun
  case some s => simpa [packString?, Token.object] using decodesAs_str

theorem decodesAs_packDouble? (hp : Exact packDouble) {x : Option Floating} :
    DecodesAs n ((packDouble? packDouble x).object []) (x.elim .null .number) := by
  cases x
  case none   => exact ⟨_, rfl, rfl⟩
  case some x => exact decodesAs_number <| hp x

theorem decodesAs_durability {i : BitVec 32} :
    DecodesAs n ((Token.ofInt <| i.signExtend 64).object []) (.number <| .fin i.toInt) := by
  have hi : (i.signExtend 64).toInt = i.toInt := BitVec.toInt_signExtend_of_le (by decide)
  rw [← hi]
  exact decodesAs_number number?_ofInt

-- The fields are decoded as their meanings, in the order in which they are written.
theorem entriesDecodeAs_fields (hp : Exact packDouble) (hd : (Any.payload msg.payload).Distinct)
    {j : List (Bytes × Json)} (hj : msg.json = .object j) :
    EntriesDecodeAs n (fields packDouble msg) j ↔
      IsUtf8 msg.sender ∧ IsUtf8 msg.event ∧ (Any.payload msg.payload).Portable ∧
        (∀ s ∈ msg.recipient, IsUtf8 s) ∧ ∀ s ∈ msg.correlationId, IsUtf8 s := by
  have hv {n : ℕ} : DecodesAs n (.map <| packedEntries packDouble msg.payload)
      (.object <| jsonEntries msg.payload) ↔ (Any.payload msg.payload).Portable :=
    decodesAs_packed hp hd
  have he {n : ℕ} : EntriesDecodeAs n [] [] := ⟨[], rfl, rfl⟩
  have ht : IsUtf8 (messageTypeToStr msg.msgType) := by
    cases msg.msgType <;> exact isUtf8_utf8
  cases hj
  simp only [fields, entriesDecodeAs_cons, isUtf8_utf8, decodesAs_str, ht, hv, he,
    decodesAs_packString?, decodesAs_packDouble? hp, decodesAs_durability, true_and, and_true]

theorem decode_durability :
    decodeObject n ((Token.ofInt <| msg.durability.signExtend 64).object []) =
      .ok (.int msg.durability.toInt) := by
  have hi : (msg.durability.signExtend 64).toInt = msg.durability.toInt :=
    BitVec.toInt_signExtend_of_le (by decide)
  rw [← hi, Token.ofInt]
  cases h : (msg.durability.signExtend 64).msb
  case true  => rfl
  case false => rw [← ofInt_toInt h]; rfl

theorem durabilityLevel_iff :
    (∃ l, durabilityLevel ((Value.int msg.durability.toInt).or (.int 1)) = .ok l ∧
      (l.number : ℚ) = msg.durability.toInt) ↔ msg.durability = 1 ∨ msg.durability = 2 := by
  constructor
  case mp  =>
    rintro ⟨l, hl, hn⟩
    have hn : (l.number : ℤ) = msg.durability.toInt := by exact_mod_cast hn
    cases l
    case bestEffort =>
      rw [← hn] at hl
      cases hl
    case asyncFlush => exact .inl <| BitVec.eq_of_toInt_eq hn.symm
    case syncFlush  => exact .inr <| BitVec.eq_of_toInt_eq hn.symm
  case mpr =>
    rintro (h | h)
    · exact ⟨.asyncFlush, by rw [h]; rfl, by rw [h]; rfl⟩
    · exact ⟨.syncFlush, by rw [h]; rfl, by rw [h]; rfl⟩

-- The entries of the map that the fields are decoded to, some of which are known.
def entries (msg : Message) (sender event payload recipient timestamp correlationId waitTimeout
    runTimeout : Value) : List (Key × Value) :=
  [(.str <| utf8 "msg_type", .str <| messageTypeToStr msg.msgType),
    (.str <| utf8 "sender", sender),
    (.str <| utf8 "event", event),
    (.str <| utf8 "payload", payload),
    (.str <| utf8 "recipient", recipient),
    (.str <| utf8 "durability", .int msg.durability.toInt),
    (.str <| utf8 "timestamp", timestamp),
    (.str <| utf8 "correlation_id", correlationId),
    (.str <| utf8 "wait_timeout", waitTimeout),
    (.str <| utf8 "run_timeout", runTimeout)]

theorem exists_entries {es : List (Key × Value)}
    (he : decodeEntries n (fields packDouble msg) = .ok es) :
    ∃ s e p r t c w u, es = msg.entries s e p r t c w u := by
  obtain ⟨v₁, es₁, h₁, he₁, rfl⟩ := decodeEntries_cons_eq_ok he
  obtain ⟨v₂, es₂, h₂, he₂, rfl⟩ := decodeEntries_cons_eq_ok he₁
  obtain ⟨v₃, es₃, h₃, he₃, rfl⟩ := decodeEntries_cons_eq_ok he₂
  obtain ⟨v₄, es₄, h₄, he₄, rfl⟩ := decodeEntries_cons_eq_ok he₃
  obtain ⟨v₅, es₅, h₅, he₅, rfl⟩ := decodeEntries_cons_eq_ok he₄
  obtain ⟨v₆, es₆, h₆, he₆, rfl⟩ := decodeEntries_cons_eq_ok he₅
  obtain ⟨v₇, es₇, h₇, he₇, rfl⟩ := decodeEntries_cons_eq_ok he₆
  obtain ⟨v₈, es₈, h₈, he₈, rfl⟩ := decodeEntries_cons_eq_ok he₇
  obtain ⟨v₉, es₉, h₉, he₉, rfl⟩ := decodeEntries_cons_eq_ok he₈
  obtain ⟨v₀, es₀, h₀, he₀, rfl⟩ := decodeEntries_cons_eq_ok he₉
  cases he₀
  cases decode_durability.symm.trans h₆
  cases (TypedMessage.decode_str TypedMessage.isUtf8_messageTypeValue).symm.trans h₁
  exact ⟨v₂, v₃, v₄, v₅, v₇, v₈, v₉, v₀, rfl⟩

theorem deserializeObject_entries {s e p r t c w u : Value} :
    deserializeObject (.dict <| msg.entries s e p r t c w u) =
      (durabilityLevel ((Value.int msg.durability.toInt).or (.int 1))).map fun l => {
        msgType       := msg.msgType
        sender        := s
        event         := e
        payload       := p
        recipient     := r
        durability    := l
        timestamp     := t
        correlationId := c
        waitTimeout   := w
        runTimeout    := u } := by
  have hm : messageType (.str <| messageTypeToStr msg.msgType) = .ok msg.msgType :=
    TypedMessage.messageType_value
  have ht : subscript "msg_type" (.dict <| msg.entries s e p r t c w u) =
    .ok (.str <| messageTypeToStr msg.msgType) := rfl
  have hd : get "durability" (.dict <| msg.entries s e p r t c w u) =
    .ok (.int msg.durability.toInt) := rfl
  simp only [deserializeObject, ht, hd, hm, bind, Except.bind]
  cases durabilityLevel ((Value.int msg.durability.toInt).or (.int 1)) <;> rfl

theorem json_entries {s e p r t c w u : Value} {j : List (Bytes × Json)}
    (hj : msg.json = .object j) :
    (∃ full, deserializeObject (.dict <| msg.entries s e p r t c w u) = .ok full ∧
      full.json? = some msg.json) ↔
      Value.jsonEntries? (msg.entries s e p r t c w u) = some j ∧
        (msg.durability = 1 ∨ msg.durability = 2) := by
  rw [deserializeObject_entries, ← durabilityLevel_iff]
  cases hj
  cases durabilityLevel ((Value.int msg.durability.toInt).or (.int 1))
  case error => simp [Except.map]
  case ok l  =>
    have ht : messageTypeValue msg.msgType = messageTypeToStr msg.msgType := rfl
    simp only [Except.map, Except.ok.injEq, exists_eq_left', FullMessage.json?, entries, json,
      Value.jsonEntries?_cons, Value.json?, Option.bind_eq_bind, Option.bind_eq_some_iff,
      Option.pure_def, Option.some.injEq, Json.object.injEq, List.cons.injEq, Prod.mk.injEq,
      Json.number.injEq, Floating.fin.injEq, ht, true_and, and_true]
    constructor
    case mp  =>
      rintro ⟨_, hs, _, he, _, hp, _, hr, _, ht, _, hc, _, hw, _, hu, rfl, rfl, rfl, rfl, hl, rfl,
        rfl, rfl, rfl⟩
      exact ⟨⟨hs, he, hp, hr, ht, hc, hw, hu, rfl⟩, hl⟩
    case mpr =>
      rintro ⟨⟨hs, he, hp, hr, ht, hc, hw, hu, -⟩, hl⟩
      exact ⟨_, hs, _, he, _, hp, _, hr, _, ht, _, hc, _, hw, _, hu, rfl, rfl, rfl, rfl, hl, rfl,
        rfl, rfl, rfl⟩

def fieldNames : List Bytes :=
  [utf8 "msg_type", utf8 "sender", utf8 "event", utf8 "payload", utf8 "recipient",
    utf8 "durability", utf8 "timestamp", utf8 "correlation_id", utf8 "wait_timeout",
    utf8 "run_timeout"]

theorem exists_fields (packDouble : Floating → Token) (msg : Message) :
    ∃ kvs : List (Bytes × Object), fields packDouble msg = strings kvs ∧
      kvs.map Prod.fst = fieldNames :=
  ⟨[(_, _), (_, _), (_, _), (_, _), (_, _), (_, _), (_, _), (_, _), (_, _), (_, _)], rfl, rfl⟩

theorem exists_json (msg : Message) : ∃ j, msg.json = .object j :=
  ⟨_, rfl⟩

theorem nodup_fieldNames : fieldNames.Nodup := by
  decide +kernel

theorem decimal_not_mem_fieldNames : utf8 "__decimal__" ∉ fieldNames := by
  decide +kernel

theorem deserialize_iff (hp : Exact packDouble) (hs : msg.Sized) :
    (∃ full, Python.deserialize n (serialize packDouble msg) = .ok full ∧
      full.json? = some msg.json) ↔
      DecodesAs n (.map <| fields packDouble msg) msg.json ∧
        (msg.durability = 1 ∨ msg.durability = 2) := by
  obtain ⟨j, hj⟩ := exists_json msg
  have he {es : List (Key × Value)}
      (h : decodeObject n (.map <| fields packDouble msg) = .ok (.dict es)) :
      decodeEntries (n + 1) (fields packDouble msg) = .ok es := by
    obtain ⟨kvs, hf, hk⟩ := exists_fields packDouble msg
    rw [hf] at h ⊢
    exact decode_strings (hk ▸ nodup_fieldNames) h
  simp only [Python.deserialize, unpackb_serialize hp hs, bind_eq_ok, Except.ok.injEq,
    exists_eq_left']
  constructor
  case mp  =>
    rintro ⟨full, ⟨obj, ho, hr⟩, hm⟩
    obtain ⟨_, hv, -⟩ := deserializeObject_eq_ok hr
    obtain ⟨es, rfl, -⟩ := subscript_eq_ok hv
    obtain ⟨s, e, p, r, t, c, w, u, rfl⟩ := exists_entries <| he ho
    obtain ⟨hes, hd⟩ := (json_entries hj).mp ⟨full, hr, hm⟩
    exact ⟨⟨_, ho, by rw [Value.json?, hes, hj, Option.map_some]⟩, hd⟩
  case mpr =>
    rintro ⟨⟨v, ho, hv⟩, hd⟩
    obtain ⟨es, rfl, hes⟩ := Value.json?_eq_object (hv.trans <| congrArg some hj)
    obtain ⟨s, e, p, r, t, c, w, u, rfl⟩ := exists_entries <| he ho
    obtain ⟨full, hr, hm⟩ := (json_entries hj).mpr ⟨hes, hd⟩
    exact ⟨full, ⟨_, ho, hr⟩, hm⟩

-- Python reads what C++ sends as the same message exactly if the message is portable and its sizes
-- fit into 32 bits.
theorem python_reads_iff (n : ℕ) (hp : Exact packDouble)
    (hd : (Any.payload msg.payload).Distinct) :
    (∃ full, Python.deserialize n (serialize packDouble msg) = .ok full ∧
      full.json? = some msg.json) ↔ msg.Sized ∧ msg.Portable := by
  obtain ⟨j, hj⟩ := exists_json msg
  have hf : DecodesAs n (.map <| fields packDouble msg) msg.json ↔
      IsUtf8 msg.sender ∧ IsUtf8 msg.event ∧ (Any.payload msg.payload).Portable ∧
        (∀ s ∈ msg.recipient, IsUtf8 s) ∧ ∀ s ∈ msg.correlationId, IsUtf8 s := by
    obtain ⟨kvs, hf, hk⟩ := exists_fields packDouble msg
    rw [hj, hf, decodesAs_map (hk ▸ nodup_fieldNames), ← hf, entriesDecodeAs_fields hp hd hj, hk]
    exact and_iff_right decimal_not_mem_fieldNames
  constructor
  case mp  =>
    intro h
    obtain ⟨full, hr, -⟩ := id h
    obtain ⟨o, hu, -⟩ := bind_eq_ok.mp hr
    have hs := sized_of_unpackb hp hu
    obtain ⟨h, hl⟩ := (deserialize_iff hp hs).mp h
    obtain ⟨hs₁, he, hm, hr, hc⟩ := hf.mp h
    exact ⟨hs, hs₁, he, hm, hr, hl, hc⟩
  case mpr =>
    rintro ⟨hs, hm⟩
    exact (deserialize_iff hp hs).mpr
      ⟨hf.mpr ⟨hm.sender, hm.event, hm.payload, hm.recipient, hm.correlationId⟩, hm.durability⟩

theorem python_reads_iff_sample :
    let order := Cpp.Sample.order <| .int64 5000000000
    ∃ full, Python.deserialize 0 (serialize Token.float order) = .ok full ∧
      full.json? = some order.json :=
  (python_reads_iff 0 Cpp.Sample.exact_float Cpp.Sample.order_typed.distinct).mpr
    ⟨Cpp.Sample.order_sized, {
      sender        := isUtf8_utf8
      event         := isUtf8_utf8
      payload       := by
        simp only [Cpp.Sample.order, Any.Portable, PortableEntries, PortableItems,
          List.forall_mem_singleton, isUtf8_utf8]
        decide
      recipient     := nofun
      durability    := .inl rfl
      correlationId := by rintro _ ⟨⟩; exact isUtf8_utf8 }⟩

end Message

end Cpp

namespace Python

open Cpp (unpackObject unpackMap unpackArray allStrings)

namespace Datum

mutual

-- All integers fit into 32 bits, and nothing is a decimal, which is sent as a map.
def Portable : Datum → Prop
  | .int i     => -2 ^ 31 ≤ i ∧ i < 2 ^ 31
  | .decimal _ => False
  | .list l    => PortableItems l
  | .dict es   => PortableEntries es
  | _          => True

def PortableItems : List Datum → Prop
  | []     => True
  | d :: l => d.Portable ∧ PortableItems l

def PortableEntries : List (Bytes × Datum) → Prop
  | []           => True
  | (_, d) :: es => d.Portable ∧ PortableEntries es

end

variable {d : Datum} {l : List Datum} {es : List (Bytes × Datum)} {i : ℤ} {ss : List Bytes}

theorem unpackObject_int (h : -2 ^ 63 ≤ i ∧ i < 2 ^ 64) :
    ∃ v, unpackObject (Datum.int i).object = some v ∧
      (v.json = (Datum.int i).json ↔ (Datum.int i).Portable) := by
  unfold object
  by_cases hi : 0 ≤ i
  case pos =>
    have hn : ((BitVec.ofInt 64 i).toNat : ℤ) = i := by
      rw [BitVec.toNat_ofInt]
      omega
    obtain ⟨v, hv, hj⟩ := Cpp.Any.unpackObject_token (t := .uint <| .ofInt 64 i) rfl
    refine ⟨v, by rw [if_pos hi]; exact hv, ?_⟩
    rw [← Int.cast_natCast, hn] at hj
    rw [json, hj, Portable, Token.Narrow]
    omega
  case neg =>
    have hn : (BitVec.ofInt 64 i).toInt = i := by
      rw [BitVec.toInt_ofInt]
      exact Int.bmod_eq_of_le (by omega) (by omega)
    obtain ⟨v, hv, hj⟩ := Cpp.Any.unpackObject_token (t := .int <| .ofInt 64 i) rfl
    refine ⟨v, by rw [if_neg hi]; exact hv, ?_⟩
    rw [hn] at hj
    rw [json, hj, Portable, Token.Narrow, hn]

-- A list whose elements are all strings.
theorem allStrings_objects (h : allStrings (objects l) = some ss) :
    jsons l = ss.map .string ∧ PortableItems l := by
  induction l generalizing ss
  case nil         => cases h; exact ⟨rfl, trivial⟩
  case cons d l hi =>
    rw [objects] at h
    cases d
    case str s =>
      obtain ⟨ss, hs, rfl⟩ := Option.map_eq_some_iff.mp h
      have ⟨hj, hp⟩ := hi hs
      exact ⟨congrArg (_ :: ·) hj, trivial, hp⟩
    case int i =>
      rw [object] at h
      split at h <;> cases h
    all_goals cases h

mutual

-- C++ decodes a datum as the same value exactly if it is portable.
theorem unpackObject_object : ∀ {d : Datum}, d.WellFormed →
    ∃ v, unpackObject d.object = some v ∧ (v.json = d.json ↔ d.Portable)
  | .none, _      => ⟨.empty, rfl, iff_of_true rfl trivial⟩
  | .bool b, _    => ⟨.bool b, rfl, iff_of_true rfl trivial⟩
  | .float x, _   => ⟨.double <| .fin x, rfl, iff_of_true rfl trivial⟩
  | .str s, _     => ⟨.string s, rfl, iff_of_true rfl trivial⟩
  | .int _, h     => unpackObject_int h
  | .decimal d, _ => ⟨.payload [(utf8 "__decimal__", .string d.str)], rfl, iff_of_false nofun id⟩
  | .dict es, h   => by
    have ⟨us, hu, _, hj⟩ : ∃ us, unpackMap [] (objectEntries es) = some ([] ++ us) ∧ _ :=
      unpackMap_objectEntries h.right.right h.right.left <| List.disjoint_nil_left _
    refine ⟨.payload us, by rw [object, unpackObject, hu]; rfl, ?_⟩
    rw [json, Cpp.Any.json, Json.object.injEq]
    exact hj
  | .list [], _       => ⟨.anys [], rfl, iff_of_true rfl trivial⟩
  | .list (d :: l), h => by
    have ⟨us, hu, hj⟩ := unpackArray_objects (l := d :: l) h.right
    rw [object, objects, Cpp.Any.unpackObject_array, ← objects, hu]
    cases hs : allStrings (objects (d :: l))
    case some ss =>
      have ⟨hj, hp⟩ := allStrings_objects hs
      refine ⟨.strings ss, rfl, iff_of_true ?_ hp⟩
      rw [json, Cpp.Any.json, hj]
    case none    =>
      refine ⟨.anys us, rfl, ?_⟩
      rw [json, Cpp.Any.json, Json.array.injEq]
      exact hj

theorem unpackMap_objectEntries : ∀ {es : List (Bytes × Datum)} {acc : Cpp.Payload},
    WellFormedEntries es → (es.map Prod.fst).Nodup →
      (acc.map Prod.fst).Disjoint (es.map Prod.fst) →
        ∃ us : Cpp.Payload, unpackMap acc (objectEntries es) = some (acc ++ us) ∧
          us.map Prod.fst = es.map Prod.fst ∧
            (Cpp.Any.jsonEntries us = jsonEntries es ↔ PortableEntries es)
  | [], acc, _, _, _ => ⟨[], by rw [List.append_nil]; rfl, rfl, iff_of_true rfl trivial⟩
  | (k, d) :: es, acc, h, hn, hd => by
    rw [List.map_cons, List.nodup_cons] at hn
    rw [List.map_cons, List.disjoint_cons_right] at hd
    have ⟨u, hu, hj⟩ := unpackObject_object h.right.left
    have hd' : ((acc ++ [(k, u)]).map Prod.fst).Disjoint (es.map Prod.fst) := by
      rw [List.map_append, List.disjoint_append_left]
      exact ⟨hd.right, List.singleton_disjoint.mpr hn.left⟩
    have ⟨us, hus, hk, hjs⟩ := unpackMap_objectEntries h.right.right hn.right hd'
    refine ⟨(k, u) :: us, ?_, by rw [List.map_cons, List.map_cons, hk], ?_⟩
    · rw [objectEntries, unpackMap, hu]
      dsimp only
      rw [Cpp.Any.set_of_not_mem hd.left, hus, List.append_assoc]
      rfl
    · rw [jsonEntries, Cpp.Any.jsonEntries, List.cons.injEq, hjs, Prod.mk.injEq,
        and_iff_right rfl, hj]
      rfl

theorem unpackArray_objects : ∀ {l : List Datum}, WellFormedItems l →
    ∃ us, unpackArray (objects l) = some us ∧ (Cpp.Any.jsons us = jsons l ↔ PortableItems l)
  | [], _     => ⟨[], rfl, iff_of_true rfl trivial⟩
  | d :: l, h => by
    have ⟨u, hu, hj⟩ := unpackObject_object h.left
    have ⟨us, hus, hjs⟩ := unpackArray_objects h.right
    refine ⟨u :: us, by rw [objects, unpackArray, hu, hus], ?_⟩
    rw [jsons, Cpp.Any.jsons, List.cons.injEq, hj, hjs]
    rfl

end

theorem unpackPayload_objectEntries : ∀ {es : List (Bytes × Datum)} {acc : Cpp.Payload},
    Cpp.unpackPayload acc (objectEntries es) = unpackMap acc (objectEntries es)
  | [], _          => rfl
  | (k, d) :: es, _ => by
    rw [objectEntries, Cpp.unpackPayload, unpackMap]
    cases unpackObject d.object
    case none   => rfl
    case some u => exact unpackPayload_objectEntries

end Datum

namespace TypedMessage

variable {m : TypedMessage} {ts : List Token}

-- The payload is portable, and the timeouts are numbers of single precision.
structure Portable (m : TypedMessage) : Prop where
  payload     : (Datum.dict m.payload).Portable
  waitTimeout : ∀ x ∈ m.waitTimeout, x.toSingle = x
  runTimeout  : ∀ x ∈ m.runTimeout, x.toSingle = x

-- What C++ makes of the fields, given what it makes of the payload.
def readByCpp (m : TypedMessage) (payload : Cpp.Payload) : Cpp.Message where
  msgType       := m.msgType
  sender        := m.sender
  event         := m.event
  payload       := payload
  recipient     := m.recipient
  durability    := .ofNat 32 m.durability.number
  timestamp     := m.timestamp
  correlationId := m.correlationId
  waitTimeout   := m.waitTimeout.map Floating.toSingle
  runTimeout    := m.runTimeout.map Floating.toSingle

theorem unpackString_str? {s : Option Bytes} : Cpp.unpackString (str? s) = s := by
  cases s <;> rfl

theorem unpackDouble_float? {x : Option Floating} : Cpp.unpackDouble (float? x) = x := by
  cases x <;> rfl

theorem unpackSingle_float? {x : Option Floating} :
    Cpp.unpackSingle (float? x) = x.map Floating.toSingle := by
  cases x <;> rfl

theorem foldlM_readField {p : Cpp.Payload}
    (h : Cpp.unpackMap [] (Datum.objectEntries m.payload) = some p) :
    m.fields.foldlM Cpp.readField {} = some (m.readByCpp p) := by
  have ht : Cpp.messageTypeFromStr (messageTypeValue m.msgType) = m.msgType :=
    Cpp.Message.messageTypeFromStr_toStr
  have hd : Cpp.unpackDurability (.uint <| .ofNat 64 m.durability.number) =
      some (.ofNat 32 m.durability.number) := by
    cases m.durability <;> rfl
  rw [← Datum.unpackPayload_objectEntries] at h
  simp +decide only [fields, lateFields, List.foldlM_cons, List.foldlM_nil, Cpp.readField, if_true,
    if_false, Cpp.Message.unpackString_str, ht, Option.map_some, Option.getD_some,
    Option.bind_eq_bind, Option.bind_some, Datum.object, h, unpackString_str?, hd,
    unpackDouble_float?, unpackSingle_float?, Option.or_none]
  rfl

end TypedMessage

namespace TypedMessage

end TypedMessage

end Python
