import Tyche.Cpp.Decoding

namespace Except

variable {ε α β : Type} {x : Except ε α}

theorem isOk_bind {f : α → Except ε β} {p : Prop} (h : ∀ a, x = .ok a → ((f a).isOk ↔ p)) :
    (x >>= f).isOk ↔ x.isOk ∧ p := by
  cases x
  case error => exact iff_of_false nofun fun h => nomatch h.left
  case ok a  => exact (h a rfl).trans (and_iff_right rfl).symm

theorem isOk_bind_pure {f : α → β} : (x >>= fun a => pure (f a)).isOk ↔ x.isOk := by
  cases x <;> exact Iff.rfl

theorem isOk_iff : x.isOk ↔ ∃ a, x = .ok a := by
  cases x
  case error => exact iff_of_false nofun fun ⟨_, h⟩ => nomatch h
  case ok a  => exact iff_of_true rfl ⟨a, rfl⟩

end Except

namespace Cpp.Decoding

open Msgpack

mutual

-- The keys of all maps in an object are strings.
def StringKeys : Object → Prop
  | .map kvs => StringKeysEntries kvs
  | .array l => StringKeysItems l
  | _        => True

def StringKeysEntries : List (Object × Object) → Prop
  | []            => True
  | (k, o) :: kvs => type k = .str ∧ StringKeys o ∧ StringKeysEntries kvs

def StringKeysItems : List Object → Prop
  | []     => True
  | o :: l => StringKeys o ∧ StringKeysItems l

end

-- The entries of a payload whose keys are not strings are skipped.
def PayloadKeys (kvs : List (Object × Object)) : Prop :=
  ∀ e ∈ kvs, type e.1 = .str → StringKeys e.2

def MessageKeys : Object → Prop
  | .map kvs => ∀ m, (.str (utf8 "payload"), .map m) ∈ kvs → PayloadKeys m
  | _        => True

variable {o : Object} {os : List Object} {kvs : List (Object × Object)} {m : Payload}
variable {msg : Message} {ts : List Token}

theorem type_eq_str (h : type o = .str) : ∃ s, o = .str s := by
  cases o <;> first | exact ⟨_, rfl⟩ | cases h

theorem isOk_viaStr : (viaStr o).isOk ↔ type o = .str := by
  cases o <;> first | exact iff_of_true rfl rfl | exact iff_of_false nofun nofun

theorem isOk_viaStrs : (viaStrs os).isOk ↔ ∀ o ∈ os, type o = .str := by
  induction os
  case nil          => exact iff_of_true rfl nofun
  case cons o os hi =>
    rw [viaStrs, Except.isOk_bind fun _ _ => Except.isOk_bind_pure.trans hi,
      isOk_viaStr, List.forall_mem_cons]

theorem stringKeysItems (h : ∀ o ∈ os, type o = .str) : StringKeysItems os := by
  induction os
  case nil          => trivial
  case cons o os hi =>
    rw [List.forall_mem_cons] at h
    obtain ⟨s, rfl⟩ := type_eq_str h.left
    exact ⟨trivial, hi h.right⟩

theorem of_allStr (h : allStr os) : ∀ o ∈ os, type o = .str := by
  rw [allStr, Bool.and_eq_true, List.all_eq_true] at h
  exact fun o ho => of_decide_eq_true <| h.right o ho

mutual

theorem isOk_unpackObject : ∀ {o : Object}, (unpackObject o).isOk ↔ StringKeys o
  | .nil     => iff_of_true rfl trivial
  | .bool _  => iff_of_true rfl trivial
  | .uint _  => iff_of_true rfl trivial
  | .int _   => iff_of_true rfl trivial
  | .float _ => iff_of_true rfl trivial
  | .str _   => iff_of_true rfl trivial
  | .bin _   => iff_of_true rfl trivial
  | .ext _ _ => iff_of_true rfl trivial
  | .map kvs => by
    rw [unpackObject, Except.isOk_bind_pure, StringKeys]
    exact isOk_unpackMap
  | .array l => by
    rw [unpackObject, StringKeys]
    split
    case isTrue h  =>
      rw [Except.isOk_bind_pure]
      exact iff_of_true (isOk_viaStrs.mpr <| of_allStr h) (stringKeysItems <| of_allStr h)
    case isFalse h =>
      rw [Except.isOk_bind_pure]
      exact isOk_unpackArray

theorem isOk_unpackMap : ∀ {kvs : List (Object × Object)} {m},
    (unpackMap m kvs).isOk ↔ StringKeysEntries kvs
  | [], _            => iff_of_true rfl trivial
  | (k, o) :: kvs, m => by
    rw [unpackMap, Except.isOk_bind fun _ _ => Except.isOk_bind fun _ _ => isOk_unpackMap,
      isOk_viaStr, isOk_unpackObject, StringKeysEntries]

theorem isOk_unpackArray : ∀ {l : List Object}, (unpackArray l).isOk ↔ StringKeysItems l
  | []     => iff_of_true rfl trivial
  | o :: l => by
    rw [unpackArray, StringKeysItems, Except.isOk_bind fun _ _ =>
      Except.isOk_bind_pure.trans isOk_unpackArray, isOk_unpackObject]

end

theorem isOk_readPayload : (readPayload m kvs).isOk ↔ PayloadKeys kvs := by
  induction kvs generalizing m
  case nil           => exact iff_of_true rfl nofun
  case cons e kvs hi =>
    obtain ⟨k, o⟩ := e
    rw [readPayload, PayloadKeys, List.forall_mem_cons]
    split
    case isTrue h  =>
      rw [Except.isOk_bind fun _ _ => Except.isOk_bind fun _ _ => hi, isOk_viaStr,
        isOk_unpackObject]
      exact ⟨fun ⟨_, ho, hs⟩ => ⟨fun _ => ho, hs⟩, fun ⟨ho, hs⟩ => ⟨h, ho h, hs⟩⟩
    case isFalse h =>
      rw [hi]
      exact ⟨fun hs => ⟨fun he => absurd he h, hs⟩, And.right⟩

theorem readString_eq : readString o = .ok (unpackString o) := by
  cases o <;> rfl

theorem readSingle_eq : readSingle o = .ok (unpackSingle o) := by
  cases o <;> rfl

theorem readDouble_eq : readDouble o = .ok (unpackDouble o) := by
  cases o <;> rfl

theorem readDurability_eq : readDurability o = .ok (unpackDurability o) := by
  cases o <;> rfl

theorem isOk_ite {p : Prop} [Decidable p] {x y : Except Misread Message} (hx : x.isOk)
    (hy : y.isOk) : (if p then x else y).isOk := by
  split
  case isTrue  => exact hx
  case isFalse => exact hy

theorem isOk_readValue {key : Bytes} :
    (readValue msg key o).isOk ↔ (key = utf8 "payload" → ∀ m, o = .map m → PayloadKeys m) := by
  by_cases hk : key = utf8 "payload"
  case pos =>
    subst hk
    rw [readValue, if_neg (by decide), if_neg (by decide), if_neg (by decide), if_pos rfl]
    cases o
    case map m =>
      rw [if_pos (show type (.map m) = .map from rfl)]
      refine Except.isOk_bind_pure.trans <| isOk_readPayload.trans ?_
      exact ⟨fun h _ _ he => by cases he; exact h, fun h => h rfl m rfl⟩
    all_goals exact iff_of_true rfl fun _ _ he => nomatch he
  case neg =>
    rw [readValue, readString_eq, readSingle_eq, readDouble_eq, readDurability_eq, if_neg hk]
    refine iff_of_true ?_ (absurd · hk)
    exact isOk_ite rfl <| isOk_ite rfl <| isOk_ite rfl <| isOk_ite rfl <| isOk_ite rfl <|
      isOk_ite rfl <| isOk_ite rfl <| isOk_ite rfl <| isOk_ite rfl rfl

theorem isOk_readFields : (readFields msg kvs).isOk ↔
    ∀ m, (.str (utf8 "payload"), .map m) ∈ kvs → PayloadKeys m := by
  induction kvs generalizing msg
  case nil           => exact iff_of_true rfl nofun
  case cons e kvs hi =>
    obtain ⟨k, val⟩ := e
    rw [readFields]
    split
    case isTrue h  =>
      obtain ⟨key, rfl⟩ := type_eq_str h
      change (readValue msg key val >>= fun msg' => readFields msg' kvs).isOk ↔ _
      rw [Except.isOk_bind fun _ _ => hi, isOk_readValue]
      constructor
      case mp =>
        rintro ⟨hv, hs⟩ m hm
        rcases List.mem_cons.mp hm with he | hm
        case inl => cases he; exact hv rfl m rfl
        case inr => exact hs m hm
      case mpr =>
        intro hs
        refine ⟨fun hk m he => hs m ?_, fun m hm => hs m <| .tail _ hm⟩
        rw [hk, he]
        exact .head _
    case isFalse h =>
      rw [hi]
      refine forall_congr' fun m => imp_congr_left ?_
      refine ⟨.tail _, fun hm => ?_⟩
      rcases List.mem_cons.mp hm with he | hm
      case inl => cases he; exact absurd rfl h
      case inr => exact hm

theorem isOk_decode : (decode o).isOk ↔ MessageKeys o := by
  cases o
  case map kvs => exact isOk_readFields
  all_goals exact iff_of_true rfl trivial

theorem allStrings_of_viaStrs : (viaStrs os).toOption = allStrings os := by
  induction os
  case nil          => rfl
  case cons o os hi =>
    cases o
    case str s =>
      rw [allStrings, ← hi, viaStrs]
      cases viaStrs os <;> rfl
    all_goals rfl

theorem allStrings_eq_none (hl : os ≠ []) (h : ¬allStr os) : allStrings os = none := by
  rw [← allStrings_of_viaStrs]
  cases hv : viaStrs os
  case error => rfl
  case ok ss =>
    refine absurd ?_ h
    have ht := isOk_viaStrs.mp <| Except.isOk_iff.mpr ⟨ss, hv⟩
    rw [allStr, Bool.and_eq_true, List.all_eq_true]
    exact ⟨by simpa using hl, fun o ho => decide_eq_true <| ht o ho⟩

theorem unpackObject_strings {ss : List Bytes} (hl : os ≠ []) (h : allStrings os = some ss) :
    Cpp.unpackObject (.array os) = some (.strings ss) := by
  cases os
  case nil  => cases hl rfl
  case cons => simp only [Cpp.unpackObject, h]

theorem unpackObject_anys (h : ¬allStr os) :
    Cpp.unpackObject (.array os) = (Cpp.unpackArray os).map .anys := by
  cases os
  case nil  => rfl
  case cons o os =>
    have ha : allStrings (o :: os) = none := allStrings_eq_none (List.cons_ne_nil o os) h
    simp only [Cpp.unpackObject, ha]

mutual

-- Where no member is misread, the decoder is the one that gives up there.
theorem toOption_unpackObject : ∀ {o : Object}, (unpackObject o).toOption = Cpp.unpackObject o
  | .nil     => rfl
  | .bool _  => rfl
  | .uint _  => rfl
  | .int _   => rfl
  | .float _ => rfl
  | .str _   => rfl
  | .bin _   => rfl
  | .ext _ _ => rfl
  | .map kvs => by
    rw [unpackObject, Cpp.unpackObject, ← toOption_unpackMap]
    cases unpackMap [] kvs <;> rfl
  | .array l => by
    rw [unpackObject]
    split
    case isTrue h  =>
      obtain ⟨ss, hs⟩ := Except.isOk_iff.mp <| isOk_viaStrs.mpr <| of_allStr h
      have ha : allStrings l = some ss := by rw [← allStrings_of_viaStrs, hs]; rfl
      have hl : l ≠ [] := fun he => by rw [he] at h; cases h
      rw [hs, unpackObject_strings hl ha]
      rfl
    case isFalse h =>
      rw [unpackObject_anys h, ← toOption_unpackArray]
      cases unpackArray l <;> rfl

theorem toOption_unpackMap : ∀ {kvs : List (Object × Object)} {m},
    (unpackMap m kvs).toOption = Cpp.unpackMap m kvs
  | [], _            => rfl
  | (k, o) :: kvs, m => by
    cases k
    case str s =>
      rw [unpackMap, Cpp.unpackMap, ← toOption_unpackObject]
      cases unpackObject o
      case error => rfl
      case ok v  => exact toOption_unpackMap
    all_goals rfl

theorem toOption_unpackArray : ∀ {l : List Object},
    (unpackArray l).toOption = Cpp.unpackArray l
  | []     => rfl
  | o :: l => by
    rw [unpackArray, Cpp.unpackArray, ← toOption_unpackObject, ← toOption_unpackArray]
    cases unpackObject o <;> cases unpackArray l <;> rfl

end

theorem toOption_readPayload : (readPayload m kvs).toOption = Cpp.unpackPayload m kvs := by
  induction kvs generalizing m
  case nil           => rfl
  case cons e kvs hi =>
    obtain ⟨k, o⟩ := e
    cases k
    case str s =>
      rw [Cpp.unpackPayload, ← toOption_unpackObject]
      change (unpackObject o >>= fun v => readPayload (.set s v m) kvs).toOption = _
      cases unpackObject o
      case error => rfl
      case ok v  => exact hi
    all_goals exact hi

theorem toOption_readValue {key : Bytes} :
    (readValue msg key o).toOption = readField msg (.str key, o) := by
  by_cases hk : key = utf8 "payload"
  case pos =>
    subst hk
    rw [readValue, if_neg (by decide), if_neg (by decide), if_neg (by decide), if_pos rfl]
    cases o
    case map m =>
      change Except.toOption
        (readPayload msg.payload m >>= fun m => .ok { msg with payload := m }) =
        (Cpp.unpackPayload msg.payload m).map fun m => { msg with payload := m }
      rw [← toOption_readPayload]
      cases readPayload msg.payload m <;> rfl
    all_goals rfl
  case neg =>
    rw [readValue, readString_eq, readSingle_eq, readDouble_eq, readDurability_eq, readField.eq_def]
    simp only [if_neg hk, apply_ite Except.toOption]
    rfl

theorem toOption_readFields : (readFields msg kvs).toOption = kvs.foldlM readField msg := by
  induction kvs generalizing msg
  case nil           => rfl
  case cons e kvs hi =>
    obtain ⟨k, val⟩ := e
    rw [List.foldlM_cons]
    cases k
    case str key =>
      change (readValue msg key val >>= fun msg' => readFields msg' kvs).toOption = _
      rw [← toOption_readValue]
      cases readValue msg key val
      case error   => rfl
      case ok msg' => exact hi
    all_goals exact hi

theorem toOption_deserialize : (deserialize ts).bind Except.toOption = Cpp.deserialize ts := by
  rw [deserialize, Cpp.deserialize]
  cases unpack ts
  case none   => rfl
  case some o =>
    cases o
    case map kvs => exact toOption_readFields
    all_goals rfl

-- No member is misread if and only if the keys of the maps in the payload's values are strings.
theorem reads_active_iff :
    (∀ r, deserialize ts ≠ some (.error r)) ↔ ∀ o, unpack ts = some o → MessageKeys o := by
  rw [deserialize]
  cases unpack ts
  case none   => exact iff_of_true nofun nofun
  case some o =>
    refine Iff.trans ?_ (isOk_decode.trans ⟨fun h _ ho => by cases ho; exact h, fun h => h o rfl⟩)
    rw [Option.map_some]
    cases decode o
    case error r => exact iff_of_false (fun h => h r rfl) nofun
    case ok msg  => exact iff_of_true nofun rfl

theorem not_reads_active : ¬∀ ts r, deserialize ts ≠ some (.error r) :=
  fun h =>
    let ts := [.map 1, .str (utf8 "payload"), .map 1, .str (utf8 "a"), .map 1, .uint 1, .uint 2]
    h ts .str rfl

end Cpp.Decoding
