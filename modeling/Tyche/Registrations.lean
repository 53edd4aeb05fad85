import Tyche.Cpp.Registration
import Tyche.Fields
import Tyche.Python.Registration
import Tyche.Python.Theorems.Module
import Tyche.Python.Theorems.Registry

open Msgpack

-- What the entries of an interface map hold.
inductive Scalar
  | str (value : Bytes)
  | int (value : ℤ)
deriving DecidableEq

namespace Scalar

def object : Scalar → Object
  | .str s => .str s
  | .int i => (Python.Datum.int i).object

def value : Scalar → Python.Value
  | .str s => .str s
  | .int i => .int i

-- An integer has 64 bits.
def Fits : Scalar → Prop
  | .str _ => True
  | .int i => -2 ^ 63 ≤ i ∧ i < 2 ^ 64

def str? : Scalar → Option Bytes
  | .str s => some s
  | .int _ => none

def int? : Scalar → Option ℤ
  | .str _ => none
  | .int i => some i

end Scalar

-- A map with the key of the decimals would be one of them.
structure InterfaceMap where
  entries     : List (Bytes × Scalar)
  nodup       : (entries.map Prod.fst).Nodup
  not_decimal : utf8 "__decimal__" ∉ entries.map Prod.fst
  fits        : ∀ e ∈ entries, e.2.Fits

namespace InterfaceMap

def get? (i : InterfaceMap) (key : String) : Option Scalar :=
  i.entries.lookup <| utf8 key

def objects (i : InterfaceMap) : List (Bytes × Object) :=
  i.entries.map fun e => (e.1, e.2.object)

theorem map_fst_objects {i : InterfaceMap} : i.objects.map Prod.fst = i.entries.map Prod.fst := by
  rw [objects, List.map_map]
  rfl

theorem lookup_objects {i : InterfaceMap} {key : String} :
    i.objects.lookup (utf8 key) = (i.get? key).map Scalar.object :=
  List.lookup_map_snd

theorem get?_fits {i : InterfaceMap} {key : String} {x : Scalar} (h : i.get? key = some x) :
    x.Fits :=
  i.fits _ <| List.mem_of_lookup_eq_some h

def object (i : InterfaceMap) : Object :=
  .map <| strings i.objects

-- The interface is one for the engine in Python.
structure Readable (i : InterfaceMap) : Prop where
  name         : ∃ x, i.get? "name" = some x
  pattern      : ∃ p, i.get? "pattern" = some (.str <| Python.interfacePatternValue p)
  durability   : ∃ l : Python.DurabilityLevel,
    (i.get? "durability").getD (.int 1) = .int l.number
  backpressure : ∃ b, (i.get? "backpressure").getD
    (.str <| Python.backpressureStrategyValue .dropOldest) =
      .str (Python.backpressureStrategyValue b)

-- The engine in C++ knows all of the interface. It reads strings only, takes an empty event type
-- for a missing one, and all interfaces have the same strategy and depth for it.
structure Supported (i : InterfaceMap) : Prop extends i.Readable where
  name_str   : ∃ s, i.get? "name" = some (.str s)
  eventType  : ∀ x, i.get? "event_type" = some x →
    ∃ s, x = .str s ∧ (s = [] → i.get? "name" = some (.str []))
  dropOldest : ∀ x, i.get? "backpressure" = some x →
    x = .str (Python.backpressureStrategyValue .dropOldest)
  depth      : ∀ x, i.get? "max_queue_depth" = some x → x = .int 10000

end InterfaceMap

-- A registration as it is sent. Its interfaces and the name of its family may be missing.
structure PackedRegistration extends PackedMessage where
  interfaces        : Option (List InterfaceMap)
  familyName        : Option Scalar
  lookup_msgType    : fields.lookup (utf8 "msg_type") =
    some (.str <| Python.messageTypeValue .register)
  lookup_interfaces : payload.lookup (utf8 "interfaces") =
    interfaces.map fun is => .array <| is.map InterfaceMap.object
  lookup_familyName : payload.lookup (utf8 "family_name") = familyName.map Scalar.object

def PackedRegistration.maps (r : PackedRegistration) : List InterfaceMap :=
  r.interfaces.getD []

-- The same interface, as the two engines record it.
structure SameInterface (x : Python.NamedInterface) (y : Cpp.Registry.Interface) : Prop where
  name          : x.name = .str y.name
  pattern       : x.pattern = y.pattern
  eventType     : x.eventType = .str y.eventType
  durability    : (x.durability.number : ℤ) = y.durability.toInt
  backpressure  : x.backpressure = y.backpressure
  maxQueueDepth : x.maxQueueDepth = .int y.maxQueueDepth.toInt

-- The capacity of the queue of a topic, its maximum depth and its strategy.
def Python.Events.queue? (s : Python.Events) (topic : Python.Key) :
    Option (Python.Value × Python.Value × BackpressureStrategy) :=
  (s.topicQueues.get? topic).map fun q =>
    ((s.queues q).capacity, s.maxDepth topic, s.strategy topic)

def Cpp.Registry.queue? (s : Cpp.Registry) (topic : Bytes) :
    Option (Python.Value × Python.Value × BackpressureStrategy) :=
  (s.topicQueues.get? topic).map fun d => (.int d.toNat, .int d.toNat, .dropOldest)

def SameQueues (s : Python.Events) (s' : Cpp.Registry) : Prop :=
  ∀ topic, s.queue? (.str topic) = s'.queue? topic

-- Both engines accept a registration or none of them does. If they do, they record the same
-- interfaces and have the same queues afterwards.
def SameRegistration
    (x : Except Python.Error (Option Python.NamedModuleInfo) × Python.Events)
    (y : Option Cpp.Registry.ModuleInfo × Cpp.Registry) : Prop :=
  ((∃ info, x.1 = .ok (some info)) ↔ y.1.isSome) ∧
    ∀ info info', x.1 = .ok (some info) → y.1 = some info' →
      List.Forall₂ SameInterface info.interfaces info'.interfaces ∧ SameQueues x.2 y.2

namespace Python

variable {n : ℕ} {v : Value} {x : Scalar} {i : InterfaceMap} {is : List InterfaceMap}
variable {y : NamedInterface}

theorem decode_scalar (hx : x.Fits) (h : decodeObject n x.object = .ok v) : v = x.value := by
  cases x
  case str s =>
    rw [Scalar.object, decodeObject] at h
    split at h <;> cases h
    rfl
  case int i =>
    rw [Scalar.object, Datum.decode_int hx] at h
    cases h
    rfl

-- A value with the entries of an interface map.
def Decodes (i : InterfaceMap) (v : Value) : Prop :=
  ∃ es, v = .dict es ∧ ∀ key, es.lookup (.str <| utf8 key) = (i.get? key).map Scalar.value

theorem decode_interface (h : decodeObject n i.object = .ok v) : Decodes i v := by
  rw [InterfaceMap.object, decodeObject] at h
  obtain ⟨es, he, hd⟩ := bind_eq_ok.mp h
  have hn : (es.map Prod.fst).Nodup := by
    rw [map_fst_decodeEntries he, InterfaceMap.map_fst_objects]
    exact i.nodup.map fun _ _ => Key.str.inj
  obtain ⟨-, ht⟩ | ⟨o, p, w, ht, -, -⟩ := lookup_decodeEntries (k := utf8 "__decimal__") he
  case inr =>
    have hn : i.get? "__decimal__" = none := List.lookup_eq_none_iff_not_mem.mpr i.not_decimal
    rw [InterfaceMap.lookup_objects, hn] at ht
    cases ht
  case inl =>
    rw [dictOf_eq hn, decodeDecimal, decimalTag, ht] at hd
    cases hd
    refine ⟨es, rfl, fun key => ?_⟩
    obtain ⟨hk, he⟩ | ⟨o, p, w, hk, hw, he⟩ := lookup_decodeEntries (k := utf8 key) he
    case inl =>
      rw [InterfaceMap.lookup_objects, Option.map_eq_none_iff] at hk
      rw [he, hk]
      rfl
    case inr =>
      rw [InterfaceMap.lookup_objects, Option.map_eq_some_iff] at hk
      obtain ⟨x, hx, rfl⟩ := hk
      rw [he, hx, decode_scalar (InterfaceMap.get?_fits hx) hw]
      rfl

theorem decode_interfaces {vs : List Value}
    (h : decodeItems n (is.map InterfaceMap.object) = .ok vs) : List.Forall₂ Decodes is vs := by
  induction is generalizing n vs
  case nil          => cases h; exact .nil
  case cons i is hi =>
    cases vs
    case nil       =>
      simp only [List.map_cons, decodeItems, bind_eq_ok] at h
      obtain ⟨_, -, _, -, h⟩ := h
      cases h
    case cons v vs =>
      have h := decodeItems_cons.mp h
      exact .cons (decode_interface h.left) (hi h.right)

theorem ok_bind {α β ε : Type} {a : α} {f : α → Except ε β} : Except.ok a >>= f = f a :=
  rfl

theorem member_eq_ok {α : Type} {key : α → Key} {members : List α} {a : α}
    (hk : Function.Injective key) (hm : ∀ a, a ∈ members) :
    member key members v = .ok a ↔ v.hash = .ok (key a) := by
  unfold member
  cases v.hash
  case error => simp
  case ok k  =>
    dsimp only
    cases hf : members.find? (key · = k)
    case some b =>
      have hb : key b = k := by simpa using List.find?_some hf
      simp only [Except.ok.injEq]
      rw [← hb, hk.eq_iff]
    case none   =>
      have hn : key a ≠ k := by simpa using List.find?_eq_none.mp hf a (hm a)
      simp only [reduceCtorEq, Except.ok.injEq, false_iff]
      exact Ne.symm hn

theorem interfacePattern_eq_ok {p : InterfacePattern} :
    interfacePattern x.value = .ok p ↔ x = .str (interfacePatternValue p) := by
  have hk : Function.Injective fun p => Key.str <| interfacePatternValue p := by
    intro p q
    cases p <;> cases q <;> decide +kernel
  rw [interfacePattern, member_eq_ok hk fun p => by cases p <;> decide]
  cases x <;> simp [Scalar.value, Value.hash]

theorem backpressureStrategyValue_injective : Function.Injective backpressureStrategyValue := by
  intro a b
  cases a <;> cases b <;> decide +kernel

theorem backpressureStrategy_eq_ok {b : BackpressureStrategy} :
    backpressureStrategy x.value = .ok b ↔ x = .str (backpressureStrategyValue b) := by
  have hk : Function.Injective fun b => Key.str <| backpressureStrategyValue b :=
    fun _ _ h => backpressureStrategyValue_injective <| Key.str.inj h
  rw [backpressureStrategy, member_eq_ok hk fun b => by cases b <;> decide]
  cases x <;> simp [Scalar.value, Value.hash]

theorem durabilityLevel_eq_ok {l : DurabilityLevel} :
    durabilityLevel x.value = .ok l ↔ x = .int l.number := by
  have hk : Function.Injective fun l : DurabilityLevel => Key.number l.number := by
    intro l k
    cases l <;> cases k <;> simp [DurabilityLevel.number]
  rw [durabilityLevel, member_eq_ok hk fun l => by cases l <;> decide]
  cases x
  case str   => simp [Scalar.value, Value.hash]
  case int i =>
    simp only [Scalar.value, Value.hash, Except.ok.injEq, Key.number.injEq, Scalar.int.injEq]
    exact_mod_cast Iff.rfl

theorem Decodes.subscript {key : String} (h : Decodes i v) :
    subscript key v = (i.get? key).elim (.error <| .keyError none) fun x => .ok x.value := by
  obtain ⟨es, rfl, hl⟩ := h
  rw [Python.subscript, hl]
  cases i.get? key <;> rfl

theorem Decodes.get {key : String} (h : Decodes i v) :
    v.get (.str <| utf8 key) x.value = .ok ((i.get? key).getD x).value := by
  obtain ⟨es, rfl, hl⟩ := h
  rw [Value.get, hl]
  cases i.get? key <;> rfl

-- What is recorded for an interface map.
structure Creates (i : InterfaceMap) (y : NamedInterface) : Prop where
  name          : ∃ x, i.get? "name" = some x ∧ y.name = x.value ∧
    y.eventType = ((i.get? "event_type").getD x).value
  pattern       : i.get? "pattern" = some (.str <| interfacePatternValue y.pattern)
  durability    : (i.get? "durability").getD (.int 1) = .int y.durability.number
  backpressure  : (i.get? "backpressure").getD (.str <| backpressureStrategyValue .dropOldest) =
    .str (backpressureStrategyValue y.backpressure)
  maxQueueDepth : y.maxQueueDepth = ((i.get? "max_queue_depth").getD (.int 10000)).value

theorem Creates.readable (h : Creates i y) : i.Readable where
  name         := ⟨_, h.name.choose_spec.left⟩
  pattern      := ⟨_, h.pattern⟩
  durability   := ⟨_, h.durability⟩
  backpressure := ⟨_, h.backpressure⟩

-- The defaults are those of an interface.
theorem Decodes.createInterface (h : Decodes i v) :
    createInterface v = (do
      let name ← (i.get? "name").elim (.error <| .keyError none) fun x => .ok x
      let p ← (i.get? "pattern").elim (.error <| .keyError none) fun x => .ok x
      let pattern ← interfacePattern p.value
      let durability ← durabilityLevel ((i.get? "durability").getD (.int 1)).value
      let backpressure ← backpressureStrategy ((i.get? "backpressure").getD
        (.str <| backpressureStrategyValue .dropOldest)).value
      return {
        name          := name.value
        pattern       := pattern
        eventType     := ((i.get? "event_type").getD name).value
        durability    := durability
        backpressure  := backpressure
        maxQueueDepth := ((i.get? "max_queue_depth").getD (.int 10000)).value
        waitTimeout   := ((i.get? "wait_timeout").map Scalar.value).getD .none }) := by
  have hd : v.get (.str <| utf8 "durability") (.int 1) = _ := h.get (x := .int 1)
  have hb : v.get (.str <| utf8 "backpressure")
      (.str <| backpressureStrategyValue .dropOldest) = _ :=
    h.get (x := .str <| backpressureStrategyValue .dropOldest)
  have hm : v.get (.str <| utf8 "max_queue_depth") (.int 10000) = _ := h.get (x := .int 10000)
  have hw : Python.get "wait_timeout" v =
      .ok (((i.get? "wait_timeout").map Scalar.value).getD .none) := by
    obtain ⟨es, rfl, hl⟩ := h
    rw [Python.get, Value.get, hl]
  unfold Python.createInterface
  rw [h.subscript, h.subscript, hd, hb, hm, hw]
  cases i.get? "name"
  case none   => rfl
  case some x =>
    cases i.get? "pattern"
    case none   => rfl
    case some p => simp only [Option.elim_some, ok_bind, h.get]

theorem Decodes.creates (hd : Decodes i v) (h : Python.createInterface v = .ok y) :
    Creates i y := by
  rw [hd.createInterface] at h
  simp only [bind_eq_ok] at h
  obtain ⟨x, hx, p, hp, q, hq, l, hl, b, hb, h⟩ := h
  cases h
  cases hn : i.get? "name" <;> rw [hn] at hx <;> cases hx
  cases ht : i.get? "pattern" <;> rw [ht] at hp <;> cases hp
  exact ⟨⟨_, hn, rfl, rfl⟩, ht.trans <| congrArg _ <| interfacePattern_eq_ok.mp hq,
    durabilityLevel_eq_ok.mp hl, backpressureStrategy_eq_ok.mp hb, rfl⟩

theorem Decodes.exists_createInterface (hd : Decodes i v) (h : i.Readable) :
    ∃ y, Python.createInterface v = .ok y := by
  obtain ⟨x, hx⟩ := h.name
  obtain ⟨p, hp⟩ := h.pattern
  obtain ⟨l, hl⟩ := h.durability
  obtain ⟨b, hb⟩ := h.backpressure
  rw [hd.createInterface, hx, hp]
  simp only [Option.elim_some, ok_bind, interfacePattern_eq_ok.mpr rfl,
    durabilityLevel_eq_ok.mpr hl, backpressureStrategy_eq_ok.mpr hb]
  exact ⟨_, rfl⟩

section Registration

variable {r : PackedRegistration} {ts : List Token} {m : FullMessage} {s : Events}
variable {generate : Value → ModuleId} {info : NamedModuleInfo}

theorem interfaces_eq (hu : unpackb ts = .ok (.map <| strings r.fields))
    (h : deserialize n ts = .ok m) (hd : m.payload.IsDict) :
    ∃ es vs, m.payload = .dict es ∧
      (es.lookup (.str <| utf8 "interfaces")).getD (.list []) = .list vs ∧
      List.Forall₂ Decodes r.maps vs := by
  obtain ⟨p, es, hp, he⟩ := payload_eq hu h hd
  obtain ⟨hn, hl⟩ | ⟨o, q, v, hf, hv, hl⟩ := lookup_decodeEntries (k := utf8 "interfaces") he
  case inl =>
    rw [r.lookup_interfaces, Option.map_eq_none_iff] at hn
    refine ⟨es, [], hp, by rw [hl]; rfl, ?_⟩
    rw [PackedRegistration.maps, hn]
    exact .nil
  case inr =>
    rw [r.lookup_interfaces, Option.map_eq_some_iff] at hf
    obtain ⟨is, hi, rfl⟩ := hf
    rw [decodeObject] at hv
    obtain ⟨vs, hs, hv⟩ := bind_eq_ok.mp hv
    cases hv
    refine ⟨es, vs, hp, by rw [hl]; rfl, ?_⟩
    rw [PackedRegistration.maps, hi]
    exact decode_interfaces hs

def familyName (es : List (Key × Value)) (sender : Value) : Value :=
  (((es.lookup (.str <| utf8 "family_name")).getD .none).or sender).or <| .str <| utf8 "unknown"

theorem createModuleInfo_eq {es : List (Key × Value)} {vs : List Value}
    (hp : m.payload = .dict es)
    (hi : (es.lookup (.str <| utf8 "interfaces")).getD (.list []) = .list vs) :
    createModuleInfo generate m = (vs.mapM createInterface).map fun is => {
      moduleId      := generate <| familyName es m.sender
      interfaces    := is
      metadata      := (es.lookup (.str <| utf8 "metadata")).getD (.dict [])
      familyName    := familyName es m.sender
      adminHandlers := (es.lookup (.str <| utf8 "admin_handlers")).getD (.list []) } := by
  unfold createModuleInfo
  rw [hp]
  simp only [Python.get, Value.get, ok_bind, hi, Value.iterate]
  cases vs.mapM createInterface <;> rfl

theorem creates_of_createModuleInfo (hu : unpackb ts = .ok (.map <| strings r.fields))
    (h : deserialize n ts = .ok m) (hd : m.payload.IsDict)
    (hc : createModuleInfo generate m = .ok info) :
    List.Forall₂ Creates r.maps info.interfaces := by
  obtain ⟨es, vs, hp, hi, hv⟩ := interfaces_eq hu h hd
  rw [createModuleInfo_eq hp hi] at hc
  cases hm : vs.mapM createInterface
  case error => rw [hm] at hc; cases hc
  case ok is =>
    rw [hm] at hc
    cases hc
    rw [mapM_eq_ok] at hm
    generalize r.maps = ms at hv
    dsimp only
    clear hi
    induction hm generalizing ms
    case nil            => cases hv; exact .nil
    case cons hc _ hi =>
      cases hv
      case cons hd hs => exact .cons (hd.creates hc) (hi _ hs)

theorem exists_createModuleInfo (hu : unpackb ts = .ok (.map <| strings r.fields))
    (h : deserialize n ts = .ok m) (hd : m.payload.IsDict) (hr : ∀ i ∈ r.maps, i.Readable) :
    ∃ info, createModuleInfo generate m = .ok info := by
  obtain ⟨es, vs, hp, hi, hv⟩ := interfaces_eq hu h hd
  obtain ⟨is, hs⟩ : ∃ is, vs.mapM createInterface = .ok is := by
    simp only [mapM_eq_ok]
    clear hi
    generalize r.maps = ms at hr hv
    induction hv
    case nil           => exact ⟨[], .nil⟩
    case cons hd _ hi =>
      rw [List.forall_mem_cons] at hr
      obtain ⟨y, hy⟩ := hd.exists_createInterface hr.left
      obtain ⟨is, hs⟩ := hi hr.right
      exact ⟨y :: is, .cons hy hs⟩
  exact ⟨_, by rw [createModuleInfo_eq hp hi, hs]; rfl⟩

theorem registerInterfaces_ok {m : ModuleId} {is : List Interface}
    (h : ∀ i ∈ is, i.eventType.Hashable) : (Events.registerInterfaces m is s).1 = .ok () := by
  induction is generalizing s
  case nil          => rfl
  case cons i is hi =>
    rw [List.forall_mem_cons] at h
    obtain ⟨k, hk⟩ := h.left
    rw [Events.registerInterfaces, hk]
    exact hi h.right

theorem Creates.hashable (h : Creates i y) : y.eventType.Hashable := by
  obtain ⟨x, -, -, he⟩ := h.name
  rw [he]
  cases (i.get? "event_type").getD x
  all_goals exact ⟨_, rfl⟩

theorem hashable_of_creates (h : List.Forall₂ Creates is info.interfaces) :
    ∀ i ∈ info.info.interfaces, i.eventType.Hashable := by
  have hh : ∀ y ∈ info.interfaces, y.eventType.Hashable :=
    ((List.forall₂_and_left _ _).mp <| h.flip.imp fun _ _ hc => ⟨hc.hashable, hc⟩).left
  intro i hi
  obtain ⟨y, hy, rfl⟩ := List.mem_map.mp hi
  exact hh y hy

-- What the engine in Python makes of a registration.
theorem processRegistration_eq (hu : unpackb ts = .ok (.map <| strings r.fields))
    (h : deserialize n ts = .ok m) (hd : m.payload.IsDict) :
    processRegistration generate s n ts = match createModuleInfo generate m with
      | .ok info => (.ok <| some info, (s.registerModule info.info).2)
      | .error e => (.error e, s) := by
  unfold processRegistration
  rw [h]
  dsimp only
  rw [if_pos <| msgType_eq hu h r.lookup_msgType]
  cases hc : createModuleInfo generate m
  case error => rfl
  case ok info =>
    have hr : (s.registerModule info.info).1 = .ok () :=
      registerInterfaces_ok <| hashable_of_creates <| creates_of_createModuleInfo hu h hd hc
    dsimp only
    generalize s.registerModule info.info = z at hr ⊢
    obtain ⟨_, s'⟩ := z
    cases hr
    rfl

theorem processRegistration_eq_ok (hu : unpackb ts = .ok (.map <| strings r.fields))
    (h : deserialize n ts = .ok m) (hd : m.payload.IsDict)
    (hp : (processRegistration generate s n ts).1 = .ok (some info)) :
    List.Forall₂ Creates r.maps info.interfaces ∧
      (processRegistration generate s n ts).2 = (s.registerModule info.info).2 := by
  rw [processRegistration_eq hu h hd] at hp ⊢
  cases hc : createModuleInfo generate m
  case error => rw [hc] at hp; cases hp
  case ok info =>
    rw [hc] at hp
    cases hp
    exact ⟨creates_of_createModuleInfo hu h hd hc, rfl⟩

theorem accepts_iff (hu : unpackb ts = .ok (.map <| strings r.fields))
    (h : deserialize n ts = .ok m) (hd : m.payload.IsDict) :
    (∃ info, (processRegistration generate s n ts).1 = .ok (some info)) ↔
      ∀ i ∈ r.maps, i.Readable := by
  constructor
  case mp =>
    rintro ⟨info, hp⟩
    have hc := (processRegistration_eq_ok hu h hd hp).left
    exact ((List.forall₂_and_left _ _).mp <| hc.imp fun _ _ hc => ⟨hc.readable, hc⟩).left
  case mpr =>
    intro hr
    obtain ⟨info, hc⟩ := exists_createModuleInfo hu h hd hr
    exact ⟨info, by rw [processRegistration_eq hu h hd, hc]⟩

end Registration

end Python

namespace Cpp

variable {x : Scalar} {i : InterfaceMap} {is : List InterfaceMap}

theorem unpackString_object : unpackString x.object = x.str? := by
  cases x
  case str => rfl
  case int =>
    rw [Scalar.object, Python.Datum.object]
    split <;> rfl

theorem unpackDurability_object : unpackDurability x.object = x.int?.map (BitVec.ofInt 32) := by
  cases x
  case str   => rfl
  case int i =>
    have hi : (BitVec.ofInt 64 i).setWidth 32 = BitVec.ofInt 32 i := by
      apply BitVec.eq_of_toNat_eq
      rw [BitVec.toNat_setWidth, BitVec.toNat_ofInt, BitVec.toNat_ofInt]
      omega
    rw [Scalar.object, Python.Datum.object]
    split <;> exact congrArg some hi

namespace Registry

theorem objects_nodup : (i.objects.map Prod.fst).Nodup :=
  InterfaceMap.map_fst_objects ▸ i.nodup

-- The interface before its event type is replaced.
def raw (i : InterfaceMap) : Interface :=
  (strings i.objects).foldl readInterfaceEntry {}

theorem get_raw {β : Type} {key : String} {get : Interface → β} {f : Object → Option β}
    (hs : ∀ i o, get (readInterfaceEntry i (.str <| utf8 key, o)) = (f o).getD (get i))
    (hk : ∀ i k o, k ≠ utf8 key → get (readInterfaceEntry i (.str k, o)) = get i) :
    get (raw i) = ((i.get? key).bind fun x => f x.object).getD (get {}) := by
  have hr : Reads (fun i e => some <| readInterfaceEntry i e) key get
      fun o x => some <| (f o).getD x :=
    { self := by rintro i o _ ⟨⟩; rw [hs],
      ne := by rintro i k o _ hn ⟨⟩; exact hk i k o hn }
  have hf : (strings i.objects).foldlM (fun i e => some <| readInterfaceEntry i e) {} =
      some (raw i) := List.foldlM_pure
  have h := hr.foldlM objects_nodup hf
  rw [InterfaceMap.lookup_objects] at h
  cases hl : i.get? key
  case none   => rwa [hl] at h
  case some x => rw [hl] at h; exact (Option.some.inj h).symm

variable {y : Python.NamedInterface}

theorem name_raw : (raw i).name = ((i.get? "name").bind Scalar.str?).getD [] := by
  have h : (raw i).name = ((i.get? "name").bind fun x => unpackString x.object).getD [] :=
    get_raw (fun _ _ => by simp +decide only [readInterfaceEntry, if_true])
      fun i k o hk => by simp only [readInterfaceEntry, hk, if_false]; split_ifs <;> rfl
  simpa only [unpackString_object] using h

theorem pattern_raw : (raw i).pattern =
    (((i.get? "pattern").bind Scalar.str?).map interfacePatternFromStr).getD .on := by
  have h : (raw i).pattern = ((i.get? "pattern").bind fun x =>
      (unpackString x.object).map interfacePatternFromStr).getD .on :=
    get_raw (f := fun o => (unpackString o).map interfacePatternFromStr)
      (fun _ _ => by simp +decide only [readInterfaceEntry, if_true, if_false])
      fun i k o hk => by simp only [readInterfaceEntry, hk, if_false]; split_ifs <;> rfl
  rw [h]
  simp only [unpackString_object]
  cases i.get? "pattern" <;> rfl

theorem eventType_raw : (raw i).eventType = ((i.get? "event_type").bind Scalar.str?).getD [] := by
  have h : (raw i).eventType =
      ((i.get? "event_type").bind fun x => unpackString x.object).getD [] :=
    get_raw (fun _ _ => by simp +decide only [readInterfaceEntry, if_true, if_false])
      fun i k o hk => by simp only [readInterfaceEntry, hk, if_false]; split_ifs <;> rfl
  simpa only [unpackString_object] using h

theorem durability_raw : (raw i).durability =
    (((i.get? "durability").bind Scalar.int?).map (BitVec.ofInt 32)).getD
      DurabilityLevel.asyncFlush := by
  have h : (raw i).durability =
      ((i.get? "durability").bind fun x => unpackDurability x.object).getD
        DurabilityLevel.asyncFlush :=
    get_raw (fun _ _ => by simp +decide only [readInterfaceEntry, if_true, if_false])
      fun i k o hk => by simp only [readInterfaceEntry, hk, if_false]; split_ifs <;> rfl
  rw [h]
  simp only [unpackDurability_object]
  cases i.get? "durability" <;> rfl

theorem rest_raw : (raw i).backpressure = .dropOldest ∧ (raw i).maxQueueDepth = 10000 := by
  have h (j : Interface) (hj : j.backpressure = .dropOldest ∧ j.maxQueueDepth = 10000) :
      ((strings i.objects).foldl readInterfaceEntry j).backpressure = .dropOldest ∧
        ((strings i.objects).foldl readInterfaceEntry j).maxQueueDepth = 10000 := by
    induction strings i.objects generalizing j
    case nil           => exact hj
    case cons e kvs hi =>
      refine hi _ ?_
      unfold readInterfaceEntry
      split
      · split_ifs <;> exact hj
      · exact hj
  exact h {} ⟨rfl, rfl⟩

theorem readInterface_objects : readInterface (strings i.objects) =
    { raw i with
      eventType := if (raw i).eventType = [] then (raw i).name else (raw i).eventType } := by
  change (if (raw i).eventType = [] then { raw i with eventType := (raw i).name } else raw i) = _
  split <;> rfl

theorem flatMap_strings {α : Type} {g : Object × Object → List α} {h : Object → List α}
    {kvs : List (Bytes × Object)} {k : Bytes} (hn : (kvs.map Prod.fst).Nodup)
    (hs : ∀ o, g (.str k, o) = h o) (hne : ∀ j o, j ≠ k → g (.str j, o) = []) :
    (strings kvs).flatMap g = (kvs.lookup k).elim [] h := by
  induction kvs
  case nil           => rfl
  case cons e kvs hi =>
    obtain ⟨j, o⟩ := e
    rw [List.map_cons, List.nodup_cons] at hn
    rw [strings, List.map_cons, List.flatMap_cons, ← strings, hi hn.right, List.lookup_cons_ite]
    by_cases hk : k = j
    case pos =>
      subst hk
      have hl : kvs.lookup k = none := List.lookup_eq_none_iff_not_mem.mpr hn.left
      rw [if_pos rfl, hl, hs]
      exact List.append_nil _
    case neg => rw [if_neg hk, hne j o <| Ne.symm hk, List.nil_append]

variable {r : PackedRegistration} {ts : List Token} {m : Message} {s : Registry}
variable {generate : Dict Bytes ModuleInfo → Bytes → Bytes} {info : ModuleInfo}

theorem readInterfaces_eq : readInterfaces (.map <| strings r.fields) =
    r.maps.map fun i => readInterface <| strings i.objects := by
  have hp (j : Bytes) (o : Object) (h : j ≠ utf8 "interfaces") :
      payloadInterfaces (.str j, o) = [] := by
    cases o
    case array => rw [payloadInterfaces, if_neg h]
    all_goals rfl
  have hm (j : Bytes) (o : Object) (h : j ≠ utf8 "payload") :
      messageInterfaces (.str j, o) = [] := by
    cases o
    case map => rw [messageInterfaces, if_neg h]
    all_goals rfl
  rw [readInterfaces, flatMap_strings r.fields_nodup (fun _ => rfl) hm, r.lookup_payload,
    Option.elim_some, messageInterfaces, if_pos rfl,
    flatMap_strings r.payload_nodup (fun _ => rfl) hp, r.lookup_interfaces,
    PackedRegistration.maps]
  cases r.interfaces
  case none    => rfl
  case some is =>
    rw [Option.map_some, Option.elim_some, payloadInterfaces, if_pos rfl, List.filterMap_map]
    exact congrFun List.filterMap_eq_map is

theorem reads_msgType : Reads readField "msg_type" Message.msgType fun o t =>
    some (((unpackString o).map messageTypeFromStr).getD t) where
  self m o m' h := by
    simp +decide only [readField, if_true] at h
    cases h
    rfl
  ne _ _ _ _ hk h := (Message.readsOnly_of_readField h).msgType hk

theorem msgType_eq (hu : Python.unpackb ts = .ok (.map <| strings r.fields))
    (h : deserialize ts = some m) : m.msgType = .register := by
  have hr := reads_msgType.foldlM r.fields_nodup (foldlM_of_deserialize hu h)
  rw [r.lookup_msgType, Option.elim_some] at hr
  rw [← Option.some.inj hr]
  decide +kernel

-- A family name that is not a string is the only thing that the engine in C++ refuses.
theorem familyName_eq_none (hu : Python.unpackb ts = .ok (.map <| strings r.fields))
    (h : deserialize ts = some m) :
    familyName m = none ↔ ∃ n, r.familyName = some (.int n) := by
  have hp := reads_payload.foldlM r.fields_nodup (foldlM_of_deserialize hu h)
  rw [r.lookup_payload] at hp
  unfold familyName
  obtain ⟨hn, hl⟩ | ⟨o, v, hf, hv, hl⟩ :=
    lookup_unpackPayload (k := utf8 "family_name") r.payload_nodup hp
  case inl =>
    rw [r.lookup_familyName, Option.map_eq_none_iff] at hn
    rw [hl, hn]
    simp
  case inr =>
    rw [r.lookup_familyName, Option.map_eq_some_iff] at hf
    obtain ⟨x, hx, rfl⟩ := hf
    rw [hl, hx]
    cases x
    case str s =>
      cases hv
      simp
    case int i =>
      rw [Scalar.object, Python.Datum.object] at hv
      split at hv <;> cases hv <;> simp

theorem processRegistration_eq (hu : Python.unpackb ts = .ok (.map <| strings r.fields))
    (h : deserialize ts = some m) :
    processRegistration generate s ts = match familyName m with
      | none        => (none, s)
      | some family =>
        let info := {
          moduleId   := generate s.modules family
          interfaces := r.maps.map fun i => readInterface <| strings i.objects }
        (some info, s.registerModule info) := by
  unfold processRegistration
  rw [h, unpack_of_unpackb hu]
  dsimp only
  rw [if_pos <| msgType_eq hu h]
  cases familyName m
  case none        => rfl
  case some family => simp only [readInterfaces_eq]

theorem accepts_iff (hu : Python.unpackb ts = .ok (.map <| strings r.fields))
    (h : deserialize ts = some m) :
    (processRegistration generate s ts).1.isSome ↔ ∀ n, r.familyName ≠ some (.int n) := by
  have hf := familyName_eq_none hu h
  rw [processRegistration_eq hu h]
  cases hm : familyName m
  case none        =>
    obtain ⟨n, hn⟩ := hf.mp hm
    simp [hn]
  case some family =>
    rw [hm] at hf
    simpa using hf

theorem processRegistration_eq_some (hu : Python.unpackb ts = .ok (.map <| strings r.fields))
    (h : deserialize ts = some m) (hp : (processRegistration generate s ts).1 = some info) :
    info.interfaces = r.maps.map (fun i => readInterface <| strings i.objects) ∧
      (processRegistration generate s ts).2 = s.registerModule info := by
  rw [processRegistration_eq hu h] at hp ⊢
  cases hm : familyName m
  case none        => rw [hm] at hp; cases hp
  case some family =>
    rw [hm] at hp
    cases hp
    exact ⟨rfl, rfl⟩

end Registry

end Cpp

theorem interfacePatternFromStr_value {p : InterfacePattern} :
    Cpp.interfacePatternFromStr (Python.interfacePatternValue p) = p := by
  cases p <;> decide +kernel

section Interface

variable {i : InterfaceMap} {y : Python.NamedInterface}

open Cpp.Registry

theorem Scalar.value_eq_str {x : Scalar} {s : Bytes} : x.value = .str s ↔ x = .str s := by
  cases x <;> simp [Scalar.value]

theorem Scalar.value_eq_int {x : Scalar} {n : ℤ} : x.value = .int n ↔ x = .int n := by
  cases x <;> simp [Scalar.value]

theorem toInt_ofInt_number {l : Python.DurabilityLevel} :
    (l.number : ℤ) = (BitVec.ofInt 32 l.number).toInt := by
  cases l <;> rfl

-- Two interfaces that are made from one map are the same exactly if both engines know all of it.
theorem sameInterface_iff (h : Python.Creates i y) :
    SameInterface y (readInterface <| strings i.objects) ↔ i.Supported := by
  obtain ⟨x, hx, hn, ht⟩ := h.name
  have hb := h.backpressure
  rw [readInterface_objects]
  constructor
  case mp =>
    rintro ⟨hsn, -, hst, -, hsb, hsm⟩
    dsimp only at hsn hst hsb hsm
    rw [hn, Scalar.value_eq_str] at hsn
    rw [ht, Scalar.value_eq_str] at hst
    rw [hsb, rest_raw.left] at hb
    rw [h.maxQueueDepth, rest_raw.right, Scalar.value_eq_int] at hsm
    refine ⟨h.readable, ⟨_, hsn ▸ hx⟩, fun z hz => ?_, fun z hz => ?_, fun z hz => ?_⟩
    · rw [hz, Option.getD_some, eventType_raw, hz] at hst
      cases z
      case int   => cases hst
      case str t =>
        refine ⟨t, rfl, fun he => ?_⟩
        have ht := (Scalar.str.inj hst).trans (if_pos he)
        rw [hx, hsn, ← ht, he]
    · rwa [hz] at hb
    · rw [hz] at hsm; exact hsm
  case mpr =>
    intro hs
    obtain ⟨s, hs'⟩ := hs.name_str
    cases hx.symm.trans hs'
    have hr : (raw i).name = s := by rw [name_raw, hx]; rfl
    refine ⟨hn.trans <| congrArg _ hr.symm, ?_, ?_, ?_, ?_, ?_⟩
    · dsimp only
      rw [pattern_raw, h.pattern]
      exact interfacePatternFromStr_value.symm
    · dsimp only
      rw [ht, hr, eventType_raw, Scalar.value_eq_str]
      cases hz : i.get? "event_type"
      case none   => rfl
      case some z =>
        obtain ⟨t, rfl, he⟩ := hs.eventType z hz
        have hg : ((some <| Scalar.str t).bind Scalar.str?).getD [] = t := rfl
        rw [Option.getD_some, hg, Scalar.str.injEq]
        by_cases h0 : t = []
        case pos => cases (he h0).symm.trans hx; rw [if_pos h0, h0]
        case neg => rw [if_neg h0]
    · dsimp only
      rw [durability_raw]
      cases hz : i.get? "durability"
      all_goals
        have hd := h.durability
        rw [hz] at hd
      case none   =>
        rw [Option.getD_none, Scalar.int.injEq] at hd
        rw [← hd]
        rfl
      case some z =>
        cases hd
        exact toInt_ofInt_number
    · dsimp only
      rw [rest_raw.left]
      have hv : Python.backpressureStrategyValue .dropOldest =
          Python.backpressureStrategyValue y.backpressure := by
        cases hz : i.get? "backpressure"
        all_goals rw [hz] at hb
        case none   => exact Scalar.str.inj hb
        case some z => exact Scalar.str.inj <| (hs.dropOldest z hz).symm.trans hb
      exact (Python.backpressureStrategyValue_injective hv).symm
    · dsimp only
      rw [rest_raw.right, h.maxQueueDepth]
      cases hz : i.get? "max_queue_depth"
      case none   => rfl
      case some z => cases hs.depth z hz; rfl

end Interface

namespace Python.Events

variable {s : Events} {t topic : Key} {m : ModuleId} {i : Interface} {v : Value}

def Owned (s : Events) : Prop :=
  ∀ topic q, s.topicQueues.get? topic = some q → q < s.created

-- What an interface makes of the queue of its topic.
def served (s : Events) (i : Interface) (topic : Key) : Value × Value × BackpressureStrategy :=
  ((s.topicQueues.get? topic).elim i.maxQueueDepth fun q => (s.queues q).capacity,
    i.maxQueueDepth, i.backpressure)

theorem queue?_configure : (s.configure topic i).queue? t = (s.topicQueues.get? t).map fun q =>
    ((s.queues q).capacity, if t = topic then (i.maxQueueDepth, i.backpressure)
      else (s.maxDepth t, s.strategy t)) := by
  unfold queue? configure maxDepth strategy Dict.getD
  dsimp only
  rw [Dict.get?_set, Dict.get?_set]
  by_cases ht : t = topic
  case pos => simp only [ht, if_true, Option.getD_some]
  case neg => simp only [ht, if_false]; rfl

theorem queue?_newQueue {c : Value} (h : s.Owned) : (s.newQueue topic c).queue? t =
    if t = topic then some (c, s.maxDepth topic, s.strategy topic) else s.queue? t := by
  unfold queue? newQueue setQueue
  dsimp only
  rw [Dict.get?_set]
  split
  case isTrue ht => rw [ht, Option.map_some, if_pos rfl]; rfl
  case isFalse   =>
    cases hg : s.topicQueues.get? t
    case none   => rfl
    case some q =>
      rw [Option.map_some, Option.map_some, if_neg <| Nat.ne_of_lt <| h t q hg]
      rfl

theorem Owned.newQueue {c : Value} (h : s.Owned) : (s.newQueue topic c).Owned := by
  intro t q ht
  unfold Events.newQueue at ht ⊢
  rw [Dict.get?_set] at ht
  split at ht
  case isTrue  => cases ht; exact Nat.lt_succ_self _
  case isFalse => exact Nat.lt_succ_of_lt <| h t q ht

-- The queue of a topic is made if there is none yet.
def arrange (s : Events) (topic : Key) (capacity : Value) : Events :=
  if topic ∈ s.topicQueues then s else s.newQueue topic capacity

theorem queue?_registerInterface (h : s.Owned) : (s.registerInterface m i topic).queue? t =
    if t = topic then some (s.served i topic) else s.queue? t := by
  have hq : (s.registerInterface m i topic).queue? t =
      ((s.configure topic i).arrange topic i.maxQueueDepth).queue? t := by
    unfold registerInterface
    cases i.pattern <;> rfl
  rw [hq, arrange]
  split
  case isTrue hm =>
    obtain ⟨q, hg⟩ := Dict.mem_iff.mp hm
    have hg : s.topicQueues.get? topic = some q := hg
    rw [queue?_configure]
    split
    case isTrue ht  => rw [ht, hg, served, hg]; rfl
    case isFalse ht => rfl
  case isFalse hm =>
    have hn : s.topicQueues.get? topic = none := Dict.get?_eq_none_iff.mpr hm
    have ho : (s.configure topic i).Owned := h
    rw [queue?_newQueue ho, queue?_configure]
    split
    case isTrue     =>
      rw [served, hn]
      simp only [maxDepth, strategy, configure, Dict.getD, Dict.get?_set_self, Option.getD_some]
      rfl
    case isFalse ht => rfl

theorem Owned.registerInterface (h : s.Owned) : (s.registerInterface m i topic).Owned := by
  have ha : ((s.configure topic i).arrange topic i.maxQueueDepth).Owned := by
    unfold arrange
    split
    case isTrue  => exact h
    case isFalse => exact newQueue h
  unfold Events.registerInterface
  cases i.pattern <;> exact ha

end Python.Events

namespace Cpp.Registry

variable {s : Registry} {t m : Bytes} {i : Interface}

def Uniform (s : Registry) : Prop :=
  ∀ topic d, s.topicQueues.get? topic = some d → d = s.queueCapacity.signExtend 64

theorem topicQueues_registerInterface :
    (s.registerInterface m i).topicQueues = (s.getOrCreateQueue i.eventType).topicQueues := by
  unfold registerInterface
  cases i.pattern <;> rfl

theorem queueCapacity_registerInterface :
    (s.registerInterface m i).queueCapacity = s.queueCapacity := by
  unfold registerInterface
  cases i.pattern <;> rfl

theorem get?_registerInterface (h : s.Uniform) : (s.registerInterface m i).topicQueues.get? t =
    if t = i.eventType then some (s.queueCapacity.signExtend 64) else s.topicQueues.get? t := by
  rw [topicQueues_registerInterface, getOrCreateQueue]
  dsimp only
  split
  case isTrue hm =>
    obtain ⟨d, hd⟩ := Dict.mem_iff.mp hm
    split
    case isTrue ht => rw [ht, hd, h _ _ hd]
    case isFalse   => rfl
  case isFalse => exact Dict.get?_set

theorem Uniform.registerInterface (h : s.Uniform) : (s.registerInterface m i).Uniform := by
  intro t d ht
  rw [get?_registerInterface h] at ht
  rw [queueCapacity_registerInterface]
  split at ht
  case isTrue  => cases ht; rfl
  case isFalse => exact h t d ht

end Cpp.Registry

-- The queues of the two engines are the same, and those of the engine in C++ were all made for one
-- capacity.
structure Agree (s : Python.Events) (s' : Cpp.Registry) : Prop where
  owned   : s.Owned
  uniform : s'.Uniform
  queues  : SameQueues s s'

theorem start_agree {now : ℚ} {c : Option ℤ} {d : BitVec 32} :
    Agree (.start now c) (.start d) where
  owned _ _ h   := nomatch h
  uniform _ _ h := nomatch h
  queues _      := rfl

-- The depth that all queues of the engine in C++ have.
def Cpp.Registry.depth (s : Cpp.Registry) : Python.Value :=
  .int (s.queueCapacity.signExtend 64).toNat

section Queues

variable {s : Python.Events} {s' : Cpp.Registry} {m : ModuleId} {b : Bytes}
variable {x : Python.Interface} {y : Cpp.Registry.Interface} {v : Python.Value}

theorem Agree.registerInterface (h : Agree s s') (hd : x.maxQueueDepth = s'.depth)
    (hb : x.backpressure = .dropOldest) :
    Agree (s.registerInterface m x (.str y.eventType)) (s'.registerInterface b y) where
  owned   := h.owned.registerInterface
  uniform := h.uniform.registerInterface
  queues  := by
    intro t
    have hq := h.queues t
    rw [Python.Events.queue?_registerInterface h.owned, Cpp.Registry.queue?,
      Cpp.Registry.get?_registerInterface h.uniform]
    by_cases ht : t = y.eventType
    case neg =>
      rw [if_neg fun he => ht <| Python.Key.str.inj he, if_neg ht]
      exact hq
    case pos =>
      have hc : ((s.topicQueues.get? <| .str t).elim s'.depth fun q => (s.queues q).capacity) =
          s'.depth := by
        unfold Python.Events.queue? Cpp.Registry.queue? at hq
        cases hg : s.topicQueues.get? (.str t)
        case none   => rfl
        case some q =>
          cases hg' : s'.topicQueues.get? t
          case none   => rw [hg, hg'] at hq; cases hq
          case some d =>
            rw [hg, hg'] at hq
            rw [Option.elim_some, Cpp.Registry.depth, ← h.uniform t d hg']
            exact congrArg Prod.fst <| Option.some.inj hq
      rw [if_pos <| congrArg _ ht, if_pos ht, Python.Events.served, hd, hb, ← ht, hc]
      rfl

theorem depth_registerInterface : (s'.registerInterface b y).depth = s'.depth := by
  rw [Cpp.Registry.depth, Cpp.Registry.queueCapacity_registerInterface, Cpp.Registry.depth]

variable {xs : List Python.NamedInterface} {ys : List Cpp.Registry.Interface}

-- Interfaces with the depth that the engine in C++ gives to all queues have the same queues.
theorem Agree.registerInterfaces (h : Agree s s') (hs : List.Forall₂ SameInterface xs ys)
    (hd : ∀ x ∈ xs, x.maxQueueDepth = s'.depth ∧ x.backpressure = .dropOldest) :
    Agree (Python.Events.registerInterfaces m (xs.map (·.toInterface)) s).2
      (ys.foldl (·.registerInterface b ·) s') := by
  induction hs generalizing s s'
  case nil             => exact h
  case cons x y xs ys hx _ hi =>
    rw [List.forall_mem_cons] at hd
    rw [List.map_cons, List.foldl_cons, Python.Events.registerInterfaces, hx.eventType]
    refine hi (h.registerInterface hd.left.left hd.left.right) ?_
    rw [depth_registerInterface]
    exact hd.right

namespace Python.Events

-- The queue of the topic may be filled up to a depth.
def HasDepth (s : Events) (t : Key) (v : Value) : Prop :=
  ∃ c b, s.queue? t = some (c, v, b)

theorem registerInterfaces_hasDepth {t : Key} {is : List Interface} (ho : s.Owned)
    (hv : ∀ i ∈ is, i.maxQueueDepth = v) (hh : ∀ i ∈ is, i.eventType.Hashable)
    (h : s.HasDepth t v ∨ ∃ i ∈ is, i.eventType.hash = .ok t) :
    (registerInterfaces m is s).2.HasDepth t v := by
  induction is generalizing s
  case nil          =>
    obtain h | ⟨_, h, -⟩ := h
    · exact h
    · cases h
  case cons i is hi =>
    rw [List.forall_mem_cons] at hv hh
    obtain ⟨topic, hk⟩ := hh.left
    rw [registerInterfaces, hk]
    refine hi ho.registerInterface hv.right hh.right ?_
    by_cases ht : t = topic
    case pos =>
      have hq : (s.registerInterface m i topic).queue? t = _ := queue?_registerInterface ho
      rw [if_pos ht, served, hv.left] at hq
      exact .inl ⟨_, _, hq⟩
    case neg =>
      obtain ⟨c, b, h⟩ | ⟨j, hj, he⟩ := h
      case inl => exact .inl ⟨c, b, by rw [queue?_registerInterface ho, if_neg ht, h]⟩
      case inr =>
        obtain rfl | hj := List.mem_cons.mp hj
        case inl => exact absurd (Except.ok.inj <| he.symm.trans hk) ht
        case inr => exact .inr ⟨j, hj, he⟩

end Python.Events

theorem uniform_registerInterfaces (h : s'.Uniform) :
    (ys.foldl (·.registerInterface b ·) s').Uniform ∧
      (ys.foldl (·.registerInterface b ·) s').queueCapacity = s'.queueCapacity := by
  induction ys generalizing s'
  case nil          => exact ⟨h, rfl⟩
  case cons y ys hi =>
    have hu : (s'.registerInterface b y).Uniform := h.registerInterface
    exact ⟨(hi hu).left, (hi hu).right.trans Cpp.Registry.queueCapacity_registerInterface⟩

theorem depth_eq_iff : s'.depth = .int 10000 ↔ s'.queueCapacity = 10000 := by
  rw [Cpp.Registry.depth]
  constructor
  case mp =>
    intro h
    have hn : (s'.queueCapacity.signExtend 64).toNat = 10000 := by
      exact_mod_cast Python.Value.int.inj h
    have hl := s'.queueCapacity.isLt
    rw [BitVec.toNat_signExtend, BitVec.toNat_setWidth] at hn
    have hd : (10000 : BitVec 32).toNat = 10000 := rfl
    apply BitVec.eq_of_toNat_eq
    rw [hd]
    split at hn <;> omega
  case mpr => intro h; rw [h]; rfl

end Queues

section Registration

variable {n : ℕ} {r : PackedRegistration} {ts : List Token} {m : Python.FullMessage}
variable {m' : Cpp.Message} {s : Python.Events} {s' : Cpp.Registry}
variable {generate : Python.Value → ModuleId}
variable {generate' : Dict Bytes Cpp.Registry.ModuleInfo → Bytes → Bytes}

open Cpp.Registry

theorem forall₂_sameInterface {is : List InterfaceMap} {xs : List Python.NamedInterface}
    (h : List.Forall₂ Python.Creates is xs) :
    List.Forall₂ SameInterface xs (is.map fun i => readInterface <| strings i.objects) ↔
      ∀ i ∈ is, i.Supported := by
  induction h
  case nil            => simp
  case cons hc _ hi =>
    rw [List.map_cons, List.forall₂_cons, sameInterface_iff hc, hi, List.forall_mem_cons]

theorem rest_readInterface {i : InterfaceMap} :
    (readInterface <| strings i.objects).backpressure = .dropOldest ∧
      (readInterface <| strings i.objects).maxQueueDepth = 10000 := by
  rw [readInterface_objects]
  exact rest_raw

-- The engine in C++ records the same strategy and the same depth for all interfaces.
theorem plain_of_forall₂ {is : List InterfaceMap} {xs : List Python.NamedInterface}
    (h : List.Forall₂ SameInterface xs (is.map fun i => readInterface <| strings i.objects)) :
    ∀ x ∈ xs, x.maxQueueDepth = .int 10000 ∧ x.backpressure = .dropOldest := by
  rw [List.forall₂_map_right_iff] at h
  refine ((List.forall₂_and_left _ _).mp <| h.imp fun x i hs => ⟨?_, hs⟩).left
  rw [hs.maxQueueDepth, hs.backpressure, rest_readInterface.left, rest_readInterface.right]
  exact ⟨rfl, rfl⟩

-- Where the interfaces are recorded alike, the queues are the same if and only if the engine in C++
-- has the default depth for all of them.
theorem sameQueues_iff {info : Python.NamedModuleInfo} {info' : ModuleInfo} (ha : Agree s s')
    (hc : List.Forall₂ Python.Creates r.maps info.interfaces)
    (hi : info'.interfaces = r.maps.map fun i => readInterface <| strings i.objects)
    (h : List.Forall₂ SameInterface info.interfaces info'.interfaces) :
    SameQueues (s.registerModule info.info).2 (s'.registerModule info') ↔
      (r.maps ≠ [] → s'.queueCapacity = 10000) := by
  have ha' : Agree { s with modules := s.modules.set info.moduleId info.info }
      { s' with modules := s'.modules.set info'.moduleId info' } :=
    ⟨ha.owned, ha.uniform, ha.queues⟩
  have hp : ∀ x ∈ info.interfaces, x.maxQueueDepth = .int 10000 ∧ x.backpressure = .dropOldest :=
    plain_of_forall₂ <| hi ▸ h
  constructor
  case mpr =>
    intro hq
    refine (ha'.registerInterfaces h fun x hx => ?_).queues
    have hn : r.maps ≠ [] := by
      rintro hn
      rw [hn, List.forall₂_nil_left_iff] at hc
      rw [hc] at hx
      cases hx
    exact ⟨(hp x hx).left.trans (depth_eq_iff.mpr <| hq hn).symm, (hp x hx).right⟩
  case mp =>
    intro hq hn
    obtain ⟨x, xs, hx⟩ : ∃ x xs, info.interfaces = x :: xs := by
      refine List.exists_cons_of_ne_nil fun hx => hn ?_
      rwa [hx, List.forall₂_nil_right_iff] at hc
    obtain ⟨y, ys, hxy, -, -⟩ : ∃ y ys, SameInterface x y ∧ _ := by
      rwa [hx, List.forall₂_cons_left_iff] at h
    have hd : (s.registerModule info.info).2.HasDepth (.str y.eventType) (.int 10000) := by
      refine Python.Events.registerInterfaces_hasDepth ha'.owned ?_
        (Python.hashable_of_creates hc) (.inr ?_)
      · intro i hi
        obtain ⟨x, hx, rfl⟩ := List.mem_map.mp hi
        exact (hp x hx).left
      · refine ⟨x.toInterface, List.mem_map_of_mem (hx ▸ List.mem_cons_self), ?_⟩
        rw [hxy.eventType]
        rfl
    obtain ⟨c, b, hd⟩ := hd
    obtain ⟨hv, he⟩ : (s'.registerModule info').Uniform ∧
        (s'.registerModule info').queueCapacity = s'.queueCapacity :=
      uniform_registerInterfaces ha'.uniform
    obtain ⟨d, hg, hd⟩ := Option.map_eq_some_iff.mp <| (hq y.eventType).symm.trans hd
    rw [← depth_eq_iff, Cpp.Registry.depth, ← he, ← hv _ d hg]
    exact congrArg (·.2.1) hd

-- The two engines make the same of a registration exactly if both accept it, both know all of its
-- interfaces and the engine in C++ has the default depth for queues, or else if both refuse it.
theorem same_registration_iff (hu : Python.unpackb ts = .ok (.map <| strings r.fields))
    (h : Python.deserialize n ts = .ok m) (hd : m.payload.IsDict)
    (h' : Cpp.deserialize ts = some m') (ha : Agree s s') :
    SameRegistration (Python.processRegistration generate s n ts)
        (processRegistration generate' s' ts) ↔
      ((∀ i ∈ r.maps, i.Readable) ↔ ∀ k, r.familyName ≠ some (.int k)) ∧
        ((∀ k, r.familyName ≠ some (.int k)) →
          (∀ i ∈ r.maps, i.Supported) ∧ (r.maps ≠ [] → s'.queueCapacity = 10000)) := by
  unfold SameRegistration
  rw [Python.accepts_iff hu h hd, Cpp.Registry.accepts_iff hu h']
  refine and_congr_right fun hr => ?_
  constructor
  case mp =>
    intro hs hf
    obtain ⟨info, hp⟩ := (Python.accepts_iff hu h hd).mpr <| hr.mpr hf
    obtain ⟨info', hp'⟩ := Option.isSome_iff_exists.mp <| (Cpp.Registry.accepts_iff hu h').mpr hf
    obtain ⟨hc, he⟩ := Python.processRegistration_eq_ok hu h hd hp
    obtain ⟨hi, he'⟩ := processRegistration_eq_some hu h' hp'
    obtain ⟨hf, hq⟩ := hs info info' hp hp'
    rw [he, he'] at hq
    exact ⟨(forall₂_sameInterface hc).mp <| hi ▸ hf, (sameQueues_iff ha hc hi hf).mp hq⟩
  case mpr =>
    intro hs info info' hp hp'
    have hf := (Cpp.Registry.accepts_iff hu h').mp <| Option.isSome_iff_exists.mpr ⟨_, hp'⟩
    obtain ⟨hc, he⟩ := Python.processRegistration_eq_ok hu h hd hp
    obtain ⟨hi, he'⟩ := processRegistration_eq_some hu h' hp'
    have hb : List.Forall₂ SameInterface info.interfaces info'.interfaces :=
      hi ▸ (forall₂_sameInterface hc).mpr (hs hf).left
    rw [he, he']
    exact ⟨hb, (sameQueues_iff ha hc hi hb).mpr (hs hf).right⟩

end Registration

namespace Sample

-- A registration with one interface for events of the topic t.
def interface : InterfaceMap where
  entries     := [(utf8 "name", .str <| utf8 "t"), (utf8 "pattern", .str <| utf8 "on")]
  nodup       := by decide +kernel
  not_decimal := by decide +kernel
  fits _ h    := by
    rw [List.mem_cons, List.mem_singleton] at h
    rcases h with rfl | rfl <;> exact trivial

def registration : PackedRegistration where
  fields            := [(utf8 "msg_type", .str <| utf8 "reg"), (utf8 "sender", .str <| utf8 "a"),
    (utf8 "event", .str <| utf8 "register"),
    (utf8 "payload", .map <| strings [(utf8 "interfaces", .array [interface.object])])]
  payload           := [(utf8 "interfaces", .array [interface.object])]
  fields_nodup      := by
    have hn : [utf8 "msg_type", utf8 "sender", utf8 "event", utf8 "payload"].Nodup := by
      decide +kernel
    exact hn
  payload_nodup     := List.nodup_singleton _
  lookup_payload    := rfl
  interfaces        := some [interface]
  familyName        := none
  lookup_msgType    := rfl
  lookup_interfaces := rfl
  lookup_familyName := rfl

def registrationTokens (interface : List Token) : List Token :=
  [.map 4, .str <| utf8 "msg_type", .str <| utf8 "reg", .str <| utf8 "sender", .str <| utf8 "a",
    .str <| utf8 "event", .str <| utf8 "register", .str <| utf8 "payload", .map 1,
    .str <| utf8 "interfaces", .array 1] ++ interface

def interfaceTokens : List Token :=
  [.str <| utf8 "name", .str <| utf8 "t", .str <| utf8 "pattern", .str <| utf8 "on"]

def Registered (interface : List Token) : Prop :=
  SameRegistration
    (Python.processRegistration (fun _ => .generate (utf8 "a") 1) (.start 0 <| some 10000) 0
      (registrationTokens interface))
    (Cpp.Registry.processRegistration (fun _ family => (ModuleId.generate family 1).val)
      (.start 10000) (registrationTokens interface))

end Sample

theorem same_registration_iff_sample : Sample.Registered (.map 2 :: Sample.interfaceTokens) := by
  obtain ⟨m, hm, hd⟩ : ∃ m, Python.deserialize 0 (Sample.registrationTokens
      (.map 2 :: Sample.interfaceTokens)) = .ok m ∧ m.payload.IsDict := ⟨_, rfl, trivial⟩
  obtain ⟨m', hm'⟩ : ∃ m', Cpp.deserialize (Sample.registrationTokens
      (.map 2 :: Sample.interfaceTokens)) = some m' := ⟨_, rfl⟩
  have hu : Python.unpackb (Sample.registrationTokens (.map 2 :: Sample.interfaceTokens)) =
      .ok (.map <| strings Sample.registration.fields) := rfl
  have hs : Sample.interface.Supported :=
    { name         := ⟨_, rfl⟩
      pattern      := ⟨.on, rfl⟩
      durability   := ⟨.asyncFlush, rfl⟩
      backpressure := ⟨.dropOldest, rfl⟩
      name_str     := ⟨_, rfl⟩
      eventType    := nofun
      dropOldest   := nofun
      depth        := nofun }
  refine (same_registration_iff hu hm hd hm' start_agree).mpr ⟨?_, fun _ => ⟨?_, fun _ => rfl⟩⟩
  · exact iff_of_true (List.forall_mem_singleton.mpr hs.toReadable) nofun
  · exact List.forall_mem_singleton.mpr hs

-- An interface asks for a depth of 100, and gets one of 10000 from the engine in C++.
theorem not_same_registration : ¬Sample.Registered
    (.map 3 :: Sample.interfaceTokens ++ [.str <| utf8 "max_queue_depth", .uint 100]) := by
  intro h
  obtain ⟨hf, -⟩ := h.right _ _ rfl rfl
  cases hf
  case cons hs _ => exact absurd hs.maxQueueDepth nofun

namespace Python

namespace Registry

variable {s : Registry} {m m' : ModuleId} {is : List Interface} {i : Interface} {t topic : Key}

theorem handlers_addInterface : m' ∈ (s.addInterface m i topic).engine.handlers t ↔
    m' ∈ s.engine.handlers t ∨ m' = m ∧ i.pattern = .handle ∧ t = topic := by
  unfold addInterface
  cases i.pattern
  case handle => simp [TycheEngine.mem_addHandler]
  all_goals simp

theorem handlers_addInterfaces (hh : ∀ i ∈ is, i.eventType.Hashable) :
    m' ∈ (addInterfaces m is s).2.engine.handlers t ↔ m' ∈ s.engine.handlers t ∨
      m' = m ∧ ∃ i ∈ is, i.pattern = .handle ∧ i.eventType.hash = .ok t := by
  induction is generalizing s
  case nil          => simp [addInterfaces]
  case cons i is hi =>
    rw [List.forall_mem_cons] at hh
    obtain ⟨topic, ht⟩ := hh.left
    simp only [addInterfaces, ht, hi hh.right, handlers_addInterface, List.exists_mem_cons_iff,
      Except.ok.injEq, or_assoc, ← and_or_left, eq_comm (a := t)]

end Registry

namespace TycheModule

variable {η : Type} {s : TycheModule η} {results : Results η} {a : ModuleAction η}
variable {r : Registration η} {m : Method η} {d : DurabilityLevel} {l : List NamedInterface}
variable {p : InterfacePattern} {family name eventType b : Bytes}

def declare (name eventType : Bytes) (pattern : InterfacePattern) (durability : DurabilityLevel) :
    NamedInterface where
  name       := .str name
  pattern    := pattern
  eventType  := .str eventType
  durability := durability

-- The interfaces of a module have the defaults that a registration does not mention, and it has a
-- handler for each of those that are for jobs.
def Declares (s : TycheModule η) : Prop :=
  ∀ i ∈ s.interfaces, ∃ name eventType p d, i = declare name eventType p d ∧
    (p = .handle → eventType ∈ s.handlers)

theorem Declares.registerHandler (h : s.Declares) : (s.registerHandler r).Declares := by
  intro i hi
  obtain hi | hi := List.mem_append.mp hi
  case inl =>
    obtain ⟨name, eventType, p, d, rfl, hp⟩ := h i hi
    exact ⟨name, eventType, p, d, rfl, fun e => Dict.mem_set.mpr <| .inr <| hp e⟩
  case inr =>
    cases List.mem_singleton.mp hi
    exact ⟨r.name, r.bareName, r.pattern, r.durability, rfl, fun _ => Dict.mem_set.mpr <| .inl rfl⟩

theorem Declares.registerProducer (h : s.Declares) (hp : p ≠ .handle) :
    (s.registerProducer name p).Declares := by
  intro i hi
  obtain hi | hi := List.mem_append.mp hi
  case inl => exact h i hi
  case inr =>
    cases List.mem_singleton.mp hi
    exact ⟨name, producedEvent name, p, .asyncFlush, rfl, fun e => absurd e hp⟩

theorem Declares.discover (h : s.Declares) : (s.discover m).Declares := by
  unfold TycheModule.discover
  cases patternForName m.name
  case none   => exact h
  case some p =>
    by_cases hm : m.Skipped
    case pos => simpa [hm] using h
    case neg =>
      cases p
      case send    => simpa [hm] using h.registerProducer (p := .send) nofun
      case request => simpa [hm] using h.registerProducer (p := .request) nofun
      case on | handle    => simpa [hm] using h.registerHandler

theorem count_interfaces {n : ℤ} : (s.count name n).interfaces = s.interfaces := by
  unfold count
  split <;> rfl

theorem handleJobRequest_interfaces {msg : Message} {o : JobOutcome η}
    (h : s.handleJobRequest results msg = .ok o) : o.module.interfaces = s.interfaces := by
  unfold handleJobRequest at h
  split at h
  case h_2 | h_3 => cases h
  case h_1 event _ =>
    split at h
    case h_1 => cases h; rfl
    case h_2 =>
      split at h
      case h_1 => cases h; rfl
      case h_2 => cases h; rw [count_interfaces, count_interfaces]

theorem Declares.perform (h : s.Declares) : (s.perform results a).Declares := by
  cases a
  case register    => exact h.registerHandler
  case event       => exact h
  case request msg =>
    unfold TycheModule.perform
    dsimp only
    split
    case h_2     => exact h
    case h_1 o e =>
      unfold Declares
      rw [handleJobRequest_interfaces e, handleJobRequest_handlers e]
      exact h

theorem declares (family : Bytes) (C : ModuleClass η) (as : List (ModuleAction η)) :
    ((start family C).performAll results as).Declares := by
  have hn : (⟨family, [], ∅, ∅⟩ : TycheModule η).Declares := fun _ hi => absurd hi List.not_mem_nil
  have hs : (start family C).Declares :=
    List.foldlRecOn C.methods discover hn fun _ h _ _ => h.discover
  exact List.foldlRecOn as (perform results) hs fun _ h _ _ => h.perform

-- The strings that a module registers with can be packed.
structure Sendable (s : TycheModule η) (family : Bytes) : Prop where
  family     : Datum.IsStr family
  names      : ∀ i ∈ s.interfaces, ∀ b, i.name = .str b → Datum.IsStr b
  eventTypes : ∀ i ∈ s.interfaces, ∀ b, i.eventType = .str b → Datum.IsStr b
  length     : s.interfaces.length < 2 ^ 32

theorem createInterface_data (hn : Datum.IsStr name) (he : Datum.IsStr eventType) :
    ∃ data, interfaceData (declare name eventType p d) = some data ∧ data.WellFormed ∧
      data.Untagged ∧ createInterface data.value = .ok (declare name eventType p d) := by
  have hk : [utf8 "name", utf8 "pattern", utf8 "event_type", utf8 "durability"].Nodup := by
    decide +kernel
  have ht : utf8 "__decimal__" ∉
      [utf8 "name", utf8 "pattern", utf8 "event_type", utf8 "durability"] := by
    decide +kernel
  have hp : Datum.IsStr (interfacePatternValue p) := by
    cases p <;> exact ⟨isUtf8_utf8, by decide⟩
  have hd : (Datum.int d.number).WellFormed := by
    cases d <;> exact ⟨by decide, by decide⟩
  refine ⟨_, rfl, ⟨show 4 < 2 ^ 32 from by decide, hk, ?_⟩, ?_, ?_⟩
  case refine_1 =>
    exact ⟨⟨isUtf8_utf8, by decide⟩, hn, ⟨isUtf8_utf8, by decide⟩, hp, ⟨isUtf8_utf8, by decide⟩, he,
      ⟨isUtf8_utf8, by decide⟩, hd, trivial⟩
  case refine_2 => exact ⟨ht, trivial, trivial, trivial, trivial, trivial⟩
  case refine_3 => cases p <;> cases d <;> rfl

theorem createInterfaces_data
    (h : ∀ i ∈ l, ∃ name eventType p d, i = declare name eventType p d)
    (hn : ∀ i ∈ l, ∀ b, i.name = .str b → Datum.IsStr b)
    (he : ∀ i ∈ l, ∀ b, i.eventType = .str b → Datum.IsStr b) :
    ∃ ds, l.mapM interfaceData = some ds ∧ ds.length = l.length ∧ Datum.WellFormedItems ds ∧
      Datum.UntaggedItems ds ∧ (Datum.values ds).mapM createInterface = .ok l := by
  induction l
  case nil          => exact ⟨[], rfl, rfl, trivial, trivial, rfl⟩
  case cons i l hi =>
    rw [List.forall_mem_cons] at h hn he
    obtain ⟨ds, hm, hl, hw, hu, hc⟩ := hi h.right hn.right he.right
    obtain ⟨name, eventType, p, d, rfl⟩ := h.left
    obtain ⟨data, ha, hw', hu', hc'⟩ :=
      createInterface_data (p := p) (d := d) (hn.left _ rfl) (he.left _ rfl)
    refine ⟨data :: ds, ?_, congrArg _ hl, ⟨hw', hw⟩, ⟨hu', hu⟩, ?_⟩
    · rw [List.mapM_cons, ha, hm]
      rfl
    · rw [Datum.values, List.mapM_cons, hc', hc]
      rfl

-- The name that the engine makes the id of.
def knownFamily (family : Bytes) : Bytes :=
  if family = [] then utf8 "unknown" else family

theorem familyName_eq {es : List (Key × Value)}
    (h : es.lookup (.str <| utf8 "family_name") = some (.str family)) :
    familyName es (.str family) = .str (knownFamily family) := by
  rw [familyName, h, knownFamily]
  cases family <;> rfl

theorem wellFormed_adminHandlers : Datum.WellFormed (.list <| adminHandlers.map .str) :=
  ⟨by decide, ⟨isUtf8_utf8, by decide⟩, ⟨isUtf8_utf8, by decide⟩, ⟨isUtf8_utf8, by decide⟩,
    ⟨isUtf8_utf8, by decide⟩, trivial⟩

theorem registerMessage_wellFormed {ds : List Datum} (hf : Datum.IsStr family)
    (hl : ds.length < 2 ^ 32) (hw : Datum.WellFormedItems ds) :
    (registerMessage family ds).WellFormed where
  sender        := hf
  event         := ⟨isUtf8_utf8, show (utf8 "register").length < 2 ^ 32 from by decide⟩
  payload       := by
    have hk : [utf8 "family_name", utf8 "interfaces", utf8 "admin_handlers",
        utf8 "metadata"].Nodup := by
      decide +kernel
    refine ⟨show 4 < 2 ^ 32 from by decide, hk, ?_⟩
    exact ⟨⟨isUtf8_utf8, by decide⟩, hf, ⟨isUtf8_utf8, by decide⟩, ⟨hl, hw⟩,
      ⟨isUtf8_utf8, by decide⟩, wellFormed_adminHandlers, ⟨isUtf8_utf8, by decide⟩,
      ⟨by decide, .nil, trivial⟩, trivial⟩
  recipient     := nofun
  correlationId := nofun

theorem registerMessage_untagged {ds : List Datum} (hu : Datum.UntaggedItems ds) :
    (Datum.dict (registerMessage family ds).payload).Untagged := by
  have ht : utf8 "__decimal__" ∉
      [utf8 "family_name", utf8 "interfaces", utf8 "admin_handlers", utf8 "metadata"] := by
    decide +kernel
  exact ⟨ht, trivial, hu, ⟨trivial, trivial, trivial, trivial, trivial⟩, ⟨nofun, trivial⟩, trivial⟩

-- What the engine is to record of a module.
def recorded (s : TycheModule η) (generate : Value → ModuleId) (family : Bytes) :
    NamedModuleInfo where
  moduleId      := generate <| .str <| knownFamily family
  interfaces    := s.interfaces
  metadata      := .dict []
  familyName    := .str <| knownFamily family
  adminHandlers := .list <| adminHandlers.map .str

theorem Declares.hashable (h : s.Declares) :
    ∀ i ∈ s.interfaces.map (·.toInterface), i.eventType.Hashable := by
  intro i hi
  obtain ⟨j, hj, rfl⟩ := List.mem_map.mp hi
  obtain ⟨name, eventType, p, d, rfl, -⟩ := h j hj
  exact ⟨.str eventType, rfl⟩

theorem Declares.exists_register (h : s.Declares) (hs : s.Sendable family) (n : ℕ)
    (generate : Value → ModuleId) :
    ∃ ts m, s.register family = some ts ∧ deserialize n ts = .ok m ∧ m.msgType = .register ∧
      createModuleInfo generate m = .ok (s.recorded generate family) := by
  have hd : ∀ i ∈ s.interfaces, ∃ name eventType p d, i = declare name eventType p d := by
    intro i hi
    obtain ⟨name, eventType, p, d, he, -⟩ := h i hi
    exact ⟨name, eventType, p, d, he⟩
  obtain ⟨ds, hm, hl, hw, hu, hc⟩ := createInterfaces_data hd hs.names hs.eventTypes
  obtain ⟨ts, ht, hi⟩ := TypedMessage.round_trip n <|
    registerMessage_wellFormed hs.family (hl ▸ hs.length) hw
  obtain ⟨m, hr, hf⟩ := hi.mpr ⟨nofun, registerMessage_untagged hu⟩
  refine ⟨ts, m, by rw [register, hm]; exact ht, hr, hf.msgType, ?_⟩
  rw [createModuleInfo_eq hf.payload <| show _ = Value.list (Datum.values ds) from rfl, hc,
    hf.sender, familyName_eq rfl]
  rfl

theorem processRegistration_of_register (e : Events) (h : s.Declares) {n : ℕ} {ts : List Token}
    {m : FullMessage} {generate : Value → ModuleId} (hr : deserialize n ts = .ok m)
    (ht : m.msgType = .register)
    (hc : createModuleInfo generate m = .ok (s.recorded generate family)) :
    processRegistration generate e n ts = (.ok <| some <| s.recorded generate family,
      (e.registerModule (s.recorded generate family).info).2) := by
  unfold processRegistration
  rw [hr]
  dsimp only
  rw [if_pos ht, hc]
  have ho : (e.registerModule (s.recorded generate family).info).1 = .ok () :=
    registerInterfaces_ok h.hashable
  dsimp only
  generalize e.registerModule (s.recorded generate family).info = z at ho ⊢
  obtain ⟨_, e'⟩ := z
  cases ho
  rfl

-- What a module is to know once it is registered.
def known (p : Ports) (id : Bytes) : Registered where
  moduleId                := .str id
  enginePubPort           := .int p.eventPub.toNat
  engineSubPort           := .int p.eventSub.toNat
  engineJobPort           := .int p.job.toNat
  engineHeartbeatRecvPort := .int p.heartbeatReceive.toNat

theorem registerAck_wellFormed {p : Ports} {id : ModuleId} (hi : Datum.IsStr id.val) :
    (registerAck p id).WellFormed where
  sender        := ⟨isUtf8_utf8, show (utf8 "engine").length < 2 ^ 32 from by decide⟩
  event         := ⟨isUtf8_utf8, show (utf8 "register_ack").length < 2 ^ 32 from by decide⟩
  payload       := by
    have hk : [utf8 "status", utf8 "module_id", utf8 "event_pub_port", utf8 "event_sub_port",
        utf8 "job_port", utf8 "heartbeat_recv_port"].Nodup := by
      decide +kernel
    have hn (x : UInt16) : (Datum.int x.toNat).WellFormed := by
      have := x.toNat_lt
      constructor <;> omega
    exact ⟨show 6 < 2 ^ 32 from by decide, hk, ⟨isUtf8_utf8, by decide⟩, ⟨isUtf8_utf8, by decide⟩,
      ⟨isUtf8_utf8, by decide⟩, hi, ⟨isUtf8_utf8, by decide⟩, hn _, ⟨isUtf8_utf8, by decide⟩, hn _,
      ⟨isUtf8_utf8, by decide⟩, hn _, ⟨isUtf8_utf8, by decide⟩, hn _, trivial⟩
  recipient     := nofun
  correlationId := nofun

theorem registerReply_ack (family : Bytes) (p : Ports) (id : ModuleId) (n : ℕ)
    (hi : Datum.IsStr id.val) :
    ∃ ts, serialize (registerAck p id) = some ts ∧
      registerReply family n ts = .ok (some <| known p id.val) := by
  have ht : utf8 "__decimal__" ∉ [utf8 "status", utf8 "module_id", utf8 "event_pub_port",
      utf8 "event_sub_port", utf8 "job_port", utf8 "heartbeat_recv_port"] := by
    decide +kernel
  obtain ⟨ts, hs, hr⟩ := TypedMessage.round_trip n <| registerAck_wellFormed (p := p) hi
  have hu : (Datum.dict (registerAck p id).payload).Untagged :=
    ⟨ht, trivial, trivial, trivial, trivial, trivial, trivial, trivial⟩
  obtain ⟨m, hd, hm⟩ := hr.mpr ⟨nofun, hu⟩
  refine ⟨ts, hs, ?_⟩
  have ha : m.msgType = .ack := hm.msgType
  unfold registerReply
  rw [hd, ok_bind, if_pos ha, hm.payload]
  rfl

-- The module has declared that it handles such jobs.
def Offers (s : TycheModule η) (b : Bytes) : Prop :=
  ∃ i ∈ s.interfaces, i.pattern = .handle ∧ i.eventType = .str b

-- A request for such a job is given to a handler, unless it is an admin command.
def Takes (results : Results η) (s : TycheModule η) (b : Bytes) : Prop :=
  ∀ msg : Message, msg.event = .str b → adminCommand? b = none →
    ∃ o, s.handleJobRequest results msg = .ok o ∧ o.called.isSome

theorem Declares.takes (h : s.Declares) (ho : s.Offers b) : s.Takes results b := by
  obtain ⟨i, hi, hp, he⟩ := ho
  obtain ⟨name, eventType, p, d, rfl, hh⟩ := h i hi
  cases he
  obtain ⟨entry, hh⟩ := Dict.mem_iff.mp <| hh hp
  intro msg hm hc
  rw [handleJobRequest, hm]
  simp only [hc, hh]
  exact ⟨_, rfl, rfl⟩

theorem Declares.listed_iff (h : s.Declares) {generate : Value → ModuleId} {t : Registry}
    {topic : Key} :
    let info := (s.recorded generate family).info
    info.moduleId ∈ (t.registerModule info).2.engine.handlers topic ↔
      info.moduleId ∈ t.engine.handlers topic ∨ ∃ b, topic = .str b ∧ s.Offers b := by
  intro info
  have hr : (t.registerModule info).2.engine =
      (Registry.addInterfaces info.moduleId info.interfaces (t.enter info)).2.engine := by
    rw [Registry.registerModule_of_hashable h.hashable]
    rfl
  rw [hr]
  refine (Registry.handlers_addInterfaces h.hashable).trans <| or_congr Iff.rfl ?_
  constructor
  case mp  =>
    rintro ⟨-, i, hi, hp, he⟩
    obtain ⟨j, hj, rfl⟩ := List.mem_map.mp hi
    obtain ⟨name, eventType, p, d, rfl, -⟩ := h j hj
    cases he
    exact ⟨eventType, rfl, _, hj, hp, rfl⟩
  case mpr =>
    rintro ⟨b, rfl, i, hi, hp, he⟩
    exact ⟨rfl, i.toInterface, List.mem_map_of_mem hi, hp, by rw [he]; rfl⟩

-- A module that registers is recorded with the interfaces that it declares, and learns the id that
-- it is recorded under and the ports. It is listed for the jobs that it offers, and takes them.
theorem registers (results : Results η) (generate : Value → ModuleId) (p : Ports) (family : Bytes)
    (C : ModuleClass η) (as : List (ModuleAction η)) (n k : ℕ) (e : Events) (t : Registry)
    (hs : ((start family C).performAll results as).Sendable family)
    (hg : Datum.IsStr (generate <| .str <| knownFamily family).val) :
    let s := (start family C).performAll results as
    let info := s.recorded generate family
    ∃ ts ts' e', s.register family = some ts ∧
      processRegistration generate e n ts = (.ok (some info), e') ∧
      serialize (registerAck p info.moduleId) = some ts' ∧
      registerReply family k ts' = .ok (some <| known p info.moduleId.val) ∧
      (∀ topic, info.moduleId ∈ (t.registerModule info.info).2.engine.handlers topic ↔
        info.moduleId ∈ t.engine.handlers topic ∨ ∃ b, topic = .str b ∧ s.Offers b) ∧
      ∀ b, s.Offers b → s.Takes results b := by
  intro s info
  have hd : s.Declares := declares family C as
  obtain ⟨ts, m, hr, hm, ht, hc⟩ := hd.exists_register hs n generate
  obtain ⟨ts', hs', hr'⟩ := registerReply_ack family p info.moduleId k hg
  exact ⟨ts, ts', _, hr, processRegistration_of_register e hd hm ht hc, hs', hr',
    fun _ => hd.listed_iff, fun _ => hd.takes⟩

theorem twoHandlers_sendable : (start (utf8 "m") Sample.twoHandlers).Sendable (utf8 "m") := by
  have hi : (start (utf8 "m") Sample.twoHandlers).interfaces =
      [declare (utf8 "handle_x") (utf8 "x") .handle .asyncFlush,
        declare (utf8 "on_x") (utf8 "x") .on .asyncFlush] := rfl
  have hs (s : String) (h : (utf8 s).length < 2 ^ 32) : Datum.IsStr (utf8 s) := ⟨isUtf8_utf8, h⟩
  constructor
  case family     => exact hs _ <| by decide
  case length     => decide
  case names      =>
    rw [hi]
    rintro i (_ | ⟨_, _ | ⟨_, ⟨⟩⟩⟩) b ⟨⟩ <;> exact hs _ <| by decide
  case eventTypes =>
    rw [hi]
    rintro i (_ | ⟨_, _ | ⟨_, ⟨⟩⟩⟩) b ⟨⟩ <;> exact hs _ <| by decide

theorem registers_sample :
    ∃ ts e', (start (utf8 "m") Sample.twoHandlers).register (utf8 "m") = some ts ∧
      processRegistration (fun _ => .generate (utf8 "m") 1) (.start 0 none) 0 ts =
        (.ok <| some <| (start (utf8 "m") Sample.twoHandlers).recorded
          (fun _ => .generate (utf8 "m") 1) (utf8 "m"), e') := by
  obtain ⟨ts, -, e', hr, hp, -⟩ := registers Sample.handles (fun _ => .generate (utf8 "m") 1)
    ⟨5555, 5556, 5557, 5558⟩ (utf8 "m") Sample.twoHandlers [] 0 0 (.start 0 none) (.start 0)
    twoHandlers_sendable ⟨isUtf8_ascii <| by decide +kernel, by decide +kernel⟩
  exact ⟨ts, e', hr, hp⟩

end TycheModule

end Python
