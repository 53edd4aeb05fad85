import Tyche.Python.Admission
import Tyche.Python.Theorems.Message
import Tyche.Python.Theorems.Registry

namespace Python.Admission

open Msgpack

variable {s : Tables} {m m' : ModuleId} {i : NamedInterface} {is : List NamedInterface} {topic t : Key}
variable {record : Record} {g : Value → ModuleId} {n : ℕ} {ts : List Token}

namespace Tables

@[simp]
theorem interfaces_registerInterface : (s.registerInterface m i topic).interfaces =
    s.interfaces.set topic (s.interfaces.getD topic [] ++ [(m, i)]) := by
  rw [registerInterface]
  cases i.pattern <;> rfl

theorem length_interfaces_registerInterface :
    ((s.registerInterface m i topic).interfaces.getD t []).length =
      (s.interfaces.getD t []).length + if t = topic then 1 else 0 := by
  rw [interfaces_registerInterface, Dict.getD, Dict.get?_set]
  split
  case isTrue h  => subst h; simp
  case isFalse h => rfl

-- No list of interfaces gets shorter.
theorem length_interfaces_le : (s.interfaces.getD t []).length ≤
    ((registerInterfaces m is s).2.interfaces.getD t []).length := by
  induction is generalizing s
  case nil => exact Nat.le_refl _
  case cons i is hi =>
    rw [registerInterfaces]
    split
    case h_1 => exact Nat.le_refl _
    case h_2 topic _ =>
      refine Nat.le_trans ?_ hi
      rw [length_interfaces_registerInterface]
      exact Nat.le_add_right ..

theorem registerInterfaces_eq_ok (h : ∀ i ∈ is, i.eventType.Hashable) :
    (registerInterfaces m is s).1 = .ok () := by
  induction is generalizing s
  case nil => rfl
  case cons i is hi =>
    have ⟨⟨topic, ht⟩, h⟩ := List.forall_mem_cons.mp h
    rw [registerInterfaces, ht]
    exact hi h

theorem registerInterfaces_eq_error (h : ∃ i ∈ is, ¬i.eventType.Hashable) :
    ∃ e, (registerInterfaces m is s).1 = .error e := by
  induction is generalizing s
  case nil =>
    obtain ⟨i, h, -⟩ := h
    cases h
  case cons i is hi =>
    rw [registerInterfaces]
    cases ht : i.eventType.hash
    case error e => exact ⟨e, rfl⟩
    case ok topic =>
      obtain ⟨j, hj, hn⟩ := h
      rcases List.mem_cons.mp hj with rfl | hj
      · exact absurd ⟨topic, ht⟩ hn
      · exact hi ⟨j, hj, hn⟩

-- The first interface that is added makes a list longer.
theorem head_not_hashable (h : (registerInterfaces m is s).2.interfaces = s.interfaces) :
    ∀ i ∈ is.head?, ¬i.eventType.Hashable := by
  intro i hi ⟨topic, ht⟩
  cases is
  case nil => cases hi
  case cons j is =>
    cases hi
    rw [registerInterfaces, ht] at h
    have hl := @length_interfaces_le (s.registerInterface m i topic) m is topic
    rw [h, length_interfaces_registerInterface, if_pos rfl] at hl
    omega

theorem registerInterfaces_eq_self (h : ∀ i ∈ is.head?, ¬i.eventType.Hashable) :
    (registerInterfaces m is s).2 = s := by
  cases is
  case nil => rfl
  case cons i is =>
    rw [registerInterfaces]
    cases ht : i.eventType.hash
    case error e  => rfl
    case ok topic => exact absurd ⟨topic, ht⟩ (h i rfl)

-- A registration that raises leaves the tables as they were.
def AllOrNothing (generate : Value → ModuleId) (s : Tables) (n : ℕ) (ts : List Token) : Prop :=
  ∀ e s', s.processRegistration generate n ts = (.error e, s') → s' = s

-- The module is there already with the same info and the same admin handlers, and there is no
-- interface before one that raises.
structure Repeats (s : Tables) (info : NamedModuleInfo) : Prop where
  module        : s.modules.get? info.moduleId = some (Admission.record info)
  adminHandlers : s.adminHandlers.get? info.moduleId = some info.adminHandlers
  head          : ∀ i ∈ info.interfaces.head?, ¬i.eventType.Hashable

-- The event types of the module info, if there is one, can be looked up.
def Orderly (generate : Value → ModuleId) (s : Tables) (n : ℕ) (ts : List Token) : Prop :=
  ∀ msg info, deserialize n ts = .ok msg → msg.msgType = .register →
    createModuleInfo generate msg = .ok info →
      (∀ i ∈ info.interfaces, i.eventType.Hashable) ∨ s.Repeats info

theorem enter_storeAdminHandlers_eq_self_iff {info : NamedModuleInfo} :
    (s.storeAdminHandlers info).enter (Admission.record info) = s ↔
      s.modules.get? info.moduleId = some (Admission.record info) ∧
        s.adminHandlers.get? info.moduleId = some info.adminHandlers := by
  constructor
  case mp =>
    intro h
    have hm := congrArg (·.modules.get? info.moduleId) h
    have ha := congrArg (·.adminHandlers.get? info.moduleId) h
    exact ⟨hm.symm.trans Dict.get?_set_self, ha.symm.trans Dict.get?_set_self⟩
  case mpr =>
    intro ⟨hm, ha⟩
    have hm : s.modules.set info.moduleId (Admission.record info) = s.modules :=
      Dict.set_of_get? hm
    have ha : s.adminHandlers.set info.moduleId info.adminHandlers = s.adminHandlers :=
      Dict.set_of_get? ha
    change { s with modules := s.modules.set info.moduleId (Admission.record info)
                    adminHandlers := s.adminHandlers.set info.moduleId info.adminHandlers } = s
    rw [hm, ha]

-- The lists of interfaces show whether one has been added before an interface that raises.
theorem repeats_iff {info : NamedModuleInfo} : s.Repeats info ↔
    (registerInterfaces info.moduleId info.interfaces
      ((s.storeAdminHandlers info).enter (Admission.record info))).2 = s := by
  constructor
  case mp =>
    intro h
    rw [registerInterfaces_eq_self h.head]
    exact enter_storeAdminHandlers_eq_self_iff.mpr ⟨h.module, h.adminHandlers⟩
  case mpr =>
    intro h
    have hi := congrArg Tables.interfaces h
    have hh := head_not_hashable
      (s := (s.storeAdminHandlers info).enter (Admission.record info)) hi
    rw [registerInterfaces_eq_self hh] at h
    have ⟨hm, ha⟩ := enter_storeAdminHandlers_eq_self_iff.mp h
    exact ⟨hm, ha, hh⟩

theorem registerModule_of_ok
    (h : (registerInterfaces record.moduleId record.interfaces (s.enter record)).1 = .ok ()) :
    (s.registerModule record).1 = .ok () := by
  rw [registerModule]
  split
  case h_1            => rfl
  case h_2 e s' he    => rw [he] at h; cases h

theorem registerModule_of_error {e : Error}
    (h : (registerInterfaces record.moduleId record.interfaces (s.enter record)).1 = .error e) :
    s.registerModule record =
      (.error e, (registerInterfaces record.moduleId record.interfaces (s.enter record)).2) := by
  rw [registerModule]
  split
  case h_1 s' he      => rw [he] at h; cases h
  case h_2 e' s' he   => rw [he] at h; cases h; rw [he]

section

variable {msg : FullMessage} {info : NamedModuleInfo}
variable (hd : deserialize n ts = .ok msg)
variable (hr : msg.msgType = .register) (hc : createModuleInfo g msg = .ok info)

include hd hr hc

theorem processRegistration_of_hashable (h : ∀ i ∈ info.interfaces, i.eventType.Hashable) :
    (s.processRegistration g n ts).1 = .ok (some info.moduleId) := by
  have ho : ((s.storeAdminHandlers info).registerModule (Admission.record info)).1 = .ok () :=
    registerModule_of_ok <| registerInterfaces_eq_ok h
  rw [processRegistration, hd]
  simp only [if_pos hr, hc]
  split
  case h_1         => rfl
  case h_2 e s' he => rw [he] at ho; cases ho

theorem processRegistration_of_not_hashable (h : ∃ i ∈ info.interfaces, ¬i.eventType.Hashable) :
    ∃ e, s.processRegistration g n ts = (.error e, (registerInterfaces info.moduleId info.interfaces
      ((s.storeAdminHandlers info).enter (Admission.record info))).2) := by
  have ⟨e, he⟩ := registerInterfaces_eq_error h (m := info.moduleId)
    (s := (s.storeAdminHandlers info).enter (Admission.record info))
  have he : (s.storeAdminHandlers info).registerModule (Admission.record info) = _ :=
    registerModule_of_error he
  refine ⟨e, ?_⟩
  rw [processRegistration, hd]
  simp only [if_pos hr, hc, he]
  rfl

end

-- What fails before the module info is made has not written to any table.
theorem processRegistration_eq_self {e : Error} {s' : Tables}
    (h : s.processRegistration g n ts = (.error e, s'))
    (hn : ∀ msg info, deserialize n ts = .ok msg → msg.msgType = .register →
      createModuleInfo g msg ≠ .ok info) : s' = s := by
  rw [processRegistration] at h
  split at h
  case h_1 => exact (Prod.mk.inj h).right.symm
  case h_2 msg hd =>
    split at h
    case isFalse => cases h
    case isTrue hr =>
      split at h
      case h_1         => exact (Prod.mk.inj h).right.symm
      case h_2 info hc => exact absurd hc (hn msg info hd hr)

theorem all_or_nothing_iff (generate : Value → ModuleId) (s : Tables) (n : ℕ) (ts : List Token) :
    s.AllOrNothing generate n ts ↔ s.Orderly generate n ts := by
  constructor
  case mp =>
    intro ha msg info hd hr hc
    by_cases hh : ∀ i ∈ info.interfaces, i.eventType.Hashable
    case pos => exact .inl hh
    case neg =>
      push Not at hh
      have ⟨e, he⟩ := processRegistration_of_not_hashable (s := s) hd hr hc hh
      exact .inr <| repeats_iff.mpr <| ha _ _ he
  case mpr =>
    intro ho e s' he
    by_cases hn : ∃ msg info, deserialize n ts = .ok msg ∧ msg.msgType = .register ∧
        createModuleInfo generate msg = .ok info
    case neg =>
      exact processRegistration_eq_self he fun msg info hd hr hc => hn ⟨msg, info, hd, hr, hc⟩
    case pos =>
      obtain ⟨msg, info, hd, hr, hc⟩ := hn
      by_cases hh : ∀ i ∈ info.interfaces, i.eventType.Hashable
      case pos =>
        have hk := processRegistration_of_hashable (s := s) hd hr hc hh
        rw [he] at hk
        cases hk
      case neg =>
        have hs := (ho msg info hd hr hc).resolve_left hh
        push Not at hh
        have ⟨e', he'⟩ := processRegistration_of_not_hashable (s := s) hd hr hc hh
        rw [repeats_iff.mp hs, he] at he'
        exact (Prod.mk.inj he').right

-- What is stored about a module, what the tables of the topics say about it, and its monitor are
-- the same.
structure Spares (s s' : Tables) (m : ModuleId) : Prop where
  module        : s'.modules.get? m = s.modules.get? m
  adminHandlers : s'.adminHandlers.get? m = s.adminHandlers.get? m
  interfaces    : ∀ t, (s'.interfaces.getD t []).filter (·.1 = m) =
    (s.interfaces.getD t []).filter (·.1 = m)
  subscribers   : ∀ t, (s'.topicSubscribers.getD t []).filter (· = m) =
    (s.topicSubscribers.getD t []).filter (· = m)
  producers     : ∀ t, (s'.topicProducers.getD t []).filter (· = m) =
    (s.topicProducers.getD t []).filter (· = m)
  handlers      : ∀ t, (s'.jobHandlers.getD t []).filter (· = m) =
    (s.jobHandlers.getD t []).filter (· = m)
  monitor       : s'.monitors.get? (.ofModule m) = s.monitors.get? (.ofModule m)

namespace Spares

variable {s₁ s₂ s₃ : Tables}

theorem refl : s.Spares s m :=
  ⟨rfl, rfl, fun _ => rfl, fun _ => rfl, fun _ => rfl, fun _ => rfl, rfl⟩

theorem trans (h : s₁.Spares s₂ m) (h' : s₂.Spares s₃ m) : s₁.Spares s₃ m where
  module        := h'.module.trans h.module
  adminHandlers := h'.adminHandlers.trans h.adminHandlers
  interfaces t  := (h'.interfaces t).trans <| h.interfaces t
  subscribers t := (h'.subscribers t).trans <| h.subscribers t
  producers t   := (h'.producers t).trans <| h.producers t
  handlers t    := (h'.handlers t).trans <| h.handlers t
  monitor       := h'.monitor.trans h.monitor

end Spares

theorem filter_concat_ne {l : List ModuleId} (h : m' ≠ m) :
    (l ++ [m']).filter (· = m) = l.filter (· = m) := by
  rw [List.filter_append, List.filter_singleton, decide_eq_false h]
  exact List.append_nil _

theorem filter_addTo {d : Dict Key (List ModuleId)} (h : m' ≠ m) :
    ((addTo d topic m').getD t []).filter (· = m) = (d.getD t []).filter (· = m) := by
  have hl : ∀ l : List ModuleId,
      (if m' ∈ l then l else l ++ [m']).filter (· = m) = l.filter (· = m) := by
    intro l
    split
    case isTrue  => rfl
    case isFalse => exact filter_concat_ne h
  rw [addTo, Dict.getD, Dict.get?_set]
  split
  case isTrue ht => subst ht; exact hl _
  case isFalse   => rfl

theorem spares_configure (h : m' ≠ m) : s.Spares (s.configure m' i topic) m where
  __ := Spares.refl
  interfaces t := by
    simp only [configure, Dict.getD, Dict.get?_set]
    split
    case isFalse => rfl
    case isTrue ht =>
      subst ht
      rw [Option.getD_some, List.filter_append, List.filter_singleton, decide_eq_false h]
      exact List.append_nil _

theorem spares_registerInterface (h : m' ≠ m) : s.Spares (s.registerInterface m' i topic) m := by
  have hc : s.Spares (s.configure m' i topic) m := spares_configure h
  refine hc.trans ?_
  rw [registerInterface]
  cases i.pattern
  case on      => exact { Spares.refl with subscribers := fun _ => filter_addTo h }
  case send    => exact { Spares.refl with producers := fun _ => filter_addTo h }
  case request => exact { Spares.refl with producers := fun _ => filter_addTo h }
  case handle  => exact { Spares.refl with handlers := fun _ => filter_addTo h }

theorem spares_registerInterfaces (h : m' ≠ m) : s.Spares (registerInterfaces m' is s).2 m := by
  induction is generalizing s
  case nil => exact .refl
  case cons i is hi =>
    rw [registerInterfaces]
    split
    case h_1 => exact .refl
    case h_2 => exact (spares_registerInterface h).trans hi

theorem spares_enter (h : record.moduleId ≠ m) : s.Spares (s.enter record) m :=
  { Spares.refl with module := Dict.get?_set_ne h.symm }

theorem spares_watch (h : m' ≠ m) : s.Spares (s.watch m') m :=
  { Spares.refl with monitor := Dict.get?_set_ne fun he => h (Registry.ofModule_inj.mp he).symm }

theorem spares_storeAdminHandlers {info : NamedModuleInfo} (h : info.moduleId ≠ m) :
    s.Spares (s.storeAdminHandlers info) m :=
  { Spares.refl with adminHandlers := Dict.get?_set_ne h.symm }

theorem spares_registerModule (h : record.moduleId ≠ m) : s.Spares (s.registerModule record).2 m := by
  have hi : s.Spares
      (registerInterfaces record.moduleId record.interfaces (s.enter record)).2 m :=
    (spares_enter h).trans <| spares_registerInterfaces h
  rw [registerModule]
  split
  case h_1 s' he   => exact (he ▸ hi).trans <| spares_watch h
  case h_2 e s' he => exact he ▸ hi

-- A registration only changes what there is about the module that it makes the info of.
theorem spares_processRegistration (h : ∀ msg info, deserialize n ts = .ok msg →
    msg.msgType = .register → createModuleInfo g msg = .ok info → info.moduleId ≠ m) :
    s.Spares (s.processRegistration g n ts).2 m := by
  rw [processRegistration]
  split
  case h_1 => exact .refl
  case h_2 msg hd =>
    split
    case isFalse => exact .refl
    case isTrue hr =>
      split
      case h_1 => exact .refl
      case h_2 info hc =>
        have hn := h msg info hd hr hc
        have hs : s.Spares
            ((s.storeAdminHandlers info).registerModule (Admission.record info)).2 m :=
          (spares_storeAdminHandlers hn).trans <| spares_registerModule hn
        split
        case h_1 s' he   => rw [he] at hs; exact { hs with }
        case h_2 e s' he => rw [he] at hs; exact hs

-- The family that a message names.
def family (msg : FullMessage) : Except Error Value := do
  let familyName ← get "family_name" msg.payload
  return (familyName.or msg.sender).or <| .str <| utf8 "unknown"

theorem family_createModuleInfo {msg : FullMessage} {info : NamedModuleInfo}
    (h : createModuleInfo g msg = .ok info) :
    family msg = .ok info.familyName ∧ info.moduleId = g info.familyName := by
  rw [createModuleInfo, bind_eq_ok] at h
  obtain ⟨familyName, hf, h⟩ := h
  simp only [bind_eq_ok] at h
  obtain ⟨_, -, _, -, _, -, _, -, _, -, h⟩ := h
  cases Except.ok.inj h
  exact ⟨by rw [family, hf]; rfl, rfl⟩

variable (format : Value → Bytes) (suffix : Fin (2 ^ 24)) (s n ts)

-- The modules that are registered stay as they are, and the new id is not one of theirs.
def OnlyNewcomer : Prop :=
  (∀ m ∈ s.modules, s.Spares (s.processRegistration (generate format suffix) n ts).2 m) ∧
  ∀ msg info, deserialize n ts = .ok msg → msg.msgType = .register →
    createModuleInfo (generate format suffix) msg = .ok info → info.moduleId ∉ s.modules

-- The family with the digits that are drawn is not the id of a registered module, or there is no
-- module info that can be made of the message.
def DrawsNew : Prop :=
  ∀ msg v, deserialize n ts = .ok msg → msg.msgType = .register → family msg = .ok v →
    generate format suffix v ∈ s.modules →
      ∃ e, createModuleInfo (generate format suffix) msg = .error e

theorem only_newcomer_iff : s.OnlyNewcomer n ts format suffix ↔ s.DrawsNew n ts format suffix := by
  constructor
  case mp =>
    intro ⟨_, hn⟩ msg v hd hr hf hm
    cases hc : createModuleInfo (generate format suffix) msg
    case error e => exact ⟨e, rfl⟩
    case ok info =>
      have ⟨hv, hi⟩ := family_createModuleInfo hc
      cases hf.symm.trans hv
      exact absurd (hi ▸ hm) (hn msg info hd hr hc)
  case mpr =>
    intro hf
    have hn : ∀ msg info, deserialize n ts = .ok msg → msg.msgType = .register →
        createModuleInfo (generate format suffix) msg = .ok info → info.moduleId ∉ s.modules := by
      intro msg info hd hr hc hm
      have ⟨hv, hi⟩ := family_createModuleInfo hc
      have ⟨e, he⟩ := hf msg _ hd hr hv (hi ▸ hm)
      cases hc.symm.trans he
    refine ⟨fun m hm => spares_processRegistration fun msg info hd hr hc he => ?_, hn⟩
    exact hn msg info hd hr hc (he ▸ hm)

end Tables

namespace Sample

def interface (eventType : Token) : List Token :=
  [.map 3, .str <| utf8 "name", .str <| utf8 "t", .str <| utf8 "pattern", .str <| utf8 "on",
    .str <| utf8 "event_type", eventType]

-- A registration of the family a.
def registration (interfaces : List (List Token)) : List Token :=
  [.map 4, .str <| utf8 "msg_type", .str <| utf8 "reg", .str <| utf8 "sender", .str <| utf8 "a",
    .str <| utf8 "event", .str <| utf8 "register", .str <| utf8 "payload", .map 1,
    .str <| utf8 "interfaces", .array <| .ofNat _ interfaces.length] ++ interfaces.flatten

theorem suffix_lt : 0 < 2 ^ 24 :=
  Nat.two_pow_pos 24

def register (s : Tables) (interfaces : List (List Token)) : Except Error (Option ModuleId) × Tables :=
  s.processRegistration (generate (fun _ => []) ⟨0, suffix_lt⟩) 0 <| registration interfaces

end Sample

namespace Tables

-- The second of two event types is a list, and the module stays without a monitor.
theorem not_all_or_nothing : ¬Tables.empty.AllOrNothing (generate (fun _ => []) 0) 0
    (Sample.registration [Sample.interface <| .str <| utf8 "t", Sample.interface <| .array 0]) := by
  intro h
  have hs := h _ _ rfl
  exact absurd (congrArg (·.modules.keys.length) hs) (by decide +kernel)

-- The same digits are drawn for two modules of one family, the second of which has no interfaces.
theorem not_only_newcomer :
    ¬(Sample.register .empty [Sample.interface <| .str <| utf8 "t"]).2.OnlyNewcomer 0
      (Sample.registration []) (fun _ => []) 0 := by
  intro h
  have hm : ModuleId.generate (utf8 "a") 0 ∈
      (Sample.register .empty [Sample.interface <| .str <| utf8 "t"]).2.modules := by
    decide +kernel
  have hs := (h.left _ hm).module
  exact absurd (congrArg (·.map (·.interfaces.length)) hs) (by decide +kernel)

end Tables

end Python.Admission
