import Mathlib.Data.Set.List
import Tyche.Python.Registry
import Tyche.Python.Theorems.Serves

namespace Python

namespace Registry

variable {deserialize : Bytes → Option Message} {works : Output → Bool} {s s' : Registry}
variable {m : ModuleId} {i : Interface} {is : List Interface} {topic : Key} {info : ModuleInfo}
variable {a : Action}

-- The interfaces that the module has registered. A module that is not registered has none.
def registered (s : Registry) (m : ModuleId) : List Interface :=
  (s.modules.get? m).elim [] ModuleInfo.interfaces

-- What the tables of the interfaces say about the module comes from these interfaces.
structure Covered (s : Registry) (m : ModuleId) (is : List Interface) : Prop where
  interfaces  : ∀ topic i, (m, i) ∈ s.interfaces.getD topic [] → i ∈ is ∧ i.eventType.hash = .ok topic
  subscribers : ∀ topic, m ∈ s.topicSubscribers.getD topic [] →
    ∃ i ∈ is, i.eventType.hash = .ok topic ∧ i.pattern = .on
  producers   : ∀ topic, m ∈ s.topicProducers.getD topic [] →
    ∃ i ∈ is, i.eventType.hash = .ok topic ∧ (i.pattern = .send ∨ i.pattern = .request)
  handlers    : ∀ topic, m ∈ s.engine.handlers topic →
    ∃ i ∈ is, i.eventType.hash = .ok topic ∧ i.pattern = .handle

-- The tables only mention modules that are registered, and only by their current interfaces.
structure Clean (s : Registry) : Prop where
  covered  : ∀ m, s.Covered m (s.registered m)
  admins   : ∀ m ∈ s.adminHandlers, m ∈ s.modules
  reports  : ∀ m, Key.ofModule m ∈ s.engine.moduleAvailability → m ∈ s.modules
  marks    : ∀ m, Key.ofModule m ∈ s.engine.unavailableHandlers → m ∈ s.modules
  monitors : ∀ m, Key.ofModule m ∈ s.monitors → m ∈ s.modules

-- A module that registers again keeps the interfaces that it is known by, a heartbeat comes from a
-- registered module, and the interfaces of an expired module can be looked up.
def Orderly (s : Registry) : Action → Prop
  | .register info _ => s.Covered info.moduleId info.interfaces
  | .heartbeat msg _ => ∀ k, msg.sender.hash = .ok k → ∃ m ∈ s.modules, k = .ofModule m
  | .monitor         =>
    ∀ k ∈ s.tickAll.expired, ∀ m ∈ k.moduleId?, ∀ i ∈ s.registered m, i.eventType.Hashable
  | _                => True

structure Inv (s : Registry) : Prop where
  covered : ∀ m, s.Covered m (s.registered m)
  admins  : ∀ m ∈ s.adminHandlers, m ∈ s.modules
  watched : ∀ k ∈ s.monitors, ∃ m ∈ s.modules, k = .ofModule m
  serves  : s.engine.Serves (· ∈ s.modules)
  modules : ∀ m, m ∈ s.engine.modules ↔ m ∈ s.modules
  nodup   : s.engine.modules.Nodup

theorem ofModule_inj {m m' : ModuleId} : Key.ofModule m = .ofModule m' ↔ m = m' :=
  ⟨fun h => Subtype.ext <| Key.str.inj h, congrArg _⟩

theorem Inv.clean (h : s.Inv) : s.Clean where
  covered  := h.covered
  admins   := h.admins
  reports  := h.serves.reports
  marks    := h.serves.marks
  monitors m hm := by
    obtain ⟨m', hm', he⟩ := h.watched _ hm
    exact ofModule_inj.mp he ▸ hm'

theorem mem_registered (hi : i ∈ s.registered m) : m ∈ s.modules := by
  cases hm : s.modules.get? m
  case none => simp [registered, hm] at hi
  case some => exact Dict.mem_of_get? hm

theorem Covered.mono {is' : List Interface} (h : s.Covered m is) (hi : ∀ i ∈ is, i ∈ is') :
    s.Covered m is' where
  interfaces t i hm  := (h.interfaces t i hm).imp_left (hi i)
  subscribers t hm   := (h.subscribers t hm).imp fun i => And.imp_left (hi i)
  producers t hm     := (h.producers t hm).imp fun i => And.imp_left (hi i)
  handlers t hm      := (h.handlers t hm).imp fun i => And.imp_left (hi i)

-- What the job router does keeps the tables clean.
theorem Inv.engine {e : TycheEngine} (h : s.Inv) (he : e.Serves (· ∈ s.modules))
    (hh : e.jobHandlers = s.engine.jobHandlers) (hm : e.modules = s.engine.modules) :
    Inv { s with engine := e } where
  covered m :=
    { h.covered m with
      handlers := fun t ht => (h.covered m).handlers t <| by
        simpa [TycheEngine.handlers, hh] using ht }
  admins  := h.admins
  watched := h.watched
  serves  := he
  modules := hm ▸ h.modules
  nodup   := hm ▸ h.nodup

theorem Covered.enter {admins : Option Value} {m' : ModuleId} (h : s.Covered m' is) :
    ((s.createModuleInfo m admins).enter info).Covered m' is := by
  cases admins <;> exact ⟨h.interfaces, h.subscribers, h.producers, h.handlers⟩

theorem modules_createModuleInfo {admins : Option Value} :
    (s.createModuleInfo m admins).modules = s.modules := by
  cases admins <;> rfl

theorem registered_enter {admins : Option Value} :
    ((s.createModuleInfo info.moduleId admins).enter info).registered m =
      if m = info.moduleId then info.interfaces else s.registered m := by
  simp only [registered, enter, modules_createModuleInfo, Dict.get?_set]
  split <;> rfl

theorem Inv.enter {admins : Option Value} (h : s.Inv) (hc : s.Covered info.moduleId info.interfaces) :
    ((s.createModuleInfo info.moduleId admins).enter info).Inv := by
  have hm {m} : m ∈ ((s.createModuleInfo info.moduleId admins).enter info).modules ↔
      m = info.moduleId ∨ m ∈ s.modules := by
    simp only [Registry.enter, modules_createModuleInfo, Dict.mem_set]
  have hi {m} (h : m ∈ s.modules) :
      m ∈ ((s.createModuleInfo info.moduleId admins).enter info).modules := hm.mpr <| .inr h
  have he : (s.createModuleInfo info.moduleId admins).engine = s.engine := by
    cases admins <;> rfl
  constructor
  case covered =>
    intro m
    rw [registered_enter]
    split
    case isTrue hm => exact (hm ▸ hc).enter
    case isFalse   => exact (h.covered m).enter
  case admins  =>
    intro m ha
    cases admins
    case none   => exact hi <| h.admins m ha
    case some v =>
      have ha : m ∈ s.adminHandlers.set info.moduleId v := ha
      exact hm.mpr <| (Dict.mem_set.mp ha).imp_right <| h.admins m
  case watched =>
    intro k hk
    have hk : k ∈ s.monitors := by cases admins <;> exact hk
    exact (h.watched k hk).imp fun m => And.imp_left hi
  case serves  =>
    simp only [Registry.enter, he]
    exact ⟨fun t m ht => hi <| h.serves.handlers t m ht, fun m hr => hi <| h.serves.reports m hr,
      fun m hr => hi <| h.serves.marks m hr,
      fun c info ht m hh => hi <| h.serves.tracked c info ht m hh⟩
  case modules =>
    intro m
    rw [hm]
    simp [Registry.enter, he, h.modules]
  case nodup   =>
    simp only [Registry.enter, he]
    exact h.nodup.insert

theorem mem_addTo {d : Dict Key (List ModuleId)} {t : Key} {m' : ModuleId} :
    m' ∈ (addTo d topic m).getD t [] ↔ m' ∈ d.getD t [] ∨ m' = m ∧ t = topic := by
  simp only [addTo, Dict.getD, Dict.get?_set]
  by_cases ht : t = topic
  case neg => simp [ht]
  case pos =>
    subst ht
    simp only [if_true, Option.getD_some, and_true]
    by_cases hm : m ∈ (d.get? t).getD []
    case pos => simpa [hm] using fun e => e ▸ hm
    case neg => simp [hm]

theorem mem_addInterface_interfaces {t : Key} {m' : ModuleId} {j : Interface} :
    (m', j) ∈ (s.addInterface m i topic).interfaces.getD t [] ↔
      (m', j) ∈ s.interfaces.getD t [] ∨ t = topic ∧ m' = m ∧ j = i := by
  have he : (s.addInterface m i topic).interfaces =
      s.interfaces.set topic (s.interfaces.getD topic [] ++ [(m, i)]) := by
    unfold addInterface
    cases i.pattern <;> rfl
  simp only [he, Dict.getD, Dict.get?_set]
  by_cases ht : t = topic <;> simp [ht]

theorem Covered.addInterface {m' : ModuleId} (h : s.Covered m' is) (hi : m' = m → i ∈ is)
    (ht : i.eventType.hash = .ok topic) : (s.addInterface m i topic).Covered m' is := by
  constructor
  case interfaces =>
    intro t j hj
    obtain hj | ⟨rfl, hm, rfl⟩ := mem_addInterface_interfaces.mp hj
    · exact h.interfaces t j hj
    · exact ⟨hi hm, ht⟩
  all_goals
    intro t hm
    unfold Registry.addInterface at hm
    cases hp : i.pattern <;> simp only [hp] at hm
  case subscribers.on =>
    obtain hm | ⟨he, rfl⟩ := mem_addTo.mp hm
    · exact h.subscribers t hm
    · exact ⟨i, hi he, ht, hp⟩
  case producers.send =>
    obtain hm | ⟨he, rfl⟩ := mem_addTo.mp hm
    · exact h.producers t hm
    · exact ⟨i, hi he, ht, .inl hp⟩
  case producers.request =>
    obtain hm | ⟨he, rfl⟩ := mem_addTo.mp hm
    · exact h.producers t hm
    · exact ⟨i, hi he, ht, .inr hp⟩
  case handlers.handle =>
    obtain hm | ⟨he, rfl⟩ := TycheEngine.mem_addHandler.mp hm
    · exact h.handlers t hm
    · exact ⟨i, hi he, ht, hp⟩
  all_goals first | exact h.subscribers t hm | exact h.producers t hm | exact h.handlers t hm

theorem modules_addInterface : (s.addInterface m i topic).modules = s.modules := by
  unfold addInterface
  cases i.pattern <;> rfl

theorem Inv.addInterface (h : s.Inv) (hi : i ∈ s.registered m) (ht : i.eventType.hash = .ok topic) :
    (s.addInterface m i topic).Inv := by
  have hm : (s.addInterface m i topic).modules = s.modules := modules_addInterface
  have hr m' : (s.addInterface m i topic).registered m' = s.registered m' := by
    simp only [registered, hm]
  have he : (s.addInterface m i topic).engine = s.engine ∨
      (s.addInterface m i topic).engine = s.engine.addHandler m topic := by
    unfold Registry.addInterface
    cases i.pattern <;> first | exact .inl rfl | exact .inr rfl
  constructor
  case covered =>
    intro m'
    rw [hr]
    exact (h.covered m').addInterface (fun e => e ▸ hi) ht
  case admins  =>
    have ha : (s.addInterface m i topic).adminHandlers = s.adminHandlers := by
      unfold Registry.addInterface
      cases i.pattern <;> rfl
    simpa only [ha, hm] using h.admins
  case watched =>
    have ha : (s.addInterface m i topic).monitors = s.monitors := by
      unfold Registry.addInterface
      cases i.pattern <;> rfl
    simpa only [ha, hm] using h.watched
  case serves  =>
    rw [hm]
    obtain he | he := he <;> rw [he]
    case inl => exact h.serves
    case inr =>
      refine ⟨fun t m' hh => ?_, h.serves.reports, h.serves.marks, h.serves.tracked⟩
      obtain hh | ⟨rfl, _⟩ := TycheEngine.mem_addHandler.mp hh
      · exact h.serves.handlers t m' hh
      · exact mem_registered hi
  case modules =>
    rw [hm]
    obtain he | he := he <;> rw [he] <;> exact h.modules
  case nodup   =>
    obtain he | he := he <;> rw [he] <;> exact h.nodup

theorem modules_addInterfaces : (addInterfaces m is s).2.modules = s.modules := by
  induction is generalizing s
  case nil          => rfl
  case cons i is hi =>
    unfold addInterfaces
    split
    · rfl
    · exact hi.trans modules_addInterface

theorem Inv.addInterfaces (h : s.Inv) (hi : ∀ i ∈ is, i ∈ s.registered m) :
    (addInterfaces m is s).2.Inv := by
  induction is generalizing s
  case nil          => exact h
  case cons i is ih =>
    unfold Registry.addInterfaces
    split
    case h_1          => exact h
    case h_2 topic ht =>
      apply ih (h.addInterface (hi i List.mem_cons_self) ht)
      intro j hj
      simp only [registered, modules_addInterface]
      exact hi j <| List.mem_cons_of_mem _ hj

theorem Inv.watch (h : s.Inv) (hm : m ∈ s.modules) : (s.watch m).Inv where
  covered m'   := { h.covered m' with }
  admins       := h.admins
  watched k hk := (Dict.mem_set.mp hk).elim (fun e => ⟨m, hm, e⟩) (h.watched k)
  serves       := h.serves
  modules      := h.modules
  nodup        := h.nodup

theorem Inv.registerModule {admins : Option Value} (h : s.Inv)
    (hc : s.Covered info.moduleId info.interfaces) :
    ((s.createModuleInfo info.moduleId admins).registerModule info).2.Inv := by
  have hr : ((s.createModuleInfo info.moduleId admins).enter info).registered info.moduleId =
      info.interfaces := by
    rw [registered_enter, if_pos rfl]
  have he : ((s.createModuleInfo info.moduleId admins).enter info).Inv := h.enter hc
  have ha := he.addInterfaces (m := info.moduleId) fun _ hi => hr ▸ hi
  have hm : info.moduleId ∈ (Registry.addInterfaces info.moduleId info.interfaces
      ((s.createModuleInfo info.moduleId admins).enter info)).2.modules := by
    rw [modules_addInterfaces]
    exact Dict.mem_set.mpr <| .inl rfl
  unfold Registry.registerModule
  split
  case h_1 hs => rw [hs] at ha hm; exact ha.watch hm
  case h_2 hs => rw [hs] at ha; exact ha

-- The module is in no table of the topic, except for that of the job handlers.
structure Gone (s : Registry) (m : ModuleId) (topic : Key) : Prop where
  interfaces  : ∀ i, (m, i) ∉ s.interfaces.getD topic []
  subscribers : m ∉ s.topicSubscribers.getD topic []
  producers   : m ∉ s.topicProducers.getD topic []

theorem mem_removeFrom {d : Dict Key (List ModuleId)} {t : Key} {m' : ModuleId} :
    m' ∈ (Events.removeFrom d topic m).getD t [] ↔
      m' ∈ d.getD t [] ∧ ¬(m' = m ∧ t = topic) := by
  unfold Events.removeFrom
  split
  case isTrue hd  =>
    simp only [Dict.getD, Dict.get?_set]
    by_cases ht : t = topic <;> simp [ht]
  case isFalse hd =>
    simp only [Dict.getD]
    by_cases ht : t = topic
    case neg => simp [ht]
    case pos => simp [ht, Dict.get?_eq_none_iff.mpr hd]

theorem mem_removeInterface {t : Key} {m' : ModuleId} {j : Interface} :
    (m', j) ∈ (s.removeInterface m topic).interfaces.getD t [] ↔
      (m', j) ∈ s.interfaces.getD t [] ∧ ¬(m' = m ∧ t = topic) := by
  unfold removeInterface
  dsimp only
  split
  case isTrue hd  =>
    simp only [Dict.getD, Dict.get?_set]
    by_cases ht : t = topic <;> simp [ht]
  case isFalse hd =>
    simp only [Dict.getD]
    by_cases ht : t = topic
    case neg => simp [ht]
    case pos => simp [ht, Dict.get?_eq_none_iff.mpr hd]

theorem Inv.removeInterface (h : s.Inv) : (s.removeInterface m topic).Inv where
  covered m' :=
    { interfaces  := fun t i hm => (h.covered m').interfaces t i (mem_removeInterface.mp hm).left
      subscribers := fun t hm => (h.covered m').subscribers t (mem_removeFrom.mp hm).left
      producers   := fun t hm => (h.covered m').producers t (mem_removeFrom.mp hm).left
      handlers    := (h.covered m').handlers }
  admins  := h.admins
  watched := h.watched
  serves  := h.serves
  modules := h.modules
  nodup   := h.nodup

theorem gone_removeInterface : (s.removeInterface m topic).Gone m topic where
  interfaces _ hm := (mem_removeInterface.mp hm).right ⟨rfl, rfl⟩
  subscribers hm  := (mem_removeFrom.mp hm).right ⟨rfl, rfl⟩
  producers hm    := (mem_removeFrom.mp hm).right ⟨rfl, rfl⟩

theorem Gone.removeInterface {t : Key} (h : s.Gone m t) : (s.removeInterface m topic).Gone m t where
  interfaces i hm := h.interfaces i (mem_removeInterface.mp hm).left
  subscribers hm  := h.subscribers (mem_removeFrom.mp hm).left
  producers hm    := h.producers (mem_removeFrom.mp hm).left

-- The tables that the removal of interfaces leaves alone.
structure Unregistering (s s' : Registry) : Prop where
  engine        : s'.engine = s.engine
  modules       : s'.modules = s.modules
  adminHandlers : s'.adminHandlers = s.adminHandlers
  monitors      : s'.monitors = s.monitors

theorem removeInterfaces_unregistering : Unregistering s (removeInterfaces m is s).2 := by
  induction is generalizing s
  case nil          => exact ⟨rfl, rfl, rfl, rfl⟩
  case cons i is hi =>
    unfold removeInterfaces
    split
    case h_1 => exact ⟨rfl, rfl, rfl, rfl⟩
    case h_2 => exact ⟨hi.engine, hi.modules, hi.adminHandlers, hi.monitors⟩

theorem Inv.removeInterfaces (h : s.Inv) : (removeInterfaces m is s).2.Inv := by
  induction is generalizing s
  case nil          => exact h
  case cons i is hi =>
    unfold Registry.removeInterfaces
    split
    case h_1 => exact h
    case h_2 => exact hi h.removeInterface

theorem Gone.removeInterfaces (h : s.Gone m topic) : (removeInterfaces m is s).2.Gone m topic := by
  induction is generalizing s
  case nil          => exact h
  case cons i is hi =>
    unfold Registry.removeInterfaces
    split
    case h_1 => exact h
    case h_2 => exact hi h.removeInterface

theorem gone_removeInterfaces (hr : (removeInterfaces m is s).1 = .ok ()) (hi : i ∈ is)
    (ht : i.eventType.hash = .ok topic) : (removeInterfaces m is s).2.Gone m topic := by
  induction is generalizing s
  case nil          => cases hi
  case cons j is ih =>
    unfold removeInterfaces at hr ⊢
    split at hr
    case h_1         => cases hr
    case h_2 topic' hj =>
      cases hi
      case head    =>
        cases ht.symm.trans hj
        exact gone_removeInterface.removeInterfaces
      case tail hi => exact ih hr hi

theorem removeInterfaces_ok (hh : ∀ i ∈ is, i.eventType.Hashable) :
    (removeInterfaces m is s).1 = .ok () := by
  induction is generalizing s
  case nil          => rfl
  case cons i is hi =>
    obtain ⟨topic, ht⟩ := hh i List.mem_cons_self
    simp only [removeInterfaces, ht]
    exact hi fun j hj => hh j <| List.mem_cons_of_mem _ hj

theorem Inv.leave (h : s.Inv) (hm : m ∈ s.modules) (hg : ∀ topic, s.Gone m topic) :
    (s.leave m).Inv := by
  have hs : m ∈ s.engine.modules := (h.modules m).mpr hm
  have hr {m'} (hn : m' ≠ m) : (s.leave m).registered m' = s.registered m' := by
    simp only [registered, Registry.leave, Dict.get?_erase_ne hn]
  have hh {t m'} : m' ∈ (s.leave m).engine.handlers t ↔ m' ∈ s.engine.handlers t ∧ m' ≠ m := by
    simp [Registry.leave, TycheEngine.unregisterModule_handlers hs]
  have he : (s.leave m).engine.modules = s.engine.modules.erase m := by
    simp [Registry.leave, TycheEngine.unregisterModule, hs]
  constructor
  case covered =>
    intro m'
    by_cases hn : m' = m
    case pos =>
      subst hn
      exact
        { interfaces  := fun t i hi => absurd hi <| (hg t).interfaces i
          subscribers := fun t hi => absurd hi (hg t).subscribers
          producers   := fun t hi => absurd hi (hg t).producers
          handlers    := fun t hi => absurd rfl (hh.mp hi).right }
    case neg =>
      rw [hr hn]
      exact
        { interfaces  := (h.covered m').interfaces
          subscribers := (h.covered m').subscribers
          producers   := (h.covered m').producers
          handlers    := fun t hi => (h.covered m').handlers t (hh.mp hi).left }
  case admins  =>
    intro m' ha
    obtain ⟨hn, ha⟩ := Dict.mem_erase.mp ha
    exact Dict.mem_erase.mpr ⟨hn, h.admins m' ha⟩
  case watched =>
    intro k hk
    obtain ⟨hn, hk⟩ := Dict.mem_erase.mp hk
    obtain ⟨m', hm', rfl⟩ := h.watched k hk
    exact ⟨m', Dict.mem_erase.mpr ⟨fun e => hn <| e ▸ rfl, hm'⟩, rfl⟩
  case serves  =>
    have hu := h.serves.unregisterModule hs
    simpa only [Registry.leave, Dict.mem_erase, and_comm] using hu
  case modules =>
    intro m'
    rw [he, h.nodup.mem_erase_iff, h.modules]
    exact Dict.mem_erase.symm
  case nodup   => exact he ▸ h.nodup.erase m

theorem Inv.gone (h : s.Inv) (hr : s.registered m = is)
    (hg : ∀ i ∈ is, ∀ t, i.eventType.hash = .ok t → s.Gone m t) : s.Gone m topic where
  interfaces i hm := by
    obtain ⟨hi, ht⟩ := (h.covered m).interfaces topic i hm
    exact (hg i (hr ▸ hi) topic ht).interfaces i hm
  subscribers hm  := by
    obtain ⟨i, hi, ht, _⟩ := (h.covered m).subscribers topic hm
    exact (hg i (hr ▸ hi) topic ht).subscribers hm
  producers hm    := by
    obtain ⟨i, hi, ht, _⟩ := (h.covered m).producers topic hm
    exact (hg i (hr ▸ hi) topic ht).producers hm

theorem Inv.unregisterModule (h : s.Inv) : (s.unregisterModule m).2.Inv := by
  unfold Registry.unregisterModule
  split
  case h_1         => exact h
  case h_2 info hm =>
    have hi : (Registry.removeInterfaces m info.interfaces s).2.Inv := h.removeInterfaces
    have hu : Unregistering s (Registry.removeInterfaces m info.interfaces s).2 :=
      removeInterfaces_unregistering
    have hg {i topic} (hr : (Registry.removeInterfaces m info.interfaces s).1 = .ok ())
      (hi : i ∈ info.interfaces) (ht : i.eventType.hash = .ok topic) :
      (Registry.removeInterfaces m info.interfaces s).2.Gone m topic :=
        gone_removeInterfaces hr hi ht
    generalize Registry.removeInterfaces m info.interfaces s = x at hi hu hg
    obtain ⟨_ | _, s'⟩ := x
    case error => exact hi
    case ok    =>
      have hs : s'.modules = s.modules := hu.modules
      have hr : s'.registered m = info.interfaces := by simp [registered, hs, hm]
      exact hi.leave (hs ▸ Dict.mem_of_get? hm) fun _ => hi.gone hr fun _ hi _ ht => hg rfl hi ht

theorem Inv.tickAll (h : s.Inv) : s.tickAll.Inv where
  covered m    := { h.covered m with }
  admins       := h.admins
  watched k hk := h.watched k <| Dict.mem_mapVal.mp hk
  serves       := h.serves
  modules      := h.modules
  nodup        := h.nodup

theorem Inv.unregisterAll {ks : List Key} (h : s.Inv) : (unregisterAll ks s).2.Inv := by
  induction ks generalizing s
  case nil          => exact h
  case cons k ks hi =>
    unfold Registry.unregisterAll
    have hu : (k.moduleId?.elim (.ok (), s) s.unregisterModule).2.Inv := by
      cases k.moduleId?
      case none   => exact h
      case some m => exact h.unregisterModule
    split
    case h_1 hs => rw [hs] at hu; exact hi hu
    case h_2 hs => rw [hs] at hu; exact hu

theorem Inv.heartbeat {msg : Message} (h : s.Inv)
    (hk : ∀ k, msg.sender.hash = .ok k → ∃ m ∈ s.modules, k = .ofModule m) :
    (s.heartbeat deserialize works msg).Inv := by
  unfold Registry.heartbeat
  split
  case h_1         => exact h
  case h_2 peer he =>
    have hu : (s.updateMonitor peer).Inv :=
      { covered m    := { h.covered m with }
        admins       := h.admins
        watched k hm := (Dict.mem_set.mp hm).elim (fun e => e ▸ hk peer he) (h.watched k)
        serves       := h.serves
        modules      := h.modules
        nodup        := h.nodup }
    refine hu.engine ?_ TycheEngine.run_jobHandlers TycheEngine.run_modules
    refine h.serves.handleHeartbeat fun m hm => ?_
    obtain ⟨m', hm', e⟩ := hk _ hm
    exact ofModule_inj.mp e ▸ hm'

theorem Inv.step (h : s.Inv) (ho : s.Orderly a) (e : s.step deserialize a = some s') : s'.Inv := by
  cases a <;> cases e
  case tick                  => exact h.engine (h.serves.of_tracking rfl fun _ => rfl) rfl rfl
  case register              => exact h.registerModule ho
  case unregister            => exact h.unregisterModule
  case heartbeat             => exact h.heartbeat ho
  case receive i works       =>
    have ha : (s.engine.arrive i).Serves (· ∈ s.modules) := h.serves.arrive
    have ht : (s.engine.arrive i).jobHandlers = s.engine.jobHandlers ∧
        (s.engine.arrive i).modules = s.engine.modules := by
      unfold TycheEngine.arrive
      split <;> exact ⟨rfl, rfl⟩
    refine h.engine ?_ (TycheEngine.run_jobHandlers.trans ht.left)
      (TycheEngine.run_modules.trans ht.right)
    unfold TycheEngine.perform Python.run Python.route
    dsimp only
    split
    · exact ha.handleJobRequest
    · exact ha.handleJobResponse
    · exact ha
  case timeout c r works     =>
    exact h.engine h.serves.handleJobTimeout TycheEngine.run_jobHandlers TycheEngine.run_modules
  case monitor               => exact h.tickAll.unregisterAll

theorem unregisterModule_ok (hm : m ∈ s.modules)
    (hh : ∀ i ∈ s.registered m, i.eventType.Hashable) :
    ∃ s', s.unregisterModule m = (.ok (), s') ∧ s'.modules = s.modules.erase m ∧
      s'.monitors = s.monitors.erase (.ofModule m) := by
  obtain ⟨info, hi⟩ := Dict.mem_iff.mp hm
  have hu : Unregistering s (removeInterfaces m info.interfaces s).2 :=
    removeInterfaces_unregistering
  have ho : (removeInterfaces m info.interfaces s).1 = .ok () :=
    removeInterfaces_ok fun i hm => hh i <| by simpa [registered, hi] using hm
  simp only [unregisterModule, hi]
  generalize removeInterfaces m info.interfaces s = x at hu ho
  obtain ⟨r, s'⟩ := x
  cases ho
  exact ⟨_, rfl, congrArg (Dict.erase · m) hu.modules,
    congrArg (Dict.erase · (Key.ofModule m)) hu.monitors⟩

theorem moduleId?_ofModule : (Key.ofModule m).moduleId? = some m := by
  obtain ⟨id, h⟩ := m
  simp [Key.ofModule, Key.moduleId?, h]

theorem unregisterAll_monitors {ms : List ModuleId} (hn : ms.Nodup)
    (hm : ∀ m ∈ ms, m ∈ s.modules ∧ ∀ i ∈ s.registered m, i.eventType.Hashable) (k : Key) :
    (unregisterAll (ms.map .ofModule) s).2.monitors.get? k =
      if k ∈ ms.map Key.ofModule then none else s.monitors.get? k := by
  induction ms generalizing s
  case nil          => simp [unregisterAll]
  case cons m ms hi =>
    obtain ⟨hs, hh⟩ := hm m List.mem_cons_self
    obtain ⟨s', hu, he, hw⟩ := unregisterModule_ok hs hh
    obtain ⟨hn, hd⟩ := List.nodup_cons.mp hn
    have hr : ∀ m' ∈ ms, m' ∈ s'.modules ∧ ∀ i ∈ s'.registered m', i.eventType.Hashable := by
      intro m' hm'
      have hne : m' ≠ m := fun e => hn <| e ▸ hm'
      obtain ⟨hs', hh'⟩ := hm m' <| List.mem_cons_of_mem _ hm'
      simp only [registered, he, Dict.get?_erase_ne hne]
      exact ⟨Dict.mem_erase.mpr ⟨hne, hs'⟩, hh'⟩
    simp only [List.map_cons, unregisterAll, moduleId?_ofModule, Option.elim_some, hu]
    rw [hi hd hr, hw, Dict.get?_erase]
    by_cases hk : k = .ofModule m <;> simp [hk]

-- No monitor is expired after an iteration of the monitor.
def Swept (s : Registry) : Action → Prop
  | .monitor => s.monitor.expired = []
  | _        => True

theorem mem_expired {k : Key} :
    k ∈ s.expired ↔ ∃ v, s.monitors.get? k = some v ∧ v.IsExpired := by
  simp [expired, Dict.get?_eq_some_iff]

theorem expired_nodup : s.expired.Nodup :=
  s.monitors.nodup.sublist <| List.filter_sublist.map _

theorem Inv.swept (h : s.Inv) (ho : s.Orderly .monitor) : s.Swept .monitor := by
  have hw : ∀ k ∈ s.tickAll.expired, k ∈ Set.range Key.ofModule := by
    intro k hk
    obtain ⟨v, hv, _⟩ := mem_expired.mp hk
    obtain ⟨m, _, rfl⟩ := h.tickAll.watched k <| Dict.mem_of_get? hv
    exact ⟨m, rfl⟩
  obtain ⟨ms, he⟩ : s.tickAll.expired ∈ Set.range (List.map Key.ofModule) := by
    rw [Set.range_list_map]
    exact hw
  have hn : ms.Nodup := .of_map _ <| he ▸ expired_nodup
  have hm : ∀ m ∈ ms, m ∈ s.tickAll.modules ∧
      ∀ i ∈ s.tickAll.registered m, i.eventType.Hashable := by
    intro m hm
    have hk : Key.ofModule m ∈ s.tickAll.expired := he ▸ List.mem_map_of_mem hm
    obtain ⟨v, hv, _⟩ := mem_expired.mp hk
    obtain ⟨m', hm', e⟩ := h.tickAll.watched _ <| Dict.mem_of_get? hv
    exact ⟨ofModule_inj.mp e ▸ hm', ho _ hk m moduleId?_ofModule⟩
  refine List.eq_nil_iff_forall_not_mem.mpr fun k hk => ?_
  obtain ⟨v, hv, hx⟩ := mem_expired.mp hk
  rw [monitor, ← he, unregisterAll_monitors hn hm] at hv
  split at hv
  case isTrue     => cases hv
  case isFalse hf => exact hf <| he ▸ mem_expired.mpr ⟨v, hv, hx⟩

theorem start_inv {now : ℚ} : (start now).Inv where
  covered _   := by
    constructor <;> simp [start, Dict.getD, TycheEngine.start, TycheEngine.handlers]
  admins _ h  := absurd h Dict.not_mem_empty
  watched _ h := absurd h Dict.not_mem_empty
  serves      := by
    constructor
    case handlers => simp [start, Dict.getD, TycheEngine.start, TycheEngine.handlers]
    case reports  => exact fun _ h => absurd h Dict.not_mem_empty
    case marks    => exact fun _ h => absurd h Dict.not_mem_empty
    case tracked  => rintro _ _ ⟨⟩
  modules _   := iff_of_false List.not_mem_nil Dict.not_mem_empty
  nodup       := List.nodup_nil

end Registry

namespace registry

open Registry

variable {deserialize : Bytes → Option Message} {now : ℚ} {as : List Registry.Action}

-- In every run in which modules keep the interfaces they are known by and only registered modules
-- send heartbeats, the tables stay clean and the monitor gets rid of what has expired.
theorem always_clean_of_orderly (c : (registry deserialize).Along Orderly (start now) as) :
    (registry deserialize).Always Clean (start now) as ∧
      (registry deserialize).Along Swept (start now) as := by
  have hi : (registry deserialize).Always Inv (start now) as :=
    Machine.always_of_step (fun _ _ _ h ho e => h.step ho e) start_inv c
  refine ⟨hi.mono fun _ h => h.clean, hi.along c fun s a h ho => ?_⟩
  cases a
  case monitor => exact h.swept ho
  all_goals trivial

-- A module registers, sends a heartbeat and leaves.
theorem always_clean_sample :
    (registry Sample.unpack).Always Clean (start 0) [.register Sample.handler none,
      .heartbeat (Sample.report true) fun _ => true, .monitor, .unregister (Sample.worker 1)] ∧
    (registry Sample.unpack).Along Swept (start 0) [.register Sample.handler none,
      .heartbeat (Sample.report true) fun _ => true, .monitor, .unregister (Sample.worker 1)] := by
  refine always_clean_of_orderly ⟨?_, fun s₁ e₁ => ⟨?_, fun s₂ e₂ => ⟨?_, fun _ _ => ?_⟩⟩⟩
  case refine_1 =>
    exact (start_inv.covered _).mono fun _ hi => absurd hi List.not_mem_nil
  case refine_2 =>
    cases e₁
    rintro k ⟨⟩
    exact ⟨Sample.worker 1, by decide +kernel, rfl⟩
  case refine_3 =>
    cases e₁
    cases e₂
    have hn : (((start 0).registerModule Sample.handler).2.heartbeat Sample.unpack (fun _ => true)
        (Sample.report true)).tickAll.expired = [] := by
      decide +kernel
    intro k hk
    cases (hn ▸ hk : k ∈ [])
  case refine_4 => exact ⟨trivial, fun _ _ => trivial⟩

-- A heartbeat that is late brings a monitor for a module that has left.
theorem not_always_clean : ¬∀ as s, (registry Sample.unpack).exec (start 0) as = some s →
    (registry Sample.unpack).Always Clean (start 0) as ∧
      (registry Sample.unpack).Along Swept (start 0) as := by
  intro ha
  have h : ∃ s ∈ (registry Sample.unpack).exec (start 0) [.register Sample.handler none,
      .unregister (Sample.worker 1), .heartbeat (Sample.report true) fun _ => true],
      Key.ofModule (Sample.worker 1) ∈ s.monitors ∧ Sample.worker 1 ∉ s.modules := by
    decide +kernel
  obtain ⟨s, h, hm, hn⟩ := h
  exact hn <| ((ha _ s h).left.exec h).monitors _ hm

end registry

namespace Registry

variable {deserialize : Bytes → Option Message} {works : Output → Bool} {s s' : Registry}
variable {m m' : ModuleId} {is : List Interface} {info : ModuleInfo} {a : Action} {as : List Action}
variable {n : ℤ}

-- The interfaces of all modules can be looked up.
def Lookable (s : Registry) : Prop :=
  ∀ m, ∀ i ∈ s.registered m, i.eventType.Hashable

def Readable (_ : Registry) : Action → Prop
  | .register info _ => ∀ i ∈ info.interfaces, i.eventType.Hashable
  | _                => True

-- The module is registered, and this is the round of the monitor that it does not outlast without
-- being heard of.
def Lasts (s : Registry) (m : ModuleId) (n : ℤ) : Prop :=
  m ∈ s.modules ∧ s.monitors.get? (.ofModule m) = some ⟨n⟩

-- Nobody unregisters the module, and it is heard of before the monitor has made its rounds.
def Heard (m : ModuleId) : ℤ → List Action → Prop
  | _, []                      => True
  | n, .monitor :: as          => 1 < n ∧ Heard m (n - 1) as
  | n, .unregister m' :: as    => m' ≠ m ∧ Heard m n as
  | n, .register info _ :: as  =>
    Heard m (if info.moduleId = m then HeartbeatMonitor.new.liveness else n) as
  | n, .heartbeat msg _ :: as  =>
    Heard m (if msg.sender.hash = .ok (.ofModule m) then heartbeatLiveness else n) as
  | n, .tick _ :: as | n, .receive .. :: as | n, .timeout .. :: as => Heard m n as

instance Heard.decidable : ∀ n as, Decidable (Heard m n as)
  | _, []                     => isTrue trivial
  | n, .monitor :: as         =>
    have := Heard.decidable (n - 1) as
    inferInstanceAs <| Decidable (_ ∧ _)
  | n, .unregister _ :: as    =>
    have := Heard.decidable n as
    inferInstanceAs <| Decidable (_ ∧ _)
  | _, .register .. :: as     => Heard.decidable _ as
  | _, .heartbeat .. :: as    => Heard.decidable _ as
  | n, .tick _ :: as          => Heard.decidable n as
  | n, .receive .. :: as      => Heard.decidable n as
  | n, .timeout .. :: as      => Heard.decidable n as

theorem Lookable.of_modules (h : s.Lookable)
    (hm : ∀ m info, s'.modules.get? m = some info → s.modules.get? m = some info) :
    s'.Lookable := by
  intro m i hi
  cases hs : s'.modules.get? m
  case none      => simp [registered, hs] at hi
  case some info => exact h m i <| by simpa [registered, hs, hm m info hs] using hi

section Unregister

theorem unregisterModule_lookable (m' : ModuleId) (h : s.Lookable) :
    ∃ s', s.unregisterModule m' = (.ok (), s') ∧
      (∀ m, s'.modules.get? m = if m = m' then none else s.modules.get? m) ∧
      ∀ m ≠ m', s'.monitors.get? (.ofModule m) = s.monitors.get? (.ofModule m) := by
  by_cases hm : m' ∈ s.modules
  case pos =>
    obtain ⟨s', hu, he, hw⟩ := unregisterModule_ok hm (h m')
    refine ⟨s', hu, fun m => by rw [he, Dict.get?_erase], fun m hne => ?_⟩
    rw [hw, Dict.get?_erase_ne fun e => hne <| ofModule_inj.mp e]
  case neg =>
    have hn := Dict.get?_eq_none_iff.mpr hm
    refine ⟨s, by rw [unregisterModule, hn], fun m => ?_, fun _ _ => rfl⟩
    split
    case isTrue hm' => rw [hm', hn]
    case isFalse    => rfl

theorem eq_ofModule {k : Key} (h : k.moduleId? = some m) : k = .ofModule m := by
  unfold Key.moduleId? at h
  split at h
  case h_1 =>
    split at h <;> cases h
    rfl
  case h_2 => cases h

theorem unregisterAll_lookable {ks : List Key} (h : s.Lookable) :
    (∀ m, (unregisterAll ks s).2.modules.get? m =
      if Key.ofModule m ∈ ks then none else s.modules.get? m) ∧
    ∀ m, Key.ofModule m ∉ ks →
      (unregisterAll ks s).2.monitors.get? (.ofModule m) = s.monitors.get? (.ofModule m) := by
  induction ks generalizing s
  case nil          => simp [unregisterAll]
  case cons k ks hi =>
    cases hk : k.moduleId?
    case none    =>
      have hne m : Key.ofModule m ≠ k := fun e => by simp [← e, moduleId?_ofModule] at hk
      simp only [unregisterAll, hk, Option.elim_none, List.mem_cons, hne, false_or]
      exact hi h
    case some m' =>
      obtain rfl := eq_ofModule hk
      obtain ⟨s', hu, hm, hw⟩ := unregisterModule_lookable m' h
      have hl : s'.Lookable := h.of_modules fun m info hs => by
        rw [hm] at hs
        split at hs
        case isTrue  => cases hs
        case isFalse => exact hs
      simp only [unregisterAll, moduleId?_ofModule, Option.elim_some, hu, List.mem_cons,
        ofModule_inj, not_or]
      refine ⟨fun m => ?_, fun m hn => ((hi hl).right m hn.right).trans <| hw m hn.left⟩
      rw [(hi hl).left, hm]
      by_cases he : m = m' <;> simp [he]

theorem Lookable.monitor (h : s.Lookable) : s.monitor.Lookable := by
  have ht : s.tickAll.Lookable := h
  refine ht.of_modules fun m info hs => ?_
  rw [Registry.monitor, (unregisterAll_lookable ht).left] at hs
  split at hs
  case isTrue  => cases hs
  case isFalse => exact hs

theorem mem_expired_tickAll (h : s.monitors.get? (.ofModule m) = some ⟨n⟩) :
    Key.ofModule m ∈ s.tickAll.expired ↔ n ≤ 1 := by
  rw [mem_expired, tickAll, Dict.get?_mapVal, h]
  simp [HeartbeatMonitor.tick, HeartbeatMonitor.IsExpired]

theorem Lasts.monitor (hl : s.Lookable) (h : s.Lasts m n) (hn : 1 < n) :
    s.monitor.Lasts m (n - 1) := by
  have ht : s.tickAll.Lookable := hl
  have he : Key.ofModule m ∉ s.tickAll.expired := by
    rw [mem_expired_tickAll h.right]
    omega
  constructor
  case left =>
    obtain ⟨info, hi⟩ := Dict.mem_iff.mp h.left
    refine Dict.mem_iff.mpr ⟨info, ?_⟩
    rw [Registry.monitor, (unregisterAll_lookable ht).left, if_neg he]
    exact hi
  case right =>
    rw [Registry.monitor, (unregisterAll_lookable ht).right m he, tickAll, Dict.get?_mapVal,
      h.right]
    rfl

theorem Lasts.expires (hl : s.Lookable) (h : s.Lasts m n) (hn : n ≤ 1) : m ∉ s.monitor.modules := by
  have ht : s.tickAll.Lookable := hl
  rw [← Dict.get?_eq_none_iff, Registry.monitor, (unregisterAll_lookable ht).left,
    if_pos <| (mem_expired_tickAll h.right).mpr hn]

end Unregister

section Register

theorem addInterfaces_ok (hh : ∀ i ∈ is, i.eventType.Hashable) :
    (addInterfaces m is s).1 = .ok () := by
  induction is generalizing s
  case nil          => rfl
  case cons i is hi =>
    obtain ⟨topic, ht⟩ := hh i List.mem_cons_self
    simp only [addInterfaces, ht]
    exact hi fun j hj => hh j <| List.mem_cons_of_mem _ hj

theorem monitors_addInterfaces : (addInterfaces m is s).2.monitors = s.monitors := by
  induction is generalizing s
  case nil          => rfl
  case cons i is hi =>
    unfold addInterfaces
    split
    case h_1 => rfl
    case h_2 =>
      refine hi.trans ?_
      unfold addInterface
      cases i.pattern <;> rfl

theorem registerModule_of_hashable (hh : ∀ i ∈ info.interfaces, i.eventType.Hashable) :
    s.registerModule info = (.ok (),
      (addInterfaces info.moduleId info.interfaces (s.enter info)).2.watch info.moduleId) := by
  have ho := addInterfaces_ok (m := info.moduleId) (s := s.enter info) hh
  unfold registerModule
  split
  case h_1 e => rw [e]
  case h_2 e =>
    rw [e] at ho
    cases ho

theorem registerModule_readable (admins : Option Value)
    (hh : ∀ i ∈ info.interfaces, i.eventType.Hashable) :
    let s' := ((s.createModuleInfo info.moduleId admins).registerModule info).2
    s'.modules = s.modules.set info.moduleId info ∧
      s'.monitors = s.monitors.set (.ofModule info.moduleId) .new := by
  rw [registerModule_of_hashable hh]
  constructor
  case left  =>
    exact modules_addInterfaces.trans <|
      congrArg (·.set info.moduleId info) modules_createModuleInfo
  case right =>
    refine (congrArg (·.set (.ofModule info.moduleId) .new) monitors_addInterfaces).trans ?_
    cases admins <;> rfl

end Register

section Step

theorem modules_heartbeat {msg : Message} :
    (s.heartbeat deserialize works msg).modules = s.modules := by
  unfold heartbeat
  split <;> rfl

theorem monitors_heartbeat {msg : Message} (h : s.monitors.get? (.ofModule m) = some ⟨n⟩) :
    (s.heartbeat deserialize works msg).monitors.get? (.ofModule m) =
      some ⟨if msg.sender.hash = .ok (.ofModule m) then heartbeatLiveness else n⟩ := by
  unfold heartbeat
  split
  case h_1 he      => simpa [he] using h
  case h_2 peer he =>
    change (s.monitors.set peer _).get? _ = _
    rw [Dict.get?_set, he]
    by_cases hp : peer = .ofModule m
    case pos => simp [hp, h, HeartbeatMonitor.update]
    case neg => simpa [hp, Ne.symm hp] using h

theorem Lookable.step (h : s.Lookable) (hr : Readable s a)
    (e : (registry deserialize).step s a = some s') : s'.Lookable := by
  cases a <;> cases e
  case register info admins =>
    intro m i hi
    rw [registered, (registerModule_readable admins hr).left, Dict.get?_set] at hi
    split at hi
    case isTrue  => exact hr i hi
    case isFalse => exact h m i hi
  case unregister m' =>
    obtain ⟨t, hu, hm, -⟩ := unregisterModule_lookable m' h
    rw [hu]
    refine h.of_modules fun m info hs => ?_
    rw [hm] at hs
    split at hs
    case isTrue  => cases hs
    case isFalse => exact hs
  case heartbeat => exact h.of_modules fun m info hs => modules_heartbeat ▸ hs
  case monitor   => exact h.monitor
  all_goals exact h

theorem Lasts.register {admins : Option Value} (h : s.Lasts m n)
    (hh : ∀ i ∈ info.interfaces, i.eventType.Hashable) :
    ((s.createModuleInfo info.moduleId admins).registerModule info).2.Lasts m
      (if info.moduleId = m then HeartbeatMonitor.new.liveness else n) := by
  obtain ⟨hm, hw⟩ := registerModule_readable admins hh
  refine ⟨hm ▸ Dict.mem_set.mpr (.inr h.left), ?_⟩
  rw [hw, Dict.get?_set]
  by_cases he : info.moduleId = m
  case pos => simp [he]
  case neg => simpa [ofModule_inj, he, Ne.symm he] using h.right

theorem Lasts.unregister (hl : s.Lookable) (h : s.Lasts m n) (hne : m' ≠ m) :
    (s.unregisterModule m').2.Lasts m n := by
  obtain ⟨t, hu, hm, hw⟩ := unregisterModule_lookable m' hl
  obtain ⟨info, hi⟩ := Dict.mem_iff.mp h.left
  rw [hu]
  exact ⟨Dict.mem_iff.mpr ⟨info, by rw [hm, if_neg hne.symm, hi]⟩, (hw m hne.symm).trans h.right⟩

theorem unregister_leaves (hl : s.Lookable) : m ∉ (s.unregisterModule m).2.modules := by
  obtain ⟨t, hu, hm, -⟩ := unregisterModule_lookable m hl
  rw [hu, ← Dict.get?_eq_none_iff, hm, if_pos rfl]

theorem Lasts.heartbeat {msg : Message} (h : s.Lasts m n) :
    (s.heartbeat deserialize works msg).Lasts m
      (if msg.sender.hash = .ok (.ofModule m) then heartbeatLiveness else n) :=
  ⟨by rw [modules_heartbeat]; exact h.left, monitors_heartbeat h.right⟩

-- The induction is on the run, with what is left of the module's time as the measure of its state.
theorem Lasts.always_iff (hl : s.Lookable) (h : s.Lasts m n)
    (c : (registry deserialize).Along Readable s as) :
    (registry deserialize).Always (m ∈ ·.modules) s as ↔ Heard m n as := by
  induction as generalizing s n
  case nil          => exact iff_of_true h.left trivial
  case cons a as hi =>
    obtain ⟨s', e⟩ : ∃ s', s.step deserialize a = some s' := by cases a <;> exact ⟨_, rfl⟩
    have hl' := hl.step c.left e
    have hi {k : ℤ} (h : s'.Lasts m k) := hi hl' h (c.right s' e)
    rw [Machine.always_cons e, and_iff_right h.left]
    cases a <;> cases e
    case register info admins => exact hi <| h.register c.left
    case heartbeat msg works  => exact hi h.heartbeat
    case tick                 => exact hi h
    case receive              => exact hi h
    case timeout              => exact hi h
    case unregister m'        =>
      rw [Heard]
      by_cases hne : m' = m
      case pos =>
        subst hne
        exact iff_of_false (fun r => unregister_leaves hl r.start) fun r => r.left rfl
      case neg =>
        rw [and_iff_right hne]
        exact hi <| h.unregister hl hne
    case monitor              =>
      rw [Heard]
      by_cases hn : 1 < n
      case pos =>
        rw [and_iff_right hn]
        exact hi <| h.monitor hl hn
      case neg =>
        exact iff_of_false (fun r => h.expires hl (not_lt.mp hn) r.start) fun r => hn r.left

end Step

end Registry

namespace registry

open Registry

-- A module stays registered exactly as long as nobody unregisters it and it is heard of in time.
theorem registered_iff_heard (deserialize : Bytes → Option Message) (bs as : List Registry.Action)
    (now : ℚ) (info : ModuleInfo) (admins : Option Value) (s s' : Registry)
    (e : (registry deserialize).exec (start now) bs = some s)
    (er : (registry deserialize).step s (.register info admins) = some s')
    (c : (registry deserialize).Along Readable (start now) (bs ++ .register info admins :: as)) :
    (registry deserialize).Always (info.moduleId ∈ ·.modules) s' as ↔
      Heard info.moduleId HeartbeatMonitor.new.liveness as := by
  have hs : (start now).Lookable := fun m i hi => by simp [start, registered] at hi
  have hl : s.Lookable :=
    (Machine.always_of_step (fun _ _ _ h hr e => h.step hr e) hs c.of_append).exec e
  have c := c.exec e
  have hl' : s'.Lookable := hl.step c.left er
  refine Lasts.always_iff hl' ?_ (c.right s' er)
  cases er
  obtain ⟨hm, hw⟩ := registerModule_readable (s := s) admins c.left
  exact ⟨hm ▸ Dict.mem_set.mpr (.inl rfl), hw ▸ Dict.get?_set_self⟩

def lateHeartbeat : List Registry.Action :=
  [.monitor, .monitor, .monitor, .monitor, .heartbeat (Sample.report true) fun _ => true, .monitor,
    .monitor, .monitor]

-- After its heartbeat the module lasts two rounds of the monitor, but not the third one.
theorem registered_iff_heard_sample :
    ¬(registry Sample.unpack).Always (Sample.worker 1 ∈ ·.modules)
      ((start 0).registerModule Sample.handler).2 lateHeartbeat := by
  have hh : ∀ i ∈ Sample.handler.interfaces, i.eventType.Hashable :=
    List.forall_mem_singleton.mpr ⟨_, rfl⟩
  have hr : ∀ a ∈ lateHeartbeat, Readable (start 0) a := by simp [lateHeartbeat, Readable]
  have hi := registered_iff_heard Sample.unpack [] lateHeartbeat 0 Sample.handler none
    (start 0) _ rfl rfl ⟨hh, fun _ _ => Machine.along_of_forall hr⟩
  exact fun h => absurd (hi.mp h) <| by decide

end registry

end Python
