import Tyche.Cpp.Registry

namespace Cpp

namespace Registry

variable {s s' : Registry} {m topic : Bytes} {id : InternId} {i : Interface} {info : ModuleInfo}
variable {a : Action} {as : List Action} {P : Bytes → Prop}

inductive Table
  | subscribers
  | producers
  | handlers

def table (s : Registry) : Table → Roster InternId Bytes
  | .subscribers => s.topicSubscribers
  | .producers   => s.topicProducers
  | .handlers    => s.jobHandlers

-- Only registered modules are in the tables, and none of them is in a list twice.
def Consistent (s : Registry) : Prop :=
  ∀ t, (s.table t).Proper (· ∈ s.modules)

-- The modules other than the one of the action are where they were, and one that unregisters is
-- nowhere.
def Orderly (s : Registry) (a : Action) : Prop :=
  (∀ t, (s.table t).Agree a.moduleId ((s.apply a).table t)) ∧
    ∀ m, a = .unregister m → ∀ t id, m ∉ ((s.apply a).table t).members id

-- What an interface adds to the tables: the module is in at most one more list.
inductive Adds (m : Bytes) (s s' : Registry) (t : Table) : Prop
  | keep : s'.table t = s.table t → Adds m s s' t
  | enter (id : InternId) : s'.table t = (s.table t).enter id m → Adds m s s' t

theorem registerInterface_adds (t : Table) : Adds m s (s.registerInterface m i) t := by
  unfold registerInterface
  cases i.pattern <;> cases t
  case on.subscribers | send.producers | request.producers | handle.handlers => exact .enter _ rfl
  all_goals exact .keep rfl

theorem registerInterface_modules : (s.registerInterface m i).modules = s.modules := by
  unfold registerInterface
  cases i.pattern <;> rfl

theorem Adds.proper {t : Table} (h : Adds m s s' t) (hs : (s.table t).Proper P) (hm : P m) :
    (s'.table t).Proper P := by
  cases h
  case keep he     => exact he ▸ hs
  case enter id he => exact he ▸ hs.enter hm

theorem Adds.agree {t : Table} (h : Adds m s s' t) : (s.table t).Agree m (s'.table t) := by
  cases h
  case keep he     => exact he ▸ .refl
  case enter id he => exact he ▸ .enter

section Interfaces

variable {is : List Interface}

theorem registerInterfaces_modules :
    (is.foldl (·.registerInterface m ·) s).modules = s.modules := by
  induction is generalizing s
  case nil          => rfl
  case cons i is hi => exact hi.trans registerInterface_modules

theorem registerInterfaces_proper {t : Table} (hs : (s.table t).Proper P) (hm : P m) :
    ((is.foldl (·.registerInterface m ·) s).table t).Proper P := by
  induction is generalizing s
  case nil          => exact hs
  case cons i is hi => exact hi <| (registerInterface_adds t).proper hs hm

theorem registerInterfaces_agree {t : Table} :
    (s.table t).Agree m ((is.foldl (·.registerInterface m ·) s).table t) := by
  induction is generalizing s
  case nil          => exact .refl
  case cons i is hi => exact (registerInterface_adds t).agree.trans hi

end Interfaces

theorem table_modules {d : Dict Bytes ModuleInfo} (t : Table) :
    ({ s with modules := d } : Registry).table t = s.table t := by
  cases t <;> rfl

theorem registerModule_consistent (h : s.Consistent) : (s.registerModule info).Consistent := by
  intro t
  rw [registerModule, registerInterfaces_modules]
  refine registerInterfaces_proper ?_ (Dict.mem_set.mpr <| .inl rfl)
  rw [table_modules]
  exact (h t).mono fun m hm => Dict.mem_set.mpr <| .inr hm

theorem registerModule_agree (t : Table) :
    (s.table t).Agree info.moduleId ((s.registerModule info).table t) := by
  rw [← table_modules (d := s.modules.set info.moduleId info) t]
  exact registerInterfaces_agree

theorem unregisterModule_table (hm : m ∈ s.modules) (t : Table) :
    (s.unregisterModule m).table t = (s.table t).strike m := by
  unfold unregisterModule
  rw [if_pos hm]
  cases t <;> rfl

theorem unregisterModule_of_not_mem (hm : m ∉ s.modules) : s.unregisterModule m = s :=
  if_neg hm

theorem unregisterModule_modules (hm : m ∈ s.modules) :
    (s.unregisterModule m).modules = s.modules.erase m := by
  rw [unregisterModule, if_pos hm]

theorem unregisterModule_consistent (h : s.Consistent) : (s.unregisterModule m).Consistent := by
  by_cases hm : m ∈ s.modules
  case neg => rwa [unregisterModule_of_not_mem hm]
  case pos =>
    intro t
    rw [unregisterModule_table hm, unregisterModule_modules hm]
    exact (h t).strike.mono fun j hj => Dict.mem_erase.mpr hj.symm

theorem unregisterModule_agree (t : Table) :
    (s.table t).Agree m ((s.unregisterModule m).table t) := by
  by_cases hm : m ∈ s.modules
  case neg => rw [unregisterModule_of_not_mem hm]; exact .refl
  case pos => rw [unregisterModule_table hm]; exact .strike

theorem unregisterModule_gone (h : s.Consistent) (t : Table) :
    m ∉ ((s.unregisterModule m).table t).members id := by
  intro hi
  by_cases hm : m ∈ s.modules
  case neg =>
    rw [unregisterModule_of_not_mem hm] at hi
    exact hm <| (h t id).right m hi
  case pos =>
    rw [unregisterModule_table hm] at hi
    exact ((h t).strike id).right m hi |>.right rfl

theorem start_consistent {capacity : BitVec 32} : (start capacity).Consistent := by
  intro t
  cases t <;> exact Roster.proper_empty

theorem Consistent.apply (h : s.Consistent) : (s.apply a).Consistent := by
  cases a
  case register   => exact registerModule_consistent h
  case unregister => exact unregisterModule_consistent h

theorem Consistent.orderly (h : s.Consistent) : s.Orderly a := by
  cases a
  case register   => exact ⟨registerModule_agree, nofun⟩
  case unregister =>
    refine ⟨unregisterModule_agree, ?_⟩
    rintro _ ⟨⟩
    exact fun t id => unregisterModule_gone h t

theorem tables_stay_consistent {capacity : BitVec 32} :
    registry.Always Consistent (start capacity) as ∧
      registry.Along Orderly (start capacity) as := by
  have h : registry.Always Consistent (start capacity) as :=
    Machine.invariant (fun _ _ _ h e => Option.some.inj e ▸ h.apply) start_consistent
  exact ⟨h, h.along Machine.along_true fun _ _ h _ => h.orderly⟩

end Registry

end Cpp
