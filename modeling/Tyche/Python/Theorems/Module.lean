import Tyche.Python.Module

namespace Python

variable {η : Type} {results : TycheModule.Results η} {s : TycheModule η} {r : Registration η}
variable {rs : List (Registration η)} {name : Bytes} {m : Method η} {msg : Message}

-- The registration that discovery makes for a method.
def Method.registration? (m : Method η) : Option (Registration η) :=
  if m.Skipped then none
  else match patternForName m.name with
    | some .on     => some { name := m.name, handler := m.handler, pattern := .on }
    | some .handle => some { name := m.name, handler := m.handler, pattern := .handle }
    | _            => none

def ModuleAction.registration? : ModuleAction η → Option (Registration η)
  | .register r => some r
  | _           => none

-- The registrations of a module, in the order in which they are made.
def registrations (C : ModuleClass η) (as : List (ModuleAction η)) : List (Registration η) :=
  C.methods.filterMap Method.registration? ++ as.filterMap ModuleAction.registration?

namespace Registration

-- The last registration under a name.
def last (rs : List (Registration η)) (name : Bytes) : Option (Registration η) :=
  (rs.filter (·.bareName = name)).getLast?

-- The last one of a pattern under the name.
def lastOf (rs : List (Registration η)) (p : InterfacePattern) (name : Bytes) :
    Option (Registration η) :=
  last (rs.filter (·.pattern = p)) name

theorem last_concat : last (rs ++ [r]) name = if r.bareName = name then some r else last rs name := by
  unfold last
  rw [List.filter_append]
  split
  case isTrue h  => simp [h]
  case isFalse h => simp [h]

end Registration

open Registration

namespace TycheModule

-- The handlers are those of the last registrations under their names.
def Has (s : TycheModule η) (rs : List (Registration η)) : Prop :=
  ∀ name, s.handlers.get? name = (last rs name).map fun r => (r.handler, r.pattern)

theorem Has.of_handlers {s' : TycheModule η} (h : s.Has rs) (e : s'.handlers = s.handlers) :
    s'.Has rs :=
  fun name => e ▸ h name

theorem Has.registerHandler (h : s.Has rs) : (s.registerHandler r).Has (rs ++ [r]) := by
  intro name
  unfold TycheModule.registerHandler
  dsimp only
  rw [Dict.get?_set, last_concat]
  by_cases hn : name = r.bareName
  case pos => rw [if_pos hn, if_pos hn.symm, Option.map_some]
  case neg => rw [if_neg hn, if_neg (Ne.symm hn), h name]

theorem Has.discover (h : s.Has rs) : (s.discover m).Has (rs ++ m.registration?.toList) := by
  unfold TycheModule.discover Method.registration?
  by_cases hm : m.Skipped
  case pos => cases patternForName m.name <;> simpa [hm] using h
  case neg =>
    cases patternForName m.name
    case none   => simpa [hm] using h
    case some p =>
      cases p
      case send | request =>
        simp only [hm, ↓reduceIte, Option.toList_none, List.append_nil]
        exact h.of_handlers rfl
      case on | handle    => simpa [hm] using h.registerHandler

theorem count_handlers {n : ℤ} : (s.count name n).handlers = s.handlers := by
  unfold count
  split <;> rfl

theorem handleJobRequest_handlers {o : JobOutcome η} (h : s.handleJobRequest results msg = .ok o) :
    o.module.handlers = s.handlers := by
  unfold handleJobRequest at h
  split at h
  case h_2 | h_3 => cases h
  case h_1 event _ =>
    split at h
    case h_1 => cases h; rfl
    case h_2 =>
      split at h
      case h_1 => cases h; rfl
      case h_2 => cases h; rw [count_handlers, count_handlers]

theorem perform_request_handlers :
    (s.perform results (.request msg)).handlers = s.handlers := by
  unfold TycheModule.perform
  dsimp only
  split
  case h_1 o e => exact handleJobRequest_handlers e
  case h_2     => rfl

theorem Has.perform {a : ModuleAction η} (h : s.Has rs) :
    (s.perform results a).Has (rs ++ a.registration?.toList) := by
  cases a
  case register   => exact h.registerHandler
  all_goals
    rw [ModuleAction.registration?, Option.toList_none, List.append_nil]
  case event      => exact h
  case request    => exact h.of_handlers perform_request_handlers
  all_goals nofun

-- The rule for what one step after the other adds to the registrations.
theorem Has.foldl {α : Type} {f : TycheModule η → α → TycheModule η}
    {g : α → Option (Registration η)} {as : List α}
    (hf : ∀ s rs a, s.Has rs → (f s a).Has (rs ++ (g a).toList)) (h : s.Has rs) :
    (as.foldl f s).Has (rs ++ as.filterMap g) := by
  induction as generalizing s rs
  case nil          => simpa using h
  case cons a as hi =>
    have ha := hi <| hf s rs a h
    rw [List.append_assoc] at ha
    cases hg : g a
    all_goals simpa [hg, List.filterMap_cons] using ha

theorem has_start {family : Bytes} {C : ModuleClass η} :
    (start family C).Has (C.methods.filterMap Method.registration?) := by
  have h : (⟨family, [], ∅, ∅⟩ : TycheModule η).Has [] := fun _ => rfl
  exact h.foldl fun _ _ m h => h.discover (m := m)

theorem has_performAll {family : Bytes} {C : ModuleClass η} {as : List (ModuleAction η)} :
    ((start family C).performAll results as).Has (registrations C as) :=
  has_start.foldl fun _ _ _ h => h.perform

-- An event is for the handler that was registered last for events of its name, and it is not for a
-- job handler.
def ServesEvents (s : TycheModule η) (rs : List (Registration η)) (name : Bytes) (msg : Message) :
    Prop :=
  (∀ r ∈ lastOf rs .on name, ∃ c ∈ s.dispatch name msg, c.handler = r.handler) ∧
  ∀ c ∈ s.dispatch name msg, c.pattern ≠ .handle

-- A request is for the handler that was registered last for jobs of its name, and it is not for an
-- event handler.
def ServesJobs (results : Results η) (s : TycheModule η) (rs : List (Registration η))
    (name : Bytes) (msg : Message) : Prop :=
  ∃ o, s.handleJobRequest results { msg with event := .str name } = .ok o ∧
    (∀ r ∈ lastOf rs .handle name, ∃ c ∈ o.called, c.handler = r.handler) ∧
    ∀ c ∈ o.called, c.pattern ≠ .on

end TycheModule

open TycheModule

-- The last registration under the name that is looked up is not one for jobs, and it has the handler
-- of the last one for events of the name.
def EventsApart (rs : List (Registration η)) (name : Bytes) : Prop :=
  (∀ r ∈ last rs (lookupTopic name), r.pattern ≠ .handle) ∧
  ∀ r ∈ lastOf rs .on name, ∃ r' ∈ last rs (lookupTopic name), r'.handler = r.handler

-- Admin commands have no handlers. For other names, the last registration is not one for events, and
-- it has the handler of the last one for jobs.
def JobsApart (rs : List (Registration η)) (name : Bytes) : Prop :=
  match adminCommand? name with
  | some _ => lastOf rs .handle name = none
  | none   => (∀ r ∈ last rs name, r.pattern ≠ .on) ∧
      ∀ r ∈ lastOf rs .handle name, ∃ r' ∈ last rs name, r'.handler = r.handler

-- A name cannot have both an event handler and a job handler that are called.
theorem not_both_apart {r' : Registration η} (ht : ¬utf8 "on_" <+: name)
    (hc : adminCommand? name = none) (hr : lastOf rs .on name = some r)
    (hr' : lastOf rs .handle name = some r') (hn : r.handler ≠ r'.handler) :
    ¬(EventsApart rs name ∧ JobsApart rs name) := by
  unfold EventsApart JobsApart lookupTopic
  rw [if_neg ht, hc]
  rintro ⟨⟨-, he⟩, -, hj⟩
  obtain ⟨r₁, h₁, e₁⟩ := he r hr
  obtain ⟨r₂, h₂, e₂⟩ := hj r' hr'
  cases h₁.symm.trans h₂
  exact hn <| e₁.symm.trans e₂

namespace TycheModule

theorem Has.dispatch (h : s.Has rs) : s.dispatch name msg =
    (last rs <| lookupTopic name).map fun r => ⟨r.handler, r.pattern, msg.payload⟩ := by
  unfold TycheModule.dispatch
  rw [h, Option.map_map]
  rfl

theorem Has.servesEvents_iff (h : s.Has rs) : s.ServesEvents rs name msg ↔ EventsApart rs name := by
  unfold ServesEvents EventsApart
  rw [h.dispatch, and_comm]
  simp

theorem servesJobs_admin {command : Bytes} (hc : adminCommand? name = some command) :
    s.ServesJobs results rs name msg ↔ lastOf rs .handle name = none := by
  unfold ServesJobs handleJobRequest
  simp [hc, Option.eq_none_iff_forall_not_mem]

theorem Has.servesJobs_of_not_admin (h : s.Has rs) (hc : adminCommand? name = none) :
    s.ServesJobs results rs name msg ↔ (∀ r ∈ last rs name, r.pattern ≠ .on) ∧
      ∀ r ∈ lastOf rs .handle name, ∃ r' ∈ last rs name, r'.handler = r.handler := by
  unfold ServesJobs handleJobRequest
  simp only [hc, h name]
  cases last rs name <;> simp [Call.ofEntry, and_comm]

theorem Has.servesJobs_iff (h : s.Has rs) :
    s.ServesJobs results rs name msg ↔ JobsApart rs name := by
  unfold JobsApart
  split
  case h_1 hc => exact servesJobs_admin hc
  case h_2 hc => exact h.servesJobs_of_not_admin hc

-- Events and jobs of a name are served as long as the last registrations are the right ones.
theorem handlers_apart (family : Bytes) (C : ModuleClass η) (as : List (ModuleAction η)) :
    (((start family C).performAll results as).ServesEvents (registrations C as) name msg ↔
      EventsApart (registrations C as) name) ∧
    (((start family C).performAll results as).ServesJobs results (registrations C as) name msg ↔
      JobsApart (registrations C as) name) :=
  ⟨has_performAll.servesEvents_iff, has_performAll.servesJobs_iff⟩

end TycheModule

namespace Sample

-- A class with the methods `on_x` and `handle_x`.
def twoHandlers : ModuleClass Bool where
  methods := [⟨utf8 "handle_x", false, utf8 "M.handle_x", false⟩,
    ⟨utf8 "on_x", true, utf8 "M.on_x", false⟩]
  sorted  := by decide

def handles : TycheModule.Results Bool where
  admin _  := .ok .none
  handle c := .ok <| .bool c.handler

end Sample

namespace TycheModule

theorem not_handlers_apart : ¬∀ (family : Bytes) (C : ModuleClass Bool)
    (as : List (ModuleAction Bool)) (name : Bytes) (msg : Message),
    ((start family C).performAll Sample.handles as).ServesEvents (registrations C as) name msg ∧
    ((start family C).performAll Sample.handles as).ServesJobs Sample.handles (registrations C as)
      name msg := by
  intro h
  obtain ⟨o, e, -, ho⟩ := (h (utf8 "m") Sample.twoHandlers [] (utf8 "x")
    ⟨.request, .str <| utf8 "a", .none, .dict [], .none⟩).right
  cases e
  exact ho _ rfl rfl

end TycheModule

end Python
