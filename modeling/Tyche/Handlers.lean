import Tyche.Cpp.Theorems.Handlers
import Tyche.Python.Theorems.Module

namespace Python.TycheModule

variable {η : Type} {rs₁ rs₂ : List (Registration η)} {r : Registration η} {name : Bytes}

-- An event handler that is the only one for events of the name is called for them, and no other,
-- however it and the others were registered.
def Reachable (η : Type) (t : Bytes) : Prop :=
  ∀ (results : Results η) (family : Bytes) (C : ModuleClass η) (as : List (ModuleAction η))
    (rs₁ rs₂ : List (Registration η)) (r : Registration η) (msg : Message),
    registrations C as = rs₁ ++ r :: rs₂ → r.pattern = .on → r.bareName = t →
      (∀ r' ∈ rs₁ ++ rs₂, r'.bareName ≠ t) →
        ((start family C).performAll results as).dispatch t msg = some ⟨r.handler, .on, msg.payload⟩

theorem last_single (h : ∀ r' ∈ rs₁ ++ rs₂, r'.bareName ≠ name) :
    Registration.last (rs₁ ++ r :: rs₂) name = if r.bareName = name then some r else none := by
  have hn {rs : List (Registration η)} (h : ∀ r ∈ rs, r.bareName ≠ name) :
      rs.filter (·.bareName = name) = [] := by simpa using h
  unfold Registration.last
  rw [List.filter_append, List.filter_cons, hn fun r hr => h r <| List.mem_append_left _ hr,
    hn fun r hr => h r <| List.mem_append_right _ hr]
  by_cases hr : r.bareName = name <;> simp [hr]

theorem reachable_iff (handler : η) {t : Bytes} : Reachable η t ↔ ¬utf8 "on_" <+: t := by
  constructor
  case mp  =>
    intro h ht
    let r : Registration η := { name := utf8 "on_" ++ t, handler := handler }
    have hb : r.bareName = t := by
      rw [Registration.bareName, if_pos <| List.prefix_append ..]
      rfl
    have hn : t ≠ t.drop 3 := List.ne_drop (by decide) ht.length_le
    have hl : Registration.last [r] (t.drop 3) = none := by
      rw [← List.nil_append [r], last_single (by simp), hb, if_neg hn]
    have he : registrations ⟨[], .nil⟩ [.register r] = [r] := rfl
    have hd := h ⟨fun _ => .ok .none, fun _ => .ok .none⟩ [] ⟨[], .nil⟩ [.register r] [] [] r
      ⟨.event, .none, .none, .none, .none⟩ he rfl hb (by simp)
    rw [has_performAll.dispatch, lookupTopic, if_pos ht, he, hl] at hd
    cases hd
  case mpr =>
    intro ht results family C as rs₁ rs₂ r msg he hp hb hr
    rw [has_performAll.dispatch, lookupTopic, if_neg ht, he, last_single hr, if_pos hb]
    simp [hp]

end Python.TycheModule

-- In both modules the handlers are reachable for the events whose names do not begin with the prefix
-- that is stripped.
theorem handlers_reachable_iff {η : Type} (handler : η) (t : Bytes) :
    (Python.TycheModule.Reachable η t ↔ ¬utf8 "on_" <+: t) ∧
      (Cpp.Handlers.Reachable η t ↔ ¬utf8 "on_" <+: t) :=
  ⟨Python.TycheModule.reachable_iff handler, Cpp.Handlers.reachable_iff handler⟩

-- A handler `handle_on_x` is registered for the events `on_x`.
theorem not_handlers_reachable : ¬∀ t : Bytes,
    Python.TycheModule.Reachable Unit t ∧ Cpp.Handlers.Reachable Unit t :=
  fun h => (Python.TycheModule.reachable_iff ()).mp (h <| utf8 "on_x").left <| by decide
