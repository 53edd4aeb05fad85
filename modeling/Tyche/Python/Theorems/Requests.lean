import Tyche.Interference
import Tyche.Python.Requests

namespace Python.Requests

open Proc Relation

variable {α β : Type} {s s' : Module} {c : Key} {x : Surroundings} {r : ℕ}

-- A request is registered under the correlation id.
def Op.Registers (c : Key) : ∀ {β : Type}, Op β → Prop
  | _, .insert c' _ => c' = c
  | _, _            => False

-- The operation leaves the requests under other correlation ids as they are.
def Op.Spares (c : Key) {β : Type} (o : Op β) : Prop :=
  ∀ x s k, k ≠ c → (Module.exec x o s).2.pendingRequests.get? k = s.pendingRequests.get? k

namespace Module

-- What other threads do meanwhile. Correlation ids are unique, so they do not register a request
-- under the same one.
def Others (c : Key) (s s' : Module) : Prop :=
  ∃ (β : Type) (o : Op β) (x : Surroundings), ¬o.Registers c ∧ s' = (exec x o s).2

theorem exec_not_mem {o : Op β} (ho : ¬o.Registers c) (h : c ∉ s.pendingRequests) :
    c ∉ (exec x o s).2.pendingRequests := by
  cases o
  case insert c' r =>
    have hc : c ≠ c' := fun he => ho he.symm
    simpa [exec, hc] using h
  case pop c'      => simp [exec, h]
  all_goals exact h

theorem others_not_mem (h : c ∉ s.pendingRequests) (ho : s.Others c s') :
    c ∉ s'.pendingRequests := by
  obtain ⟨_, _, _, ho, rfl⟩ := ho
  exact exec_not_mem ho h

theorem not_mem_of_others (h : ReflTransGen (Others c) s s') (hs : c ∉ s.pendingRequests) :
    c ∉ s'.pendingRequests :=
  others_keep (I := fun s => c ∉ s.pendingRequests) (fun _ _ => others_not_mem) h hs

-- Nothing connects the module again.
theorem others_idle (h : ¬s.connected) (ho : s.Others c s') : ¬s'.connected := by
  obtain ⟨_, o, x, -, rfl⟩ := ho
  cases o
  case disconnect => simp [exec]
  all_goals exact h

theorem exec_moduleId {o : Op β} : (exec x o s).2.moduleId = s.moduleId := by
  cases o <;> rfl

theorem moduleId_of_others (h : ReflTransGen (Others c) s s') : s'.moduleId = s.moduleId := by
  refine others_keep (I := fun t => t.moduleId = s.moduleId) (fun _ _ he ho => ?_) h rfl
  obtain ⟨_, _, _, -, rfl⟩ := ho
  exact exec_moduleId.trans he

end Module

open Python.Requests.Module

-- The code of the other threads calls only operations that the others may carry out.
theorem all_handleJobResponse {v payload : Value} :
    (handleJobResponse v payload).All fun o => ¬o.Registers c := by
  unfold handleJobResponse
  split
  case isFalse => trivial
  case isTrue  =>
    split
    case h_1 => trivial
    case h_2 =>
      refine (all_op id).bind fun r => ?_
      cases r
      case none   => trivial
      case some r => exact (all_op id).bind fun _ => all_op id

theorem spares_insert : (Op.insert c r).Spares c :=
  fun _ _ _ hk => Dict.get?_set_ne hk

theorem spares_pop : (Op.pop c).Spares c :=
  fun _ _ _ hk => Dict.get?_erase_ne hk

abbrev PyModule.AmidOthers (c : Key) (x : Surroundings) (p : PyModule α) :
    Module → Except Exception α → Module → Prop :=
  p.Amid (Module.exec x) (Module.Others c)

-- An entry that is not there does not come back.
theorem amid_not_mem {p : PyModule α} {y : Except Exception α} (h : p.AmidOthers c x s y s')
    (hp : p.All fun o => ¬o.Registers c) (hs : c ∉ s.pendingRequests) :
    c ∉ s'.pendingRequests :=
  h.keeps (I := fun s => c ∉ s.pendingRequests) hp (fun _ _ => exec_not_mem)
    (fun _ _ => others_not_mem) hs

variable {i : Bytes} {event : Option Bytes} {payload : Obj} {y : Except Exception Value}

-- The request is one that the module, whose id is given, can make a message of.
def Encodes (moduleId i : Bytes) (event : Option Bytes) (payload : Obj) : Prop :=
  event.isSome ∧ (request moduleId i event payload).serialize.isSome

theorem all_spares : (requestEvent i event payload).All (Op.Spares (.str i)) := by
  refine (all_op fun _ _ _ _ => rfl).bind fun b => ?_
  cases b
  case false => trivial
  case true  =>
    refine (all_op fun _ _ _ _ => rfl).bind fun m => (all_op fun _ _ _ _ => rfl).bind fun r =>
      (all_op spares_insert).bind fun _ => All.lift fun topic _ => All.lift fun message _ =>
        (all_op fun _ _ _ _ => rfl).bind fun _ => (all_op fun _ _ _ _ => rfl).bind fun b => ?_
    cases b
    case false => exact (all_op spares_pop).bind fun _ => trivial
    case true  =>
      refine (all_op spares_pop).bind fun r => ?_
      cases r
      case none   => trivial
      case some r => exact all_op fun _ _ _ _ => rfl

theorem all_requestEvent (hc : .str i ≠ c) :
    (requestEvent i event payload).All fun o => ¬o.Registers c := by
  refine (all_op id).bind fun b => ?_
  cases b
  case false => trivial
  case true  =>
    refine (all_op id).bind fun m => (all_op id).bind fun r => (all_op hc).bind fun _ =>
      All.lift fun topic _ => All.lift fun message _ => (all_op id).bind fun _ =>
        (all_op id).bind fun b => ?_
    cases b
    case false => exact (all_op id).bind fun _ => trivial
    case true  =>
      refine (all_op id).bind fun r => ?_
      cases r
      case none   => trivial
      case some r => exact all_op id

theorem requestEvent_removes (he : Encodes s.moduleId i event payload) (hx : x.sends)
    (hw : x.waits ≠ .refused) (h : (requestEvent i event payload).AmidOthers (.str i) x s y s')
    (hs : .str i ∉ s.pendingRequests) : .str i ∉ s'.pendingRequests := by
  obtain ⟨s₁, h₁, h⟩ := h
  have hs := not_mem_of_others h₁ hs
  simp only [Module.exec] at h
  cases hr : s₁.connected
  all_goals
    simp only [hr] at h
  case false => exact not_mem_of_others h.right hs
  case true  =>
    obtain ⟨s₂, h₂, s₃, h₃, s₄, h₄, h⟩ := h
    have hm : s₂.moduleId = s.moduleId := (moduleId_of_others h₂).trans <| moduleId_of_others h₁
    obtain ⟨topic, rfl⟩ := Option.isSome_iff_exists.mp he.left
    obtain ⟨ts, ht⟩ := Option.isSome_iff_exists.mp he.right
    simp only [Module.exec, hm, encode, serialize, ht] at h
    obtain ⟨s₅, h₅, h⟩ := h
    simp only [Module.exec, hx, ↓reduceIte] at h
    obtain ⟨s₆, h₆, h⟩ := h
    have hb : ∃ b, (Module.exec x (.wait s₃.created) s₆).1 = .ok b := by
      cases hx : x.waits
      case refused => exact absurd hx hw
      all_goals simp [Module.exec, hx]
    obtain ⟨b, hb⟩ := hb
    simp only [hb] at h
    cases b
    case false =>
      obtain ⟨s₇, h₇, h⟩ := h
      refine not_mem_of_others h.right ?_
      simp [Module.exec]
    case true  =>
      obtain ⟨s₇, h₇, h⟩ := h
      simp only [Module.exec] at h
      refine amid_not_mem h ?_ <| by simp
      cases s₇.pendingRequests.get? (.str i)
      case none   => trivial
      case some r => exact all_op id

-- A module that is not connected refuses the request.
theorem requestEvent_refused (hr : ¬s.connected)
    (h : (requestEvent i event payload).AmidOthers (.str i) x s y s')
    (hs : .str i ∉ s.pendingRequests) : .str i ∉ s'.pendingRequests := by
  obtain ⟨s₁, h₁, h⟩ := h
  have hr : ¬s₁.connected :=
    others_keep (I := fun s => ¬s.connected) (fun _ _ => others_idle) h₁ hr
  simp only [Module.exec, hr] at h
  exact not_mem_of_others h.right <| not_mem_of_others h₁ hs

-- A request that cannot be made or sent, or that cannot be waited for, stays in the table.
theorem requestEvent_leaves (hr : s.connected)
    (hn : ¬(Encodes s.moduleId i event payload ∧ x.sends ∧ x.waits ≠ .refused)) :
    .str i ∈ ((requestEvent i event payload).run (Module.exec x) s).2.pendingRequests := by
  cases event
  case none           =>
    simp [requestEvent, run_bind, Module.exec, hr, encode]
  case some topic     =>
    cases hm : (request s.moduleId i (some topic) payload).serialize
    case none    =>
      simp [requestEvent, run_bind, Module.exec, hr, encode, serialize, hm]
    case some ts =>
      obtain ⟨sends, waits⟩ := x
      cases sends
      case false =>
        simp [requestEvent, run_bind, Module.exec, hr, encode, serialize, hm]
      case true  =>
        have hw : waits = .refused := by simpa [Encodes, hm] using hn
        simp [requestEvent, run_bind, Module.exec, hr, encode, serialize, hm, hw]

-- The request leaves no entry behind, whatever the others do.
def LeavesNothing (s : Module) (i : Bytes) (event : Option Bytes) (payload : Obj)
    (x : Surroundings) : Prop :=
  ∀ y s', (requestEvent i event payload).AmidOthers (.str i) x s y s' →
    .str i ∉ s'.pendingRequests

theorem leavesNothing_iff (hs : .str i ∉ s.pendingRequests) :
    LeavesNothing s i event payload x ↔ (s.connected →
      Encodes s.moduleId i event payload ∧ x.sends ∧ x.waits ≠ .refused) := by
  constructor
  case mp  =>
    intro h hr
    by_contra hn
    exact h _ _ amid_run <| requestEvent_leaves hr hn
  case mpr =>
    intro hw y s' h
    by_cases hr : s.connected
    case neg => exact requestEvent_refused hr h hs
    case pos =>
      obtain ⟨he, hx, hw⟩ := hw hr
      exact requestEvent_removes he hx hw h hs

end Python.Requests
