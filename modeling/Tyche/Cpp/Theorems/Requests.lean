import Tyche.Cpp.Module
import Tyche.Interference

namespace Cpp

open Proc Relation

variable {α β : Type} {s s' : TycheModule} {c : Bytes} {works : Bool} {r n : ℕ}

-- A request is registered under the correlation id.
def ModuleOp.Registers (c : Bytes) : ∀ {β : Type}, ModuleOp β → Prop
  | _, .insert c' _ => c' = c
  | _, _            => False

-- The operation leaves the requests under other correlation ids as they are.
def ModuleOp.Spares (c : Bytes) {β : Type} (o : ModuleOp β) : Prop :=
  ∀ works s k, k ≠ c →
    (TycheModule.exec works o s).2.pendingRequests.get? k = s.pendingRequests.get? k

namespace TycheModule

-- What other threads do meanwhile. Correlation ids are unique, so they do not register a request
-- under the same one.
def Others (c : Bytes) (s s' : TycheModule) : Prop :=
  ∃ (β : Type) (o : ModuleOp β) (works : Bool), ¬o.Registers c ∧ s' = (exec works o s).2

theorem exec_not_mem {o : ModuleOp β} (ho : ¬o.Registers c) (h : c ∉ s.pendingRequests) :
    c ∉ (exec works o s).2.pendingRequests := by
  cases o
  case insert c' r   =>
    have hc : c ≠ c' := fun he => ho he.symm
    simpa [exec, register, hc] using h
  case sendRequest r => cases works <;> exact h
  case tryWait c' r  =>
    simp only [exec]
    split
    case isTrue  => simp [erase, h]
    case isFalse => exact h
  case expire        => simp [exec, erase, h]
  case receive m     =>
    simp only [exec, receive]
    split <;> exact h
  case respond c' p  =>
    simp only [exec, respond]
    split <;> exact h
  case wakeUp        => exact Dict.not_mem_empty
  all_goals exact h

theorem others_not_mem (h : c ∉ s.pendingRequests) (ho : s.Others c s') :
    c ∉ s'.pendingRequests := by
  obtain ⟨_, _, _, ho, rfl⟩ := ho
  exact exec_not_mem ho h

theorem not_mem_of_others (h : ReflTransGen (Others c) s s') (hs : c ∉ s.pendingRequests) :
    c ∉ s'.pendingRequests :=
  others_keep (I := fun s => c ∉ s.pendingRequests) (fun _ _ => others_not_mem) h hs

-- Nothing connects the module again or makes it run again.
theorem others_idle (h : ¬(s.connected ∧ s.running)) (ho : s.Others c s') :
    ¬(s'.connected ∧ s'.running) := by
  obtain ⟨_, o, works, -, rfl⟩ := ho
  cases o
  case sendRequest r => cases works <;> exact h
  case tryWait c' r  =>
    simp only [exec]
    split <;> exact h
  case receive m     =>
    simp only [exec, receive]
    split <;> exact h
  case respond c' p  =>
    simp only [exec, respond]
    split <;> exact h
  case stopRunning   => simp [exec]
  case disconnect    => simp [exec]
  all_goals exact h

end TycheModule

open TycheModule

-- The code of the other threads calls only operations that the others may carry out.
theorem all_receiveJob {m : Incoming} : (receiveJob m).All fun o => ¬o.Registers c := by
  refine (all_op id).bind fun _ => ?_
  cases m
  case nothing      => trivial
  case request      => exact all_op id
  case response p c =>
    cases c
    case none   => trivial
    case some c => exact all_op id

theorem all_stop : Cpp.stop.All fun o => ¬o.Registers c :=
  (all_op id).bind fun _ => (all_op id).bind fun _ => all_op id

theorem all_requestEvent {c' : Bytes} (hc : c' ≠ c) :
    (requestEvent c' n).All fun o => ¬o.Registers c := by
  have hw (r : ℕ) : (waitFor c' r n).All fun o => ¬o.Registers c := by
    induction n
    case zero      => exact all_op id
    case succ n hi =>
      refine (all_op id).bind fun b => ?_
      cases b
      case false => exact hi
      case true  => trivial
  refine (all_op id).bind fun b => ?_
  cases b
  case false => trivial
  case true  =>
    refine (all_op id).bind fun r => (all_op hc).bind fun _ => (all_op id).bind fun b => ?_
    cases b
    case false => trivial
    case true  =>
      refine (hw r).bind fun b => ?_
      cases b
      case false => trivial
      case true  => exact (all_op id).bind fun _ => all_op id

theorem spares_insert : (ModuleOp.insert c r).Spares c :=
  fun _ _ _ hk => Dict.get?_set_ne hk

theorem spares_sendRequest : (ModuleOp.sendRequest r).Spares c := by
  intro works _ _ _
  cases works <;> rfl

theorem spares_tryWait : (ModuleOp.tryWait c r).Spares c := by
  intro _ _ _ hk
  simp only [TycheModule.exec]
  split
  case isTrue  => exact Dict.get?_erase_ne hk
  case isFalse => rfl

theorem spares_expire : (ModuleOp.expire c r).Spares c :=
  fun _ _ _ hk => Dict.get?_erase_ne hk

abbrev CppModule.AmidOthers (c : Bytes) (works : Bool) (p : CppModule α) :
    TycheModule → Except Empty α → TycheModule → Prop :=
  p.Amid (TycheModule.exec works) (TycheModule.Others c)

-- An entry that is not there does not come back.
theorem amid_not_mem {p : CppModule α} {x : Except Empty α} (h : p.AmidOthers c works s x s')
    (hp : p.All fun o => ¬o.Registers c) (hs : c ∉ s.pendingRequests) :
    c ∉ s'.pendingRequests :=
  h.keeps (I := fun s => c ∉ s.pendingRequests) hp (fun _ _ => exec_not_mem)
    (fun _ _ => others_not_mem) hs

theorem waitFor_removes {x : Except Empty Bool} (h : (waitFor c r n).AmidOthers c works s x s') :
    c ∉ s'.pendingRequests := by
  have he {t : TycheModule} : c ∉ (t.erase c).pendingRequests := by simp [erase]
  induction n generalizing s
  case zero      =>
    obtain ⟨s₁, -, -, h⟩ := h
    exact not_mem_of_others h he
  case succ n hi =>
    obtain ⟨s₁, -, h⟩ := h
    simp only [TycheModule.exec] at h
    cases hr : s₁.ready r
    all_goals
      simp only [hr] at h
    case false => exact hi h
    case true  => exact not_mem_of_others h.right he

-- A request that can be sent is erased again.
theorem requestEvent_removes {x : Except Empty Unit}
    (h : (requestEvent c n).AmidOthers c true s x s') (hs : c ∉ s.pendingRequests) :
    c ∉ s'.pendingRequests := by
  obtain ⟨s₁, h₁, h⟩ := h
  have hs := not_mem_of_others h₁ hs
  simp only [TycheModule.exec] at h
  cases hr : s₁.connected && s₁.running
  all_goals
    simp only [hr] at h
  case false => exact not_mem_of_others h.right hs
  case true  =>
    obtain ⟨s₂, -, s₃, -, s₄, -, h⟩ := h
    obtain ⟨b, s₅, hw, h⟩ | ⟨e, _⟩ := amid_bind h
    case inr => exact e.elim
    case inl =>
      refine amid_not_mem h ?_ <| waitFor_removes hw
      cases b
      case false => trivial
      case true  => exact (all_op id).bind fun _ => all_op id

-- A module that is not connected refuses the request.
theorem requestEvent_refused {x : Except Empty Unit}
    (h : (requestEvent c n).AmidOthers c works s x s') (hr : ¬(s.connected ∧ s.running))
    (hs : c ∉ s.pendingRequests) : c ∉ s'.pendingRequests := by
  obtain ⟨s₁, h₁, h⟩ := h
  have hr : ¬(s₁.connected ∧ s₁.running) :=
    others_keep (I := fun s => ¬(s.connected ∧ s.running)) (fun _ _ => others_idle) h₁ hr
  have hb : (s₁.connected && s₁.running) = false := by simpa using hr
  simp only [TycheModule.exec, hb] at h
  exact not_mem_of_others h.right <| not_mem_of_others h₁ hs

-- A request that cannot be sent stays in the table.
theorem requestEvent_leaves (hr : s.connected ∧ s.running) :
    c ∈ ((requestEvent c n).run (TycheModule.exec false) s).2.pendingRequests := by
  have hb : (s.connected && s.running) = true := by simpa using hr
  simp [requestEvent, run_bind, TycheModule.exec, hb, register, fail]

theorem all_spares : (requestEvent c n).All (ModuleOp.Spares c) := by
  have hw (r : ℕ) : (waitFor c r n).All (ModuleOp.Spares c) := by
    induction n
    case zero      => exact all_op spares_expire
    case succ n hi =>
      refine (all_op spares_tryWait).bind fun b => ?_
      cases b
      case false => exact hi
      case true  => trivial
  refine (all_op fun _ _ _ _ => rfl).bind fun b => ?_
  cases b
  case false => trivial
  case true  =>
    refine (all_op fun _ _ _ _ => rfl).bind fun r => (all_op spares_insert).bind fun _ =>
      (all_op spares_sendRequest).bind fun b => ?_
    cases b
    case false => trivial
    case true  =>
      refine (hw r).bind fun b => ?_
      cases b
      case false => trivial
      case true  => exact (all_op fun _ _ _ _ => rfl).bind fun _ => all_op fun _ _ _ _ => rfl

-- The request leaves no entry behind, whatever the others do.
def LeavesNothing (s : TycheModule) (c : Bytes) (wakeUps : ℕ) (works : Bool) : Prop :=
  ∀ x s', (requestEvent c wakeUps).AmidOthers c works s x s' → c ∉ s'.pendingRequests

theorem leavesNothing_iff (hs : c ∉ s.pendingRequests) :
    LeavesNothing s c n works ↔ (s.connected ∧ s.running → works) := by
  constructor
  case mp  =>
    intro h hr
    cases works
    case true  => rfl
    case false => exact absurd (requestEvent_leaves hr) (h _ _ amid_run)
  case mpr =>
    intro hw x s' h
    by_cases hr : s.connected ∧ s.running
    case neg => exact requestEvent_refused h hr hs
    case pos =>
      obtain rfl := hw hr
      exact requestEvent_removes h hs

end Cpp
