import Tyche.Discipline
import Tyche.Rust.Module

namespace Rust

open Proc Threads

variable {α β : Type} {s s' : Module} {i j : ModuleThread} {m n : Mutex} {works : Bool} {r : ℕ}

-- The mutexes that a thread holds, and what it relies on: that the job socket is connected as long as
-- it holds its mutex, or is not connected any more.
structure Holder where
  held      : List Mutex
  connected : Bool
  closed    : Bool

namespace Holder

def release (g : Holder) (m : Mutex) : Holder where
  held      := g.held.erase m
  connected := if m = .jobSocket then false else g.connected
  closed    := g.closed

def next (g : Holder) : ∀ {β : Type}, ModuleOp β → β → Holder
  | _, .lock m, _        => { g with held := m :: g.held }
  | _, .unlock m, _      => g.release m
  | _, .wait r, _        => g.release (.result r)
  | _, .isConnected, b   => { g with connected := b }
  | _, .disconnect, _    => { g with closed := true }
  | _, _, _              => g

def May (g : Holder) : ∀ {β : Type}, ModuleOp β → Prop
  | _, .unlock m           => m ∈ g.held
  | _, .wait r             => .result r ∈ g.held
  | _, .isConnected        => .jobSocket ∈ g.held
  | _, .disconnect         => .jobSocket ∈ g.held ∧ g.connected = false
  | _, _                   => True

-- The state agrees with the view of a thread.
structure Fits (s : Module) (i : ModuleThread) (g : Holder) : Prop where
  owner     : ∀ m, s.owner m = some i ↔ m ∈ g.held
  nodup     : g.held.Nodup
  connected : g.connected → .jobSocket ∈ g.held ∧ s.connected
  closed    : g.closed → s.connected = false

end Holder

open Holder

variable {v : ModuleThread → Holder} {g : Holder}

-- Who holds what.
def Holds (s : Module) (v : ModuleThread → Holder) : Prop :=
  ∀ i, Fits s i (v i)

theorem unlock_owner : (s.unlock m).owner n = if n = m then none else s.owner n := by
  cases m <;> rfl

theorem unlock_connected : (s.unlock m).connected = s.connected := by
  cases m <;> rfl

namespace Holds

theorem update (hi : Fits s' i g) (ho : ∀ j, j ≠ i → Fits s' j (v j)) :
    Holds s' (Function.update v i g) :=
  (Function.forall_update_iff v <| Fits s').mpr ⟨hi, ho⟩

-- The state changes in nothing that the views are about.
theorem quiet (h : Holds s v) (ho : s'.owner = s.owner) (hc : s'.connected = s.connected) :
    Holds s' v :=
  fun i => ⟨ho ▸ (h i).owner, (h i).nodup, hc ▸ (h i).connected, hc ▸ (h i).closed⟩

theorem eq_of_held (h : Holds s v) (hi : m ∈ (v i).held) (hj : m ∈ (v j).held) : i = j :=
  Option.some.inj <| (((h i).owner m).mpr hi).symm.trans <| ((h j).owner m).mpr hj

theorem lock (h : Holds s v) (hn : s.owner m = none) :
    Holds (s.own m (some i)) (Function.update v i { v i with held := m :: (v i).held }) := by
  have hm (j : ModuleThread) : m ∉ (v j).held := fun hj => by
    simpa [hn] using ((h j).owner m).mpr hj
  refine update ⟨fun n => ?_, by simpa [hm] using (h i).nodup, fun hc => ?_, (h i).closed⟩
    fun j hj => ⟨fun n => ?_, (h j).nodup, (h j).connected, (h j).closed⟩
  case refine_1 => by_cases hnm : n = m <;> simp [Module.own, hnm, (h i).owner]
  case refine_2 => exact ⟨List.mem_cons_of_mem _ ((h i).connected hc).left, ((h i).connected hc).right⟩
  case refine_3 =>
    by_cases hnm : n = m
    case pos => simp [Module.own, hnm, hm, Ne.symm hj]
    case neg => simp [Module.own, hnm, (h j).owner]

theorem release (h : Holds s v) (hm : m ∈ (v i).held)
    (ho : ∀ n, s'.owner n = if n = m then none else s.owner n) (hc : s'.connected = s.connected) :
    Holds s' (Function.update v i <| (v i).release m) := by
  refine update ⟨fun n => ?_, (h i).nodup.erase m, fun hi => ?_, hc ▸ (h i).closed⟩ fun j hj => ?_
  case refine_1 =>
    rw [ho]
    by_cases hn : n = m
    case pos => simp [hn, Holder.release, (h i).nodup.not_mem_erase]
    case neg => simp [hn, Holder.release, (h i).owner, List.mem_erase_of_ne hn]
  case refine_2 =>
    simp only [Holder.release] at hi
    split at hi
    case isTrue     => cases hi
    case isFalse hn =>
      rw [hc]
      exact ⟨(List.mem_erase_of_ne <| Ne.symm hn).mpr ((h i).connected hi).left,
        ((h i).connected hi).right⟩
  case refine_3 =>
    have hmj : m ∉ (v j).held := fun hmj => hj <| h.eq_of_held hmj hm
    refine ⟨fun n => ?_, (h j).nodup, hc ▸ (h j).connected, hc ▸ (h j).closed⟩
    rw [ho]
    by_cases hn : n = m <;> simp [hn, hmj, (h j).owner]

theorem isConnected (h : Holds s v) (hm : .jobSocket ∈ (v i).held) :
    Holds s (Function.update v i { v i with connected := s.connected }) :=
  update ⟨(h i).owner, (h i).nodup, fun hc => ⟨hm, hc⟩, (h i).closed⟩ fun j _ => h j

-- Nobody else holds the mutex of the socket.
theorem not_connected (h : Holds s v) (hm : .jobSocket ∈ (v i).held)
    (hc : (v i).connected = false) : (v j).connected = false := by
  refine Bool.eq_false_iff.mpr fun hj => ?_
  have hij : i = j := h.eq_of_held hm ((h j).connected hj).left
  simp [← hij, hc] at hj

theorem disconnect (h : Holds s v) (hm : .jobSocket ∈ (v i).held)
    (hc : (v i).connected = false) :
    Holds { s with connected := false } (Function.update v i { v i with closed := true }) :=
  update ⟨(h i).owner, (h i).nodup, by simp [hc], fun _ => rfl⟩
    fun j _ => ⟨(h j).owner, (h j).nodup, by simp [h.not_connected hm hc], fun _ => rfl⟩

theorem exec {o : ModuleOp β} {a : β} (h : Holds s v) (hm : (v i).May o)
    (e : modules.exec i works o s = some (.ok a, s')) :
    Holds s' (Function.update v i <| (v i).next o a) := by
  simp only [modules] at e
  split at e
  case isTrue     => cases e
  case isFalse hb =>
    cases o
    case lock m      => cases e; exact h.lock <| not_not.mp hb
    case unlock m    => cases e; exact h.release hm (fun _ => unlock_owner) unlock_connected
    case wait r      => cases e; exact h.release hm (fun _ => rfl) rfl
    case isConnected => cases e; exact h.isConnected hm
    case disconnect  => cases e; exact h.disconnect hm.left hm.right
    case receive m   =>
      cases e
      simp only [Holder.next, Function.update_eq_self]
      unfold Module.receive
      split <;> exact h.quiet rfl rfl
    all_goals
      cases e
      simp only [Holder.next, Function.update_eq_self]
      exact h.quiet rfl rfl

-- A thread that holds nothing may start again with the view of one that has not done anything.
theorem begin (h : Holds s v) (hi : (v i).held = []) :
    Holds s (Function.update v i ⟨[], false, false⟩) :=
  update ⟨fun m => by simpa [hi] using (h i).owner m, .nil, by simp, by simp⟩ fun j _ => h j

theorem start : Holds Module.start fun _ => ⟨[], false, false⟩ :=
  fun _ => ⟨by simp [Module.start], .nil, by simp, by simp⟩

end Holds

end Rust
