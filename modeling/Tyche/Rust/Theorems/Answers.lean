import Tyche.Rust.Theorems.Holders

namespace Rust

open Proc Threads

variable {α β : Type} {s s' : Module} {i j : ModuleThread} {m : Mutex} {works : Bool} {r : ℕ}

-- Whatever was returned as the response to a request was received after the request was registered.
def Module.Real (s : Module) : Prop :=
  ∀ x ∈ s.returned, x ∈ s.received

-- No request is registered under the correlation id of a response that was received before.
def ModuleOp.Fresh : ∀ {β : Type}, ModuleOp β → Module → Prop
  | _, .insert c _, s => s.handling ≠ some c
  | _, _, _           => True

instance : ∀ {β} (o : ModuleOp β), Decidable (o.Fresh s)
  | _, .insert .. => inferInstanceAs <| Decidable (_ ≠ _)
  | _, .lock _ | _, .unlock _ | _, .isConnected | _, .newRequest | _, .get _ | _, .remove _
  | _, .send | _, .isNone _ | _, .wait _ | _, .expire _ | _, .take _ | _, .answer ..
  | _, .receive _ | _, .set .. | _, .isRunning | _, .stopRunning | _, .disconnect | _, .requests
  | _, .clear => isTrue trivial

namespace Module

def fresh : Condition ModuleOp Module ModuleThread ModuleTask Bool where
  enter _ _ _    := True
  exec _ _ _ o s := o.Fresh s

instance {k : ModuleTask} : Decidable (fresh.enter i k s) :=
  isTrue trivial

instance {k : Option ModuleTask} {o : ModuleOp β} : Decidable (fresh.exec i k works o s) :=
  inferInstanceAs <| Decidable (o.Fresh s)

end Module

namespace Answers

-- A caller knows the request that it made, and whether the result is set. A thread knows that
-- something is the response to a request, and the receiver which response it has yet to look up.
structure View extends Holder where
  own      : Option ℕ
  filled   : Bool
  known    : Option (ℕ × Json)
  receives : Bool
  response : Option (Bytes × Json)

def response? : Incoming → Option (Bytes × Json)
  | .response (some c) v => some (c, v)
  | _                    => none

def View.next (g : View) : ∀ {β : Type}, ModuleOp β → β → View
  | _, .unlock m, a =>
    if m = .jobSocket then
      { g with toHolder := g.toHolder.next (.unlock m) a, own := none, filled := false }
    else
      { g with toHolder := g.toHolder.next (.unlock m) a }
  | _, .newRequest, r => { g with own := r, filled := false }
  | _, .isNone _, b   => { g with filled := !b }
  | _, .take r, v     => { g with filled := false, known := some (r, v) }
  | _, .receive m, _  => { g with response := response? m }
  | _, .get _, r      =>
    { g with known := r.bind fun r => g.response.map fun x => (r, x.2), response := none }
  | _, o, a           => { g with toHolder := g.toHolder.next o a }

-- A result is only set to the response to its request, or when no caller is left.
def View.May (g : View) : ∀ {β : Type}, ModuleOp β → Prop
  | _, .newRequest  => g.connected
  | _, .isConnected => .jobSocket ∈ g.held ∧ g.own = none
  | _, .isNone r    => g.own = some r
  | _, .take r      => g.own = some r ∧ g.filled
  | _, .answer r v  => g.known = some (r, v)
  | _, .receive _   => g.receives
  | _, .get c       => ∃ v, g.response = some (c, v)
  | _, .set r v     => g.known = some (r, v) ∨ g.closed
  | _, o            => g.toHolder.May o

-- The state agrees with the view of a thread.
structure Agrees (s : Module) (i : ModuleThread) (g : View) : Prop where
  own      : ∀ r ∈ g.own, g.connected ∧ r < s.created ∧ ∀ v ∈ s.results r, (r, v) ∈ s.received
  filled   : g.filled → ∀ r ∈ g.own, s.results r ≠ none
  known    : ∀ x ∈ g.known, x ∈ s.received
  receives : g.receives → i = .receiver
  response : ∀ x ∈ g.response, g.receives ∧ s.handling = some x.1 ∧
    ∀ r ∈ s.pendingRequests.get? x.1, (r, x.2) ∈ s.received

structure Inv (s : Module) (v : ModuleThread → View) : Prop where
  holds  : Holds s fun i => (v i).toHolder
  agrees : ∀ i, Agrees s i (v i)
  table  : ∀ c, ∀ r ∈ s.pendingRequests.get? c, (c, r) ∈ s.registered
  real   : s.Real

def discipline : Discipline modules View where
  May g o    := g.May o
  next g o
    | .ok a => g.next o a
  Inv        := Inv
  cond       := Module.fresh

section Inv

variable {v : ModuleThread → View} {g : View}

theorem View.May.holder {o : ModuleOp β} (h : g.May o) : g.toHolder.May o := by
  cases o
  case isConnected          => exact h.left
  case unlock | wait | disconnect => exact h
  all_goals trivial

theorem View.next_toHolder {o : ModuleOp β} {a : β} :
    (g.next o a).toHolder = g.toHolder.next o a := by
  cases o
  case unlock m =>
    simp only [View.next]
    split <;> rfl
  all_goals rfl

theorem update_toHolder : (fun j => (Function.update v i g j).toHolder) =
    Function.update (fun j => (v j).toHolder) i g.toHolder :=
  funext <| Function.apply_update (fun _ => View.toHolder) v i g

theorem agrees_update (hi : Agrees s' i g) (ho : ∀ j, j ≠ i → Agrees s' j (v j)) :
    ∀ j, Agrees s' j (Function.update v i g j) :=
  (Function.forall_update_iff v <| Agrees s').mpr ⟨hi, ho⟩

-- What the views are about stays the same, or there is more of it.
structure Grows (s s' : Module) : Prop where
  created  : s.created ≤ s'.created
  results  : s'.results = s.results
  received : ∀ x ∈ s.received, x ∈ s'.received
  handling : s'.handling = s.handling
  pending  : ∀ c, ∀ r ∈ s'.pendingRequests.get? c, r ∈ s.pendingRequests.get? c

theorem Agrees.grow (h : Agrees s i g) (e : Grows s s') : Agrees s' i g where
  own r hr := ⟨(h.own r hr).left, (h.own r hr).right.left.trans_le e.created,
    fun v hv => e.received _ <| (h.own r hr).right.right v <| e.results ▸ hv⟩
  filled   := e.results ▸ h.filled
  known x hx := e.received _ <| h.known x hx
  receives := h.receives
  response x hx := ⟨(h.response x hx).left, e.handling ▸ (h.response x hx).right.left,
    fun r hr => e.received _ <| (h.response x hx).right.right r <| e.pending _ r hr⟩

theorem Agrees.holder {g' : Holder} (h : Agrees s i g) (hg : g'.connected = g.connected) :
    Agrees s i { g with toHolder := g' } :=
  ⟨fun r hr => ⟨hg ▸ (h.own r hr).left, (h.own r hr).right⟩, h.filled, h.known, h.receives,
    h.response⟩

-- No caller is left once the job socket is closed.
theorem Inv.own_eq_none (h : Inv s v) (hc : s.connected = false) : (v i).own = none := by
  refine Option.eq_none_iff_forall_not_mem.mpr fun r hr => ?_
  have hj := ((h.holds i).connected ((h.agrees i).own r hr).left).right
  simp [hc] at hj

-- A request has one caller, as callers hold the mutex of the job socket.
theorem Inv.eq_of_own (h : Inv s v) (hi : r ∈ (v i).own) (hj : r ∈ (v j).own) : i = j :=
  h.holds.eq_of_held ((h.holds i).connected ((h.agrees i).own r hi).left).left
    ((h.holds j).connected ((h.agrees j).own r hj).left).left

theorem Inv.grow (h : Inv s v) (hs : Holds s' fun j => (Function.update v i g j).toHolder)
    (e : Grows s s') (ht : ∀ c, ∀ r ∈ s'.pendingRequests.get? c, (c, r) ∈ s'.registered)
    (hr : s'.Real) (hi : Agrees s i g) : Inv s' (Function.update v i g) :=
  ⟨hs, agrees_update (hi.grow e) fun j _ => (h.agrees j).grow e, ht, hr⟩

-- An operation on something else.
theorem Inv.quiet (h : Inv s v) (hs : Holds s' fun j => (Function.update v i g j).toHolder)
    (hc : s'.created = s.created) (hv : s'.results = s.results) (hr : s'.received = s.received)
    (hh : s'.handling = s.handling) (hp : s'.pendingRequests = s.pendingRequests)
    (hn : s'.registered = s.registered) (ht : s'.returned = s.returned) (hi : Agrees s i g) :
    Inv s' (Function.update v i g) := by
  refine h.grow hs ⟨hc.ge, hv, hr ▸ fun _ hx => hx, hh, hp ▸ fun _ _ hr => hr⟩ ?_ ?_ hi
  case refine_1 => exact hp ▸ hn ▸ h.table
  case refine_2 =>
    rw [Module.Real, hr, ht]
    exact h.real

theorem Inv.unlock (h : Inv s v) (hs : Holds (s.unlock m) fun j =>
      (Function.update v i ((v i).next (.unlock m) ()) j).toHolder) :
    Inv (s.unlock m) (Function.update v i <| (v i).next (.unlock m) ()) := by
  have hi := h.agrees i
  have hu : Agrees s i <| (v i).next (.unlock m) () := by
    simp only [View.next]
    split
    case isTrue     => exact ⟨by simp, by simp, hi.known, hi.receives, hi.response⟩
    case isFalse hn => exact hi.holder <| by simp [Holder.next, Holder.release, hn]
  cases m <;> exact h.quiet hs rfl rfl rfl rfl rfl rfl rfl hu

theorem Inv.newRequest (h : Inv s v) (hc : (v i).connected)
    (hs : Holds { s.setResult s.created none with created := s.created + 1 } fun j =>
      (Function.update v i { v i with own := some s.created, filled := false } j).toHolder) :
    Inv { s.setResult s.created none with created := s.created + 1 }
      (Function.update v i { v i with own := some s.created, filled := false }) := by
  have hi := h.agrees i
  refine ⟨hs, agrees_update ⟨fun r hr => ?_, by simp, hi.known, hi.receives, hi.response⟩
    fun j hj => ?_, h.table, h.real⟩
  case refine_1 =>
    cases Option.mem_some_iff.mp hr
    exact ⟨hc, Nat.lt_succ_self _, by simp [Module.setResult]⟩
  case refine_2 =>
    have hv := h.agrees j
    have hne (r : ℕ) (hr : r ∈ (v j).own) : r ≠ s.created := (hv.own r hr).right.left.ne
    refine ⟨fun r hr => ⟨(hv.own r hr).left, (hv.own r hr).right.left.trans <| Nat.lt_succ_self _,
      ?_⟩, fun hf r hr => ?_, hv.known, hv.receives, hv.response⟩
    · simpa [Module.setResult, hne r hr] using (hv.own r hr).right.right
    · simpa [Module.setResult, hne r hr] using hv.filled hf r hr

theorem Inv.set {u : Json} (h : Inv s v) (hm : (v i).known = some (r, u) ∨ (v i).closed)
    (hs : Holds (s.setResult r u) fun j => (v j).toHolder) : Inv (s.setResult r u) v := by
  refine ⟨hs, fun j => ?_, h.table, h.real⟩
  have hv := h.agrees j
  refine ⟨fun p hp => ⟨(hv.own p hp).left, (hv.own p hp).right.left, fun w hw => ?_⟩,
    fun hf p hp => ?_, hv.known, hv.receives, hv.response⟩
  case refine_1 =>
    by_cases hpr : p = r
    case neg =>
      simp only [Module.setResult, hpr] at hw
      exact (hv.own p hp).right.right w hw
    case pos =>
      subst hpr
      obtain hk | hc := hm
      case inl =>
        simp only [Module.setResult, if_true, Option.mem_some_iff] at hw
        exact hw ▸ (h.agrees i).known _ hk
      case inr => simp [h.own_eq_none ((h.holds i).closed hc)] at hp
  case refine_2 =>
    by_cases hpr : p = r
    case pos => simp [Module.setResult, hpr]
    case neg => simpa [Module.setResult, hpr] using hv.filled hf p hp

theorem Inv.take (h : Inv s v) (hm : (v i).own = some r) (hf : (v i).filled)
    (hs : Holds (s.setResult r none) fun j => (Function.update v i
      { v i with filled := false, known := some (r, (s.results r).getD .null) } j).toHolder) :
    Inv (s.setResult r none) (Function.update v i
      { v i with filled := false, known := some (r, (s.results r).getD .null) }) := by
  have hi := h.agrees i
  obtain ⟨u, hu⟩ := Option.ne_none_iff_exists'.mp <| hi.filled hf r hm
  refine ⟨hs, agrees_update ⟨fun p hp => ?_, by simp, fun x hx => ?_, hi.receives, hi.response⟩
    fun j hj => ?_, h.table, h.real⟩
  case refine_1 =>
    have hpr : p = r := Option.some.inj <| hp.symm.trans hm
    exact ⟨(hi.own p hp).left, (hi.own p hp).right.left, by simp [Module.setResult, hpr]⟩
  case refine_2 =>
    simp only [hu, Option.getD_some, Option.mem_some_iff] at hx
    exact hx ▸ (hi.own r hm).right.right u hu
  case refine_3 =>
    have hv := h.agrees j
    have hne (p : ℕ) (hp : p ∈ (v j).own) : p ≠ r := fun he => hj <| h.eq_of_own hp (he ▸ hm)
    refine ⟨fun p hp => ⟨(hv.own p hp).left, (hv.own p hp).right.left, ?_⟩, fun hf p hp => ?_,
      hv.known, hv.receives, hv.response⟩
    · simpa [Module.setResult, hne p hp] using (hv.own p hp).right.right
    · simpa [Module.setResult, hne p hp] using hv.filled hf p hp

theorem Inv.insert {c : Bytes} (h : Inv s v) (hc : s.handling ≠ some c)
    (hs : Holds (s.register c r) fun j => (v j).toHolder) : Inv (s.register c r) v := by
  refine ⟨hs, fun j => ?_, fun c' r' hr => ?_, h.real⟩
  case refine_1 =>
    have hv := h.agrees j
    refine ⟨hv.own, hv.filled, hv.known, hv.receives, fun x hx => ?_⟩
    have ⟨hr, hh, hp⟩ := hv.response x hx
    have hne : x.1 ≠ c := fun he => hc <| he ▸ hh
    exact ⟨hr, hh, fun p h => hp p <| by simpa [Module.register, Dict.get?_set_ne hne] using h⟩
  case refine_2 =>
    simp only [Module.register, Dict.get?_set] at hr ⊢
    split at hr
    case isTrue he  =>
      cases Option.mem_some_iff.mp hr
      exact he ▸ List.mem_cons_self
    case isFalse he => exact List.mem_cons_of_mem _ <| h.table c' r' hr

theorem receive_quiet {m : Incoming} : (s.receive m).created = s.created ∧
    (s.receive m).results = s.results ∧ (s.receive m).pendingRequests = s.pendingRequests ∧
      (s.receive m).registered = s.registered ∧ (s.receive m).returned = s.returned := by
  unfold Module.receive
  split <;> exact ⟨rfl, rfl, rfl, rfl, rfl⟩

theorem mem_receive {m : Incoming} {x : ℕ × Json} (h : x ∈ s.received) :
    x ∈ (s.receive m).received := by
  unfold Module.receive
  split
  case h_1 => exact List.mem_append_right _ h
  case h_2 => exact h

-- The receiver has no other response in its hands.
theorem Inv.receive {m : Incoming} (h : Inv s v) (hm : (v i).receives)
    (hs : Holds (s.receive m) fun j =>
      (Function.update v i { v i with response := response? m } j).toHolder) :
    Inv (s.receive m) (Function.update v i { v i with response := response? m }) := by
  have ⟨hc, hr, hp, hn, ht⟩ := receive_quiet (s := s) (m := m)
  have hv (j : ModuleThread) : Agrees (s.receive m) j { v j with response := none } :=
    ⟨fun r hr' => ⟨((h.agrees j).own r hr').left, hc ▸ ((h.agrees j).own r hr').right.left,
      fun u hu => mem_receive <| ((h.agrees j).own r hr').right.right u <| hr ▸ hu⟩,
      hr ▸ (h.agrees j).filled, fun x hx => mem_receive <| (h.agrees j).known x hx,
      (h.agrees j).receives, by simp⟩
  refine ⟨hs, agrees_update ⟨(hv i).own, (hv i).filled, (hv i).known, (hv i).receives,
    fun x hx => ⟨hm, ?_⟩⟩ fun j hj => ?_, hp ▸ hn ▸ h.table, fun x hx => ?_⟩
  case refine_1 =>
    cases m
    case response c u =>
      cases c
      case none   => cases hx
      case some c =>
        cases Option.mem_some_iff.mp hx
        refine ⟨rfl, fun r hr => List.mem_append_left _ <| List.mem_map.mpr ⟨(c, r), ?_, rfl⟩⟩
        exact List.mem_filter.mpr ⟨h.table c r hr, decide_eq_true rfl⟩
    all_goals cases hx
  case refine_2 =>
    have hn : (v j).response = none := by
      refine Option.eq_none_iff_forall_not_mem.mpr fun x hx => hj ?_
      have he := (h.agrees j).receives ((h.agrees j).response x hx).left
      exact he.trans ((h.agrees i).receives hm).symm
    have hv := hv j
    rwa [← hn] at hv
  case refine_3 => exact mem_receive <| h.real x <| ht ▸ hx

theorem Inv.get {c : Bytes} {u : Json} (h : Inv s v) (hm : (v i).response = some (c, u))
    (hs : Holds (s.lookUp c) fun j => (Function.update v i ((v i).next (.get c)
      (s.pendingRequests.get? c)) j).toHolder) :
    Inv (s.lookUp c) (Function.update v i ((v i).next (.get c) (s.pendingRequests.get? c))) := by
  have hi := h.agrees i
  refine ⟨hs, agrees_update ⟨hi.own, hi.filled, fun x hx => ?_, hi.receives, by simp [View.next]⟩
    fun j hj => ?_, h.table, h.real⟩
  case refine_1 =>
    simp only [View.next, hm, Option.map_some, Option.mem_def, Option.bind_eq_some_iff,
      Option.some.injEq] at hx
    obtain ⟨r, hr, rfl⟩ := hx
    exact (hi.response _ hm).right.right r hr
  case refine_2 =>
    have hv := h.agrees j
    refine ⟨hv.own, hv.filled, hv.known, hv.receives, fun x hx => absurd ?_ hj⟩
    exact (hv.receives (hv.response x hx).left).trans (hi.receives (hi.response _ hm).left).symm

theorem Inv.exec {o : ModuleOp β} {a : β} (h : Inv s v) (hm : (v i).May o) (hc : o.Fresh s)
    (e : modules.exec i works o s = some (.ok a, s')) :
    Inv s' (Function.update v i <| (v i).next o a) := by
  have hs : Holds s' fun j => (Function.update v i ((v i).next o a) j).toHolder := by
    rw [update_toHolder, View.next_toHolder]
    exact h.holds.exec hm.holder e
  have hi := h.agrees i
  simp only [modules] at e
  split at e
  case isTrue     => cases e
  case isFalse hb =>
    cases o
    case newRequest  => cases e; exact h.newRequest hm hs
    case take r      => cases e; exact h.take hm.left hm.right hs
    case receive m   => cases e; exact h.receive hm hs
    case get c       =>
      obtain ⟨u, hu⟩ := hm
      cases e
      exact h.get hu hs
    case set r u     =>
      cases e
      simp only [View.next, Holder.next, Function.update_eq_self] at hs ⊢
      exact h.set hm hs
    case insert c r  =>
      cases e
      simp only [View.next, Holder.next, Function.update_eq_self] at hs ⊢
      exact h.insert hc hs
    case answer r u  =>
      cases e
      refine h.grow hs ⟨le_rfl, rfl, fun _ hx => hx, rfl, fun _ _ hr => hr⟩ h.table (fun x hx => ?_) hi
      obtain rfl | hx := List.mem_cons.mp hx
      case inl => exact hi.known _ hm
      case inr => exact h.real x hx
    case isConnected =>
      cases e
      refine h.quiet hs rfl rfl rfl rfl rfl rfl rfl <|
        ⟨by simp [View.next, hm.right], hi.filled, hi.known, hi.receives, hi.response⟩
    case disconnect  => cases e; exact h.quiet hs rfl rfl rfl rfl rfl rfl rfl <| hi.holder rfl
    case unlock m    => cases e; exact h.unlock hs
    case isNone r    =>
      cases e
      refine h.quiet hs rfl rfl rfl rfl rfl rfl rfl <|
        ⟨hi.own, fun hf p hp => ?_, hi.known, hi.receives, hi.response⟩
      cases Option.some.inj <| hp.symm.trans hm
      simpa [View.next, Option.isSome_iff_ne_none] using hf
    case remove c    =>
      cases e
      exact h.grow hs ⟨le_rfl, rfl, fun _ hx => hx, rfl, fun _ _ hr => Dict.mem_of_mem_erase hr⟩
        (fun k r hr => h.table k r <| Dict.mem_of_mem_erase hr) h.real <| hi.holder rfl
    case clear       =>
      cases e
      have hn (k : Bytes) (r : ℕ) : r ∉ (∅ : Dict Bytes ℕ).get? k := by simp
      exact h.grow hs ⟨le_rfl, rfl, fun _ hx => hx, rfl, fun k r hr => absurd hr <| hn k r⟩
        (fun k r hr => absurd hr <| hn k r) h.real <| hi.holder rfl
    all_goals cases e; exact h.quiet hs rfl rfl rfl rfl rfl rfl rfl <| hi.holder rfl

end Inv

section Code

variable {g : View} {Q : Except Empty β → View → Prop} {o : ModuleOp α} {f : α → RustModule β}
variable {ms : List Mutex} {filled : Bool} {known : Option (ℕ × Json)}

theorem obeys_call (ho : g.May o) (h : ∀ a, Obeys discipline Q (f a) (g.next o a)) :
    Obeys discipline Q (op o >>= f) g :=
  Threads.obeys_call ho h

theorem obeys_last {Q : Except Empty α → View → Prop} (ho : g.May o)
    (h : ∀ a, Q (.ok a) <| g.next o a) : Obeys discipline Q (op o) g :=
  Threads.obeys_last ho h

theorem next_lock_unlock (hm : m ≠ .jobSocket) :
    (g.next (.lock m) ()).next (.unlock m) () = g := by
  simp [View.next, Holder.next, Holder.release, hm]

-- A mutex that is held for one operation.
theorem obeys_section (hm : m ≠ .jobSocket) (ho : (g.next (.lock m) ()).May o)
    (hn : ∀ a, (g.next (.lock m) ()).next o a = g.next (.lock m) ())
    (h : ∀ a, Obeys discipline Q (f a) g) :
    Obeys discipline Q (do op (.lock m); let a ← op o; op (.unlock m); f a) g := by
  refine obeys_call trivial fun _ => obeys_call ho fun a => ?_
  rw [hn]
  refine obeys_call List.mem_cons_self fun _ => ?_
  rw [next_lock_unlock hm]
  exact h a

-- The view of one who does not have the mutex of the job socket, and the view of a caller.
def View.idle (receives : Bool) : View :=
  ⟨⟨[], false, false⟩, none, false, none, receives, none⟩

def View.caller (ms : List Mutex) (r : ℕ) (filled : Bool) (known : Option (ℕ × Json)) : View :=
  ⟨⟨ms, true, false⟩, some r, filled, known, false, none⟩

theorem obeys_waitTimeoutWhile {n : ℕ} {Q : Except Empty Bool → View → Prop}
    (hf : Q (.ok false) <| .caller [.result r, .jobSocket] r true none)
    (ht : Q (.ok true) <| .caller [.result r, .jobSocket] r false none) :
    Obeys discipline Q (waitTimeoutWhile r n) <|
      .caller [.result r, .jobSocket] r filled none := by
  induction n generalizing filled
  case zero      =>
    refine obeys_call rfl fun b => ?_
    cases b
    case false => exact hf
    case true  => exact obeys_call trivial fun _ => ht
  case succ n hi =>
    refine obeys_call rfl fun b => ?_
    cases b
    case false => exact hf
    case true  =>
      refine obeys_call List.mem_cons_self fun _ => obeys_call trivial fun _ => ?_
      have hw : ((View.caller [.result r, .jobSocket] r false none).next (.wait r) ()).next
          (.lock <| .result r) () = .caller [.result r, .jobSocket] r false none := by
        simp [View.next, View.caller, Holder.next, Holder.release]
      change Obeys _ _ _ <| ((View.caller _ r false none).next (.wait r) ()).next (.lock _) ()
      rw [hw]
      exact hi

theorem obeys_requestEvent {c : Bytes} {n : ℕ} :
    Obeys discipline (fun _ g => g.held = []) (requestEvent c n) <| .idle false := by
  unfold requestEvent
  refine obeys_call trivial fun _ => obeys_call List.mem_cons_self fun _ => ?_
  rw [next_lock_unlock (by simp)]
  refine obeys_call trivial fun _ => obeys_call ⟨List.mem_cons_self, rfl⟩ fun b => ?_
  cases b
  case false => exact obeys_last List.mem_cons_self fun _ => rfl
  case true  =>
    rw [if_pos rfl]
    refine obeys_call rfl fun r => ?_
    change Obeys _ _ _ <| View.caller [.jobSocket] r false none
    refine obeys_section (by simp) trivial (fun _ => rfl) fun _ => ?_
    refine obeys_section (by simp) trivial (fun _ => rfl) fun sent => ?_
    cases sent
    case false => exact obeys_last List.mem_cons_self fun _ => rfl
    case true  =>
      rw [if_pos rfl]
      have ht : Obeys discipline (fun _ g => g.held = []) (do
          let v ← op (.take r)
          op (.unlock <| .result r)
          op (.lock .pendingRequests)
          op (.remove c)
          op (.unlock .pendingRequests)
          op (.answer r v)
          op (.unlock .jobSocket)) <| .caller [.result r, .jobSocket] r true none := by
        refine obeys_call ⟨rfl, rfl⟩ fun v => obeys_call List.mem_cons_self fun _ => ?_
        refine obeys_section (by simp) trivial (fun _ => rfl) fun _ => ?_
        refine obeys_call ?_ fun _ => obeys_last ?_ fun _ => ?_
        all_goals simp [View.next, View.May, View.caller, Holder.next, Holder.release, Holder.May]
      refine obeys_call trivial fun _ => ?_
      refine obeys_bind <| obeys_waitTimeoutWhile ?_ ?_
      case refine_1 => exact ht
      case refine_2 =>
        refine obeys_call rfl fun b => ?_
        cases b
        case false => exact ht
        case true  =>
          rw [if_pos rfl]
          refine obeys_section (by simp) trivial (fun _ => rfl) fun _ => ?_
          refine obeys_call List.mem_cons_self fun _ => obeys_last ?_ fun _ => ?_
          all_goals simp [View.next, View.May, View.caller, Holder.next, Holder.release, Holder.May]

theorem obeys_receiveJob {msg : Incoming} :
    Obeys discipline (fun _ g => g.held = []) (receiveJob msg) <| .idle true := by
  refine obeys_call trivial fun _ => obeys_call rfl fun _ => ?_
  refine obeys_call List.mem_cons_self fun _ => ?_
  cases msg
  case nothing      => rfl
  case request      =>
    exact obeys_call trivial fun _ => obeys_call trivial fun _ =>
      obeys_last List.mem_cons_self fun _ => rfl
  case response c v =>
    cases c
    case none   => rfl
    case some c =>
      refine obeys_call trivial fun _ => obeys_call ⟨v, rfl⟩ fun r => ?_
      cases r
      case none   => exact obeys_last List.mem_cons_self fun _ => rfl
      case some r =>
        refine obeys_section (by simp) (.inl rfl) (fun _ => rfl) fun _ => ?_
        exact obeys_last List.mem_cons_self fun _ => rfl

theorem obeys_reset (hm : m ≠ .jobSocket) {Q : Except Empty Unit → View → Prop} (h : Q (.ok ()) g) :
    Obeys discipline Q (reset m) g := by
  refine obeys_call trivial fun _ => obeys_last List.mem_cons_self fun _ => ?_
  change Q _ <| (g.next (.lock m) ()).next (.unlock m) ()
  rwa [next_lock_unlock hm]

theorem obeys_stop : Obeys discipline (fun _ g => g.held = []) Rust.stop <| .idle false := by
  unfold Rust.stop
  refine obeys_call trivial fun b => ?_
  cases b
  case false => rfl
  case true  =>
    rw [if_pos rfl]
    refine obeys_call trivial fun _ => ?_
    iterate 5 refine obeys_bind <| obeys_reset (by simp) ?_
    refine obeys_call trivial fun _ => obeys_call ⟨List.mem_cons_self, rfl⟩ fun _ => ?_
    refine obeys_call List.mem_cons_self fun _ => ?_
    change Obeys _ _ _ <| View.mk ⟨[], false, true⟩ none false none false none
    refine obeys_call trivial fun _ => obeys_call trivial fun rs => ?_
    change Obeys _ _ _ <| View.mk ⟨[.pendingRequests], false, true⟩ none false none false none
    refine obeys_bind <| obeys_each (fun r _ => ?_) ?_
    case refine_1 =>
      refine obeys_call trivial fun _ => obeys_call (.inr rfl) fun _ =>
        obeys_last List.mem_cons_self fun _ => ?_
      exact next_lock_unlock (m := .result r) (by simp)
    case refine_2 =>
      refine obeys_call List.mem_cons_self fun _ => ?_
      change Obeys _ _ _ <| View.mk ⟨[], false, true⟩ none false none false none
      refine obeys_section (by simp) trivial (fun _ => rfl) fun _ => ?_
      exact obeys_reset (by simp) rfl

end Code

def Unlocked (_ : ModuleThread) (_ : Except Empty Unit) (g : View) : Prop :=
  g.held = []

theorem Inv.begin {v : ModuleThread → View} {receives : Bool} (h : Inv s v)
    (hi : (v i).held = []) (hr : receives → i = .receiver) :
    Inv s (Function.update v i <| .idle receives) := by
  refine ⟨?_, agrees_update ?_ fun j _ => h.agrees j, h.table, h.real⟩
  case refine_1 =>
    rw [update_toHolder]
    exact h.holds.begin hi
  case refine_2 => exact ⟨by simp [View.idle], by simp [View.idle], by simp [View.idle], hr,
    by simp [View.idle]⟩

theorem kept : discipline.Kept Unlocked where
  exec i k works o s v x s' h hm hc e := by
    cases x
    case ok a    => exact h.exec hm hc e
    case error a => exact a.elim
  enter i k s v s' p h hi _ e := by
    simp only [modules, Module.enter] at e
    split at e <;> cases e
    case h_1 => exact ⟨_, Inv.begin h hi (by simp), obeys_requestEvent⟩
    case h_2 => exact ⟨_, Inv.begin h hi (by simp), obeys_receiveJob⟩
    case h_3 => exact ⟨_, Inv.begin h hi (by simp), obeys_stop⟩

theorem disciplined_start : Disciplined discipline Unlocked (Threads.start Module.start) := by
  refine ⟨fun _ => .idle false, ⟨Holds.start, fun i => ?_, ?_, ?_⟩, fun i => rfl⟩
  case refine_1 => constructor <;> simp [View.idle]
  case refine_2 => simp [Threads.start, Module.start]
  case refine_3 => simp [Threads.start, Module.start, Module.Real]

end Answers

namespace modules

variable {as : List (Threads.Action ModuleThread ModuleTask Bool)}

theorem always_real_of_fresh
    (c : (machine modules).Along (Meets Module.fresh) (Threads.start Module.start) as) :
    (machine modules).Always (fun t => t.shared.Real) (Threads.start Module.start) as :=
  (always_disciplined Answers.kept Answers.disciplined_start c).mono fun _ ⟨_, h, _⟩ => h.real

end modules

end Rust
