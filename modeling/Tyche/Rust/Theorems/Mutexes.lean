import Tyche.Mutex
import Tyche.Rust.Theorems.Holders

namespace Rust

open Proc Threads

variable {α β : Type} {s : Module} {i : ModuleThread} {m n : Mutex} {works : Bool}

-- The mutex that a thread is waiting to acquire, or is about to.
def awaited : RustModule Unit → Option Mutex
  | .call (.lock m) _ => some m
  | _                 => none

def Module.locking (t : Threads ModuleOp Empty Module ModuleThread ModuleTask) :
    Locking ModuleThread Mutex where
  holds i m := t.shared.owner m = some i
  waits i m := awaited (t.code i) = some m

-- No response is looked up whose caller has run out of time but still has to lock the table, and no
-- time runs out while the result of the request is about to be set.
def ModuleOp.Timely : ∀ {β : Type}, ModuleOp β → Module → Prop
  | _, .get c, s    => ∀ r ∈ s.pendingRequests.get? c, r ∉ s.gaveUp
  | _, .expire r, s => s.target ≠ some r
  | _, _, _         => True

instance : ∀ {β} (o : ModuleOp β), Decidable (o.Timely s)
  | _, .get _    => inferInstanceAs <| Decidable (∀ _ ∈ _, _)
  | _, .expire _ => inferInstanceAs <| Decidable (_ ≠ _)
  | _, .lock _ | _, .unlock _ | _, .isConnected | _, .newRequest | _, .insert .. | _, .remove _
  | _, .send | _, .isNone _ | _, .wait _ | _, .take _ | _, .answer .. | _, .receive _ | _, .set ..
  | _, .isRunning | _, .stopRunning | _, .disconnect | _, .requests | _, .clear => isTrue trivial

namespace Module

def timely : Condition ModuleOp Module ModuleThread ModuleTask Bool where
  enter _ _ _    := True
  exec _ _ _ o s := o.Timely s

instance {k : ModuleTask} : Decidable (timely.enter i k s) :=
  isTrue trivial

instance {k : Option ModuleTask} {o : ModuleOp β} : Decidable (timely.exec i k works o s) :=
  inferInstanceAs <| Decidable (o.Timely s)

end Module

namespace Mutex

def rank : Mutex → ℕ
  | jobSocket       => 1
  | socket          => 2
  | pendingRequests => 4
  | result _        => 5
  | _               => 0

end Mutex

namespace Mutexes

-- A thread also knows the request that it has given up, and the one whose result it is going to set.
structure View extends Holder where
  gaveUp : Option ℕ
  target : Option ℕ

def View.next (g : View) : ∀ {β : Type}, ModuleOp β → β → View
  | _, .unlock m, a => {
      toHolder := g.toHolder.next (.unlock m) a
      gaveUp   := g.gaveUp.filter (m ≠ .result ·)
      target   := if m = .pendingRequests then none else g.target }
  | _, .expire r, _ => { g with gaveUp := some r }
  | _, .get _, r    => { g with target := r }
  | _, o, a         => { g with toHolder := g.toHolder.next o a }

-- Mutexes are locked in the order of their ranks, but one who has given up on a request holds its
-- result when locking the table. The result of a request is set by one who holds the table.
def View.MayLock (g : View) (n : Mutex) : Prop :=
  (∀ m ∈ g.held, m.rank < n.rank ∨ n = .pendingRequests ∧ ∃ r ∈ g.gaveUp, m = .result r) ∧
    ∀ r, n = .result r → .pendingRequests ∈ g.held → g.target = some r ∨ g.closed

def View.May (g : View) : ∀ {β : Type}, ModuleOp β → Prop
  | _, .lock n      => g.MayLock n
  | _, .unlock m    => m ∈ g.held ∧ (m = .jobSocket → g.gaveUp = none)
  | _, .wait r      => .result r ∈ g.held ∧ g.gaveUp = none
  | _, .isConnected => .jobSocket ∈ g.held ∧ g.gaveUp = none
  | _, .disconnect  => .jobSocket ∈ g.held ∧ g.connected = false
  | _, .expire r    => .result r ∈ g.held ∧ g.connected ∧ g.gaveUp = none
  | _, .get _       => .pendingRequests ∈ g.held
  | _, _            => True

-- The state agrees with the view of a thread.
structure Agrees (s : Module) (g : View) : Prop where
  gaveUp : ∀ r ∈ g.gaveUp, .result r ∈ g.held ∧ g.connected ∧ r ∈ s.gaveUp
  target : ∀ r ∈ g.target, .pendingRequests ∈ g.held ∧ r ∈ s.target

structure Inv (s : Module) (v : ModuleThread → View) : Prop where
  holds  : Holds s fun i => (v i).toHolder
  agrees : ∀ i, Agrees s (v i)
  given  : ∀ r ∈ s.gaveUp, ∃ i, r ∈ (v i).gaveUp
  safe   : ∀ r ∈ s.target, r ∉ s.gaveUp

def discipline : Discipline modules View where
  May g o    := g.May o
  next g o
    | .ok a => g.next o a
  Inv        := Inv
  cond       := Module.timely

section Inv

variable {v : ModuleThread → View} {s' : Module} {r : ℕ} {g : View} {j : ModuleThread}

theorem View.May.holder {o : ModuleOp β} (h : g.May o) : g.toHolder.May o := by
  cases o
  case unlock | wait | isConnected => exact h.left
  case disconnect                  => exact h
  all_goals trivial

theorem View.next_toHolder {o : ModuleOp β} {a : β} :
    (g.next o a).toHolder = g.toHolder.next o a := by
  cases o <;> rfl

theorem update_toHolder : (fun j => (Function.update v i g j).toHolder) =
    Function.update (fun j => (v j).toHolder) i g.toHolder :=
  funext <| Function.apply_update (fun _ => View.toHolder) v i g

theorem agrees_update (hi : Agrees s' g) (ho : ∀ j, j ≠ i → Agrees s' (v j)) :
    ∀ j, Agrees s' (Function.update v i g j) :=
  (Function.forall_update_iff v fun _ => Agrees s').mpr ⟨hi, ho⟩

theorem mem_unlock_gaveUp : r ∈ (s.unlock m).gaveUp ↔ r ∈ s.gaveUp ∧ m ≠ .result r := by
  cases m
  case result p => simpa [Module.unlock, Module.own] using fun _ => not_congr eq_comm
  all_goals simp [Module.unlock, Module.own]

theorem mem_unlock_target : r ∈ (s.unlock m).target ↔ r ∈ s.target ∧ m ≠ .pendingRequests := by
  cases m <;> simp [Module.unlock, Module.own]

theorem given_update (h : Inv s v) (hg : g.gaveUp = (v i).gaveUp) :
    ∀ r ∈ s.gaveUp, ∃ j, r ∈ (Function.update v i g j).gaveUp := by
  intro r hr
  obtain ⟨j, hj⟩ := h.given r hr
  refine ⟨j, ?_⟩
  by_cases hji : j = i
  case pos => subst hji; simpa [hg] using hj
  case neg => simpa [hji] using hj

-- An operation that has nothing to do with giving up or with setting results.
theorem Inv.keep (h : Inv s v) (hs : Holds s' fun j => (Function.update v i g j).toHolder)
    (hg : s'.gaveUp = s.gaveUp) (ht : s'.target = s.target) (hi : Agrees s g)
    (hv : g.gaveUp = (v i).gaveUp) : Inv s' (Function.update v i g) where
  holds  := hs
  agrees := agrees_update ⟨hg ▸ hi.gaveUp, ht ▸ hi.target⟩
    fun j _ => ⟨hg ▸ (h.agrees j).gaveUp, ht ▸ (h.agrees j).target⟩
  given  := hg ▸ given_update h hv
  safe   := hg ▸ ht ▸ h.safe

theorem Inv.unlock (h : Inv s v) (hm : m ∈ (v i).held)
    (hg : m = .jobSocket → (v i).gaveUp = none)
    (hs : Holds (s.unlock m) fun j => (Function.update v i ((v i).next (.unlock m) ()) j).toHolder) :
    Inv (s.unlock m) (Function.update v i <| (v i).next (.unlock m) ()) := by
  have he {n : Mutex} (hn : n ∈ (v i).held) (hne : n ≠ m) : n ∈ (v i).held.erase m :=
    (List.mem_erase_of_ne hne).mpr hn
  refine ⟨hs, agrees_update ⟨fun r hr => ?_, fun r hr => ?_⟩ fun j hj => ⟨fun r hr => ?_,
    fun r hr => ?_⟩, fun r hr => ?_, fun r hr hn => ?_⟩
  case refine_1 =>
    obtain ⟨hr, hn⟩ := Option.mem_filter_iff.mp hr
    have hn : m ≠ .result r := of_decide_eq_true hn
    have hmj : m ≠ .jobSocket := fun hm => by simp [hg hm] at hr
    obtain ⟨hh, hc, hs⟩ := (h.agrees i).gaveUp r hr
    exact ⟨he hh hn.symm, by simpa [View.next, Holder.next, Holder.release, hmj] using hc,
      mem_unlock_gaveUp.mpr ⟨hs, hn⟩⟩
  case refine_2 =>
    simp only [View.next] at hr
    split at hr
    case isTrue     => cases hr
    case isFalse hn =>
      obtain ⟨hh, hs⟩ := (h.agrees i).target r hr
      exact ⟨he hh (Ne.symm hn), mem_unlock_target.mpr ⟨hs, hn⟩⟩
  case refine_3 =>
    obtain ⟨hh, hc, hs⟩ := (h.agrees j).gaveUp r hr
    exact ⟨hh, hc, mem_unlock_gaveUp.mpr ⟨hs, fun hn => hj <| h.holds.eq_of_held (hn ▸ hh) hm⟩⟩
  case refine_4 =>
    obtain ⟨hh, hs⟩ := (h.agrees j).target r hr
    exact ⟨hh, mem_unlock_target.mpr ⟨hs, fun hn => hj <| h.holds.eq_of_held (hn ▸ hh) hm⟩⟩
  case refine_5 =>
    obtain ⟨hr, hn⟩ := mem_unlock_gaveUp.mp hr
    obtain ⟨j, hj⟩ := h.given r hr
    refine ⟨j, ?_⟩
    by_cases hji : j = i
    case neg => rwa [Function.update_of_ne hji]
    case pos =>
      subst hji
      simp only [Function.update_self, View.next]
      exact Option.mem_filter_iff.mpr ⟨hj, decide_eq_true hn⟩
  case refine_6 =>
    exact h.safe r (mem_unlock_target.mp hr).left (mem_unlock_gaveUp.mp hn).left

theorem Inv.expire (h : Inv s v) (hm : .result r ∈ (v i).held) (hc : (v i).connected)
    (hg : (v i).gaveUp = none) (ht : s.target ≠ some r)
    (hs : Holds { s with gaveUp := r :: s.gaveUp } fun j =>
      (Function.update v i { v i with gaveUp := some r } j).toHolder) :
    Inv { s with gaveUp := r :: s.gaveUp } (Function.update v i { v i with gaveUp := some r }) := by
  refine ⟨hs, agrees_update ⟨fun p hp => ?_, (h.agrees i).target⟩ fun j _ => ⟨fun p hp => ?_,
    (h.agrees j).target⟩, fun p hp => ?_, fun p hp hn => ?_⟩
  case refine_1 =>
    cases Option.mem_some_iff.mp hp
    exact ⟨hm, hc, List.mem_cons_self⟩
  case refine_2 =>
    have ⟨hh, hc, hs⟩ := (h.agrees j).gaveUp p hp
    exact ⟨hh, hc, List.mem_cons_of_mem _ hs⟩
  case refine_3 =>
    obtain rfl | hp := List.mem_cons.mp hp
    case inl => exact ⟨i, by simp⟩
    case inr =>
      obtain ⟨j, hj⟩ := h.given p hp
      have hji : j ≠ i := fun he => by simp [he, hg] at hj
      exact ⟨j, by simpa [hji] using hj⟩
  case refine_4 =>
    obtain rfl | hn := List.mem_cons.mp hn
    case inl => exact ht hp
    case inr => exact h.safe p hp hn

theorem Inv.get {c : Bytes} (h : Inv s v) (hm : .pendingRequests ∈ (v i).held)
    (ht : ∀ r ∈ s.pendingRequests.get? c, r ∉ s.gaveUp)
    (hs : Holds (s.lookUp c) fun j => (Function.update v i
      { v i with target := s.pendingRequests.get? c } j).toHolder) :
    Inv (s.lookUp c) (Function.update v i { v i with target := s.pendingRequests.get? c }) := by
  refine ⟨hs, agrees_update ⟨(h.agrees i).gaveUp, fun r hr => ⟨hm, hr⟩⟩ fun j hj =>
    ⟨(h.agrees j).gaveUp, fun r hr => ?_⟩, given_update (s := s) h rfl, ht⟩
  exact absurd (h.holds.eq_of_held ((h.agrees j).target r hr).left hm) hj

theorem Inv.exec {o : ModuleOp β} {a : β} (h : Inv s v) (hm : (v i).May o)
    (hc : o.Timely s) (e : modules.exec i works o s = some (.ok a, s')) :
    Inv s' (Function.update v i <| (v i).next o a) := by
  have hs : Holds s' fun j => (Function.update v i ((v i).next o a) j).toHolder := by
    rw [update_toHolder, View.next_toHolder]
    exact h.holds.exec hm.holder e
  have ha := h.agrees i
  simp only [modules] at e
  split at e
  case isTrue     => cases e
  case isFalse hb =>
    cases o
    case unlock m    => cases e; exact h.unlock hm.left hm.right hs
    case expire r    => cases e; exact h.expire hm.left hm.right.left hm.right.right hc hs
    case get c       => cases e; exact h.get hm hc hs
    case lock m      => 
      cases e
      refine h.keep hs rfl rfl ⟨fun r hr => ?_, fun r hr => ?_⟩ rfl
      · exact ⟨List.mem_cons_of_mem _ (ha.gaveUp r hr).left, (ha.gaveUp r hr).right⟩
      · exact ⟨List.mem_cons_of_mem _ (ha.target r hr).left, (ha.target r hr).right⟩
    case wait r      =>
      cases e
      refine h.keep hs rfl rfl ⟨fun p hp => ?_, fun p hp => ?_⟩ rfl
      · simp [View.next, hm.right] at hp
      · exact ⟨(List.mem_erase_of_ne <| by simp).mpr (ha.target p hp).left, (ha.target p hp).right⟩
    case isConnected =>
      cases e
      refine h.keep hs rfl rfl ⟨fun r hr => ?_, ha.target⟩ rfl
      simp [View.next, hm.right] at hr
    case disconnect  => cases e; exact h.keep hs rfl rfl ⟨ha.gaveUp, ha.target⟩ rfl
    case receive m   =>
      cases e
      refine h.keep hs ?_ ?_ ha rfl <;> (unfold Module.receive; split <;> rfl)
    all_goals cases e; exact h.keep hs rfl rfl ha rfl

end Inv

section Code

variable {g : View} {Q : Except Empty β → View → Prop} {o : ModuleOp α} {p : RustModule β}
variable {f : α → RustModule β} {r : ℕ} {ms : List Mutex} {connected closed : Bool}

theorem obeys_call (ho : g.May o) (h : ∀ a, Obeys discipline Q (f a) (g.next o a)) :
    Obeys discipline Q (op o >>= f) g :=
  Threads.obeys_call ho h

theorem obeys_last {Q : Except Empty α → View → Prop} (ho : g.May o)
    (h : ∀ a, Q (.ok a) <| g.next o a) : Obeys discipline Q (op o) g :=
  Threads.obeys_last ho h

-- A view of no more than the mutexes that a thread holds and the state of the job socket.
def View.holding (ms : List Mutex) (connected closed : Bool) : View :=
  ⟨⟨ms, connected, closed⟩, none, none⟩

theorem obeys_lock (hm : ∀ n ∈ ms, n.rank < m.rank)
    (hr : ∀ r, m = .result r → .pendingRequests ∈ ms → closed)
    (h : Obeys discipline Q p <| .holding (m :: ms) connected closed) :
    Obeys discipline Q (do op (.lock m); p) <| .holding ms connected closed :=
  obeys_call ⟨fun n hn => .inl <| hm n hn, fun r he hp => .inr <| hr r he hp⟩ fun _ => h

theorem release_holding (hm : m ≠ .jobSocket) :
    (View.holding (m :: ms) connected closed).next (.unlock m) () =
      .holding ms connected closed := by
  simp [View.next, Holder.next, Holder.release, View.holding, hm]

theorem obeys_unlock (hm : m ≠ .jobSocket)
    (h : Obeys discipline Q p <| .holding ms connected closed) :
    Obeys discipline Q (do op (.unlock m); p) <| .holding (m :: ms) connected closed := by
  refine obeys_call ⟨List.mem_cons_self, fun _ => rfl⟩ fun _ => ?_
  rwa [release_holding hm]

-- A mutex that is held for one operation, or for none.
theorem obeys_section (hm : ∀ n ∈ ms, n.rank < m.rank)
    (hr : ∀ r, m = .result r → .pendingRequests ∈ ms → closed) (hj : m ≠ .jobSocket)
    (ho : (View.holding (m :: ms) connected closed).May o)
    (hn : ∀ a, (View.holding (m :: ms) connected closed).next o a =
      View.holding (m :: ms) connected closed)
    (h : ∀ a, Obeys discipline Q (f a) <| .holding ms connected closed) :
    Obeys discipline Q (do op (.lock m); let a ← op o; op (.unlock m); f a) <|
      .holding ms connected closed := by
  refine obeys_lock hm hr <| obeys_call ho fun a => ?_
  rw [hn]
  exact obeys_unlock hj <| h a

theorem next_wait : (View.holding (.result r :: ms) connected closed).next (.wait r) () =
    .holding ms connected closed := by
  simp [View.next, Holder.next, Holder.release, View.holding]

theorem obeys_waitTimeoutWhile {n : ℕ} {Q : Except Empty Bool → View → Prop}
    (hf : Q (.ok false) <| .holding [.result r, .jobSocket] true false)
    (ht : Q (.ok true) ⟨⟨[.result r, .jobSocket], true, false⟩, some r, none⟩) :
    Obeys discipline Q (waitTimeoutWhile r n) <| .holding [.result r, .jobSocket] true false := by
  induction n
  case zero      =>
    refine obeys_call trivial fun b => ?_
    cases b
    case false => exact hf
    case true  => exact obeys_call (by simp [View.May, View.next, Holder.next, View.holding]) fun _ => ht
  case succ n hi =>
    refine obeys_call trivial fun b => ?_
    cases b
    case false => exact hf
    case true  =>
      refine obeys_call (by simp [View.May, View.next, Holder.next, View.holding]) fun _ => ?_
      change Obeys _ _ _ <| (View.holding _ _ _).next (.wait r) ()
      rw [next_wait]
      exact obeys_lock (by simp [Mutex.rank]) (by simp) hi

-- One who has given up on a request unlocks its result and has a view like everybody else again.
theorem release_gaveUp :
    (View.mk ⟨[.result r, .jobSocket], true, false⟩ (some r) none).next (.unlock <| .result r) () =
      .holding [.jobSocket] true false := by
  simp [View.next, Holder.next, Holder.next, Holder.release, View.holding]

theorem obeys_requestEvent {c : Bytes} {n : ℕ} :
    Obeys discipline (fun _ g => g.held = []) (requestEvent c n) <| .holding [] false false := by
  have hj {b : Bool} : (View.holding [.jobSocket] b false).May (.unlock .jobSocket) := by
    simp [View.May, View.holding]
  unfold requestEvent
  refine obeys_lock (by simp) (by simp) <| obeys_unlock (by simp) ?_
  refine obeys_lock (by simp) (by simp) <|
    obeys_call (by simp [View.May, View.holding]) fun b => ?_
  cases b
  case false => exact obeys_last hj fun _ => rfl
  case true  =>
    rw [if_pos rfl]
    refine obeys_call trivial fun r => ?_
    change Obeys _ _ _ <| View.holding [.jobSocket] true false
    have hl {m : Mutex} (hm : 1 < m.rank) : ∀ n ∈ [Mutex.jobSocket], n.rank < m.rank := by
      simpa [Mutex.rank] using hm
    refine obeys_section (hl <| by simp [Mutex.rank]) (by simp) (by simp) trivial (fun _ => rfl)
      fun _ => ?_
    refine obeys_section (hl <| by simp [Mutex.rank]) (by simp) (by simp) trivial (fun _ => rfl)
      fun sent => ?_
    cases sent
    case false => exact obeys_last hj fun _ => rfl
    case true  =>
      rw [if_pos rfl]
      have ht {v : Json} : Obeys discipline (fun _ g => g.held = []) (do
          op (.lock .pendingRequests)
          op (.remove c)
          op (.unlock .pendingRequests)
          op (.answer r v)
          op (.unlock .jobSocket)) <| .holding [.jobSocket] true false := by
        refine obeys_section (hl <| by simp [Mutex.rank]) (by simp) (by simp) trivial
          (fun _ => rfl) fun _ => obeys_call trivial fun _ => obeys_last hj fun _ => rfl
      refine obeys_lock (hl <| by simp [Mutex.rank]) (by simp) ?_
      refine obeys_bind <| obeys_waitTimeoutWhile ?_ ?_
      case refine_1 => exact obeys_call trivial fun v => obeys_unlock (by simp) ht
      case refine_2 =>
        refine obeys_call trivial fun b => ?_
        cases b
        case false =>
          refine obeys_call trivial fun v => ?_
          refine obeys_call (by simp [View.May, View.next, Holder.next]) fun _ => ?_
          change Obeys _ _ _ <| (View.mk ⟨[.result r, .jobSocket], true, false⟩ (some r) none).next
            (.unlock <| .result r) ()
          rw [release_gaveUp]
          exact ht
        case true  =>
          rw [if_pos rfl]
          refine obeys_call (by simp [View.May, View.MayLock, View.next, Holder.next, Mutex.rank]) fun _ => ?_
          refine obeys_call trivial fun _ => ?_
          refine obeys_call (by simp [View.May, View.next, Holder.next]) fun _ => ?_
          refine obeys_call (by simp [View.May, View.next, Holder.next, Holder.release]) fun _ => ?_
          change Obeys _ _ _ <| (View.mk ⟨[.result r, .jobSocket], true, false⟩ (some r) none).next
            (.unlock <| .result r) ()
          rw [release_gaveUp]
          exact obeys_last hj fun _ => rfl

theorem obeys_handleJobResponse {c : Option Bytes} {v : Json} :
    Obeys discipline (fun _ g => g.held = []) (handleJobResponse c v) <|
      .holding [] false false := by
  unfold handleJobResponse
  cases c
  case none   => exact rfl
  case some c =>
    refine obeys_lock (by simp) (by simp) ?_
    refine obeys_call (by simp [View.May, View.holding]) fun r => ?_
    cases r
    case none   => exact obeys_last (by simp [View.May, View.next, View.holding]) fun _ => rfl
    case some r =>
      -- The result may be locked because its request is the one that was looked up.
      refine obeys_call ?_ fun _ => obeys_call trivial fun _ => obeys_call ?_ fun _ =>
        obeys_last ?_ fun _ => ?_
      · simp [View.May, View.MayLock, View.next, View.holding, Mutex.rank]
      · simp [View.May, View.next, Holder.next, View.holding]
      · simp [View.May, View.next, Holder.next, View.holding, Holder.release]
      · simp [View.next, Holder.next, View.holding, Holder.release]

theorem obeys_receiveJob {msg : Incoming} :
    Obeys discipline (fun _ g => g.held = []) (receiveJob msg) <| .holding [] false false := by
  refine obeys_section (by simp) (by simp) (by simp) trivial (fun _ => rfl) fun _ => ?_
  cases msg
  case nothing  => exact rfl
  case request  =>
    refine obeys_lock (by simp) (by simp) <| obeys_call trivial fun _ => ?_
    exact obeys_last (by simp [View.May, View.next, Holder.next, View.holding]) fun _ => by
      simp [View.next, Holder.next, View.holding, Holder.release]
  case response => exact obeys_handleJobResponse

theorem obeys_reset {Q : Except Empty Unit → View → Prop} (hm : m ≠ .jobSocket)
    (h : Q (.ok ()) <| .holding [] connected closed) :
    Obeys discipline Q (reset m) <| .holding [] connected closed := by
  refine obeys_lock (by simp) (by simp) <| obeys_last ?_ fun _ => ?_
  · simp [View.May, View.holding]
  · change Q _ <| (View.holding [m] _ _).next (.unlock m) ()
    rwa [release_holding hm]

theorem obeys_stop :
    Obeys discipline (fun _ g => g.held = []) Rust.stop <| .holding [] false false := by
  unfold Rust.stop
  refine obeys_call trivial fun b => ?_
  cases b
  case false => exact rfl
  case true  =>
    rw [if_pos rfl]
    refine obeys_call trivial fun _ => ?_
    change Obeys _ _ _ <| View.holding [] false false
    iterate 5 refine obeys_bind <| obeys_reset (by simp) ?_
    refine obeys_lock (by simp) (by simp) ?_
    refine obeys_call (by simp [View.May, View.holding]) fun _ => ?_
    refine obeys_call (by simp [View.May, View.next, Holder.next, View.holding]) fun _ => ?_
    have hr : ((View.holding [.jobSocket] false false).next .disconnect ()).next
        (.unlock .jobSocket) () = View.holding [] false true := by
      simp [View.next, Holder.next, View.holding, Holder.release]
    change Obeys _ _ _ <| ((View.holding _ _ _).next .disconnect ()).next (.unlock .jobSocket) ()
    rw [hr]
    refine obeys_lock (by simp) (by simp) <| obeys_call trivial fun rs => ?_
    refine obeys_bind <| obeys_each (fun r _ => ?_) ?_
    case refine_1 =>
      -- Nobody gives up on a request any more.
      refine obeys_lock (by simp [Mutex.rank]) (by simp) <| obeys_call trivial fun _ => ?_
      refine obeys_last ?_ fun _ => ?_
      · simp [View.May, View.next, Holder.next, View.holding]
      · exact release_holding (by simp)
    case refine_2 =>
      refine obeys_unlock (by simp) ?_
      refine obeys_section (by simp) (by simp) (by simp) trivial (fun _ => rfl) fun _ => ?_
      exact obeys_reset (by simp) rfl

end Code

def Unlocked (_ : ModuleThread) (_ : Except Empty Unit) (g : View) : Prop :=
  g.held = []

theorem Inv.begin {v : ModuleThread → View} (h : Inv s v) (hi : (v i).held = []) :
    Inv s (Function.update v i <| .holding [] false false) := by
  have hg : (v i).gaveUp = none := Option.eq_none_iff_forall_not_mem.mpr fun r hr => by
    simpa [hi] using ((h.agrees i).gaveUp r hr).left
  refine h.keep ?_ rfl rfl ⟨by simp [View.holding], by simp [View.holding]⟩ hg.symm
  rw [update_toHolder]
  exact h.holds.begin hi

theorem kept : discipline.Kept Unlocked where
  exec i k works o s v x s' h hm hc e := by
    cases x
    case ok a    => exact h.exec hm hc e
    case error a => exact a.elim
  enter i k s v s' p h hi _ e := by
    simp only [modules, Module.enter] at e
    split at e <;> cases e
    case h_1 => exact ⟨_, Inv.begin h hi, obeys_requestEvent⟩
    case h_2 => exact ⟨_, Inv.begin h hi, obeys_receiveJob⟩
    case h_3 => exact ⟨_, Inv.begin h hi, obeys_stop⟩

theorem disciplined_start : Disciplined discipline Unlocked (Threads.start Module.start) := by
  refine ⟨fun _ => .holding [] false false, ⟨Holds.start, fun i => ?_, ?_, ?_⟩, fun i => rfl⟩
  case refine_1 => constructor <;> simp [View.holding]
  all_goals simp [Threads.start, Module.start]

-- The rank of a mutex changes when its holder has given up on the request.
def Module.rank (s : Module) : Mutex → ℕ
  | .result r => if r ∈ s.gaveUp then 3 else 5
  | m         => m.rank

theorem rank_le : Module.rank s m ≤ m.rank := by
  unfold Module.rank
  split
  case h_1 => split <;> simp [Mutex.rank]
  case h_2 => rfl

variable {t : Threads ModuleOp Empty Module ModuleThread ModuleTask}
variable {as : List (Threads.Action ModuleThread ModuleTask Bool)} {ts : Set ModuleThread}

theorem rank_lt {v : ModuleThread → View} (h : Inv s v) (hm : m ∈ (v i).held)
    (hn : (v i).MayLock n) : Module.rank s m < Module.rank s n := by
  obtain hlt | ⟨rfl, r, hr, rfl⟩ := hn.left m hm
  case inr =>
    have hs : r ∈ s.gaveUp := ((h.agrees i).gaveUp r hr).right.right
    simp [Module.rank, Mutex.rank, hs]
  case inl =>
    refine rank_le.trans_lt ?_
    unfold Module.rank
    split
    case h_2   => exact hlt
    case h_1 r =>
      split
      case isFalse   => exact hlt
      case isTrue hs =>
        -- One who holds the table would not lock the result of a request that has been given up.
        have hp : m ≠ .pendingRequests := by
          rintro rfl
          obtain ht | hc := hn.right r rfl hm
          case inl => exact h.safe r ((h.agrees i).target r ht).right hs
          case inr =>
            obtain ⟨j, hj⟩ := h.given r hs
            have hj : s.connected := ((h.holds j).connected ((h.agrees j).gaveUp r hj).right.left).right
            simp [(h.holds i).closed hc] at hj
        cases m <;> simp_all [Mutex.rank]

theorem ascends (h : Disciplined discipline Unlocked t) :
    (Module.locking t).Ascends <| Module.rank t.shared := by
  obtain ⟨v, hI, h⟩ := h
  intro i m n hm hw
  have hi := h i
  simp only [Module.locking] at hm hw
  unfold awaited at hw
  split at hw
  case h_2      => cases hw
  case h_1 hd   =>
    cases hw
    rw [hd] at hi
    exact rank_lt hI (((hI.holds i).owner m).mp hm) hi.left

end Mutexes

namespace modules

theorem always_not_deadlock
    (c : (machine modules).Along (Meets Module.timely) (Threads.start Module.start) as) :
    (machine modules).Always (fun t => ∀ ts, ¬(Module.locking t).Deadlock ts)
      (Threads.start Module.start) as :=
  (always_disciplined Mutexes.kept Mutexes.disciplined_start c).mono fun _ h _ =>
    Locking.not_deadlock_of_ascends <| Mutexes.ascends h

end modules

namespace Sample

def moduleSteps (i : ModuleThread) (n : ℕ) : List (Threads.Action ModuleThread ModuleTask Bool) :=
  .replicate n <| .next i true

def moduleRequest (wakeUps : ℕ) : Threads.Action ModuleThread ModuleTask Bool :=
  .start (.caller 0) <| .request (utf8 "c") wakeUps

def moduleResponse (v : Json) : Threads.Action ModuleThread ModuleTask Bool :=
  .start .receiver <| .receive <| .response (some <| utf8 "c") v

end Sample

namespace modules

-- The receiver sets the result while the caller waits for it. The caller returns it, and the module
-- is stopped.
theorem always_not_deadlock_sample :
    (machine modules).Always (fun t => ∀ ts, ¬(Module.locking t).Deadlock ts)
      (Threads.start Module.start) (
      Sample.moduleRequest 1 :: Sample.moduleSteps (.caller 0) 14 ++
      Sample.moduleResponse (.bool true) :: Sample.moduleSteps .receiver 9 ++
      Sample.moduleSteps (.caller 0) 9 ++
      .start (.stopper 0) .stop :: Sample.moduleSteps (.stopper 0) 22) :=
  always_not_deadlock <| by decide +kernel

-- The time of the caller runs out. It holds the result of its request and waits for the table, which
-- is held by the receiver that waits for the result.
theorem not_always_not_deadlock : ¬∀ as t, (machine modules).exec (Threads.start Module.start) as =
    some t → ∀ ts, ¬(Module.locking t).Deadlock ts := by
  intro h
  have hr : ∃ t ∈ (machine modules).exec (Threads.start Module.start) (
      Sample.moduleRequest 0 :: Sample.moduleSteps (.caller 0) 15 ++
      Sample.moduleResponse (.bool true) :: Sample.moduleSteps .receiver 5),
      t.shared.owner (.result 0) = some (.caller 0) ∧
        awaited (t.code <| .caller 0) = some .pendingRequests ∧
        t.shared.owner .pendingRequests = some .receiver ∧
        awaited (t.code .receiver) = some (.result 0) := by
    decide +kernel
  obtain ⟨t, ht, hc, hcw, hr, hrw⟩ := hr
  refine h _ t ht {.caller 0, .receiver} ⟨⟨.receiver, by simp⟩, ?_⟩
  rintro i (rfl | rfl)
  · exact ⟨.receiver, by simp, by simp, .result 0, hc, hrw⟩
  · exact ⟨.caller 0, by simp, by simp, .pendingRequests, hr, hcw⟩

end modules

end Rust
