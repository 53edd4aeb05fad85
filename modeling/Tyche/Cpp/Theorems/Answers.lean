import Tyche.Cpp.Module
import Tyche.Discipline

namespace Cpp

open Proc Threads

variable {α β : Type} {s s' : TycheModule} {i j : ModuleThread} {works : Bool} {r : ℕ}

-- Whatever was returned as the response to a request was received after the request was registered.
def TycheModule.Real (s : TycheModule) : Prop :=
  ∀ x ∈ s.returned, x ∈ s.received

-- No request is registered under the correlation id of a response that was received before, and
-- callers that are woken up when the module stops have their responses already.
def ModuleOp.Answered : ∀ {β : Type}, ModuleOp β → TycheModule → Prop
  | _, .insert c _, s => s.handling ≠ some c
  | _, .wakeUp, s     => ∀ e ∈ s.pendingRequests.entries, s.ready e.2 ∨ e.2 ∈ s.failed
  | _, _, _           => True

instance : ∀ {β} (o : ModuleOp β), Decidable (o.Answered s)
  | _, .insert .. => inferInstanceAs <| Decidable (_ ≠ _)
  | _, .wakeUp    => inferInstanceAs <| Decidable (∀ _ ∈ _, _)
  | _, .isConnected | _, .newRequest | _, .sendRequest _ | _, .tryWait .. | _, .expire ..
  | _, .result _ | _, .answer .. | _, .receive _ | _, .sendResponse | _, .respond ..
  | _, .stopRunning | _, .disconnect => isTrue trivial

namespace TycheModule

def answered : Condition ModuleOp TycheModule ModuleThread ModuleTask Bool where
  enter _ _ _    := True
  exec _ _ _ o s := o.Answered s

instance {k : ModuleTask} : Decidable (answered.enter i k s) :=
  isTrue trivial

instance {k : Option ModuleTask} {o : ModuleOp β} : Decidable (answered.exec i k works o s) :=
  inferInstanceAs <| Decidable (o.Answered s)

end TycheModule

namespace Answers

-- A caller knows the request that it made, and whether it is ready. A thread knows that something is
-- the response to a request, and the receiver which response it has yet to look up.
structure View where
  own      : Option ℕ
  filled   : Bool
  known    : Option (ℕ × Payload)
  receives : Bool
  response : Option (Bytes × Payload)

def response? : Incoming → Option (Bytes × Payload)
  | .response p (some c) => some (c, p)
  | _                    => none

def View.next (g : View) : ∀ {β : Type}, ModuleOp β → β → View
  | _, .newRequest, r                  => { g with own := r, filled := false }
  | _, .sendRequest _, b               => if b then g else { g with own := none, filled := false }
  | _, .tryWait .., b | _, .expire .., b => { g with filled := b }
  | _, .result r, p                    => { g with known := some (r, p) }
  | _, .receive m, _                   => { g with response := response? m }
  | _, .respond .., _                  => { g with response := none }
  | _, _, _                            => g

def View.May (g : View) : ∀ {β : Type}, ModuleOp β → Prop
  | _, .sendRequest r               => g.own = some r
  | _, .tryWait _ r | _, .expire _ r => g.own = some r
  | _, .result r                    => g.own = some r ∧ g.filled
  | _, .answer r p                  => g.known = some (r, p)
  | _, .receive _                   => g.receives
  | _, .respond c p                 => g.response = some (c, p)
  | _, _                            => True

-- The state agrees with the view of a thread.
structure Agrees (s : TycheModule) (i : ModuleThread) (g : View) : Prop where
  own      : ∀ r ∈ g.own, r < s.created ∧ r ∉ s.failed
  filled   : g.filled → ∀ r ∈ g.own, s.ready r
  known    : ∀ x ∈ g.known, x ∈ s.received
  receives : g.receives → i = .receiver
  response : ∀ x ∈ g.response, g.receives ∧ s.handling = some x.1 ∧
    ∀ r ∈ s.pendingRequests.get? x.1, (r, x.2) ∈ s.received

-- A request that is ready has its response.
structure Inv (s : TycheModule) (v : ModuleThread → View) : Prop where
  agrees  : ∀ i, Agrees s i (v i)
  unique  : ∀ i j, ∀ r ∈ (v i).own, r ∈ (v j).own → i = j
  failed  : ∀ r ∈ s.failed, r < s.created
  settled : ∀ r, s.ready r → r ∈ s.failed ∨ (r, s.result r) ∈ s.received
  table   : ∀ c, ∀ r ∈ s.pendingRequests.get? c, (c, r) ∈ s.registered
  real    : s.Real

def discipline : Discipline modules View where
  May g o    := g.May o
  next g o
    | .ok a => g.next o a
  Inv        := Inv
  cond       := TycheModule.answered

section Inv

variable {v : ModuleThread → View} {g : View}

theorem agrees_update (hi : Agrees s' i g) (ho : ∀ j, j ≠ i → Agrees s' j (v j)) :
    ∀ j, Agrees s' j (Function.update v i g j) :=
  (Function.forall_update_iff v <| Agrees s').mpr ⟨hi, ho⟩

-- A thread that gets no other request than it had.
theorem unique_update (h : Inv s v) (hg : ∀ r ∈ g.own, r ∈ (v i).own) :
    ∀ j k, ∀ r ∈ (Function.update v i g j).own, r ∈ (Function.update v i g k).own → j = k := by
  have ho (j : ModuleThread) (r : ℕ) (hr : r ∈ (Function.update v i g j).own) : r ∈ (v j).own := by
    by_cases hj : j = i
    case pos =>
      subst hj
      exact hg r <| by simpa using hr
    case neg => simpa [hj] using hr
  exact fun j k r hj hk => h.unique j k r (ho j r hj) (ho k r hk)

-- What the views are about stays the same, or there is more of it.
structure Grows (s s' : TycheModule) : Prop where
  created  : s'.created = s.created
  failed   : s'.failed = s.failed
  ready    : ∀ r, s.ready r → s'.ready r
  received : ∀ x ∈ s.received, x ∈ s'.received
  handling : s'.handling = s.handling
  pending  : ∀ c, ∀ r ∈ s'.pendingRequests.get? c, r ∈ s.pendingRequests.get? c

theorem Agrees.grow (h : Agrees s i g) (e : Grows s s') : Agrees s' i g where
  own r hr := ⟨e.created ▸ (h.own r hr).left, e.failed ▸ (h.own r hr).right⟩
  filled hf r hr := e.ready r <| h.filled hf r hr
  known x hx := e.received _ <| h.known x hx
  receives := h.receives
  response x hx := ⟨(h.response x hx).left, e.handling ▸ (h.response x hx).right.left,
    fun r hr => e.received _ <| (h.response x hx).right.right r <| e.pending _ r hr⟩

-- The thread learns something about what does not change.
theorem Inv.learn (h : Inv s v) (hi : Agrees s i g) (hg : ∀ r ∈ g.own, r ∈ (v i).own) :
    Inv s (Function.update v i g) :=
  ⟨agrees_update hi fun j _ => h.agrees j, unique_update h hg, h.failed, h.settled, h.table,
    h.real⟩

-- The thread finds out whether its request is ready.
theorem Inv.check (h : Inv s v) (hm : (v i).own = some r) :
    Inv s (Function.update v i { v i with filled := s.ready r }) := by
  have hi := h.agrees i
  refine h.learn ⟨hi.own, fun hf p hp => ?_, hi.known, hi.receives, hi.response⟩ fun _ hr => hr
  exact Option.some.inj (hp.symm.trans hm) ▸ hf

theorem Inv.quiet {running connected : Bool} {returned : List (ℕ × Payload)} (h : Inv s v)
    (hr : ∀ x ∈ returned, x ∈ s.received) :
    Inv { s with running := running, connected := connected, returned := returned } v where
  agrees i := (h.agrees i).grow
    ⟨rfl, rfl, fun _ hr => hr, fun _ hx => hx, rfl, fun _ _ hr => hr⟩
  unique   := h.unique
  failed   := h.failed
  settled  := h.settled
  table    := h.table
  real     := hr

theorem Inv.erase {c : Bytes} (h : Inv s v) : Inv (s.erase c) v where
  agrees i := (h.agrees i).grow
    ⟨rfl, rfl, fun _ hr => hr, fun _ hx => hx, rfl, fun _ _ hr => Dict.mem_of_mem_erase hr⟩
  unique   := h.unique
  failed   := h.failed
  settled  := h.settled
  table c r hr := h.table c r <| Dict.mem_of_mem_erase hr
  real     := h.real

theorem Inv.newRequest (h : Inv s v) :
    Inv { s.setRequest s.created [] false with created := s.created + 1 }
      (Function.update v i { v i with own := some s.created, filled := false }) := by
  have hi := h.agrees i
  have hne (j : ModuleThread) (r : ℕ) (hr : r ∈ (v j).own) : r ≠ s.created :=
    ((h.agrees j).own r hr).left.ne
  refine ⟨agrees_update ⟨fun r hr => ?_, by simp, hi.known, hi.receives, hi.response⟩
    fun j _ => ?_, fun j k r hj hk => ?_, fun r hr => (h.failed r hr).trans <| Nat.lt_succ_self _,
    fun r hr => ?_, h.table, h.real⟩
  case refine_1 =>
    cases Option.mem_some_iff.mp hr
    exact ⟨Nat.lt_succ_self _, fun hf => (h.failed _ hf).ne rfl⟩
  case refine_2 =>
    have hv := h.agrees j
    refine ⟨fun r hr => ⟨(hv.own r hr).left.trans <| Nat.lt_succ_self _, (hv.own r hr).right⟩,
      fun hf r hr => ?_, hv.known, hv.receives, hv.response⟩
    simpa [TycheModule.setRequest, hne j r hr] using hv.filled hf r hr
  case refine_3 =>
    by_cases hji : j = i <;> by_cases hki : k = i
    · exact hji.trans hki.symm
    · simp only [hji, hki, Function.update_self, Function.update_of_ne, ne_eq, not_false_iff,
        Option.mem_some_iff] at hj hk
      exact absurd hj.symm <| hne k r hk
    · simp only [hji, hki, Function.update_self, Function.update_of_ne, ne_eq, not_false_iff,
        Option.mem_some_iff] at hj hk
      exact absurd hk.symm <| hne j r hj
    · simp only [hji, hki, Function.update_of_ne, ne_eq, not_false_iff] at hj hk
      exact h.unique j k r hj hk
  case refine_4 =>
    by_cases he : r = s.created
    case pos => simp [TycheModule.setRequest, he] at hr
    case neg =>
      simp only [TycheModule.setRequest, Function.update_of_ne he] at hr ⊢
      exact h.settled r hr

theorem Inv.insert {c : Bytes} (h : Inv s v) (hc : s.handling ≠ some c) :
    Inv (s.register c r) v := by
  refine ⟨fun j => ?_, h.unique, h.failed, h.settled, fun c' r' hr => ?_, h.real⟩
  case refine_1 =>
    have hv := h.agrees j
    refine ⟨hv.own, hv.filled, hv.known, hv.receives, fun x hx => ?_⟩
    have ⟨hr, hh, hp⟩ := hv.response x hx
    have hne : x.1 ≠ c := fun he => hc <| he ▸ hh
    exact ⟨hr, hh, fun p h => hp p <| by simpa [TycheModule.register, Dict.get?_set_ne hne] using h⟩
  case refine_2 =>
    simp only [TycheModule.register, Dict.get?_set] at hr ⊢
    split at hr
    case isTrue he  =>
      cases Option.mem_some_iff.mp hr
      exact he ▸ List.mem_cons_self
    case isFalse he => exact List.mem_cons_of_mem _ <| h.table c' r' hr

theorem Inv.fail (h : Inv s v) (hr : (v i).own = some r) :
    Inv (s.fail r) (Function.update v i { v i with own := none, filled := false }) := by
  have hi := h.agrees i
  refine ⟨agrees_update ⟨by simp, by simp, hi.known, hi.receives, hi.response⟩ fun j hj => ?_,
    unique_update h (by simp), fun p hp => ?_, fun p hp => ?_, h.table, h.real⟩
  case refine_1 =>
    have hv := h.agrees j
    refine ⟨fun p hp => ⟨(hv.own p hp).left, fun hf => ?_⟩, hv.filled, hv.known, hv.receives,
      hv.response⟩
    obtain rfl | hf := List.mem_cons.mp hf
    case inl => exact hj <| h.unique j i p hp hr
    case inr => exact (hv.own p hp).right hf
  case refine_2 =>
    obtain rfl | hp := List.mem_cons.mp hp
    case inl => exact (hi.own p hr).left
    case inr => exact h.failed p hp
  case refine_3 => exact (h.settled p hp).imp_left <| List.mem_cons_of_mem r

theorem mem_receive {m : Incoming} {x : ℕ × Payload} (h : x ∈ s.received) :
    x ∈ (s.receive m).received := by
  unfold TycheModule.receive
  split
  case h_1 => exact List.mem_append_right _ h
  case h_2 => exact h

theorem receive_quiet {m : Incoming} : (s.receive m).created = s.created ∧
    (s.receive m).failed = s.failed ∧ (s.receive m).ready = s.ready ∧
      (s.receive m).result = s.result ∧ (s.receive m).pendingRequests = s.pendingRequests ∧
        (s.receive m).registered = s.registered ∧ (s.receive m).returned = s.returned := by
  unfold TycheModule.receive
  split <;> exact ⟨rfl, rfl, rfl, rfl, rfl, rfl, rfl⟩

-- The receiver has no other response in its hands.
theorem Inv.receive {m : Incoming} (h : Inv s v) (hm : (v i).receives) :
    Inv (s.receive m) (Function.update v i { v i with response := response? m }) := by
  have ⟨hc, hf, hr, hs, hp, hn, ht⟩ := receive_quiet (s := s) (m := m)
  have hv (j : ModuleThread) : Agrees (s.receive m) j { v j with response := none } :=
    ⟨hc ▸ hf ▸ (h.agrees j).own, hr ▸ (h.agrees j).filled,
      fun x hx => mem_receive <| (h.agrees j).known x hx, (h.agrees j).receives, by simp⟩
  refine ⟨agrees_update ⟨(hv i).own, (hv i).filled, (hv i).known, (hv i).receives,
    fun x hx => ⟨hm, ?_⟩⟩ fun j hj => ?_, unique_update h fun _ hr => hr, hc ▸ hf ▸ h.failed,
    fun r hr' => ?_, hp ▸ hn ▸ h.table, fun x hx => ?_⟩
  case refine_1 =>
    cases m
    case response u c =>
      cases c
      case none   => cases hx
      case some c =>
        cases Option.mem_some_iff.mp hx
        refine ⟨rfl, fun r hr => List.mem_append_left _ <| List.mem_map.mpr ⟨(c, r), ?_, rfl⟩⟩
        exact List.mem_filter.mpr ⟨h.table c r hr, decide_eq_true rfl⟩
    all_goals cases hx
  case refine_2 =>
    have hn : (v j).response = none := by
      refine Option.eq_none_iff_forall_not_mem.mpr fun x hx => hj ?_
      have he := (h.agrees j).receives ((h.agrees j).response x hx).left
      exact he.trans ((h.agrees i).receives hm).symm
    have hv := hv j
    rwa [← hn] at hv
  case refine_3 =>
    rw [hf, hs]
    exact (h.settled r <| hr ▸ hr').imp_right mem_receive
  case refine_4 => exact mem_receive <| h.real x <| ht ▸ hx

theorem Inv.respond {c : Bytes} {p : Payload} (h : Inv s v) (hm : (v i).response = some (c, p)) :
    Inv (s.respond c p) (Function.update v i { v i with response := none }) := by
  have hi := h.agrees i
  have hn (j : ModuleThread) (hj : j ≠ i) : (v j).response = none := by
    refine Option.eq_none_iff_forall_not_mem.mpr fun x hx => hj ?_
    have he := (h.agrees j).receives ((h.agrees j).response x hx).left
    exact he.trans (hi.receives (hi.response _ hm).left).symm
  unfold TycheModule.respond
  cases hr : s.pendingRequests.get? c
  case none   =>
    exact ⟨agrees_update ⟨hi.own, hi.filled, hi.known, hi.receives, by simp⟩ fun j hj =>
      ⟨(h.agrees j).own, (h.agrees j).filled, (h.agrees j).known, (h.agrees j).receives,
        by simp [hn j hj]⟩, unique_update h fun _ hr => hr, h.failed, h.settled, h.table, h.real⟩
  case some r =>
    have hf (j : ModuleThread) (hj : (v j).filled) : ∀ q ∈ (v j).own,
        (s.setRequest r p true).ready q := by
      intro q hq
      by_cases hqr : q = r
      case pos => simp [TycheModule.setRequest, hqr]
      case neg => simpa [TycheModule.setRequest, hqr] using (h.agrees j).filled hj q hq
    refine ⟨agrees_update ⟨hi.own, hf i, hi.known, hi.receives, by simp⟩ fun j hj =>
      ⟨(h.agrees j).own, hf j, (h.agrees j).known, (h.agrees j).receives, by simp [hn j hj]⟩,
      unique_update h fun _ hr => hr, h.failed, fun q hq => ?_, h.table, h.real⟩
    by_cases hqr : q = r
    case pos =>
      have hx : (r, p) ∈ s.received := (hi.response _ hm).right.right r hr
      exact .inr <| by simpa [TycheModule.setRequest, hqr] using hx
    case neg =>
      simp only [TycheModule.setRequest, Function.update_of_ne hqr] at hq ⊢
      exact h.settled q hq

theorem Inv.wakeUp (h : Inv s v)
    (ha : ∀ e ∈ s.pendingRequests.entries, s.ready e.2 ∨ e.2 ∈ s.failed) : Inv s.wakeUp v where
  agrees i := (h.agrees i).grow ⟨rfl, rfl, fun r hr => by simp [TycheModule.wakeUp, hr],
    fun _ hx => hx, rfl, fun _ _ hr => by cases hr⟩
  unique   := h.unique
  failed   := h.failed
  settled r hr := by
    simp only [TycheModule.wakeUp, Bool.or_eq_true, List.any_eq_true, decide_eq_true_eq] at hr
    obtain hr | ⟨e, he, rfl⟩ := hr
    case inl => exact h.settled r hr
    case inr => exact (ha e he).elim (h.settled e.2) .inl
  table c r hr := by cases hr
  real     := h.real

theorem Inv.exec {o : ModuleOp β} {a : β} (h : Inv s v) (hm : (v i).May o) (hc : o.Answered s)
    (e : modules.exec i works o s = some (.ok a, s')) :
    Inv s' (Function.update v i <| (v i).next o a) := by
  have hi := h.agrees i
  simp only [modules] at e
  cases o
  case newRequest    => cases e; exact h.newRequest
  case receive m     => cases e; exact h.receive hm
  case respond c p   => cases e; exact h.respond hm
  case sendRequest r =>
    cases e
    cases works
    case false => exact h.fail hm
    case true  => simpa [View.next] using h
  case tryWait c r   =>
    cases e
    split
    case isTrue  => exact (h.check hm).erase
    case isFalse => exact h.check hm
  case expire c r    => cases e; exact (h.check hm).erase
  case result r      =>
    cases e
    refine h.learn ⟨hi.own, hi.filled, fun x hx => ?_, hi.receives, hi.response⟩ fun _ hr => hr
    cases Option.mem_some_iff.mp hx
    exact (h.settled r <| hi.filled hm.right r hm.left).resolve_left (hi.own r hm.left).right
  case answer r p    =>
    cases e
    simp only [View.next, Function.update_eq_self]
    refine h.quiet fun x hx => ?_
    obtain rfl | hx := List.mem_cons.mp hx
    case inl => exact hi.known _ hm
    case inr => exact h.real x hx
  case insert c r    =>
    cases e
    simp only [View.next, Function.update_eq_self]
    exact h.insert hc
  case wakeUp        =>
    cases e
    simp only [View.next, Function.update_eq_self]
    exact h.wakeUp hc
  all_goals
    cases e
    simp only [View.next, Function.update_eq_self]
    exact h.quiet h.real

end Inv

section Code

variable {g : View} {Q : Except Empty β → View → Prop} {o : ModuleOp α} {f : α → CppModule β}

theorem obeys_call (ho : g.May o) (h : ∀ a, Obeys discipline Q (f a) (g.next o a)) :
    Obeys discipline Q (op o >>= f) g :=
  Threads.obeys_call ho h

theorem obeys_last {Q : Except Empty α → View → Prop} (ho : g.May o)
    (h : ∀ a, Q (.ok a) <| g.next o a) : Obeys discipline Q (op o) g :=
  Threads.obeys_last ho h

def Done (_ : ModuleThread) (_ : Except Empty Unit) (_ : View) : Prop :=
  True

def View.idle (receives : Bool) : View :=
  ⟨none, false, none, receives, none⟩

theorem obeys_waitFor {c : Bytes} {n : ℕ} {Q : Except Empty Bool → View → Prop}
    (hg : g.own = some r) (hq : ∀ b, Q (.ok b) { g with filled := b }) :
    Obeys discipline Q (waitFor c r n) g := by
  induction n generalizing g
  case zero      => exact obeys_last hg hq
  case succ n hi =>
    refine obeys_call hg fun b => ?_
    cases b
    case false => exact hi hg hq
    case true  => exact hq true

theorem obeys_requestEvent {c : Bytes} {n : ℕ} :
    Obeys discipline (Done i) (requestEvent c n) <| .idle false := by
  refine obeys_call trivial fun b => ?_
  cases b
  case false => trivial
  case true  =>
    refine obeys_call trivial fun r => obeys_call trivial fun _ => obeys_call rfl fun b => ?_
    cases b
    case false => trivial
    case true  =>
      refine obeys_bind <| obeys_waitFor rfl fun b => ?_
      cases b
      case false => trivial
      case true  => exact obeys_call ⟨rfl, rfl⟩ fun _ => obeys_last rfl fun _ => trivial

theorem obeys_receiveJob {m : Incoming} :
    Obeys discipline (Done i) (receiveJob m) <| .idle true := by
  refine obeys_call rfl fun _ => ?_
  cases m
  case nothing      => trivial
  case request      => exact obeys_last trivial fun _ => trivial
  case response p c =>
    cases c
    case none   => trivial
    case some c => exact obeys_last rfl fun _ => trivial

theorem obeys_stop : Obeys discipline (Done i) Cpp.stop <| .idle false :=
  obeys_call trivial fun _ => obeys_call trivial fun _ => obeys_last trivial fun _ => trivial

end Code

theorem Inv.begin {v : ModuleThread → View} {receives : Bool} (h : Inv s v)
    (hr : receives → i = .receiver) : Inv s (Function.update v i <| .idle receives) :=
  h.learn ⟨by simp [View.idle], by simp [View.idle], by simp [View.idle], hr, by simp [View.idle]⟩
    (by simp [View.idle])

theorem kept : discipline.Kept Done where
  exec i k works o s v x s' h hm hc e := by
    cases x
    case ok a    => exact h.exec hm hc e
    case error a => exact a.elim
  enter i k s v s' p h _ _ e := by
    simp only [modules, TycheModule.enter] at e
    split at e <;> cases e
    case h_1 => exact ⟨_, Inv.begin h (by simp), obeys_requestEvent⟩
    case h_2 => exact ⟨_, Inv.begin h (by simp), obeys_receiveJob⟩
    case h_3 => exact ⟨_, Inv.begin h (by simp), obeys_stop⟩

theorem disciplined_start : Disciplined discipline Done (Threads.start TycheModule.start) := by
  refine ⟨fun _ => .idle false, ⟨fun i => ⟨?_, ?_, ?_, ?_, ?_⟩, ?_, ?_, ?_, ?_, ?_⟩,
    fun i => trivial⟩
  all_goals simp [View.idle, Threads.start, TycheModule.start, TycheModule.Real]

end Answers

namespace modules

variable {as : List (Threads.Action ModuleThread ModuleTask Bool)}

theorem always_real_of_answered
    (c : (machine modules).Along (Meets TycheModule.answered) (Threads.start .start) as) :
    (machine modules).Always (fun t => t.shared.Real) (Threads.start .start) as :=
  (always_disciplined Answers.kept Answers.disciplined_start c).mono fun _ ⟨_, h, _⟩ => h.real

end modules

end Cpp
