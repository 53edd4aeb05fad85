import Tyche.CharArray
import Tyche.Discipline

namespace Cpp

open Proc Threads

-- Which instruments were requested since the last login is not kept by the code.
structure MdSpi (ι : Type) where
  instruments : List Bytes
  instMtx     : Option ι
  loggedIn    : Bool
  requested   : List Bytes

inductive MdSpiOp : Type → Type
  | lock : MdSpiOp Unit
  | unlock : MdSpiOp Unit
  | setInstruments (instruments : List Bytes) : MdSpiOp Unit
  | getInstruments : MdSpiOp (List Bytes)
  | setLoggedIn (loggedIn : Bool) : MdSpiOp Unit
  | isLoggedIn : MdSpiOp Bool
  | subscribeMarketData (ids : List Bytes) (count : BitVec 32) : MdSpiOp Unit

-- The identifier of an error is missing if the trading interface gives no information.
inductive MdSpiTask
  | setInstruments (instruments : List Bytes)
  | onRspUserLogin (errorId : Option (BitVec 32))
  | onRspUserLogout
  | onFrontDisconnected

-- The number of instruments that are set fits into an `int`.
def MdSpiTask.Countable : MdSpiTask → Prop
  | .setInstruments instruments => instruments.length < 2 ^ 31
  | _                           => True

instance : DecidablePred MdSpiTask.Countable
  | .setInstruments _ => inferInstanceAs <| Decidable (_ < _)
  | .onRspUserLogin _ | .onRspUserLogout | .onFrontDisconnected => isTrue trivial

namespace MdSpi

variable {ι β : Type}

abbrev Code :=
  Proc MdSpiOp Empty

def start : MdSpi ι where
  instruments := []
  instMtx     := none
  loggedIn    := false
  requested   := []

-- The interface is given C strings and their number as an `int`.
def doSubscribe : Code Unit := do
  op .lock
  let instruments ← op .getInstruments
  if instruments.isEmpty then
    op .unlock
  else
    op (.subscribeMarketData (instruments.map cString) (.ofNat 32 instruments.length))
    op .unlock

def setInstruments (instruments : List Bytes) : Code Unit := do
  op .lock
  op (.setInstruments instruments)
  op .unlock
  if ← op .isLoggedIn then doSubscribe else return ()

def onRspUserLogin (errorId : Option (BitVec 32)) : Code Unit :=
  if errorId.any (· ≠ 0) then return () else do
    op (.setLoggedIn true)
    doSubscribe

def onRspUserLogout : Code Unit :=
  op (.setLoggedIn false)

def onFrontDisconnected : Code Unit :=
  op (.setLoggedIn false)

def code : MdSpiTask → Code Unit
  | .setInstruments instruments => setInstruments instruments
  | .onRspUserLogin errorId     => onRspUserLogin errorId
  | .onRspUserLogout            => onRspUserLogout
  | .onFrontDisconnected        => onFrontDisconnected

-- A login begins a session in which nothing has been requested yet. A request that the interface
-- turns down is only logged.
def exec (s : MdSpi ι) (i : ι) : ∀ {β}, MdSpiOp β → Option (β × MdSpi ι)
  | _, .lock                 =>
    match s.instMtx with
    | none   => some ((), { s with instMtx := some i })
    | some _ => none
  | _, .unlock               => some ((), { s with instMtx := none })
  | _, .setInstruments ids   => some ((), { s with instruments := ids })
  | _, .getInstruments       => some (s.instruments, s)
  | _, .setLoggedIn loggedIn =>
    some ((), { s with
      loggedIn  := loggedIn
      requested := if loggedIn then [] else s.requested })
  | _, .isLoggedIn           => some (s.loggedIn, s)
  | _, .subscribeMarketData ids count =>
    some ((), { s with requested := s.requested ++ ids.take count.toInt.toNat })

def system (ι : Type) : System MdSpiOp Empty (MdSpi ι) ι MdSpiTask Unit where
  enter _ task s := some (s, code task)
  exec i _ o s   := (s.exec i o).map fun (a, s) => (.ok a, s)

def countable : Condition MdSpiOp (MdSpi ι) ι MdSpiTask Unit where
  enter _ task _ := task.Countable
  exec _ _ _ _ _ := True

instance {i : ι} {task : MdSpiTask} {s : MdSpi ι} : Decidable (countable.enter i task s) :=
  inferInstanceAs <| Decidable task.Countable

instance {i : ι} {task : Option MdSpiTask} {x : Unit} {o : MdSpiOp β} {s : MdSpi ι} :
    Decidable (countable.exec i task x o s) :=
  isTrue trivial

-- All instruments that are set have been requested since the login.
def Covered (s : MdSpi ι) : Prop :=
  ∀ id ∈ s.instruments, cString id ∈ s.requested

-- Whether a thread holds the mutex, the instruments that it has read since then, and whether it is
-- still going to see to it that the instruments are requested.
structure View where
  holds : Bool
  known : Option (List Bytes)
  owes  : Bool

namespace View

def idle : View where
  holds := false
  known := none
  owes  := false

def May (g : View) : ∀ {β : Type}, MdSpiOp β → Prop
  | _, .lock                          => g.holds = false
  | _, .unlock | _, .getInstruments   => g.holds = true
  | _, .setInstruments ids            => g.holds = true ∧ ids.length < 2 ^ 31
  | _, .setLoggedIn _ | _, .isLoggedIn => True
  | _, .subscribeMarketData ids count =>
    ∃ known, g.known = some known ∧ ids = known.map cString ∧ count = .ofNat 32 known.length

def next (g : View) : ∀ {β : Type}, MdSpiOp β → β → View
  | _, .lock, _                   => { g with holds := true }
  | _, .unlock, _                 => { g with holds := false, known := none }
  | _, .setInstruments _, _       => { g with known := none, owes := true }
  | _, .getInstruments, ids       => { g with known := some ids, owes := g.owes && !ids.isEmpty }
  | _, .setLoggedIn loggedIn, _   => { g with owes := g.owes || loggedIn }
  | _, .isLoggedIn, loggedIn      => { g with owes := g.owes && loggedIn }
  | _, .subscribeMarketData .., _ => { g with owes := false }

end View

-- The instruments stay as a thread has read them while it holds the mutex.
def Agrees (s : MdSpi ι) (g : View) : Prop :=
  ∀ ids, g.known = some ids → g.holds = true ∧ ids = s.instruments

structure Inv (s : MdSpi ι) (v : ι → View) : Prop where
  holds : ∀ i, (v i).holds = true ↔ s.instMtx = some i
  known : ∀ i, s.Agrees (v i)
  short : s.instruments.length < 2 ^ 31
  owes  : s.loggedIn = true → s.Covered ∨ ∃ i, (v i).owes = true

def discipline (ι : Type) : Discipline (system ι) View where
  May g o    := g.May o
  next g o
    | .ok a => g.next o a
  Inv        := Inv
  cond       := countable

variable {s s' : MdSpi ι} {v : ι → View} {i j : ι} {g : View} {o : MdSpiOp β} {a : β}

theorem Inv.start : Inv (start : MdSpi ι) fun _ => .idle where
  holds _   := by simp [View.idle, MdSpi.start]
  known _ _ := by simp [View.idle]
  short     := by simp [MdSpi.start]
  owes h    := by simp [MdSpi.start] at h

namespace Inv

theorem eq_of_holds (h : Inv s v) (hi : (v i).holds = true) (hj : (v j).holds = true) : j = i := by
  have hs := (h.holds i).mp hi
  rw [(h.holds j).mp hj] at hs
  exact Option.some_inj.mp hs

-- Nobody else has read the instruments while a thread holds the mutex.
theorem known_of_ne (h : Inv s v) (hi : (v i).holds = true) (hj : j ≠ i) : (v j).known = none := by
  cases hk : (v j).known
  case none     => rfl
  case some ids => exact absurd (h.eq_of_holds hi (h.known j ids hk).left) hj

theorem known_of_free (h : Inv s v) (hm : s.instMtx = none) : (v j).known = none := by
  cases hk : (v j).known
  case none     => rfl
  case some ids =>
    have hj := (h.holds j).mp (h.known j ids hk).left
    simp [hm] at hj

variable [DecidableEq ι]

-- Threads that still are going to see to it are not forgotten.
theorem owes_update (h : Inv s v) (hg : (v i).owes = true → s.Covered ∨ g.owes = true)
    (hl : s.loggedIn = true) : s.Covered ∨ ∃ j, (Function.update v i g j).owes = true := by
  rw [Function.exists_update_iff v fun _ g => g.owes = true]
  cases h.owes hl
  case inl hc => exact .inl hc
  case inr ho =>
    have ⟨j, hj⟩ := ho
    by_cases hji : j = i
    case pos => exact (hg <| hji ▸ hj).imp id .inl
    case neg => exact .inr <| .inr ⟨j, hji, hj⟩

theorem agrees_update (h : ∀ j ≠ i, s.Agrees (v j)) (hg : s.Agrees g) (j : ι) :
    s.Agrees (Function.update v i g j) := by
  revert j
  rw [Function.forall_update_iff v fun _ g => s.Agrees g]
  exact ⟨hg, h⟩

-- A step that leaves the mutex alone.
theorem holds_update (h : Inv s v) (hg : g.holds = (v i).holds) (j : ι) :
    (Function.update v i g j).holds = true ↔ s.instMtx = some j := by
  revert j
  rw [Function.forall_update_iff v fun j g => g.holds = true ↔ s.instMtx = some j, hg]
  exact ⟨h.holds i, fun j _ => h.holds j⟩

theorem lock (h : Inv s v) (hm : s.instMtx = none) :
    Inv { s with instMtx := some i } (Function.update v i ((v i).next .lock ())) where
  holds := by
    rw [Function.forall_update_iff v fun j g => g.holds = true ↔ some i = some j]
    refine ⟨by simp [View.next], fun j hj => ?_⟩
    rw [h.holds j, hm]
    simpa using hj.symm
  known := agrees_update (fun j _ => h.known j) fun ids hd => by
    rw [show ((v i).next .lock ()).known = none from h.known_of_free hm] at hd
    cases hd
  short := h.short
  owes  := h.owes_update .inr

theorem unlock (h : Inv s v) (hi : (v i).holds = true) :
    Inv { s with instMtx := none } (Function.update v i ((v i).next .unlock ())) where
  holds := by
    rw [Function.forall_update_iff v fun j g => g.holds = true ↔ none = some j]
    refine ⟨by simp [View.next], fun j hj => ?_⟩
    have hn : ¬(v j).holds = true := fun he => hj <| h.eq_of_holds hi he
    simpa using hn
  known := agrees_update (fun j _ => h.known j) fun ids hd => by cases hd
  short := h.short
  owes  := h.owes_update .inr

theorem setInstruments {ids : List Bytes} (h : Inv s v) (hi : (v i).holds = true)
    (hs : ids.length < 2 ^ 31) :
    Inv { s with instruments := ids }
      (Function.update v i ((v i).next (.setInstruments ids) ())) where
  holds  := h.holds_update rfl
  known  := by
    refine agrees_update (fun j hj _ hd => ?_) fun _ hd => by cases hd
    rw [h.known_of_ne hi hj] at hd
    cases hd
  short  := hs
  owes _ := .inr ⟨i, by simp [View.next]⟩

theorem getInstruments (h : Inv s v) (hi : (v i).holds = true) :
    Inv s (Function.update v i ((v i).next .getInstruments s.instruments)) where
  holds := h.holds_update rfl
  known := agrees_update (fun j _ => h.known j) fun _ hd => ⟨hi, (Option.some_inj.mp hd).symm⟩
  short := h.short
  owes  := h.owes_update fun ho => by
    cases hn : s.instruments
    case nil  => exact .inl fun _ hid => by simp [hn] at hid
    case cons => exact .inr <| by simp [View.next, ho]

theorem setLoggedIn {loggedIn : Bool} {requested : List Bytes} (h : Inv s v) :
    Inv { s with loggedIn := loggedIn, requested := requested }
      (Function.update v i ((v i).next (.setLoggedIn loggedIn) ())) where
  holds   := h.holds_update rfl
  known   := agrees_update (fun j _ => h.known j) (h.known i)
  short   := h.short
  owes hl := .inr ⟨i, by simp [View.next, show loggedIn = true from hl]⟩

theorem isLoggedIn (h : Inv s v) :
    Inv s (Function.update v i ((v i).next .isLoggedIn s.loggedIn)) where
  holds   := h.holds_update rfl
  known   := agrees_update (fun j _ => h.known j) (h.known i)
  short   := h.short
  owes hl := h.owes_update (fun ho => .inr <| by simp [View.next, ho, hl]) hl

theorem subscribeMarketData {ids : List Bytes} (h : Inv s v) (hk : (v i).known = some ids) :
    Inv { s with requested := s.requested ++
      (ids.map cString).take (BitVec.ofNat 32 ids.length).toInt.toNat }
      (Function.update v i
        ((v i).next (.subscribeMarketData (ids.map cString) (.ofNat 32 ids.length)) ())) where
  holds  := h.holds_update rfl
  known  := agrees_update (fun j _ => h.known j) (h.known i)
  short  := h.short
  owes _ := by
    have ⟨_, hs⟩ := h.known i ids hk
    have hl : ids.length < 2 ^ 31 := hs ▸ h.short
    have hn : (BitVec.ofNat 32 ids.length).toInt.toNat = ids.length := by
      rw [BitVec.toInt_ofNat', Int.bmod_def]
      omega
    refine .inl fun id hid => ?_
    rw [hn, List.take_of_length_le (List.length_map ..).le]
    exact List.mem_append_right _ <| List.mem_map_of_mem <| hs ▸ hid

-- An operation that the view of its thread allows keeps the invariant.
theorem exec (h : Inv s v) (hm : (v i).May o) (he : s.exec i o = some (a, s')) :
    Inv s' (Function.update v i ((v i).next o a)) := by
  cases o
  case lock =>
    rw [MdSpi.exec] at he
    split at he <;> cases he
    case h_1 hs => exact h.lock hs
  case unlock             => cases he; exact h.unlock hm
  case setInstruments     => cases he; exact h.setInstruments hm.left hm.right
  case getInstruments     => cases he; exact h.getInstruments hm
  case setLoggedIn        => cases he; exact h.setLoggedIn
  case isLoggedIn         => cases he; exact h.isLoggedIn
  case subscribeMarketData =>
    obtain ⟨ids, hk, rfl, rfl⟩ := hm
    cases he
    exact h.subscribeMarketData hk

end Inv

section Obeys

variable {owes : Bool}

-- Whoever has to see to it has done so at the end.
theorem obeys_doSubscribe :
    Obeys (discipline ι) (fun _ g => g = .idle) doSubscribe ⟨false, none, owes⟩ := by
  refine obeys_call rfl fun _ => obeys_call rfl fun ids => ?_
  split
  case isTrue hn =>
    refine obeys_last rfl fun _ => ?_
    simp [discipline, View.next, View.idle, hn]
  case isFalse =>
    refine obeys_call ⟨ids, rfl, rfl, rfl⟩ fun _ => obeys_last rfl fun _ => ?_
    rfl

theorem obeys_setInstruments {ids : List Bytes} (h : ids.length < 2 ^ 31) :
    Obeys (discipline ι) (fun _ g => g = .idle) (setInstruments ids) .idle := by
  refine obeys_call rfl fun _ => obeys_call ⟨rfl, h⟩ fun _ => obeys_call rfl fun _ => ?_
  refine obeys_call trivial fun loggedIn => ?_
  cases loggedIn
  case false => rfl
  case true  => exact obeys_doSubscribe

theorem obeys_onRspUserLogin {errorId : Option (BitVec 32)} :
    Obeys (discipline ι) (fun _ g => g = .idle) (onRspUserLogin errorId) .idle := by
  rw [onRspUserLogin]
  split
  case isTrue  => rfl
  case isFalse => exact obeys_call trivial fun _ => obeys_doSubscribe

end Obeys

theorem kept [DecidableEq ι] : (discipline ι).Kept fun _ _ g => g = .idle where
  exec i _ _ o s v _ _ h hm _ he := by
    obtain ⟨⟨a, s'⟩, he, hs⟩ := Option.map_eq_some_iff.mp he
    cases hs
    exact h.exec hm he
  enter i task s v _ _ h hq hc he := by
    cases he
    have hv : Function.update v i .idle = v := by rw [← hq, Function.update_eq_self]
    refine ⟨.idle, hv.symm ▸ h, ?_⟩
    cases task
    case setInstruments      => exact obeys_setInstruments hc
    case onRspUserLogin      => exact obeys_onRspUserLogin
    case onRspUserLogout     => exact obeys_last trivial fun _ => rfl
    case onFrontDisconnected => exact obeys_last trivial fun _ => rfl

-- No thread is in the middle of a call.
def Quiet (t : Threads MdSpiOp Empty (MdSpi ι) ι MdSpiTask) : Prop :=
  ∀ i, t.code i = .done (.ok ())

namespace Sample

-- The callback logs in while the instruments are being set.
def run : List (Threads.Action Bool MdSpiTask Unit) := [
  .start false (.setInstruments [utf8 "a"]), .next false (), .next false (),
  .start true (.onRspUserLogin none), .next true (), .next false (), .next true (),
  .next false (), .next true (), .next true (), .next true (), .next false (), .next false (),
  .next false (), .next false ()]

theorem along_run :
    (machine (system Bool)).Along (Meets countable) (Threads.start MdSpi.start) run := by
  decide

example : ((machine (system Bool)).exec (Threads.start MdSpi.start) run).map (·.shared.requested) =
    some [utf8 "a", utf8 "a"] := by
  decide

end Sample

section Runs

variable {t : Threads MdSpiOp Empty (MdSpi ι) ι MdSpiTask}
variable {as : List (Threads.Action ι MdSpiTask Unit)}

theorem disciplined_start : Disciplined (discipline ι) (fun _ _ g => g = .idle)
    (Threads.start start) :=
  ⟨fun _ => .idle, .start, fun _ => rfl⟩

theorem covered_of_quiet (h : Disciplined (discipline ι) (fun _ _ g => g = .idle) t)
    (hl : t.shared.loggedIn = true) (hq : Quiet t) : t.shared.Covered := by
  obtain ⟨v, hi, ho⟩ := h
  refine (hi.owes hl).resolve_right fun ⟨i, hw⟩ => ?_
  have hv := ho i
  rw [hq i] at hv
  rw [show v i = .idle from hv] at hw
  cases hw

variable [DecidableEq ι]

-- Whoever holds the mutex can go on.
theorem step_of_holds {v : ι → View} {i : ι} (hv : (v i).holds = true)
    (ho : Obeys (discipline ι) (fun _ g => g = .idle) (t.code i) (v i)) :
    (Threads.step (system ι) t (.next i ())).isSome := by
  rw [Threads.step]
  cases hc : t.code i
  case done r =>
    rw [hc] at ho
    rw [show v i = .idle from ho] at hv
    cases hv
  case call o next =>
    rw [hc] at ho
    have hm : (v i).May o := ho.left
    cases o
    case lock => rw [show (v i).holds = false from hm] at hv; cases hv
    all_goals rfl

theorem step_of_disciplined {i : ι}
    (h : Disciplined (discipline ι) (fun _ _ g => g = .idle) t)
    (hn : t.code i ≠ .done (.ok ())) :
    ∃ j, (Threads.step (system ι) t (.next j ())).isSome := by
  obtain ⟨v, hi, ho⟩ := h
  cases hm : t.shared.instMtx
  case some j => exact ⟨j, step_of_holds ((hi.holds j).mpr hm) (ho j)⟩
  case none   =>
    refine ⟨i, ?_⟩
    rw [Threads.step]
    cases hc : t.code i
    case done r =>
      cases r
      case ok    => exact absurd hc hn
      case error => contradiction
    case call o next =>
      cases o
      case lock => simp [system, exec, hm]
      all_goals rfl

-- However the calls interleave, whenever no call is going on while the interface is logged in, all
-- instruments that are set have been requested since the login.
theorem always_covered
    (h : (machine (system ι)).Along (Meets countable) (Threads.start start) as) :
    (machine (system ι)).Always (fun t => t.shared.loggedIn = true → Quiet t → t.shared.Covered)
      (Threads.start start) as :=
  (always_disciplined kept disciplined_start h).mono fun _ hd => covered_of_quiet hd

theorem always_covered_sample :
    (machine (system Bool)).Always (fun t => t.shared.loggedIn = true → Quiet t →
      t.shared.Covered) (Threads.start start) Sample.run :=
  always_covered Sample.along_run

-- As long as a call is going on, there is a thread that can make its next step.
theorem always_progress
    (h : (machine (system ι)).Along (Meets countable) (Threads.start start) as) :
    (machine (system ι)).Always (fun t => ∀ i, t.code i ≠ .done (.ok ()) →
      ∃ j, (Threads.step (system ι) t (.next j ())).isSome) (Threads.start start) as :=
  (always_disciplined kept disciplined_start h).mono fun _ hd _ hn => step_of_disciplined hd hn

theorem always_progress_sample :
    (machine (system Bool)).Always (fun t => ∀ i, t.code i ≠ .done (.ok ()) →
      ∃ j, (Threads.step (system Bool) t (.next j ())).isSome) (Threads.start start) Sample.run :=
  always_progress Sample.along_run

end Runs

end MdSpi

end Cpp
