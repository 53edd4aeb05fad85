import Tyche.Dict

-- Lists without repetitions, which members join at the end and leave.
namespace Roster

variable {ι : Type*} [DecidableEq ι] {m j : ι} {l : List ι}

def join (l : List ι) (m : ι) : List ι :=
  if m ∈ l then l else l ++ [m]

def leave (l : List ι) (m : ι) : List ι :=
  l.filter (· ≠ m)

theorem mem_join : j ∈ join l m ↔ j ∈ l ∨ j = m := by
  unfold join
  split <;> simp_all

theorem mem_leave : j ∈ leave l m ↔ j ∈ l ∧ j ≠ m := by
  simp [leave]

theorem join_nodup (h : l.Nodup) : (join l m).Nodup := by
  unfold join
  split
  case isTrue     => exact h
  case isFalse hm => exact h.append (List.nodup_singleton m) (List.disjoint_singleton.mpr hm)

theorem leave_nodup (h : l.Nodup) : (leave l m).Nodup :=
  h.filter _

-- Nobody else can tell that the member has joined or left.
theorem leave_join : leave (join l m) m = leave l m := by
  unfold join leave
  split <;> simp

theorem leave_leave : leave (leave l m) m = leave l m := by
  simp [leave, List.filter_filter]

end Roster

-- A list of members for each key.
abbrev Roster (κ ι : Type*) :=
  Dict κ (List ι)

namespace Roster

variable {κ ι : Type*} [DecidableEq κ] {r r' r'' : Roster κ ι} {m j : ι} {k k' : κ}
variable {P Q : ι → Prop}

def members (r : Roster κ ι) (k : κ) : List ι :=
  r.getD k []

-- No list has a member twice, and all members satisfy `P`.
def Proper (P : ι → Prop) (r : Roster κ ι) : Prop :=
  ∀ k, (r.members k).Nodup ∧ ∀ m ∈ r.members k, P m

theorem proper_empty : (∅ : Roster κ ι).Proper P :=
  fun _ => ⟨.nil, fun _ h => absurd h List.not_mem_nil⟩

theorem Proper.mono (h : r.Proper P) (hp : ∀ m, P m → Q m) : r.Proper Q :=
  fun k => ⟨(h k).left, fun m hm => hp m <| (h k).right m hm⟩

variable [DecidableEq ι]

def enter (r : Roster κ ι) (k : κ) (m : ι) : Roster κ ι :=
  r.set k <| join (r.members k) m

def strike (r : Roster κ ι) (m : ι) : Roster κ ι :=
  r.mapVal (leave · m)

theorem members_enter :
    (r.enter k m).members k' = if k' = k then join (r.members k) m else r.members k' := by
  unfold enter members Dict.getD
  rw [Dict.get?_set]
  split <;> rfl

theorem members_strike : (r.strike m).members k = leave (r.members k) m := by
  unfold strike members Dict.getD
  rw [Dict.get?_mapVal]
  cases r.get? k <;> rfl

theorem Proper.enter (h : r.Proper P) (hm : P m) : (r.enter k m).Proper P := by
  intro k'
  rw [members_enter]
  split
  case isFalse => exact h k'
  case isTrue  =>
    refine ⟨join_nodup (h k).left, fun j hj => ?_⟩
    rcases mem_join.mp hj with hj | rfl
    case inl => exact (h k).right j hj
    case inr => exact hm

theorem Proper.strike (h : r.Proper P) : (r.strike m).Proper fun j => P j ∧ j ≠ m := by
  intro k
  rw [members_strike]
  refine ⟨leave_nodup (h k).left, fun j hj => ?_⟩
  obtain ⟨hj, hn⟩ := mem_leave.mp hj
  exact ⟨(h k).right j hj, hn⟩

-- The two differ at most in where `m` is a member. All others have kept their order.
def Agree (m : ι) (r r' : Roster κ ι) : Prop :=
  ∀ k, leave (r'.members k) m = leave (r.members k) m

namespace Agree

theorem refl : Agree m r r :=
  fun _ => rfl

theorem trans (h : Agree m r r') (h' : Agree m r' r'') : Agree m r r'' :=
  fun k => (h' k).trans (h k)

theorem enter : Agree m r (r.enter k m) := by
  intro k'
  rw [members_enter]
  split
  case isTrue he => rw [leave_join, he]
  case isFalse   => rfl

theorem strike : Agree m r (r.strike m) := by
  intro k
  rw [members_strike, leave_leave]

end Agree

end Roster
