import Tyche.Python.JobRouter

namespace Python

namespace Value

variable {v : Value} {t d : ℚ} {key : String}

def IsDict : Value → Prop
  | dict _ => True
  | _      => False

-- A time can be compared with the value.
def Comparable : Value → Prop
  | bool _ | int _ | float _ _ => True
  | decimal x _                => x ≠ .nan
  | _                          => False

instance : ∀ v : Value, Decidable v.Comparable
  | decimal _ _  => inferInstanceAs <| Decidable (_ ≠ _)
  | bool _       => isTrue trivial
  | int _        => isTrue trivial
  | float _ _    => isTrue trivial
  | none         => isFalse id
  | signalingNaN => isFalse id
  | str _        => isFalse id
  | bytes _      => isFalse id
  | ext _ _      => isFalse id
  | timestamp .. => isFalse id
  | list _       => isFalse id
  | dict _       => isFalse id

theorem exceededBy_ok_iff : (∃ b, v.exceededBy t = .ok b) ↔ v.Comparable := by
  cases v
  case decimal x _ => cases x <;> simp [exceededBy, Comparable]
  all_goals simp [exceededBy, Comparable]

theorem hash_of_hashed {v : Value} {topic : Hashed} (h : v.hashed = .ok topic) :
    v.hash = .ok topic.key := by
  rw [hashed] at h
  split at h
  case h_1 hk => cases h; exact hk
  case h_2    => cases h

theorem hashed_ok_iff : (∃ h, v.hashed = .ok h) ↔ v.Hashable := by
  rw [hashed, Hashable]
  split <;> simp_all

theorem timeout_ok_iff :
    (∃ w, timeout v key d = .ok w) ↔ (v.truthy → v.IsDict) := by
  rw [timeout]
  cases hv : v.truthy
  case false => simp
  case true  => cases v <;> simp [get, IsDict]

theorem number_ok_iff : (∃ x, v.number = .ok x) ↔ v.Comparable := by
  cases v
  case decimal x _ => cases x <;> simp [number, Comparable]
  all_goals simp [number, Comparable]

end Value

end Python
