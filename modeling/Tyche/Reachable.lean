import Tyche.Dict

-- Containers that are found by number in a dictionary.
namespace Dict

variable {κ α : Type*}

def values (d : Dict κ ℕ) : List ℕ :=
  d.entries.map Prod.snd

-- The dictionary knows every container that holds anything.
def Reaches (d : Dict κ ℕ) (held : ℕ → List α) : Prop :=
  ∀ q, held q ≠ [] → q ∈ d.values

variable {d : Dict κ ℕ} {held held' : ℕ → List α} {k : κ} {q : ℕ}

theorem Reaches.put (h : d.Reaches held) (hq : q ∈ d.values)
    (hh : ∀ p, p ≠ q → held' p = held p) : d.Reaches held' := by
  intro p hp
  by_cases he : p = q
  case pos => exact he ▸ hq
  case neg => exact h p (hh p he ▸ hp)

theorem Reaches.shrink (h : d.Reaches held) (hh : ∀ p, held p = [] → held' p = []) :
    d.Reaches held' :=
  fun p hp => h p fun he => hp <| hh p he

variable [DecidableEq κ]

theorem mem_values : q ∈ d.values ↔ ∃ k, d.get? k = some q := by
  simp [values, get?_eq_some_iff]

theorem Reaches.set (h : d.Reaches held) (hk : k ∉ d) : (d.set k q).Reaches held := by
  intro p hp
  obtain ⟨j, hj⟩ := mem_values.mp <| h p hp
  have hjk : j ≠ k := fun e => hk <| e ▸ mem_of_get? hj
  exact mem_values.mpr ⟨j, by rwa [get?_set_ne hjk]⟩

-- A container may be forgotten when it is empty.
theorem Reaches.erase (h : d.Reaches held) (hk : ∀ q, d.get? k = some q → held q = []) :
    (d.erase k).Reaches held := by
  intro p hp
  obtain ⟨j, hj⟩ := mem_values.mp <| h p hp
  have hjk : j ≠ k := fun e => hp <| hk p <| e ▸ hj
  exact mem_values.mpr ⟨j, by rwa [get?_erase_ne hjk]⟩

end Dict
