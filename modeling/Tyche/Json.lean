import Tyche.Floating
import Tyche.Types

-- The values that formats such as JSON have in common.
inductive Json
  | null
  | bool (value : Bool)
  | number (value : Floating)
  | string (value : Bytes)
  | array (items : List Json)
  | object (entries : List (Bytes × Json))

namespace Json

mutual

-- The number of values and keys in a value, itself included.
def weight : Json → ℕ
  | .array l  => 1 + weights l
  | .object m => 1 + weightEntries m
  | _         => 1

def weights : List Json → ℕ
  | []     => 0
  | v :: l => v.weight + weights l

def weightEntries : List (Bytes × Json) → ℕ
  | []          => 0
  | (_, v) :: m => 1 + v.weight + weightEntries m

end

variable {l l' : List Json} {m m' : List (Bytes × Json)} {ss : List Bytes}

theorem weights_map_string : weights (ss.map .string) = ss.length := by
  induction ss
  case nil          => rfl
  case cons s ss hi =>
    rw [List.map_cons, weights, hi, List.length_cons]
    exact Nat.add_comm ..

end Json
