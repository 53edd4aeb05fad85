import Tyche.Python.Engine

namespace Python

inductive DurabilityLevel
  | bestEffort
  | asyncFlush
  | syncFlush
deriving DecidableEq

def DurabilityLevel.number : DurabilityLevel → ℕ
  | .bestEffort => 0
  | .asyncFlush => 1
  | .syncFlush  => 2

-- An interface with all of its fields.
structure NamedInterface extends Interface where
  name       : Value
  durability : DurabilityLevel := .asyncFlush

end Python
