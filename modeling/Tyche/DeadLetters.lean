import Tyche.Cpp.Theorems.Replay
import Tyche.Python.Theorems.DeadLetter

open Calendar

namespace Cpp.DeadLetterStore

variable {ps : List Letter}

-- Each of the oldest records reads like the one that is as far from the newest ones.
def Repeats (ps : List Letter) : Prop :=
  ∀ i < 100, (ps.map Letter.record)[i]? = (ps.map Letter.record)[i + (ps.length - 100)]?

end Cpp.DeadLetterStore

namespace Python.DeadLetterStore

variable {ps : List Letter}

end Python.DeadLetterStore

namespace Cpp.DeadLetterStore.Sample

-- One letter of one topic, and then a hundred letters of another one.
def tradeLetter : Letter :=
  { order with topic := utf8 "trades" }

def letters : List Letter :=
  order :: .replicate 100 tradeLetter

end Cpp.DeadLetterStore.Sample
