import Tyche.Floating
import Tyche.Types

namespace Cpp

-- The enumeration has the underlying type `int`, whose values are all decoded.
abbrev DurabilityLevel := BitVec 32

def DurabilityLevel.asyncFlush : DurabilityLevel :=
  1

-- The values of `std::any` that `pack_any` knows, which are more than `unpack_object` makes.
inductive Any
  | empty
  | bool (value : Bool)
  | int (value : BitVec 32)
  | int64 (value : BitVec 64)
  | uint64 (value : BitVec 64)
  | float (value : Floating)
  | double (value : Floating)
  | string (value : Bytes)
  | cstring (value : Bytes)
  | payload (value : List (Bytes × Any))
  | strings (value : List Bytes)
  | anys (value : List Any)

abbrev Payload := List (Bytes × Any)

structure Message where
  msgType       : MessageType := .event
  sender        : Bytes := []
  event         : Bytes := []
  payload       : Payload := []
  recipient     : Option Bytes := none
  durability    : DurabilityLevel := .asyncFlush
  timestamp     : Option Floating := none
  correlationId : Option Bytes := none
  waitTimeout   : Option Floating := none
  runTimeout    : Option Floating := none

namespace Any

-- The casts to `double` and to `int` that a timeout in a payload is tried with.
def toSingle? : Any → Option Floating
  | .double x => some x.toSingle
  | .int i    => some <| .single i.toInt
  | _         => none

-- `std::any_cast<bool>` on all values of a map. The cast throws on any other value.
def bools : Payload → Option (List (Bytes × Bool))
  | []                => some []
  | (k, .bool b) :: m => (bools m).map ((k, b) :: ·)
  | _ :: _            => none

end Any

end Cpp
