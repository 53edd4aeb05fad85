import Tyche.Cpp.Frames
import Tyche.Memory
import Tyche.Objects

namespace Cpp.Frames.Frame

-- There is no result if an array is left.
def memcpy? (dst src : Bytes) (n : ℕ) : Option Bytes := do
  let bytes ← Memory.load src 0 n
  Memory.store dst 0 bytes

-- The common body of the copy constructor and the copy assignment. Allocations succeed, and what is
-- allocated is all zeros at first.
def copyFrom (f other : Frame) : Option Frame :=
  if other.size = 0xFF then do
    let heap ← memcpy? (.replicate other.heapLen 0) (← other.heapPtr) other.heapLen
    return { f with size := other.size, heapLen := other.heapLen, heapPtr := some heap }
  else do
    let buf ← memcpy? f.ssoBuf other.ssoBuf other.size.toNat
    return { f with size := other.size, heapLen := other.heapLen, ssoBuf := buf }

-- That of the move constructor and the move assignment. The pointer is null afterwards where it is
-- moved, and else it stays.
def moveFrom (f other : Frame) : Option (Frame × Frame) :=
  if other.size = 0xFF then
    some ({ f with size := other.size, heapLen := other.heapLen, heapPtr := other.heapPtr },
      { other with size := 0, heapLen := 0, heapPtr := none })
  else do
    let buf ← memcpy? f.ssoBuf other.ssoBuf other.size.toNat
    return ({ f with size := other.size, heapLen := other.heapLen, ssoBuf := buf },
      { other with size := 0, heapLen := 0 })

def copyConstruct (other : Frame) : Option Frame :=
  empty.copyFrom other

def moveConstruct (other : Frame) : Option (Frame × Frame) :=
  empty.moveFrom other

def copyAssign (same : Bool) (f other : Frame) : Option Frame :=
  if same then some f else f.copyFrom other

def moveAssign? (same : Bool) (f other : Frame) : Option (Frame × Frame) :=
  if same then some (f, other) else f.moveFrom other

-- The array that `data()` points to, unless that is null.
def data (f : Frame) : Option Bytes :=
  if f.size = 0xFF then f.heapPtr else some f.ssoBuf

-- The result of `size()`.
def byteSize (f : Frame) : ℕ :=
  if f.size = 0xFF then f.heapLen else f.size.toNat

-- As many bytes as there are from `data()` on.
def bytes (f : Frame) : Option Bytes := do
  Memory.load (← f.data) 0 f.byteSize

def equal (f other : Frame) : Option Bool :=
  if f.byteSize ≠ other.byteSize then some false
  else do
    let a ← Memory.load (← f.data) 0 f.byteSize
    let b ← Memory.load (← other.data) 0 f.byteSize
    return a = b

def objects : Objects.Class Frame Bytes where
  construct data := some <| new data
  copyConstruct  := copyConstruct
  moveConstruct  := moveConstruct
  copyAssign     := copyAssign
  moveAssign     := moveAssign?

end Cpp.Frames.Frame
