import Mathlib.Data.Nat.Notation
import Mathlib.Logic.Function.Basic
import Tyche.Machine

namespace Cpp

-- The slots are given by their indices, and the free list by its first one.
structure ObjectPool where
  next      : ℕ → Option ℕ
  freeList  : Option ℕ
  available : BitVec 64

-- The free list begins with the first slot, which an empty pool has not.
def ObjectPool.create (poolSize : BitVec 64) : Option ObjectPool :=
  if poolSize = 0 then
    none
  else
    some {
      next i    := if i + 1 < poolSize.toNat then some (i + 1) else none
      freeList  := some 0
      available := poolSize }

namespace ObjectPool

-- Where a thread is in a call: before which operation, with what it has read so far.
inductive Point
  | idle
  | loadHead
  | loadNext (head : ℕ)
  | exchange (head : ℕ) (next : Option ℕ)
  | fetchSub
  | loadFree (slot : ℕ)
  | storeNext (slot : ℕ) (head : Option ℕ)
  | exchangeFree (slot : ℕ) (head : Option ℕ)
  | fetchAdd
deriving DecidableEq

-- A pool and the threads that use it. A thread holds a slot from when it takes it off the free list
-- until it begins to release it.
structure Users (ι : Type) where
  pool  : ObjectPool
  point : ι → Point
  held  : ι → List ℕ

variable {ι : Type} [DecidableEq ι]

def Users.start (pool : ObjectPool) : Users ι where
  pool    := pool
  point _ := .idle
  held _  := []

-- The weak form of a compare-and-swap may fail spuriously.
inductive Action (ι : Type)
  | acquire (i : ι)
  | release (i : ι) (slot : ℕ)
  | next (i : ι) (spurious : Bool)

namespace Users

def setPoint (u : Users ι) (i : ι) (p : Point) : Users ι :=
  { u with point := Function.update u.point i p }

def setHeld (u : Users ι) (i : ι) (slots : List ℕ) : Users ι :=
  { u with held := Function.update u.held i slots }

-- The head of the loop of `acquire`, whose result is null if there is no slot.
def tryHead (u : Users ι) (i : ι) : Option ℕ → Users ι
  | some head => u.setPoint i <| .loadNext head
  | none      => u.setPoint i .idle

def run (u : Users ι) (i : ι) (spurious : Bool) : Point → Option (Users ι)
  | .idle                   => none
  | .loadHead               => some <| u.tryHead i u.pool.freeList
  | .loadNext head          => some <| u.setPoint i <| .exchange head <| u.pool.next head
  | .exchange head next     =>
    if u.pool.freeList = some head ∧ spurious = false then
      let u := { u with pool := { u.pool with freeList := next } }
      some <| (u.setHeld i <| head :: u.held i).setPoint i .fetchSub
    else
      some <| u.tryHead i u.pool.freeList
  | .fetchSub               =>
    let u := { u with pool := { u.pool with available := u.pool.available - 1 } }
    some <| u.setPoint i .idle
  | .loadFree slot          => some <| u.setPoint i <| .storeNext slot u.pool.freeList
  | .storeNext slot head    =>
    let u := { u with pool := { u.pool with next := Function.update u.pool.next slot head } }
    some <| u.setPoint i <| .exchangeFree slot head
  | .exchangeFree slot head =>
    if u.pool.freeList = head ∧ spurious = false then
      let u := { u with pool := { u.pool with freeList := some slot } }
      some <| u.setPoint i .fetchAdd
    else
      some <| u.setPoint i <| .storeNext slot u.pool.freeList
  | .fetchAdd               =>
    let u := { u with pool := { u.pool with available := u.pool.available + 1 } }
    some <| u.setPoint i .idle

-- A thread releases only what it holds. It does so once, as it does not hold it any longer.
def step (u : Users ι) : Action ι → Option (Users ι)
  | .acquire i       => if u.point i = .idle then some <| u.setPoint i .loadHead else none
  | .release i slot  =>
    if u.point i = .idle ∧ slot ∈ u.held i then
      some <| (u.setHeld i <| (u.held i).erase slot).setPoint i <| .loadFree slot
    else
      none
  | .next i spurious => u.run i spurious (u.point i)

end Users

abbrev machine (ι : Type) [DecidableEq ι] : Machine (Users ι) (Action ι) where
  step := Users.step

end ObjectPool

end Cpp
