import Mathlib.Data.Nat.Notation
import Tyche.Bytes

-- Ids are generated from the name of a module family and six random hexadecimal digits, so they are
-- never empty.
def ModuleId :=
  { id : Bytes // id ≠ [] }
deriving DecidableEq

instance : LawfulBEq Bytes :=
  inferInstance

def hexDigit (n : ℕ) : UInt8 :=
  .ofNat <| if n % 16 < 10 then 48 + n % 16 else 87 + n % 16

def ModuleId.generate (family : Bytes) (suffix : Fin (2 ^ 24)) : ModuleId where
  val := family ++ [95] ++ [5, 4, 3, 2, 1, 0].map fun i => hexDigit (suffix / 16 ^ i)
  property := by simp

inductive InterfacePattern
  | on
  | send
  | handle
  | request
deriving DecidableEq

inductive BackpressureStrategy
  | dropOldest
  | dropNewest
  | blockProducer
deriving DecidableEq

inductive MessageType
  | command
  | event
  | heartbeat
  | register
  | ack
  | response
  | request
deriving DecidableEq

-- Why a job ran out of time.
inductive Reason
  | runTimeout
  | waitTimeout
deriving DecidableEq

def Reason.text : Reason → Bytes
  | .runTimeout  => utf8 "run_timeout"
  | .waitTimeout => utf8 "wait_timeout"
