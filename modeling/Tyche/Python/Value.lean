import Tyche.Bytes
import Tyche.Floating

namespace Python

def IsUtf8 (frame : Bytes) : Prop :=
  (ByteArray.mk frame.toArray).IsValidUTF8

instance {frame : Bytes} : Decidable (IsUtf8 frame) :=
  inferInstanceAs <| Decidable (ByteArray.IsValidUTF8 _)

-- The tables of the engine whose subscripts and deletions raise if a key is missing.
inductive Table
  | pendingJobs
  | unavailableHandlers
deriving DecidableEq

inductive Error
  | typeError
  | attributeError
  | indexError
  | valueError
  | invalidOperation
  | zmqError
  | ioError
  | keyError (table : Option Table)
deriving DecidableEq

-- What a hashable value is to a dictionary. Equal numbers of different types are one key, and a NaN
-- is only found again as the same object.
inductive Key
  | none
  | number (value : ℚ)
  | infinity (negative : Bool)
  | nan (object : ℕ)
  | str (value : Bytes)
  | bytes (value : Bytes)
  | ext (code : ℕ) (data : Bytes)
  | timestamp (seconds : ℤ) (nanoseconds : ℕ)
deriving DecidableEq

-- The values that a message can hold once it is decoded. Strings are given by their UTF-8 form.
inductive Value
  | none
  | bool (value : Bool)
  | int (value : ℤ)
  | float (value : Floating) (object : ℕ)
  | decimal (value : Floating) (object : ℕ)
  | signalingNaN
  | str (value : Bytes)
  | bytes (value : Bytes)
  | ext (code : ℕ) (data : Bytes)
  | timestamp (seconds : ℤ) (nanoseconds : ℕ)
  | list (items : List Value)
  | dict (entries : List (Key × Value))

def Key.ofFloating (object : ℕ) : Floating → Key
  | .fin x   => .number x
  | .inf neg => .infinity neg
  | .nan     => .nan object

-- A number, in the sense in which a decimal can be compared with it.
def Key.IsNumber : Key → Bool
  | .number _ | .infinity _ | .nan _ => true
  | _ => false

namespace Value

def hash : Value → Except Error Key
  | none          => .ok .none
  | bool b        => .ok <| .number b.toNat
  | int i         => .ok <| .number i
  | float x o     => .ok <| .ofFloating o x
  | decimal x o   => .ok <| .ofFloating o x
  | str s         => .ok <| .str s
  | bytes b       => .ok <| .bytes b
  | ext c d       => .ok <| .ext c d
  | timestamp s n => .ok <| .timestamp s n
  | signalingNaN | list _ | dict _ => .error .typeError

def Hashable (v : Value) : Prop :=
  ∃ k, v.hash = .ok k

def truthy : Value → Bool
  | none          => false
  | bool b        => b
  | int i         => i ≠ 0
  | float x _     => x ≠ .fin 0
  | decimal x _   => x ≠ .fin 0
  | str s         => !s.isEmpty
  | bytes b       => !b.isEmpty
  | list l        => !l.isEmpty
  | dict d        => !d.isEmpty
  | signalingNaN | ext _ _ | timestamp _ _ => true

-- The value as the index of a sequence.
def index? : Value → Option ℤ
  | bool b => some b.toNat
  | int i  => some i
  | _      => Option.none

-- `v == item` for a hashable item.
def equals (item : Key) : Value → Except Error Bool
  | signalingNaN => if item.IsNumber then .error .invalidOperation else .ok false
  | v            =>
    match v.hash with
    | .ok k    => .ok (k = item)
    | .error _ => .ok false

def anyEquals (item : Key) : List Value → Except Error Bool
  | []      => .ok false
  | v :: vs => do if ← v.equals item then return true else anyEquals item vs

end Value

-- A value that was found to be hashable.
structure Hashed where
  value   : Value
  key     : Key
  hash_eq : value.hash = .ok key

namespace Value

def hashed (v : Value) : Except Error Hashed :=
  match h : v.hash with
  | .ok k    => .ok ⟨v, k, h⟩
  | .error e => .error e

-- `item in v`
def contains (v : Value) (item : Hashed) : Except Error Bool :=
  match v with
  | dict d  => .ok (d.lookup item.key).isSome
  | list l  => anyEquals item.key l
  | ext c d => anyEquals item.key [int c, bytes d]
  | str s   =>
    match item.value with
    | str t => .ok (t <:+: s)
    | _     => .error .typeError
  | bytes b =>
    match item.value, item.value.index? with
    | bytes t, _ => .ok (t <:+: b)
    | _, some i  => if 0 ≤ i ∧ i < 256 then .ok (.ofInt i ∈ b) else .error .valueError
    | _, _       => .error .typeError
  | _ => .error .typeError

def getIndex (vs : List Value) (item : Value) : Except Error Value :=
  match item.index? with
  | Option.none => .error .typeError
  | some i      =>
    let i := if 0 ≤ i then i else i + vs.length
    match if 0 ≤ i then vs[i.toNat]? else Option.none with
    | some v      => .ok v
    | Option.none => .error .indexError

-- `v[item]`, where `item in v`.
def getItem (v : Value) (item : Hashed) : Except Error Value :=
  match v with
  | dict d  =>
    match d.lookup item.key with
    | some u      => .ok u
    | Option.none => .error <| .keyError Option.none
  | list l  => getIndex l item.value
  | bytes b => getIndex (b.map fun x => int x.toNat) item.value
  | ext c d => getIndex [int c, bytes d] item.value
  | _       => .error .typeError

-- `v.get(key, default)`
def get (v : Value) (key : Key) (default : Value) : Except Error Value :=
  match v with
  | dict d => .ok <| (d.lookup key).getD default
  | _      => .error .attributeError

-- `t > v` for a time `t`.
def exceededBy (t : ℚ) : Value → Except Error Bool
  | bool b    => .ok (b.toNat < t)
  | int i     => .ok (i < t)
  | float x _ => .ok (Floating.ExceededBy t x)
  | decimal .nan _ | signalingNaN => .error .invalidOperation
  | decimal x _ => .ok (Floating.ExceededBy t x)
  | _           => .error .typeError

-- The number that an integer can be compared with.
def number : Value → Except Error Floating
  | bool b    => .ok <| .fin b.toNat
  | int i     => .ok <| .fin i
  | float x _ => .ok x
  | decimal .nan _ | signalingNaN => .error .invalidOperation
  | decimal x _ => .ok x
  | _           => .error .typeError

end Value

end Python
