import Tyche.Msgpack

namespace Msgpack

-- The bytes that a packer writes by its methods. A string's and a container's are those before what
-- it holds.
structure Packer where
  nil      : Bytes
  boolean  : Bool → Bytes
  positive : BitVec 64 → Bytes
  negative : BitVec 64 → Bytes
  double   : Floating → Bytes
  str      : BitVec 32 → Bytes
  array    : BitVec 32 → Bytes
  map      : BitVec 32 → Bytes
  map_ne   : ∀ size, map size ≠ []

namespace Packer

-- The last bytes of a number in the order of the network.
def bigEndian (n : ℕ) : ℕ → Bytes
  | 0     => []
  | k + 1 => .ofNat (n / 256 ^ k) :: bigEndian n k

-- The format with its shortest forms. That of a floating-point number is not described.
def standard (double : Floating → Bytes) : Packer where
  nil := [0xc0]
  boolean b := if b then [0xc3] else [0xc2]
  positive n :=
    if n.toNat < 2 ^ 7 then bigEndian n.toNat 1
    else if n.toNat < 2 ^ 8 then 0xcc :: bigEndian n.toNat 1
    else if n.toNat < 2 ^ 16 then 0xcd :: bigEndian n.toNat 2
    else if n.toNat < 2 ^ 32 then 0xce :: bigEndian n.toNat 4
    else 0xcf :: bigEndian n.toNat 8
  negative i :=
    if -2 ^ 5 ≤ i.toInt then bigEndian i.toNat 1
    else if -2 ^ 7 ≤ i.toInt then 0xd0 :: bigEndian i.toNat 1
    else if -2 ^ 15 ≤ i.toInt then 0xd1 :: bigEndian i.toNat 2
    else if -2 ^ 31 ≤ i.toInt then 0xd2 :: bigEndian i.toNat 4
    else 0xd3 :: bigEndian i.toNat 8
  double := double
  str size :=
    if size.toNat < 2 ^ 5 then bigEndian (0xa0 + size.toNat) 1
    else if size.toNat < 2 ^ 8 then 0xd9 :: bigEndian size.toNat 1
    else if size.toNat < 2 ^ 16 then 0xda :: bigEndian size.toNat 2
    else 0xdb :: bigEndian size.toNat 4
  array size :=
    if size.toNat < 2 ^ 4 then bigEndian (0x90 + size.toNat) 1
    else if size.toNat < 2 ^ 16 then 0xdc :: bigEndian size.toNat 2
    else 0xdd :: bigEndian size.toNat 4
  map size :=
    if size.toNat < 2 ^ 4 then bigEndian (0x80 + size.toNat) 1
    else if size.toNat < 2 ^ 16 then 0xde :: bigEndian size.toNat 2
    else 0xdf :: bigEndian size.toNat 4
  map_ne size := by
    split_ifs <;> nofun

variable (p : Packer)

-- Strings are limited by the 32 bits of their size.
def token : Token → Option Bytes
  | .nil        => some p.nil
  | .bool b     => some (p.boolean b)
  | .uint n     => some (p.positive n)
  | .int i      => some (p.negative i)
  | .float x    => some (p.double x)
  | .str s      => if s.length < 2 ^ 32 then some (p.str (.ofNat 32 s.length) ++ s) else none
  | .array size => some (p.array size)
  | .map size   => some (p.map size)
  | _           => none

def tokens : List Token → Option Bytes
  | []      => some []
  | t :: ts => do
    let b ← p.token t
    let bs ← tokens ts
    return b ++ bs

variable {p} {ts ts' : List Token} {size : BitVec 32} {bytes : Bytes}

theorem tokens_append : p.tokens (ts ++ ts') = do
    let bs ← p.tokens ts
    let bs' ← p.tokens ts'
    return bs ++ bs' := by
  induction ts
  case nil          => cases h : p.tokens ts' <;> simp [tokens, h]
  case cons t ts hi =>
    rw [List.cons_append, tokens, tokens, hi]
    cases p.token t <;> cases p.tokens ts <;> cases p.tokens ts' <;> simp

-- What begins with a map is not empty.
theorem tokens_map_pos (h : p.tokens (.map size :: ts) = some bytes) : 0 < bytes.length := by
  rw [tokens, token] at h
  cases hs : p.tokens ts <;> rw [hs] at h <;> cases h
  have hp : 0 < (p.map size).length := List.length_pos_of_ne_nil (p.map_ne size)
  rw [List.length_append]
  omega

end Packer

end Msgpack
