import Tyche.Bytes

-- Numbers as they lie in memory, with the lowest byte first.
def littleEndian : ℕ → ℕ → Bytes
  | 0, _     => []
  | k + 1, n => .ofNat n :: littleEndian k (n / 256)

def ofLittleEndian : Bytes → ℕ
  | []      => 0
  | b :: bs => b.toNat + 256 * ofLittleEndian bs

variable {k n : ℕ} {bs : Bytes}

theorem length_littleEndian : (littleEndian k n).length = k := by
  induction k generalizing n
  case zero      => rfl
  case succ k hi => rw [littleEndian, List.length_cons, hi]

theorem ofLittleEndian_littleEndian : ofLittleEndian (littleEndian k n) = n % 256 ^ k := by
  induction k generalizing n
  case zero      => rw [littleEndian, ofLittleEndian, Nat.pow_zero, Nat.mod_one]
  case succ k hi =>
    have hb : (UInt8.ofNat n).toNat = n % 256 := UInt8.toNat_ofNat'
    rw [littleEndian, ofLittleEndian, hi, hb, Nat.pow_succ', Nat.mod_mul]

theorem ofLittleEndian_lt : ofLittleEndian bs < 256 ^ bs.length := by
  induction bs
  case nil          => exact Nat.one_pos
  case cons b bs hi =>
    rw [ofLittleEndian, List.length_cons, Nat.pow_succ']
    have hb : b.toNat < 256 := b.toNat_lt
    omega

-- A region of memory, and accesses to it. One that leaves the region has no meaning.
namespace Memory

variable {α : Type*} (mem : List α)

def load (p n : ℕ) : Option (List α) :=
  if p + n ≤ mem.length then some <| (mem.drop p).take n else none

def store (p : ℕ) (xs : List α) : Option (List α) :=
  if p + xs.length ≤ mem.length then some <| mem.take p ++ xs ++ mem.drop (p + xs.length) else none

variable {mem} {mem' as xs cs : List α} {p : ℕ}

-- What is written behind a part of the memory leaves that part and the rest as they are.
theorem store_append (hp : p = as.length) (hx : xs.length ≤ cs.length) :
    store (as ++ cs) p xs = some (as ++ xs ++ cs.drop xs.length) := by
  subst hp
  rw [store, if_pos, List.take_left, List.drop_length_add_append]
  rw [List.length_append]
  omega

theorem store_zero (hx : xs.length ≤ cs.length) :
    store cs 0 xs = some (xs ++ cs.drop xs.length) := by
  rw [store, if_pos, List.take_zero, List.nil_append, Nat.zero_add]
  omega

theorem store_none (hp : p = as.length) (hx : cs.length < xs.length) :
    store (as ++ cs) p xs = none := by
  rw [store, if_neg]
  rw [List.length_append, hp]
  omega

end Memory
