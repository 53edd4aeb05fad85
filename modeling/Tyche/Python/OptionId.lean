import Tyche.Decimal

namespace Python

open Digits

def upperChar (c : UInt8) : UInt8 :=
  if 97 ≤ c ∧ c ≤ 122 then c - 32 else c

-- What of the tables of Unicode is used: `str.upper`, and how `float` reads the digits and spaces
-- of other scripts. Both are known for ASCII.
structure Unicode where
  upper         : Bytes → Bytes
  toAscii       : Bytes → Bytes
  upper_ascii   : ∀ s, (∀ c ∈ s, c < 128) → upper s = s.map upperChar
  toAscii_ascii : ∀ s, (∀ c ∈ s, c < 128) → toAscii s = s

-- Strings are given by their UTF-8 form, and places in them are counted in characters.
namespace Str

def IsContinuation (c : UInt8) : Prop :=
  128 ≤ c ∧ c < 192

instance : DecidablePred IsContinuation :=
  fun _ => inferInstanceAs <| Decidable (_ ∧ _)

def length (s : Bytes) : ℕ :=
  s.countP (¬IsContinuation ·)

-- `s[n:]`
def drop : ℕ → Bytes → Bytes
  | 0, s          => s
  | _, []         => []
  | n + 1, _ :: s => drop n (s.dropWhile IsContinuation)

-- `s.rfind(c)` for an ASCII character.
def rfind (c : UInt8) (s : Bytes) : ℤ :=
  match s.reverse.dropWhile (· ≠ c) with
  | []     => -1
  | _ :: t => length t.reverse

def split (c : UInt8) (s : Bytes) : List Bytes :=
  s.splitOn c

end Str

-- `float` of a string.
namespace Float

def IsSpace (c : UInt8) : Prop :=
  c = 32 ∨ 9 ≤ c ∧ c ≤ 13

instance : DecidablePred IsSpace :=
  fun _ => inferInstanceAs <| Decidable (_ ∨ _)

def strip (s : Bytes) : Bytes :=
  ((s.dropWhile IsSpace).reverse.dropWhile IsSpace).reverse

-- Underscores stand between digits only.
def dropUnderscores (prev : UInt8) : Bytes → Option Bytes
  | []     => if prev = 95 then none else some []
  | c :: s =>
    if c = 95 then
      if IsDigit prev then dropUnderscores c s else none
    else if prev = 95 ∧ ¬IsDigit c then
      none
    else
      (dropUnderscores c s).map (c :: ·)

def special (neg : Bool) (s : Bytes) : Option Floating :=
  let s := s.map Decimal.lower
  if s = utf8 "inf" ∨ s = utf8 "infinity" then some <| .inf neg
  else if s = utf8 "nan" then some .nan
  else none

def ofText (s : Bytes) : Option Floating := do
  let s ← dropUnderscores 0 <| strip s
  let (neg, t) := Decimal.readSign s
  match Decimal.readFinite neg t with
  | some d => some <| .double d.value
  | none   => special neg t

end Float

variable (u : Unicode)

def float (s : Bytes) : Option Floating :=
  Float.ofText <| u.toAscii s

namespace GreeksEngine

def normalizeOptionId (instrumentId : Bytes) : Bytes :=
  match Str.split 45 instrumentId with
  | [a, b, c] => a ++ b ++ c
  | _         => instrumentId

-- The strike after the last place of a flag, which is not tried at the beginning of the string.
def strikeAfter (instrumentId : Bytes) (flag : UInt8) : Option Floating :=
  let pos := Str.rfind flag <| u.upper instrumentId
  if 0 < pos then float u <| Str.drop (pos + 1).toNat instrumentId else none

def parseStrike (instrumentId : Bytes) : Option Floating :=
  let parts := Str.split 45 instrumentId
  if 3 ≤ parts.length then
    parts.getLast?.bind (float u)
  else
    (strikeAfter u instrumentId 67).or (strikeAfter u instrumentId 80)

def parseIsCall (instrumentId : Bytes) : Option Bool :=
  let parts := Str.split 45 instrumentId
  if 3 ≤ parts.length then
    let flag := u.upper <| parts.getD (parts.length - 2) []
    if flag = [67] then some true else if flag = [80] then some false else none
  else
    let cPos := Str.rfind 67 <| u.upper instrumentId
    let pPos := Str.rfind 80 <| u.upper instrumentId
    if 0 < cPos ∧ (pPos < 0 ∨ pPos < cPos) then some true
    else if 0 < pPos ∧ (cPos < 0 ∨ cPos < pPos) then some false
    else none

end GreeksEngine

end Python
