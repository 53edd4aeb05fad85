import Tyche.Python.Message
import Tyche.Shortest

namespace Python

open Digits

-- Characters that are not in ASCII are not escaped.
def encodeString (s : Bytes) : Bytes :=
  utf8 "\"" ++ s.flatMap JsonText.escape ++ utf8 "\""

def encodeInt (i : ℤ) : Bytes :=
  (if i < 0 then utf8 "-" else []) ++ text i.natAbs

def encodeFloat : Floating → Bytes
  | .nan       => utf8 "NaN"
  | .inf false => utf8 "Infinity"
  | .inf true  => utf8 "-Infinity"
  | x          => x.repr

mutual

-- `json.dumps` without a default for what it does not know. The pairs of extension types are lists
-- to it, the second item of which are bytes. Other keys than strings and bytes are not decoded.
def dumps : Value → Option Bytes
  | .none      => some <| utf8 "null"
  | .bool b    => some <| if b then utf8 "true" else utf8 "false"
  | .int i     => some <| encodeInt i
  | .float x _ => some <| encodeFloat x
  | .str s     => some <| encodeString s
  | .list l    => do return utf8 "[" ++ (← dumpsItems l) ++ utf8 "]"
  | .dict es   => do return utf8 "\x7b" ++ (← dumpsEntries es) ++ utf8 "\x7d"
  | .decimal .. | .signalingNaN | .bytes _ | .ext .. | .timestamp .. => none

def dumpsItems : List Value → Option Bytes
  | []     => some []
  | [v]    => dumps v
  | v :: l => do return (← dumps v) ++ utf8 ", " ++ (← dumpsItems l)

def dumpsEntries : List (Key × Value) → Option Bytes
  | []                => some []
  | [(.str k, v)]     => do return encodeString k ++ utf8 ": " ++ (← dumps v)
  | (.str k, v) :: es =>
    do return encodeString k ++ utf8 ": " ++ (← dumps v) ++ utf8 ", " ++ (← dumpsEntries es)
  | _ :: _            => none

end

-- The words that `json.loads` knows besides those of JSON.
abbrev jsonDialect : JsonText.Dialect where
  words := [utf8 "NaN", utf8 "Infinity", utf8 "-Infinity"]

def ofSpecial (word : Bytes) : Floating :=
  if word = utf8 "NaN" then .nan else .inf (word = utf8 "-Infinity")

mutual

-- Floats are no objects of their own here, not even those that are not numbers.
def ofJson : JsonText.Value → Value
  | .null           => .none
  | .bool b         => .bool b
  | .number true q  => .int ⌊q⌋
  | .number false q => .float (.double q) 0
  | .special w      => .float (ofSpecial w) 0
  | .string s       => .str s
  | .array l        => .list (ofJsonItems l)
  | .object m       => .dict <| dictOf (ofJsonMembers m)

def ofJsonItems : List JsonText.Value → List Value
  | []     => []
  | v :: l => ofJson v :: ofJsonItems l

def ofJsonMembers : List (Bytes × JsonText.Value) → List (Key × Value)
  | []          => []
  | (k, v) :: m => (.str k, ofJson v) :: ofJsonMembers m

end

def loads (s : Bytes) : Option Value :=
  (@JsonText.parse jsonDialect s).map ofJson

example : dumps (.dict [(.str <| utf8 "a", .list [.float (.double <| 1 / 10) 0, .none])]) =
    some (utf8 "\x7b\"a\": [0.1, null]\x7d") := by decide +kernel

end Python
