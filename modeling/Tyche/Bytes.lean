import Mathlib.Algebra.Order.Floor.Ring
import Mathlib.Data.Int.Log
import Mathlib.Data.List.Infix
import Mathlib.Data.List.Nodup
import Mathlib.Data.List.Perm.Basic
import Mathlib.Data.Rat.Floor
import Mathlib.Tactic.Common

abbrev Bytes := List UInt8

def utf8 (s : String) : Bytes :=
  s.toList.flatMap String.utf8EncodeChar
