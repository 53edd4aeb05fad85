import Mathlib.Logic.Function.Basic
import Tyche.Cpp.Handlers
import Tyche.Interning
import Tyche.Machine

namespace Cpp

open Interning

-- What the registry has of a table is enough to give out identifiers. The vector is for the way back.
structure InternTable extends StringIntern where
  idToString : List Bytes

namespace InternTable

def empty : InternTable where
  toStringIntern := .start
  idToString     := []

def resize (strings : List Bytes) (size : ℕ) : List Bytes :=
  strings.take size ++ .replicate (size - strings.length) []

-- What `intern` does under the exclusive lock.
def insert (t : InternTable) (s : Bytes) : InternTable × InternId :=
  match t.stringToId.get? s with
  | some id => (t, id)
  | none    =>
    let id := t.nextId
    let strings :=
      if id.toNat ≥ t.idToString.length then
        resize t.idToString (id + 1).toNat
      else
        t.idToString
    ({
      stringToId := t.stringToId.set s id
      idToString := strings.set id.toNat s
      nextId     := id + 1 }, id)

def resolve (t : InternTable) (id : InternId) : Bytes :=
  if id.toNat < t.idToString.length then t.idToString.getD id.toNat [] else []

-- A table, the strings that threads are about to insert, and what was answered so far.
structure Shared (ι : Type) where
  table    : InternTable
  inserted : ι → Option Bytes
  log      : List (Interning.Event Bytes InternId)

variable {ι : Type} [DecidableEq ι]

inductive Action (ι : Type)
  | intern (i : ι) (s : Bytes)
  | insert (i : ι)
  | lookup (i : ι) (s : Bytes)
  | resolve (i : ι) (id : InternId)

namespace Shared

def start : Shared ι where
  table      := .empty
  inserted _ := none
  log        := []

def answer (u : Shared ι) (e : Interning.Event Bytes InternId) : Shared ι :=
  { u with log := u.log ++ [e] }

-- Each section under the lock is one step.
def step (u : Shared ι) : Action ι → Option (Shared ι)
  | .intern i s   =>
    if u.inserted i = none then
      match u.table.stringToId.get? s with
      | some id => some <| u.answer <| .interned s id
      | none    => some { u with inserted := Function.update u.inserted i (some s) }
    else
      none
  | .insert i     =>
    (u.inserted i).map fun s =>
      let (table, id) := u.table.insert s
      let u := { u with table := table, inserted := Function.update u.inserted i none }
      u.answer <| .interned s id
  | .lookup i s   =>
    if u.inserted i = none then some <| u.answer <| .looked s (u.table.lookup s) else none
  | .resolve i id =>
    if u.inserted i = none then some <| u.answer <| .resolved id (u.table.resolve id) else none

end Shared

abbrev machine (ι : Type) [DecidableEq ι] : Machine (Shared ι) (Action ι) where
  step := Shared.step

end InternTable

end Cpp
