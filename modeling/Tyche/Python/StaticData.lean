import Mathlib.Data.Rat.Defs
import Mathlib.Algebra.Order.Ring.Rat
import Tyche.Dict
import Tyche.Threads

namespace Python

open Proc

inductive Category
  | markets
  | products
  | instruments
  | prices
  | times
deriving DecidableEq

def categories : List Category :=
  [.markets, .products, .instruments, .prices, .times]

-- Where a refresh writes to.
inductive Place
  | file (c : Category)
  | cache
deriving DecidableEq

def places : List Place :=
  categories.map .file ++ [.cache]

-- The thread of the periodic refresh, and one for each refresh that is requested.
inductive RefreshThread
  | worker
  | requested (n : ℕ)
  | stopper
  | clock
deriving DecidableEq

inductive RefreshError
  | requestFailed

-- A fetch stands for its data. The fetches are numbered, and the files and the cache of a category
-- have the data of some fetch. `refreshes` is a log: which fetch each thread is writing, and where
-- it has yet to write it.
structure StaticData where
  now         : ℚ
  fetched     : ℕ
  files       : Category → ℕ
  cache       : Category → ℕ
  lastRefresh : Option ℚ
  stopped     : Bool
  refreshes   : Dict RefreshThread (ℕ × List Place)

-- The operations that are atomic: a fetch of all categories, the write of a file, and what is done
-- under the lock of the cache.
inductive RefreshOp : Type → Type
  | isStopped : RefreshOp Bool
  | fetchAll : RefreshOp ℕ
  | save (c : Category) (data : ℕ) : RefreshOp Unit
  | updateCache (data : ℕ) : RefreshOp Unit
  | setLastRefresh : RefreshOp Unit

namespace StaticData

-- What is on the disk has been loaded into the cache.
def start (now : ℚ) : StaticData where
  now         := now
  fetched     := 0
  files _     := 0
  cache _     := 0
  lastRefresh := none
  stopped     := false
  refreshes   := ∅

def refresh (s : StaticData) (i : RefreshThread) : ℕ × List Place :=
  s.refreshes.getD i (0, [])

def setRefresh (s : StaticData) (i : RefreshThread) (r : ℕ × List Place) : StaticData :=
  { s with refreshes := s.refreshes.set i r }

def written (s : StaticData) (i : RefreshThread) : StaticData :=
  s.setRefresh i ((s.refresh i).1, (s.refresh i).2.tail)

def fetch (s : StaticData) (i : RefreshThread) : StaticData :=
  { s.setRefresh i (s.fetched + 1, places) with fetched := s.fetched + 1 }

def save (s : StaticData) (i : RefreshThread) (c : Category) (data : ℕ) : StaticData :=
  { s.written i with files := Function.update s.files c data }

def updateCache (s : StaticData) (i : RefreshThread) (data : ℕ) : StaticData :=
  { s.written i with cache := fun _ => data }

-- `works` tells whether the fetch succeeds.
def exec (i : RefreshThread) (works : Bool) :
    ∀ {β : Type}, RefreshOp β → StaticData → Except RefreshError β × StaticData
  | _, .isStopped, s        => (.ok s.stopped, if s.stopped then s.setRefresh i (0, []) else s)
  | _, .fetchAll, s         =>
    if works then (.ok (s.fetched + 1), s.fetch i) else (.error .requestFailed, s)
  | _, .save c data, s      => (.ok (), s.save i c data)
  | _, .updateCache data, s => (.ok (), s.updateCache i data)
  | _, .setLastRefresh, s   => (.ok (), { s with lastRefresh := some s.now })

end StaticData

abbrev PyRefresh :=
  Proc RefreshOp RefreshError

-- All categories are fetched.
def saveAll (data : ℕ) : PyRefresh Unit :=
  each (fun c => op <| .save c data) categories

def doRefresh : PyRefresh Unit := do
  if ← op .isStopped then
    return ()
  else
    Proc.catching (do
      let data ← op .fetchAll
      if ← op .isStopped then
        return ()
      else
        saveAll data
        op (.updateCache data)
        op .setLastRefresh) fun _ => return ()

inductive RefreshTask
  | refresh
  | stop
  | tick (duration : ℚ)

def StaticData.enter : RefreshThread → RefreshTask → StaticData →
    Option (StaticData × PyRefresh Unit)
  | .worker, .refresh, s      => some (s, doRefresh)
  | .requested _, .refresh, s => some (s, doRefresh)
  | .stopper, .stop, s        => some ({ s with stopped := true }, return ())
  | .clock, .tick duration, s =>
    if 0 ≤ duration then some ({ s with now := s.now + duration }, return ()) else none
  | _, _, _                   => none

def refreshes :
    Threads.System RefreshOp RefreshError StaticData RefreshThread RefreshTask Bool where
  enter            := StaticData.enter
  exec i works o s := some <| StaticData.exec i works o s

end Python
