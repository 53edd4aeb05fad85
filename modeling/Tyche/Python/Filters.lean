import Tyche.Dict
import Tyche.Python.Json

namespace Python

-- What texts of objects depend on besides their values: the sign of a zero, the characters of a
-- string that can be printed, and the texts of what is no value of JSON.
structure Printing where
  isNegative : ℕ → Bool
  repr       : Bytes → Bytes
  other      : Value → Bytes
  otherKey   : Key → Bytes

namespace Value

mutual

-- `v is w or v == w`. Two lists and two dictionaries are compared by what is in them, and a signaling
-- NaN, which raises an exception, is equal to nothing.
def same : Value → Value → Bool
  | .list l, .list l'   => sameItems l l'
  | .dict es, .dict es' => es.length = es'.length && sameEntries es es'
  | v, w                =>
    match v.hash, w.hash with
    | .ok k, .ok k' => k = k'
    | _, _          => false

def sameItems : List Value → List Value → Bool
  | [], []         => true
  | v :: l, w :: m => v.same w && sameItems l m
  | _, _           => false

def sameEntries : List (Key × Value) → List (Key × Value) → Bool
  | [], _             => true
  | (k, v) :: es, es' =>
    match es'.lookup k with
    | some w      => v.same w && sameEntries es es'
    | Option.none => false

end

variable (p : Printing)

def reprKey : Key → Bytes
  | .str s => p.repr s
  | k      => p.otherKey k

mutual

-- `repr(v)`
def repr : Value → Bytes
  | .none      => utf8 "None"
  | .bool b    => if b then utf8 "True" else utf8 "False"
  | .int i     => encodeInt i
  | .float x o => (if x = .fin 0 ∧ p.isNegative o then utf8 "-" else []) ++ x.repr
  | .str s     => p.repr s
  | .list l    => utf8 "[" ++ reprItems l ++ utf8 "]"
  | .dict es   => utf8 "\x7b" ++ reprEntries es ++ utf8 "\x7d"
  | v          => p.other v

def reprItems : List Value → Bytes
  | []     => []
  | [v]    => v.repr
  | v :: l => v.repr ++ utf8 ", " ++ reprItems l

def reprEntries : List (Key × Value) → Bytes
  | []           => []
  | [(k, v)]     => reprKey p k ++ utf8 ": " ++ v.repr
  | (k, v) :: es => reprKey p k ++ utf8 ": " ++ v.repr ++ utf8 ", " ++ reprEntries es

end

-- `str(v)`
def text : Value → Bytes
  | .str s => s
  | v      => v.repr p

end Value

namespace StaticDataModule

abbrev Record :=
  Dict Bytes Value

abbrev Filters :=
  Dict Bytes Value

variable (p : Printing)

-- The keys of a payload and the fields that they filter.
def keyMap : List (Bytes × Bytes) := [
  (utf8 "exchange_id",     utf8 "ExchangeID"),
  (utf8 "product_id",      utf8 "ProductID"),
  (utf8 "instrument_id",   utf8 "InstrumentID"),
  (utf8 "product_class",   utf8 "ProductClass"),
  (utf8 "inst_life_phase", utf8 "InstLifePhase"),
  (utf8 "area",            utf8 "Area")]

-- `value is not None and value != ""`
def isGiven : Value → Bool
  | .none  => false
  | .str s => !s.isEmpty
  | _      => true

def buildFilters (payload : List (Key × Value)) (fieldNames : List Bytes) : Filters :=
  keyMap.foldl (fun filters e =>
    match payload.lookup (.str e.1) with
    | some value => if e.2 ∈ fieldNames ∧ isGiven value then filters.set e.2 value else filters
    | none       => filters) ∅

-- Whether the value of a field passes a filter.
def accepts (value itemValue : Value) : Bool :=
  match value with
  | .list l => l.any itemValue.same
  | value   => itemValue.text p = value.text p

def isMatch (item : Record) : List (Bytes × Value) → Bool
  | []                        => true
  | (field, value) :: filters =>
    match item.getD field .none with
    | .none     => false
    | itemValue => if accepts p value itemValue then isMatch item filters else false

def applyFilters (data : List Record) (filters : Filters) : List Record :=
  if filters.entries.isEmpty then data
  else
    data.foldl (fun result item =>
      if isMatch p item filters.entries then result ++ [item] else result) []

-- A query of the cached records of a category.
def query (fieldNames : List Bytes) (data : List Record) (payload : List (Key × Value)) :
    List Record :=
  applyFilters p data <| buildFilters payload fieldNames

def handleQueryMarkets :=
  query p [utf8 "ExchangeID", utf8 "Area"]

def handleQueryProducts :=
  query p [utf8 "ExchangeID", utf8 "ProductID", utf8 "ProductClass"]

def handleQueryInstruments :=
  query p [utf8 "ExchangeID", utf8 "ProductID", utf8 "InstrumentID", utf8 "ProductClass",
    utf8 "InstLifePhase"]

def handleQueryPrices :=
  query p [utf8 "ExchangeID", utf8 "ProductID", utf8 "InstrumentID"]

def handleQueryTimes :=
  query p [utf8 "ExchangeID", utf8 "ProductID"]

end StaticDataModule

end Python
