import Tyche.JsonLayout
import Tyche.Python.StaticData
import Tyche.Python.Theorems.Json

namespace Python

namespace Value

mutual

-- All strings are texts that can be encoded.
def IsText : Value → Prop
  | .str s   => IsUtf8 s
  | .list l  => IsTextItems l
  | .dict es => IsTextEntries es
  | _        => True

def IsTextItems : List Value → Prop
  | []     => True
  | v :: l => v.IsText ∧ IsTextItems l

def IsTextEntries : List (Key × Value) → Prop
  | []           => True
  | (k, v) :: es => (∀ s, k = .str s → IsUtf8 s) ∧ v.IsText ∧ IsTextEntries es

end

end Value

-- The records of a category, which are values of JSON.
structure DataSet where
  records  : List Value
  decoded  : Value.DecodedItems records
  jsonable : Value.JsonableItems records
  isText   : Value.IsTextItems records

-- The time of a save, as it is written.
abbrev UpdatedAt :=
  { s : Bytes // IsUtf8 s }

namespace StaticDataStorage

def name : Category → Bytes
  | .markets     => utf8 "markets"
  | .products    => utf8 "products"
  | .instruments => utf8 "instruments"
  | .prices      => utf8 "prices"
  | .times       => utf8 "times"

def ofName (category : Bytes) : Option Category :=
  categories.find? (name · = category)

-- The contents of the files that exist.
abbrev Directory :=
  Category → Option Bytes

-- Opening a file for writing empties it. A byte is written when it is in the file.
inductive FileOp
  | openForWriting (c : Category)
  | write (c : Category) (byte : UInt8)

def FileOp.run (dir : Directory) : FileOp → Directory
  | .openForWriting c => Function.update dir c <| some []
  | .write c byte     => Function.update dir c <| (dir c).map (· ++ [byte])

def run (ops : List FileOp) (dir : Directory) : Directory :=
  ops.foldl FileOp.run dir

def record (updatedAt : UpdatedAt) (data : DataSet) : Value :=
  .dict [
    (.str <| utf8 "updated_at", .str updatedAt),
    (.str <| utf8 "count", .int data.records.length),
    (.str <| utf8 "data", .list data.records)]

-- `json.dump` with an indent of two spaces.
def dump (v : Value) : Bytes :=
  (jsonText v).layout 0

def fileOps (c : Category) (text : Bytes) : List FileOp :=
  .openForWriting c :: text.map (.write c)

def save (updatedAt : UpdatedAt) (category : Bytes) (data : DataSet) :
    Except Error (List FileOp) :=
  match ofName category with
  | none   => .error .valueError
  | some c => .ok <| fileOps c <| dump <| record updatedAt data

-- What is done for a category. Each save reads the time.
def saveOps (updatedAt : Category → UpdatedAt) (data : Dict Bytes DataSet) (c : Category) :
    List FileOp :=
  match data.get? (name c) with
  | none      => []
  | some data => fileOps c <| dump <| record (updatedAt c) data

def saveAll (updatedAt : Category → UpdatedAt) (data : Dict Bytes DataSet) : List FileOp :=
  categories.flatMap <| saveOps updatedAt data

-- A text that cannot be decoded and one that is not JSON both are errors of values.
def read (file : Bytes) : Except Error Value :=
  if IsUtf8 file then
    match loads file with
    | some v => .ok v
    | none   => .error .valueError
  else
    .error .valueError

def load (dir : Directory) (category : Bytes) : Except Error (Option Value) :=
  match ofName category with
  | none   => .error .valueError
  | some c =>
    match dir c with
    | none      => .ok none
    | some file => (read file).map some

def loadAll (dir : Directory) : Except Error (List (Category × Option Value)) :=
  categories.mapM fun c => return (c, ← load dir <| name c)

-- What the cache of the module has after its start.
def cached : Option Value → Except Error Value
  | none        => .ok <| .list []
  | some record =>
    if record.truthy then record.get (.str <| utf8 "data") <| .list [] else .ok <| .list []

def loadFromDisk (dir : Directory) : Except Error (List (Category × Value)) := do
  let allData ← loadAll dir
  allData.mapM fun (c, record) => return (c, ← cached record)

end StaticDataStorage

end Python
