import DSigMatcher.Diff.PreparedColumns
import DSigMatcher.Diff.SqlRows

namespace DSigMatcher.Diff
open DSigMatcher.Base DSigMatcher.Framework

/-- What SQLite makes of a value: `cast(x as real)`, and `sqlite3_column_int64`. -/
structure Sqlite where
  castReal : SqlValue → Option Binary64
  castReal_null : castReal .null = none
  columnInt : SqlValue → Int
  columnInt_integer : ∀ n, columnInt (.integer n) = n

def Cell.value : Cell → SqlValue
  | .null => .null
  | .blob b => .blob b
  | .str t => .text t

/-- The bytes of a cell that is not NULL. -/
def Cell.bytes : Cell → Option Text
  | .null => none
  | .blob b => some b
  | .str t => some t

def Cell.isBlob : Cell → Bool
  | .blob _ => true
  | _ => false

/-- A row of `functions`, with `other` for the columns that only the UTF-8 checks read. -/
structure FunctionRecord where
  address : Cell := .null
  name : Cell := .null
  nodes : SqlValue := .null
  mdIndex : SqlValue := .null
  other : Text → SqlValue := fun _ => .null

/-- The columns besides address, name and nodes that `kColumns` marks with `SelectField`. -/
def otherSelectFields : List Text :=
  (["edges", "indegree", "outdegree", "size", "instructions", "cyclomatic_complexity",
    "mangled_function", "bytes_hash", "pseudocode", "pseudocode_primes", "assembly",
    "strongly_connected", "loops", "clean_assembly", "clean_pseudo", "constants_count", "kgh_hash",
    "clean_microcode"] : List String).map text

def SqlValue.badText : SqlValue → Bool
  | .text t => !isValidUtf8 t
  | _ => false

/-- `SelectBad` of the ingest. -/
def FunctionRecord.selectBad (f : FunctionRecord) : Bool :=
  f.name.value.badText || f.address.value.badText || f.nodes.badText ||
    otherSelectFields.any fun column => (f.other column).badText

/-- A cell of an `IntColumn`. -/
structure IntCell where
  value : Int := 0
  isNull : Bool := true
  notInteger : Bool := false

/-- A row of a `FunctionTable`; `addrIdOf` and `nameIdOf` stand for the texts they intern. -/
structure FunctionRow where
  address : Cell := .null
  name : Cell := .null
  nodes : IntCell := {}
  mdSqlReal : Binary64 := .zero
  mdSqlNull : Bool := true
  addressSqlReal : Binary64 := .zero
  addressSqlNull : Bool := true
  selectFieldsUtf8Bad : Bool := false
  addrIdOf : Option Text := none
  nameIdOf : Option Text := none

structure FunctionTable where
  rows : List FunctionRow

def intCell (sqlite : Sqlite) (v : SqlValue) : IntCell :=
  match v with
  | .null => { value := 0, isNull := true, notInteger := false }
  | .integer _ => { value := sqlite.columnInt v, isNull := false, notInteger := false }
  | .real _ | .text _ | .blob _ =>
    { value := sqlite.columnInt v, isNull := false, notInteger := true }

/-- One round of the loop of `IngestExport`, with the flag of the row. -/
def FunctionRecord.ingest (sqlite : Sqlite) (f : FunctionRecord) (selectBad : Bool) : FunctionRow where
  address := f.address
  name := f.name
  nodes := intCell sqlite f.nodes
  mdSqlReal := (sqlite.castReal f.mdIndex).getD .zero
  mdSqlNull := (sqlite.castReal f.mdIndex).isNone
  addressSqlReal := (sqlite.castReal f.address.value).getD .zero
  addressSqlNull := (sqlite.castReal f.address.value).isNone
  selectFieldsUtf8Bad := selectBad
  addrIdOf := f.address.bytes
  nameIdOf := f.name.bytes

namespace FunctionTable

/-- The table of the functions of a database, by ascending id, with a flag for each. -/
def ofRecords (sqlite : Sqlite) (fs : List (FunctionRecord × Bool)) : FunctionTable where
  rows := fs.map fun f => f.1.ingest sqlite f.2

/-- The flags that the ingest itself finds. -/
def flagged (fs : List FunctionRecord) : List (FunctionRecord × Bool) :=
  fs.map fun f => (f,f.selectBad)

def ingest (sqlite : Sqlite) (fs : List FunctionRecord) : FunctionTable :=
  ofRecords sqlite (flagged fs)

variable (t : FunctionTable)

def row (r : Nat) : FunctionRow := t.rows.getD r {}

/-- `RowByAddr`, where `emplace` keeps the first row of an address. -/
def findRow (ea : Text) : Option Nat := t.rows.findIdx? fun row => row.addrIdOf = some ea

/-- What a row source looks up in the table. -/
def functionRows : FunctionRows where
  findRow := t.findRow
  selectFieldsUtf8Bad r := (t.row r).selectFieldsUtf8Bad

end FunctionTable

/-- No address is there twice; the ingest refuses an export otherwise. -/
def UniqueAddresses (fs : List (FunctionRecord × Bool)) : Prop :=
  (fs.filterMap fun f => f.1.address.bytes).Nodup

end DSigMatcher.Diff
