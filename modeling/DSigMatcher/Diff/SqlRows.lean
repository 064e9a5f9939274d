import DSigMatcher.Diff.Ingest
import DSigMatcher.Diff.PyInt
import DSigMatcher.Framework.FloatOps

namespace DSigMatcher.Diff
open DSigMatcher.Base DSigMatcher.Framework

/-- How fetching a row ends early. -/
inductive FetchError
  | diff (e : DiffError)
  | ioFailure (what : Text)
  deriving DecidableEq

inductive SqlValue
  | null
  | integer (n : Int)
  | real (x : Binary64)
  | text (t : Text)
  | blob (b : Text)
  deriving DecidableEq

/-- A failure of SQLite: its extended code, `sqlite3_errstr` and `sqlite3_errmsg`. -/
structure SqlFailure where
  code : Nat
  name : Text
  message : Text

/-- `IsEnvironmentalSqliteError`: full, I/O error, cannot open, no memory, corrupt, not a database,
busy, locked, read-only, permission, authorization, protocol, interrupted. -/
def isEnvironmentalSqliteError (extendedCode : Nat) : Bool :=
  extendedCode%256 ∈ [13, 10, 14, 7, 11, 26, 5, 6, 8, 3, 23, 15, 9]

def throwSqlError (failure : SqlFailure) (site : Text) : FetchError :=
  if isEnvironmentalSqliteError failure.code then
    .ioFailure (text "SQLite failed (" ++ failure.name ++ text ", code " ++ decimal failure.code ++
      text ") at " ++ site ++ text ": " ++ failure.message ++
      text "; this is an environment failure (disk, temporary directory, memory, " ++
      text "lock or a damaged database file), not a Diaphora result")
  else .diff (.wouldRaise site failure.message)

inductive SqlStep
  | row (cells : List SqlValue)
  | failed (failure : SqlFailure)

/-- A prepared statement: its columns, the row it is on and what its next steps give; `shown` is
`sqlite3_column_text` of a number. -/
structure Statement where
  columnNames : List Text := []
  shown : SqlValue → Text := fun _ => []
  current : List SqlValue := []
  steps : List SqlStep := []

def lowerAscii (c : UInt8) : UInt8 := if 65 ≤ c ∧ c ≤ 90 then c+32 else c

def equalsIgnoreCaseAscii (a b : Text) : Bool := a.map lowerAscii = b.map lowerAscii

namespace Statement

def step (s : Statement) : Except FetchError Bool × Statement :=
  match s.steps with
  | [] => (.ok false,s)
  | .row cells::steps => (.ok true,{ s with current := cells, steps })
  | .failed failure::steps => (.error (throwSqlError failure (text "sqlite3_step")),{ s with steps })

def findColumn (s : Statement) (name : Text) : Option Nat :=
  s.columnNames.findIdx? fun column => equalsIgnoreCaseAscii column name

/-- The value in a column; a column that was not found reads as NULL. -/
def cell (s : Statement) (column : Option Nat) : SqlValue :=
  match column with
  | none => .null
  | some c => s.current.getD c .null

def textAt (s : Statement) (column : Option Nat) : Text :=
  match s.cell column with
  | .null => []
  | .text t => t
  | .blob b => b
  | value => s.shown value

end Statement

/-- What a row source reads of a `FunctionTable`. -/
structure FunctionRows where
  findRow : Text → Option Nat
  selectFieldsUtf8Bad : Nat → Bool

/-- A fetched row; its ids stand for the texts they intern. -/
structure HeuristicRow where
  ea1 : Text
  ea2 : Text
  row1 : Option Nat
  row2 : Option Nat
  name1 : Option Text
  name2 : Option Text
  desc : Text
  nodes1 : Option Int
  nodes2 : Option Int
  md1 : Option Binary64
  md2 : Option Binary64
  deriving DecidableEq

/-- Aliases whose source column `SelectFieldsUtf8Bad` covers. -/
def selectFields : List Text :=
  (["ea", "name1", "pseudo1", "asm1", "pseudo_primes1", "nodes1", "md1", "clean_assembly1",
    "clean_pseudo1", "mangled1", "clean_micro1", "bytes_hash1", "edges1", "indegree1", "outdegree1",
    "instructions1", "cc1", "strongly_connected1", "loops1", "constants_count1", "size1",
    "kgh_hash1", "ea2", "name2", "pseudo2", "asm2", "pseudo_primes2", "nodes2", "md2",
    "clean_assembly2", "clean_pseudo2", "mangled2", "clean_micro2", "bytes_hash2", "edges2",
    "indegree2", "outdegree2", "instructions2", "cc2", "strongly_connected2", "loops2",
    "constants_count2", "size2", "kgh_hash2"] : List String).map text

def coveredBySelectFields (name : Text) : Bool := selectFields.any (equalsIgnoreCaseAscii name)

/-- Where the columns of a row are. -/
structure RowColumns where
  ea : Option Nat := none
  name1 : Option Nat := none
  ea2 : Option Nat := none
  name2 : Option Nat := none
  desc : Option Nat := none
  nodes1 : Option Nat := none
  nodes2 : Option Nat := none
  md1 : Option Nat := none
  md2 : Option Nat := none
  directUtf8 : List Nat := []

/-- The columns a statement has; those that no table vouches for are checked row by row. -/
def Statement.rowColumns (s : Statement) : RowColumns where
  ea := s.findColumn (text "ea")
  name1 := s.findColumn (text "name1")
  ea2 := s.findColumn (text "ea2")
  name2 := s.findColumn (text "name2")
  desc := s.findColumn (text "description")
  nodes1 := s.findColumn (text "nodes1")
  nodes2 := s.findColumn (text "nodes2")
  md1 := s.findColumn (text "md1")
  md2 := s.findColumn (text "md2")
  directUtf8 := (List.range s.columnNames.length).filter fun column =>
    !coveredBySelectFields (s.columnNames.getD column [])

def RowColumns.complete (c : RowColumns) : Bool :=
  c.ea.isSome && c.ea2.isSome && c.name1.isSome && c.name2.isSome && c.desc.isSome

namespace Statement

def unsupported (what : Text) : FetchError := .diff (.unsupportedInput what)

def wouldRaise (site detail : Text) : FetchError := .diff (.wouldRaise site detail)

def mapAddress (s : Statement) (column : Option Nat) (name : Text) : Except FetchError Text :=
  match s.cell column with
  | .text t => .ok t
  | .null => .error (unsupported (text "row alias '" ++ name ++ text "' is NULL (input quirk not emulated)"))
  | _ => .error (unsupported (text "row alias '" ++ name ++ text "' is not TEXT (input quirk not emulated)"))

def mapName (s : Statement) (column : Option Nat) (name : Text) : Except FetchError (Option Text) :=
  match s.cell column with
  | .null => .ok none
  | .text t => .ok (some t)
  | _ => .error (unsupported (text "row alias '" ++ name ++ text "' is not TEXT or NULL"))

def readDesc (s : Statement) (column : Option Nat) : Except FetchError Text :=
  match s.cell column with
  | .text t => .ok t
  | _ => .error (unsupported (text "row alias 'description' is not TEXT"))

def readNodes (s : Statement) (column : Option Nat) (name : Text) : Except FetchError (Option Int) :=
  match s.cell column with
  | .null => .ok none
  | .integer n => .ok (some n)
  | _ => .error (unsupported (text "row alias '" ++ name ++
      text "' is not INTEGER or NULL (int() semantics not emulated)"))

/-- `static_cast<double>` of a signed integer. -/
def doubleOf (n : Int) : Binary64 :=
  Binary64.ofMagnitude (n < 0) (Binary64.ratioMagnitude n.natAbs 1)

def readMd (s : Statement) (column : Option Nat) (name : Text) : Except FetchError (Option Binary64) :=
  match s.cell column with
  | .null => .ok none
  | .real x => .ok (some x)
  | .integer n => .ok (some (doubleOf n))
  | _ => .error (unsupported (text "row alias '" ++ name ++ text "' is not REAL or NULL"))

/-- The table row of an address. -/
def tableRow (s : Statement) (rows : FunctionRows) (column : Option Nat) : Option Nat :=
  match s.cell column with
  | .text t => rows.findRow t
  | _ => none

/-- A TEXT value that is no UTF-8. -/
def badText (s : Statement) (column : Nat) : Bool :=
  match s.cell (some column) with
  | .text t => !isValidUtf8 t
  | _ => false

def checkUtf8 (s : Statement) (main diff : FunctionRows) (c : RowColumns) : Except FetchError Unit :=
  let row := text " of the row ea " ++ s.textAt c.ea ++ text ", ea2 " ++ s.textAt c.ea2
  if (s.tableRow main c.ea).any main.selectFieldsUtf8Bad ∨
      (s.tableRow diff c.ea2).any diff.selectFieldsUtf8Bad then
    .error (wouldRaise (text "fetch")
      (text "Could not decode to UTF-8 a SELECT_FIELDS column (invalid UTF-8)" ++ row))
  else
    match c.directUtf8.find? s.badText with
    | some column => .error (wouldRaise (text "fetch")
        (text "Could not decode to UTF-8 column '" ++ s.columnNames.getD column [] ++ text "'" ++ row))
    | none => .ok ()

/-- The conversion of the row the statement is on. -/
def convertRow (s : Statement) (main diff : FunctionRows) (c : RowColumns) :
    Except FetchError HeuristicRow := do
  s.checkUtf8 main diff c
  let ea1 ← s.mapAddress c.ea (text "ea")
  let ea2 ← s.mapAddress c.ea2 (text "ea2")
  let name1 ← s.mapName c.name1 (text "name1")
  let name2 ← s.mapName c.name2 (text "name2")
  let desc ← s.readDesc c.desc
  let nodes1 ← s.readNodes c.nodes1 (text "nodes1")
  let nodes2 ← s.readNodes c.nodes2 (text "nodes2")
  let md1 ← s.readMd c.md1 (text "md1")
  let md2 ← s.readMd c.md2 (text "md2")
  return ⟨ea1,ea2,s.tableRow main c.ea,s.tableRow diff c.ea2,name1,name2,desc,nodes1,nodes2,md1,md2⟩

end Statement

/-- `SqlRowSource`; `prepared` is what `Prepare` gives for its SQL. -/
structure SqlRowSource where
  main : FunctionRows
  diff : FunctionRows
  prepared : Except FetchError Statement
  stmt : Statement := {}
  columns : RowColumns := {}
  started : Bool := false
  done : Bool := false
  fetched : Nat := 0

namespace SqlRowSource

def start (s : SqlRowSource) : Except FetchError Unit × SqlRowSource :=
  match s.prepared with
  | .error e => (.error e,{ s with started := true })
  | .ok stmt =>
    let s := { s with started := true, stmt, columns := stmt.rowColumns }
    if s.columns.complete then (.ok (),s)
    else (.error (Statement.unsupported
      (text "SqlRowSource: the query does not select SELECT_FIELDS (ea, name1, ea2, name2, " ++
        text "description)")),s)

/-- `Next` once the statement has started: a step, then the conversion. -/
def fetchRow (s : SqlRowSource) : Except FetchError (Option HeuristicRow) × SqlRowSource :=
  if s.done then (.ok none,s)
  else
    match s.stmt.step with
    | (.error e,stmt) => (.error e,{ s with stmt })
    | (.ok false,stmt) => (.ok none,{ s with stmt, done := true })
    | (.ok true,stmt) =>
      ((stmt.convertRow s.main s.diff s.columns).map some,{ s with stmt, fetched := s.fetched+1 })

def next (s : SqlRowSource) : Except FetchError (Option HeuristicRow) × SqlRowSource :=
  if s.started then s.fetchRow
  else
    match s.start with
    | (.error e,s) => (.error e,s)
    | (.ok (),s) => s.fetchRow

end SqlRowSource

end DSigMatcher.Diff
