import DSigMatcher.Diff.FunctionTable

namespace DSigMatcher.Diff
open DSigMatcher.Base DSigMatcher.Framework

def cuHeuristic : Text := text "Related compilation unit"

/-- `RowsInRange`. -/
def FunctionTable.rowsInRange (t : FunctionTable) (lo hi : Binary64) : List Nat :=
  (List.range t.rows.length).filter fun r =>
    !(t.row r).addressSqlNull && decide (lo ≤ (t.row r).addressSqlReal) &&
      decide ((t.row r).addressSqlReal ≤ hi)

structure CuReplaySource where
  main : FunctionTable
  diff : FunctionTable
  rows1 : List Nat
  rows2 : List Nat
  outer : Nat := 0
  inner : Nat := 0
  fetched : Nat := 0
  desc : Text

namespace CuReplaySource

def new (main diff : FunctionTable) (lo1 hi1 lo2 hi2 : Binary64) : CuReplaySource where
  main
  diff
  rows1 := main.rowsInRange lo1 hi1
  rows2 := diff.rowsInRange lo2 hi2
  desc := cuHeuristic

/-- A side whose address is a BLOB is not checked. -/
def checkUtf8 (f df : FunctionRow) : Except FetchError Unit :=
  if (!f.address.isBlob && f.selectFieldsUtf8Bad) || (!df.address.isBlob && df.selectFieldsUtf8Bad) then
    .error (Statement.wouldRaise (text "fetch")
      (text "Could not decode to UTF-8 a SELECT_FIELDS column (invalid UTF-8)"))
  else .ok ()

def refuseBlob (cell : Cell) (what : Text) : Except FetchError Unit :=
  if cell.isBlob then .error (Statement.unsupported what) else .ok ()

def readNodes (nodes : IntCell) (name : Text) : Except FetchError (Option Int) :=
  if nodes.isNull then .ok none
  else if nodes.notInteger then
    .error (Statement.unsupported (text "row alias '" ++ name ++
      text "' is not INTEGER or NULL (int() semantics not emulated)"))
  else .ok (some nodes.value)

def readMd (f : FunctionRow) : Option Binary64 := if f.mdSqlNull then none else some f.mdSqlReal

/-- The row of two functions; an address that is NULL is in no range. -/
def fillRow (f df : FunctionRow) (r1 r2 : Nat) (desc : Text) : Except FetchError HeuristicRow := do
  checkUtf8 f df
  refuseBlob f.address (text "row alias 'ea' is not TEXT (input quirk not emulated)")
  refuseBlob df.address (text "row alias 'ea2' is not TEXT (input quirk not emulated)")
  refuseBlob f.name (text "row alias 'name1' is not TEXT or NULL")
  refuseBlob df.name (text "row alias 'name2' is not TEXT or NULL")
  let nodes1 ← readNodes f.nodes (text "nodes1")
  let nodes2 ← readNodes df.nodes (text "nodes2")
  return ⟨f.addrIdOf.getD [],df.addrIdOf.getD [],some r1,some r2,f.nameIdOf,df.nameIdOf,desc,
    nodes1,nodes2,readMd f,readMd df⟩

def fill (s : CuReplaySource) (r1 r2 : Nat) : Except FetchError HeuristicRow :=
  fillRow (s.main.row r1) (s.diff.row r2) r1 r2 s.desc

/-- The inner cursor goes on; at its end it starts again, on the next row of the outer one. -/
def advance (s : CuReplaySource) : CuReplaySource :=
  if s.inner+1 = s.rows2.length then
    { s with fetched := s.fetched+1, inner := 0, outer := s.outer+1 }
  else { s with fetched := s.fetched+1, inner := s.inner+1 }

def next (s : CuReplaySource) : Except FetchError (Option HeuristicRow) × CuReplaySource :=
  if s.rows2 = [] ∨ s.rows1.length ≤ s.outer then (.ok none,s)
  else
    match s.fill (s.rows1.getD s.outer 0) (s.rows2.getD s.inner 0) with
    | .error e => (.error e,s)
    | .ok row => (.ok (some row),s.advance)

end CuReplaySource

/-- `sqlite3_bind_double` binds a NaN as NULL. -/
def bindDouble (x : Binary64) : Option Binary64 := if x.isNaN then none else some x

/-- `x between lo and hi`; a row is selected where this is true, and with a NULL it is not. -/
def sqlBetween : Option Binary64 → Option Binary64 → Option Binary64 → Bool
  | some x, some lo, some hi => decide (lo ≤ x) && decide (x ≤ hi)
  | _, _, _ => false

/-- A column of both functions. -/
def bothSides (name1 name2 column : String) :
    List (Text × (FunctionRecord → FunctionRecord → SqlValue)) :=
  [(text name1,fun f _ => f.other (text column)),(text name2,fun _ df => df.other (text column))]

def realValue : Option Binary64 → SqlValue
  | none => .null
  | some x => .real x

/-- What `kSqlCuCartesian` selects. -/
def cuColumns (sqlite : Sqlite) : List (Text × (FunctionRecord → FunctionRecord → SqlValue)) :=
  [(text "ea",fun f _ => f.address.value),
    (text "name1",fun f _ => f.name.value),
    (text "ea2",fun _ df => df.address.value),
    (text "name2",fun _ df => df.name.value),
    (text "description",fun _ _ => .text cuHeuristic)] ++
  bothSides "pseudo1" "pseudo2" "pseudocode" ++
  bothSides "asm1" "asm2" "assembly" ++
  bothSides "pseudo_primes1" "pseudo_primes2" "pseudocode_primes" ++
  [(text "nodes1",fun f _ => f.nodes),
    (text "nodes2",fun _ df => df.nodes),
    (text "md1",fun f _ => realValue (sqlite.castReal f.mdIndex)),
    (text "md2",fun _ df => realValue (sqlite.castReal df.mdIndex))] ++
  bothSides "clean_assembly1" "clean_assembly2" "clean_assembly" ++
  bothSides "clean_pseudo1" "clean_pseudo2" "clean_pseudo" ++
  bothSides "mangled1" "mangled2" "mangled_function" ++
  bothSides "clean_micro1" "clean_micro2" "clean_microcode" ++
  bothSides "bytes_hash1" "bytes_hash2" "bytes_hash" ++
  bothSides "edges1" "edges2" "edges" ++
  bothSides "indegree1" "indegree2" "indegree" ++
  bothSides "outdegree1" "outdegree2" "outdegree" ++
  bothSides "instructions1" "instructions2" "instructions" ++
  bothSides "cc1" "cc2" "cyclomatic_complexity" ++
  bothSides "strongly_connected1" "strongly_connected2" "strongly_connected" ++
  bothSides "loops1" "loops2" "loops" ++
  bothSides "constants_count1" "constants_count2" "constants_count" ++
  bothSides "size1" "size2" "size" ++
  bothSides "kgh_hash1" "kgh_hash2" "kgh_hash"

def cuCells (sqlite : Sqlite) (f df : FunctionRecord) : List SqlValue :=
  (cuColumns sqlite).map fun column => column.2 f df

/-- The functions whose cast address is in the range. -/
def sqlInRange (sqlite : Sqlite) (lo hi : Binary64) (fs : List FunctionRecord) : List FunctionRecord :=
  fs.filter fun f => sqlBetween (sqlite.castReal f.address.value) (bindDouble lo) (bindDouble hi)

/-- `kSqlCuCartesian` run as two nested loops, over both tables by ascending id. -/
def cuJoin (sqlite : Sqlite) (main diff : List FunctionRecord) (lo1 hi1 lo2 hi2 : Binary64) :
    Statement where
  columnNames := (cuColumns sqlite).map Prod.fst
  steps := (sqlInRange sqlite lo1 hi1 main).flatMap fun f =>
    (sqlInRange sqlite lo2 hi2 diff).map fun df => .row (cuCells sqlite f df)

/-- The kind of an error: its text, unless Python's own text is in it. -/
def FetchError.kind : FetchError → FetchError
  | .diff (.wouldRaise site _) => .diff (.wouldRaise site [])
  | e => e

end DSigMatcher.Diff
