import DSigMatcher.Diff.CuReplayJoin

namespace DSigMatcher.Diff
open DSigMatcher.Base DSigMatcher.Framework

deriving instance DecidableEq for RowColumns

/-- The columns of the join that are read; the description is checked row by row. -/
def cuRowColumns : RowColumns where
  ea := some 0
  name1 := some 1
  ea2 := some 2
  name2 := some 3
  desc := some 4
  nodes1 := some 11
  nodes2 := some 12
  md1 := some 13
  md2 := some 14
  directUtf8 := [4]

/-- The number that a text starts with, where it has no sign, point or exponent. -/
def digitsNumber (t : Text) : Nat :=
  (t.takeWhile isDigit).foldl (fun n c => 10*n+(c.toNat-48)) 0

/-- An SQLite for texts of digits. -/
def digitsSqlite : Sqlite where
  castReal
    | .null => none
    | .integer n => some (Statement.doubleOf n)
    | .real x => some x
    | .text t | .blob t => some (.ofNat (digitsNumber t))
  castReal_null := rfl
  columnInt
    | .integer n => n
    | .text t | .blob t => digitsNumber t
    | .null | .real _ => 0
  columnInt_integer _ := rfl

theorem rowColumns_names (s : Statement) :
    s.rowColumns = ({ columnNames := s.columnNames } : Statement).rowColumns := rfl

theorem rowColumns_digitsSqlite :
    ({ columnNames := (cuColumns digitsSqlite).map Prod.fst } : Statement).rowColumns = cuRowColumns := by
  decide +kernel

theorem rowColumns_cuJoin (sqlite : Sqlite) (main diff : List FunctionRecord)
    (lo1 hi1 lo2 hi2 : Binary64) :
    (cuJoin sqlite main diff lo1 hi1 lo2 hi2).rowColumns = cuRowColumns := by
  have hnames : (cuColumns sqlite).map Prod.fst = (cuColumns digitsSqlite).map Prod.fst := by
    unfold cuColumns bothSides
    simp only [List.cons_append, List.nil_append, List.map_cons, List.map_nil]
  rw [rowColumns_names, cuJoin, hnames, rowColumns_digitsSqlite]

theorem cuHeuristic_valid : isValidUtf8 cuHeuristic = true := by
  decide +kernel

section
variable (sqlite : Sqlite) (f df : FunctionRecord)

/-- The cells that are read stand in front. -/
theorem cuCells_eq : ∃ others, cuCells sqlite f df =
    [f.address.value, f.name.value, df.address.value, df.name.value, .text cuHeuristic,
      f.other (text "pseudocode"), df.other (text "pseudocode"), f.other (text "assembly"),
      df.other (text "assembly"), f.other (text "pseudocode_primes"),
      df.other (text "pseudocode_primes"), f.nodes, df.nodes,
      realValue (sqlite.castReal f.mdIndex), realValue (sqlite.castReal df.mdIndex)] ++ others := by
  unfold cuCells cuColumns bothSides
  simp only [List.cons_append, List.nil_append, List.map_cons, List.map_nil]
  exact ⟨_, rfl⟩

/-- A statement on the cells of two functions. -/
structure OnCells (s : Statement) : Prop where
  ea : s.cell cuRowColumns.ea = f.address.value
  name1 : s.cell cuRowColumns.name1 = f.name.value
  ea2 : s.cell cuRowColumns.ea2 = df.address.value
  name2 : s.cell cuRowColumns.name2 = df.name.value
  desc : s.cell cuRowColumns.desc = .text cuHeuristic
  nodes1 : s.cell cuRowColumns.nodes1 = f.nodes
  nodes2 : s.cell cuRowColumns.nodes2 = df.nodes
  md1 : s.cell cuRowColumns.md1 = realValue (sqlite.castReal f.mdIndex)
  md2 : s.cell cuRowColumns.md2 = realValue (sqlite.castReal df.mdIndex)

theorem onCells {s : Statement} (h : s.current = cuCells sqlite f df) : OnCells sqlite f df s := by
  obtain ⟨others, hcells⟩ := cuCells_eq sqlite f df
  rw [hcells] at h
  constructor <;>
  · simp only [Statement.cell, cuRowColumns, h]
    rfl

end

section
variable {s : Statement} {column : Option Nat}

/-- An address that is not NULL maps to its text, unless it is a BLOB. -/
theorem mapAddress_eq {cell : Cell} (hcell : s.cell column = cell.value) (hnull : cell ≠ .null)
    (name what : Text) (hwhat : text "row alias '" ++ name ++
      text "' is not TEXT (input quirk not emulated)" = what) :
    s.mapAddress column name =
      CuReplaySource.refuseBlob cell what >>= fun _ => pure (cell.bytes.getD []) := by
  rw [Statement.mapAddress, hcell, CuReplaySource.refuseBlob, ← hwhat]
  cases cell with
  | null => exact absurd rfl hnull
  | blob b => rfl
  | str t => rfl

theorem mapName_eq {cell : Cell} (hcell : s.cell column = cell.value) (name what : Text)
    (hwhat : text "row alias '" ++ name ++ text "' is not TEXT or NULL" = what) :
    s.mapName column name = CuReplaySource.refuseBlob cell what >>= fun _ => pure cell.bytes := by
  rw [Statement.mapName, hcell, CuReplaySource.refuseBlob, ← hwhat]
  cases cell <;> rfl

theorem readNodes_eq (sqlite : Sqlite) {v : SqlValue} (hcell : s.cell column = v) (name : Text) :
    s.readNodes column name = CuReplaySource.readNodes (intCell sqlite v) name := by
  rw [Statement.readNodes, hcell]
  cases v with
  | integer n =>
    rw [intCell, sqlite.columnInt_integer]
    rfl
  | null | real x | text t | blob b => rfl

theorem readMd_eq {sqlite : Sqlite} {f : FunctionRecord}
    (hcell : s.cell column = realValue (sqlite.castReal f.mdIndex)) (name : Text) (bad : Bool) :
    s.readMd column name = pure (CuReplaySource.readMd (f.ingest sqlite bad)) := by
  rw [Statement.readMd, hcell, CuReplaySource.readMd, FunctionRecord.ingest]
  cases sqlite.castReal f.mdIndex <;> rfl

end

end DSigMatcher.Diff
