import DSigMatcher.Diff.CuReplayRows
import DSigMatcher.Framework.Fallible

namespace DSigMatcher.Diff
open DSigMatcher.Base DSigMatcher.Framework

/-- A function is at a row of its table, and its address leads there. -/
structure FunctionTable.Has (t : FunctionTable) (sqlite : Sqlite) (f : FunctionRecord) (bad : Bool)
    (r : Nat) : Prop where
  row : t.row r = f.ingest sqlite bad
  found : ∀ ea, f.address.bytes = some ea → t.findRow ea = some r

section
variable {sqlite : Sqlite} {f : FunctionRecord} {bad : Bool} {t : FunctionTable} {r : Nat}
  {s : Statement} {column : Option Nat}

theorem FunctionTable.Has.tableRow (h : t.Has sqlite f bad r) (hcell : s.cell column = f.address.value)
    (hnull : f.address ≠ .null) :
    s.tableRow t.functionRows column = if f.address.isBlob then none else some r := by
  rw [Statement.tableRow, hcell]
  cases haddress : f.address with
  | null => exact absurd haddress hnull
  | blob b => rfl
  | str ea => exact h.found ea (haddress ▸ rfl)

theorem FunctionTable.Has.flag (h : t.Has sqlite f bad r) (hcell : s.cell column = f.address.value)
    (hnull : f.address ≠ .null) :
    (s.tableRow t.functionRows column).any t.functionRows.selectFieldsUtf8Bad =
      (!(t.row r).address.isBlob && (t.row r).selectFieldsUtf8Bad) := by
  rw [h.tableRow hcell hnull, h.row]
  cases hblob : f.address.isBlob with
  | true =>
    simp only [FunctionRecord.ingest, hblob]
    rfl
  | false =>
    simp only [FunctionRecord.ingest, hblob]
    exact congrArg FunctionRow.selectFieldsUtf8Bad h.row

end

section
variable {sqlite : Sqlite} {f df : FunctionRecord} {bad1 bad2 : Bool} {main diff : FunctionTable}
  {r1 r2 : Nat} {s : Statement}

theorem checkUtf8_kind (hs : OnCells sqlite f df s) (hmain : main.Has sqlite f bad1 r1)
    (hdiff : diff.Has sqlite df bad2 r2) (hnull1 : f.address ≠ .null) (hnull2 : df.address ≠ .null) :
    (s.checkUtf8 main.functionRows diff.functionRows cuRowColumns).mapError FetchError.kind =
      (CuReplaySource.checkUtf8 (main.row r1) (diff.row r2)).mapError FetchError.kind := by
  have hdesc : cuRowColumns.directUtf8.find? s.badText = none := by
    refine List.find?_eq_none.mpr fun column hcolumn => ?_
    have hcell : s.cell column = .text cuHeuristic := by
      rw [List.mem_singleton.mp hcolumn]
      exact hs.desc
    rw [Statement.badText, hcell]
    simp only [cuHeuristic_valid]
    decide
  simp only [Statement.checkUtf8, CuReplaySource.checkUtf8, hdesc]
  rw [hmain.flag hs.ea hnull1, hdiff.flag hs.ea2 hnull2]
  generalize (!(main.row r1).address.isBlob && (main.row r1).selectFieldsUtf8Bad) = first
  generalize (!(diff.row r2).address.isBlob && (diff.row r2).selectFieldsUtf8Bad) = second
  cases first <;> cases second <;> rfl

/-- Both sources make the same of a pair of functions, up to the text of Python's error. -/
theorem convertRow_kind (hs : OnCells sqlite f df s) (hmain : main.Has sqlite f bad1 r1)
    (hdiff : diff.Has sqlite df bad2 r2) (hnull1 : f.address ≠ .null) (hnull2 : df.address ≠ .null) :
    (s.convertRow main.functionRows diff.functionRows cuRowColumns).mapError FetchError.kind =
      (CuReplaySource.fillRow (main.row r1) (diff.row r2) r1 r2 cuHeuristic).mapError
        FetchError.kind := by
  have hea : s.mapAddress cuRowColumns.ea (text "ea") = _ := mapAddress_eq hs.ea hnull1 _
    (text "row alias 'ea' is not TEXT (input quirk not emulated)") (by decide +kernel)
  have hea2 : s.mapAddress cuRowColumns.ea2 (text "ea2") = _ := mapAddress_eq hs.ea2 hnull2 _
    (text "row alias 'ea2' is not TEXT (input quirk not emulated)") (by decide +kernel)
  have hname1 : s.mapName cuRowColumns.name1 (text "name1") = _ := mapName_eq hs.name1 _
    (text "row alias 'name1' is not TEXT or NULL") (by decide +kernel)
  have hname2 : s.mapName cuRowColumns.name2 (text "name2") = _ := mapName_eq hs.name2 _
    (text "row alias 'name2' is not TEXT or NULL") (by decide +kernel)
  have hdesc : s.readDesc cuRowColumns.desc = pure cuHeuristic := by
    rw [Statement.readDesc, hs.desc]
    rfl
  have hnodes1 : s.readNodes cuRowColumns.nodes1 (text "nodes1") = _ :=
    readNodes_eq sqlite hs.nodes1 _
  have hnodes2 : s.readNodes cuRowColumns.nodes2 (text "nodes2") = _ :=
    readNodes_eq sqlite hs.nodes2 _
  have hmd1 : s.readMd cuRowColumns.md1 (text "md1") = _ := readMd_eq hs.md1 _ bad1
  have hmd2 : s.readMd cuRowColumns.md2 (text "md2") = _ := readMd_eq hs.md2 _ bad2
  rw [Statement.convertRow, CuReplaySource.fillRow, hea, hea2, hname1, hname2, hdesc, hnodes1,
    hnodes2, hmd1, hmd2]
  simp only [bind_assoc, pure_bind]
  refine (mapError_bind_congr (checkUtf8_kind hs hmain hdiff hnull1 hnull2) _).trans ?_
  rw [hmain.tableRow hs.ea hnull1, hdiff.tableRow hs.ea2 hnull2, hmain.row, hdiff.row]
  simp only [FunctionRecord.ingest]
  have hrefused {cell : Cell} (hblob : cell.isBlob = true) (what : Text) :
      CuReplaySource.refuseBlob cell what = .error (Statement.unsupported what) := if_pos hblob
  by_cases hblob1 : f.address.isBlob = true
  · rw [hrefused hblob1]
    rfl
  · rw [if_neg hblob1]
    by_cases hblob2 : df.address.isBlob = true
    · rw [hrefused hblob2]
      rfl
    · rw [if_neg hblob2]

end

section
variable {sqlite : Sqlite} {fs : List (FunctionRecord × Bool)} {lo hi : Binary64}

theorem sqlBetween_bind (x : Option Binary64) (lo hi : Binary64) :
    sqlBetween x (bindDouble lo) (bindDouble hi) =
      (!x.isNone && decide (lo ≤ x.getD .zero) && decide (x.getD .zero ≤ hi)) := by
  have hlow {y : Binary64} (hnan : lo.isNaN = true) : ¬ lo ≤ y := fun hle => by
    rw [hle.1] at hnan
    cases hnan
  have hhigh {y : Binary64} (hnan : hi.isNaN = true) : ¬ y ≤ hi := fun hle => by
    rw [hle.2.1] at hnan
    cases hnan
  unfold bindDouble
  cases x with
  | none => rfl
  | some x =>
    split_ifs with hlo hhi hhi
    · simp [sqlBetween, hlow hlo]
    · simp [sqlBetween, hlow hlo]
    · simp [sqlBetween, hhigh hhi]
    · rfl

theorem row_ofRecords {r : Nat} (hr : r < fs.length) :
    (FunctionTable.ofRecords sqlite fs).row r = fs[r].1.ingest sqlite fs[r].2 := by
  rw [FunctionTable.row, FunctionTable.ofRecords, List.getD_eq_getElem _ _ (by rwa [List.length_map]),
    List.getElem_map]

theorem length_ofRecords : (FunctionTable.ofRecords sqlite fs).rows.length = fs.length :=
  List.length_map _

/-- An address that is there once leads to its row. -/
theorem ofRecords_has (h : UniqueAddresses fs) {r : Nat} (hr : r < fs.length) :
    (FunctionTable.ofRecords sqlite fs).Has sqlite fs[r].1 fs[r].2 r := by
  refine ⟨row_ofRecords hr, fun ea hea => ?_⟩
  rw [UniqueAddresses, List.Nodup, List.pairwise_filterMap, List.pairwise_iff_getElem] at h
  rw [FunctionTable.findRow, List.findIdx?_eq_some_iff_getElem]
  refine ⟨by rwa [length_ofRecords], ?_, fun j hj => ?_⟩
  · simp only [FunctionTable.ofRecords, List.getElem_map, FunctionRecord.ingest]
    exact decide_eq_true hea
  · simp only [FunctionTable.ofRecords, List.getElem_map, FunctionRecord.ingest, decide_eq_true_eq]
    intro hsame
    exact h j r (hj.trans hr) hr hj ea hsame ea hea rfl

/-- The rows in range are the functions that the join selects. -/
theorem sqlInRange_eq : sqlInRange sqlite lo hi (fs.map Prod.fst) =
    ((FunctionTable.ofRecords sqlite fs).rowsInRange lo hi).map fun r => (fs.getD r ({},false)).1 := by
  have hall : fs.map Prod.fst = (List.range fs.length).map fun r => (fs.getD r ({},false)).1 := by
    refine List.ext_getElem (by simp) fun r hr _ => ?_
    rw [List.length_map] at hr
    simp [hr]
  rw [sqlInRange, hall, List.filter_map, FunctionTable.rowsInRange, length_ofRecords]
  refine congrArg _ (List.filter_congr fun r hr => ?_)
  rw [List.mem_range] at hr
  rw [Function.comp_apply, sqlBetween_bind, row_ofRecords hr, List.getD_eq_getElem _ _ hr]
  rfl

/-- What is in a range has an address. -/
theorem rowsInRange_spec {r : Nat}
    (h : r ∈ (FunctionTable.ofRecords sqlite fs).rowsInRange lo hi) :
    ∃ hr : r < fs.length, fs[r].1.address ≠ .null := by
  rw [FunctionTable.rowsInRange, List.mem_filter, List.mem_range, length_ofRecords] at h
  obtain ⟨hr, hrange⟩ := h
  refine ⟨hr, fun hnull => ?_⟩
  rw [row_ofRecords hr] at hrange
  simp [FunctionRecord.ingest, hnull, Cell.value, sqlite.castReal_null] at hrange

end

theorem loopPairs_sorted {rows1 rows2 : List Nat} (h1 : rows1.Pairwise (· < ·))
    (h2 : rows2.Pairwise (· < ·)) : (loopPairs rows1 rows2).Pairwise fun p q =>
      p.1 < q.1 ∨ p.1 = q.1 ∧ p.2 < q.2 := by
  rw [loopPairs, List.pairwise_flatMap]
  constructor
  · intro r1 _
    rw [List.pairwise_map]
    exact h2.imp fun hlt => .inr ⟨rfl, hlt⟩
  · refine h1.imp fun hlt p hp q hq => ?_
    obtain ⟨r2, -, rfl⟩ := List.mem_map.mp hp
    obtain ⟨r2', -, rfl⟩ := List.mem_map.mp hq
    exact .inl hlt

theorem mem_loopPairs {rows1 rows2 : List Nat} {p : Nat × Nat} (h : p ∈ loopPairs rows1 rows2) :
    p.1 ∈ rows1 ∧ p.2 ∈ rows2 := by
  obtain ⟨r1, hr1, hp⟩ := List.mem_flatMap.mp h
  obtain ⟨r2, hr2, rfl⟩ := List.mem_map.mp hp
  exact ⟨hr1, hr2⟩

theorem rowsInRange_sorted (t : FunctionTable) (lo hi : Binary64) :
    (t.rowsInRange lo hi).Pairwise (· < ·) := List.pairwise_lt_range.filter _

theorem fillRow_rows {f df : FunctionRow} {r1 r2 : Nat} {desc : Text} {row : HeuristicRow}
    (h : CuReplaySource.fillRow f df r1 r2 desc = .ok row) :
    (row.row1,row.row2) = (some r1,some r2) := by
  obtain ⟨_, -, h⟩ := bind_eq_ok.mp h
  obtain ⟨_, -, h⟩ := bind_eq_ok.mp h
  obtain ⟨_, -, h⟩ := bind_eq_ok.mp h
  obtain ⟨_, -, h⟩ := bind_eq_ok.mp h
  obtain ⟨_, -, h⟩ := bind_eq_ok.mp h
  obtain ⟨nodes1, -, h⟩ := bind_eq_ok.mp h
  obtain ⟨nodes2, -, h⟩ := bind_eq_ok.mp h
  obtain rfl := Except.ok.inj h
  rfl

section
variable (sqlite : Sqlite) (mains diffs : List (FunctionRecord × Bool)) (lo1 hi1 lo2 hi2 : Binary64)

/-- `SqlRowSource` over the join of two databases. -/
def cuSqlSource : SqlRowSource where
  main := (FunctionTable.ofRecords sqlite mains).functionRows
  diff := (FunctionTable.ofRecords sqlite diffs).functionRows
  prepared := .ok (cuJoin sqlite (mains.map Prod.fst) (diffs.map Prod.fst) lo1 hi1 lo2 hi2)

/-- `CuReplaySource` over the tables of two databases. -/
def cuReplaySource : CuReplaySource :=
  .new (.ofRecords sqlite mains) (.ofRecords sqlite diffs) lo1 hi1 lo2 hi2

/-- The pairs of rows whose functions are both in range. -/
def cuPairs : List (Nat × Nat) :=
  loopPairs ((FunctionTable.ofRecords sqlite mains).rowsInRange lo1 hi1)
    ((FunctionTable.ofRecords sqlite diffs).rowsInRange lo2 hi2)

/-- The cells of a pair of rows. -/
def cuPairCells (p : Nat × Nat) : List SqlValue :=
  cuCells sqlite (mains.getD p.1 ({},false)).1 (diffs.getD p.2 ({},false)).1

theorem cuJoin_steps :
    (cuJoin sqlite (mains.map Prod.fst) (diffs.map Prod.fst) lo1 hi1 lo2 hi2).steps =
      ((cuPairs sqlite mains diffs lo1 hi1 lo2 hi2).map (cuPairCells sqlite mains diffs)).map
        SqlStep.row := by
  simp only [cuJoin, sqlInRange_eq, cuPairs, loopPairs, List.flatMap_map, List.map_map,
    List.map_flatMap]
  rfl

/-- The two sources are seen alike: the same rows, one for each pair in order, up to the end or to
an error of the same kind. -/
theorem cuReplay_join (hmains : UniqueAddresses mains) (hdiffs : UniqueAddresses diffs) :
    ∃ rows error error',
      (∀ n > (cuPairs sqlite mains diffs lo1 hi1 lo2 hi2).length,
        readAll SqlRowSource.next n (cuSqlSource sqlite mains diffs lo1 hi1 lo2 hi2) =
          some (rows,error) ∧
        readAll CuReplaySource.next n (cuReplaySource sqlite mains diffs lo1 hi1 lo2 hi2) =
          some (rows,error')) ∧
      error.map FetchError.kind = error'.map FetchError.kind ∧
      (rows.map fun row => (row.row1,row.row2)) =
        ((cuPairs sqlite mains diffs lo1 hi1 lo2 hi2).take rows.length).map
          (fun p => (some p.1,some p.2)) ∧
      (error = none → rows.length = (cuPairs sqlite mains diffs lo1 hi1 lo2 hi2).length) ∧
      (cuPairs sqlite mains diffs lo1 hi1 lo2 hi2).Pairwise fun p q =>
        p.1 < q.1 ∨ p.1 = q.1 ∧ p.2 < q.2 := by
  let main := FunctionTable.ofRecords sqlite mains
  let diff := FunctionTable.ofRecords sqlite diffs
  let pairs := cuPairs sqlite mains diffs lo1 hi1 lo2 hi2
  let join := cuJoin sqlite (mains.map Prod.fst) (diffs.map Prod.fst) lo1 hi1 lo2 hi2
  let convert (p : Nat × Nat) : Except FetchError HeuristicRow := SqlRowSource.convertCells join
    main.functionRows diff.functionRows cuRowColumns (cuPairCells sqlite mains diffs p)
  let fill (p : Nat × Nat) : Except FetchError HeuristicRow :=
    CuReplaySource.fillRow (main.row p.1) (diff.row p.2) p.1 p.2 cuHeuristic
  have hcolumns : join.rowColumns = cuRowColumns := rowColumns_cuJoin ..
  have hsql : Gives SqlRowSource.next (pairs.map convert)
      (cuSqlSource sqlite mains diffs lo1 hi1 lo2 hi2) := by
    have hgives := SqlRowSource.gives_prepared _ main.functionRows diff.functionRows join
      (hcolumns ▸ rfl) (cuJoin_steps sqlite mains diffs lo1 hi1 lo2 hi2)
    rw [List.map_map, hcolumns] at hgives
    exact hgives
  have hreplay : Gives CuReplaySource.next (pairs.map fill)
      (cuReplaySource sqlite mains diffs lo1 hi1 lo2 hi2) :=
    CuReplaySource.gives_new main diff lo1 hi1 lo2 hi2
  have halike : ∀ p ∈ pairs, (convert p).mapError FetchError.kind =
      (fill p).mapError FetchError.kind := by
    intro p hp
    obtain ⟨h1, h2⟩ := mem_loopPairs hp
    obtain ⟨hr1, hnull1⟩ := rowsInRange_spec h1
    obtain ⟨hr2, hnull2⟩ := rowsInRange_spec h2
    refine convertRow_kind (onCells sqlite _ _ ?_) (ofRecords_has hmains hr1)
      (ofRecords_has hdiffs hr2) hnull1 hnull2
    rw [← List.getD_eq_getElem _ ({},false) hr1, ← List.getD_eq_getElem _ ({},false) hr2]
    rfl
  obtain ⟨hrows, hkind⟩ := readList_congr FetchError.kind convert fill pairs halike
  obtain ⟨hkeys, hlength⟩ := readList_keys fill (fun row : HeuristicRow => (row.row1,row.row2))
    (fun p => (some p.1,some p.2)) pairs fun p _ row hrow => fillRow_rows hrow
  refine ⟨(readList (pairs.map fill)).1, (readList (pairs.map convert)).2,
    (readList (pairs.map fill)).2, fun n hn => ⟨?_, ?_⟩, hkind, hkeys, fun hnone => ?_, ?_⟩
  · rw [hsql.readAll (by rwa [List.length_map]), ← hrows]
  · exact hreplay.readAll (by rwa [List.length_map])
  · refine hlength ?_
    rw [hnone] at hkind
    exact Option.map_eq_none_iff.mp hkind.symm
  · exact loopPairs_sorted (rowsInRange_sorted _ _ _) (rowsInRange_sorted _ _ _)

end

theorem cuReplay_join_blob :
    let mains := FunctionTable.flagged
      [{ address := .str (text "16"), name := .str (text "f"), nodes := .integer 3 }]
    let diffs := FunctionTable.flagged
      [{ address := .str (text "32") }, { address := .blob (text "48"), name := .str [0xFF] }]
    (cuPairs digitsSqlite mains diffs .zero (.ofNat 99) .zero (.ofNat 99)).length = 2 ∧
      ∃ rows error error',
        readAll SqlRowSource.next 3
          (cuSqlSource digitsSqlite mains diffs .zero (.ofNat 99) .zero (.ofNat 99)) =
            some (rows,error) ∧
        readAll CuReplaySource.next 3
          (cuReplaySource digitsSqlite mains diffs .zero (.ofNat 99) .zero (.ofNat 99)) =
            some (rows,error') ∧
        error.map FetchError.kind = error'.map FetchError.kind := by
  intro mains diffs
  have hlength : (cuPairs digitsSqlite mains diffs .zero (.ofNat 99) .zero (.ofNat 99)).length = 2 := by
    decide +kernel
  have hmains : (mains.filterMap fun f => f.1.address.bytes).Nodup := by decide +kernel
  have hdiffs : (diffs.filterMap fun f => f.1.address.bytes).Nodup := by decide +kernel
  obtain ⟨rows, error, error', hread, hkind, -⟩ :=
    cuReplay_join digitsSqlite mains diffs .zero (.ofNat 99) .zero (.ofNat 99) hmains hdiffs
  obtain ⟨hsql, hreplay⟩ := hread 3 (hlength ▸ Nat.lt_succ_self 2)
  exact ⟨hlength, rows, error, error', hsql, hreplay, hkind⟩

end DSigMatcher.Diff
