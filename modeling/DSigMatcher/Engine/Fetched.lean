import DSigMatcher.Diff.CuReplayJoin
import DSigMatcher.Engine.Database
import DSigMatcher.Framework.Fallible

namespace DSigMatcher.Engine
open DSigMatcher.Base DSigMatcher.Framework DSigMatcher.Diff

namespace ExportTable
variable (t : ExportTable)

/-- A row of the function at an address. -/
def StandsAt (ea : Option Text) (r : Nat) : Prop := r < t.count ∧ (t.row r).addrIdOf = ea

/-- The MD-Index of a row, as SQLite casts it. -/
def mdSql (r : Nat) : Option Binary64 := CuReplaySource.readMd (t.row r).toFunctionRow

variable {t}

theorem row_getElem {r : Nat} (hr : r < t.rows.length) : t.row r = t.rows[r] := by
  rw [row, List.getD_eq_getElem?_getD, List.getElem?_eq_getElem hr, Option.getD_some]

theorem row_mem {r : Nat} (hr : r < t.count) : t.row r ∈ t.rows :=
  row_getElem hr ▸ List.getElem_mem hr

theorem standsAt_of_findRow {ea : Text} {r : Nat} (h : t.findRow ea = some r) :
    t.StandsAt (some ea) r := by
  obtain ⟨hr, haddress, -⟩ := List.findIdx?_eq_some_iff_getElem.mp h
  exact ⟨hr, row_getElem hr ▸ of_decide_eq_true haddress⟩

theorem functionTable_row (t : ExportTable) (r : Nat) :
    t.functionTable.row r = (t.row r).toFunctionRow := by
  rw [FunctionTable.row, functionTable, List.getD_eq_getElem?_getD, List.getElem?_map, row,
    List.getD_eq_getElem?_getD]
  cases t.rows[r]? <;> rfl

/-- The functions of a range are functions of the table, with an address that SQLite casts. -/
theorem mem_rowsInRange {lo hi : Binary64} {r : Nat} (h : r ∈ t.functionTable.rowsInRange lo hi) :
    r < t.count ∧ (t.row r).addressSqlNull = false := by
  obtain ⟨hr, hrange⟩ := List.mem_filter.mp h
  rw [List.mem_range, functionTable, List.length_map] at hr
  simp only [Bool.and_eq_true, Bool.not_eq_true'] at hrange
  exact ⟨hr, functionTable_row t r ▸ hrange.1.1⟩

end ExportTable

theorem fillRow_ok {f df : FunctionRow} {r1 r2 : Nat} {desc : Text} {row : HeuristicRow}
    (h : CuReplaySource.fillRow f df r1 r2 desc = .ok row) :
    ∃ nodes1 nodes2, row = ⟨f.addrIdOf.getD [],df.addrIdOf.getD [],some r1,some r2,f.nameIdOf,
      df.nameIdOf,desc,nodes1,nodes2,CuReplaySource.readMd f,CuReplaySource.readMd df⟩ := by
  simp only [CuReplaySource.fillRow, bind_eq_ok] at h
  obtain ⟨-, -, -, -, -, -, -, -, -, -, nodes1, -, nodes2, -, h⟩ := h
  exact ⟨nodes1, nodes2, (Except.ok.inj h).symm⟩

/-- A converted row is looked up by its addresses. -/
theorem convertRow_found {s : Statement} {main diff : FunctionRows} {c : RowColumns} {row : HeuristicRow}
    (h : s.convertRow main diff c = .ok row) :
    row.row1 = main.findRow row.ea1 ∧ row.row2 = diff.findRow row.ea2 := by
  have hfound (rows : FunctionRows) (column : Option Nat) (name ea : Text)
      (hea : s.mapAddress column name = .ok ea) : s.tableRow rows column = rows.findRow ea := by
    unfold Statement.mapAddress at hea
    unfold Statement.tableRow
    cases hcell : s.cell column with
    | text t =>
      rw [hcell] at hea
      rw [Except.ok.inj hea]
    | null | integer n | real x | blob b =>
      rw [hcell] at hea
      cases hea
  simp only [Statement.convertRow, bind_eq_ok] at h
  obtain ⟨-, -, ea1, hea1, ea2, hea2, name1, -, name2, -, desc, -, nodes1, -, nodes2, -, md1, -, md2, -,
    h⟩ := h
  rw [← Except.ok.inj h]
  exact ⟨hfound main _ _ ea1 hea1, hfound diff _ _ ea2 hea2⟩

/-- So is every row that a source gives; it keeps its tables. -/
theorem next_found {s t : SqlRowSource} {row : HeuristicRow} (h : s.next = (.ok (some row),t)) :
    (row.row1 = s.main.findRow row.ea1 ∧ row.row2 = s.diff.findRow row.ea2) ∧
      t.main = s.main ∧ t.diff = s.diff := by
  have hfetch (u : SqlRowSource) (hu : u.fetchRow = (.ok (some row),t)) :
      (row.row1 = u.main.findRow row.ea1 ∧ row.row2 = u.diff.findRow row.ea2) ∧
        t.main = u.main ∧ t.diff = u.diff := by
    unfold SqlRowSource.fetchRow at hu
    split_ifs at hu
    · cases hu
    rcases hstep : u.stmt.step with ⟨r, stmt⟩
    rw [hstep] at hu
    rcases r with e | b
    · cases hu
    cases b with
    | false => cases hu
    | true =>
      obtain ⟨hrow, rfl⟩ := Prod.mk.inj hu
      cases hconvert : stmt.convertRow u.main u.diff u.columns with
      | error e =>
        rw [hconvert] at hrow
        cases hrow
      | ok converted =>
        rw [hconvert] at hrow
        obtain rfl := Option.some.inj (Except.ok.inj hrow)
        exact ⟨convertRow_found hconvert, rfl, rfl⟩
  unfold SqlRowSource.next at h
  split_ifs at h
  · exact hfetch s h
  · rcases hstart : s.start with ⟨r, u⟩
    rw [hstart] at h
    cases r with
    | error e => cases h
    | ok v =>
      have htables : u.main = s.main ∧ u.diff = s.diff := by
        unfold SqlRowSource.start at hstart
        cases hprepared : s.prepared with
        | error e => simp [hprepared] at hstart
        | ok stmt =>
          simp only [hprepared] at hstart
          split_ifs at hstart
          · exact (Prod.mk.inj hstart).2 ▸ ⟨rfl, rfl⟩
          · cases hstart
      have hnext := hfetch u h
      rwa [htables.1, htables.2] at hnext

/-- A fetched row with names is a row of the source. -/
theorem fetch_next {r r' : SmallRows} {small : SmallRow} (h : r.fetch = (.ok (some small),r')) :
    r.source.next = (.ok (some small.row),r'.source) := by
  unfold SmallRows.fetch at h
  rcases hnext : r.source.next with ⟨x, source⟩
  rw [hnext] at h
  rcases x with e | found
  · cases h
  cases found with
  | none => cases h
  | some row =>
    dsimp only at h
    have hsource : ({ r with source } : SmallRows).findNames.2.source = source := by
      unfold SmallRows.findNames
      dsimp only
      split_ifs <;> rfl
    rcases hnames : ({ r with source } : SmallRows).findNames with ⟨y, u⟩
    rw [hnames] at h hsource
    cases y with
    | error e => cases h
    | ok v =>
      obtain ⟨hsmall, rfl⟩ := Prod.mk.inj h
      obtain rfl : u.source = source := hsource
      cases hconvert : u.source.stmt.smallRow row u.colFNames u.colDfNames with
      | error e =>
        rw [hconvert] at hsmall
        cases hsmall
      | ok converted =>
        rw [hconvert] at hsmall
        obtain rfl := Option.some.inj (Except.ok.inj hsmall)
        simp only [Statement.smallRow, bind_eq_ok] at hconvert
        obtain ⟨fNames, -, dfNames, -, hconvert⟩ := hconvert
        rw [← Except.ok.inj hconvert]

/-- All that a source gives from now on. -/
def Sourced (R : HeuristicRow → Prop) (s : SqlRowSource) : Prop :=
  ∀ n row, Except.ok row ∈ collect SqlRowSource.next n s → R row

theorem Sourced.next {R : HeuristicRow → Prop} {s t : SqlRowSource} {row : HeuristicRow}
    (h : Sourced R s) (hnext : s.next = (.ok (some row),t)) : R row ∧ Sourced R t := by
  constructor
  · refine h 1 row ?_
    rw [collect_succ hnext]
    exact List.mem_cons_self
  · intro n row' hrow'
    refine h (n+1) row' ?_
    rw [collect_succ hnext]
    exact List.mem_cons_of_mem _ hrow'

/-- An iterator has rows of its source, and fetches only such. -/
structure IterOver (R : HeuristicRow → Prop) (it : ResultIter) : Prop where
  batch : ∀ small ∈ it.batch, R small.row
  ahead : ∀ small ∈ it.ahead, R small.row
  source : it.exhausted = true ∨ it.deferred.isSome = true ∨ Sourced R it.rows.source

namespace IterOver
variable {R : HeuristicRow → Prop} {it it' : ResultIter}

/-- An iterator that has neither ended nor met an error fetches on. -/
theorem sourced (h : IterOver R it) (hopen : it.exhausted = false) (hdeferred : it.deferred = none) :
    Sourced R it.rows.source := by
  rcases h.source with hend | hlost | hsource
  · exact absurd (hopen.symm.trans hend) Bool.false_ne_true
  · rw [hdeferred] at hlost
    cases hlost
  · exact hsource

theorem fillBatch {n : Nat} (h : IterOver R it) (hdeferred : it.deferred = none)
    (hfill : ResultIter.fillBatch n it = .ok it') : IterOver R it' ∧ it'.deferred = none := by
  induction n generalizing it with
  | zero => exact Except.ok.inj hfill ▸ ⟨h, hdeferred⟩
  | succ n ih =>
    rw [ResultIter.fillBatch] at hfill
    split_ifs at hfill with hfull
    · exact Except.ok.inj hfill ▸ ⟨h, hdeferred⟩
    rw [Bool.or_eq_true, not_or, Bool.not_eq_true] at hfull
    rcases hfetch : it.rows.fetch with ⟨r, rows⟩
    rw [hfetch] at hfill
    rcases r with e | found
    · cases hfill
    cases found with
    | none => exact Except.ok.inj hfill ▸ ⟨⟨h.batch, h.ahead, .inl rfl⟩, hdeferred⟩
    | some small =>
      obtain ⟨hsmall, hrest⟩ := (h.sourced hfull.1 hdeferred).next (fetch_next hfetch)
      refine @ih { it with rows, batch := it.batch ++ [small] } ⟨fun x hx => ?_, h.ahead, ?_⟩ hdeferred
        hfill
      swap
      · exact .inr (.inr hrest)
      rcases List.mem_append.mp hx with hx | hx
      · exact h.batch x hx
      · exact List.mem_singleton.mp hx ▸ hsmall

theorem lookAhead (h : IterOver R it) (hdeferred : it.deferred = none)
    (hahead : it.lookAhead = .ok it') : IterOver R it' := by
  unfold ResultIter.lookAhead at hahead
  split_ifs at hahead with hfull
  swap
  · exact Except.ok.inj hahead ▸ h
  rw [Bool.and_eq_true, Bool.not_eq_true'] at hfull
  rcases hfetch : it.rows.fetch with ⟨r, rows⟩
  rw [hfetch] at hahead
  rcases r with e | found
  · dsimp only at hahead
    split_ifs at hahead
    exact Except.ok.inj hahead ▸ ⟨h.batch, h.ahead, .inr (.inl rfl)⟩
  cases found with
  | none => exact Except.ok.inj hahead ▸ ⟨h.batch, h.ahead, .inl rfl⟩
  | some small =>
    obtain ⟨hsmall, hrest⟩ := (h.sourced hfull.1 hdeferred).next (fetch_next hfetch)
    have hover : ∀ x ∈ some small, R x.row := fun x hx => Option.some.inj hx ▸ hsmall
    exact Except.ok.inj hahead ▸ ⟨h.batch, hover, .inr (.inr hrest)⟩

theorem fill (h : IterOver R it) (hfill : it.fill = .ok it') : IterOver R it' := by
  unfold ResultIter.fill at hfill
  cases hdeferred : it.deferred with
  | some e =>
    rw [hdeferred] at hfill
    cases hfill
  | none =>
    rw [hdeferred] at hfill
    have hstart : IterOver R
        { it with batch := it.ahead.toList, pos := 0, ahead := none, deferred := none } :=
      ⟨fun x hx => h.ahead x (Option.mem_toList.mp hx), fun _ hx => absurd hx (Option.not_mem_none _),
        hdeferred ▸ h.source⟩
    obtain ⟨filled, hbatch, hahead⟩ := bind_eq_ok.mp hfill
    obtain ⟨hover, hnone⟩ := hstart.fillBatch rfl hbatch
    exact hover.lookAhead hnone hahead

theorem take (h : IterOver R it) : (∀ small ∈ it.take.1, R small.row) ∧ IterOver R it.take.2 := by
  unfold ResultIter.take
  cases hrow : it.batch[it.pos]? with
  | none => exact ⟨fun _ hx => absurd hx (Option.not_mem_none _), h⟩
  | some small =>
    refine ⟨fun x hx => ?_, ⟨h.batch, h.ahead, h.source⟩⟩
    exact Option.some.inj hx ▸ h.batch small (List.mem_of_getElem? hrow)

theorem next {found : Option SmallRow} (h : IterOver R it) (hnext : it.next = .ok (found,it')) :
    (∀ small ∈ found, R small.row) ∧ IterOver R it' := by
  unfold ResultIter.next at hnext
  split_ifs at hnext
  · obtain ⟨rfl, rfl⟩ := Prod.mk.inj (Except.ok.inj hnext)
    exact ⟨fun _ hx => absurd hx (Option.not_mem_none _), h⟩
  · cases hfill : it.fill with
    | error e =>
      rw [hfill] at hnext
      cases hnext
    | ok filled =>
      rw [hfill] at hnext
      have htaken : filled.take = (found,it') := Except.ok.inj hnext
      have hover := (h.fill hfill).take
      rwa [htaken] at hover
  · have htaken : it.take = (found,it') := Except.ok.inj hnext
    have hover := h.take
    rwa [htaken] at hover

end IterOver

namespace Environment
variable (env : Environment)

/-- The rows that the engine fetches: those of a query, and those of the replayed one. -/
inductive Fetches (row : HeuristicRow) : Prop
  | query (q : SqlQuery) (h : Except.ok row ∈ env.rows q) : Fetches row
  | replayed (lo1 hi1 lo2 hi2 : Binary64) (h : Except.ok row ∈ replayRows
      (.new env.tables.main.functionTable env.tables.diff.functionTable lo1 hi1 lo2 hi2)) : Fetches row

variable {env}

/-- What the iterator delivers are rows of the names query. -/
theorem smallRows_rows {small : SmallRow} (h : Except.ok small ∈ env.smallRows) :
    Except.ok small.row ∈ env.rows .smallDifferences := by
  have hsourced : Sourced (fun row => Except.ok row ∈ env.rows .smallDifferences)
      (env.sqlRowSource .smallDifferences) := fun n row hrow =>
    (sourceRows_gives _).mem_of_collect hrow
  refine collect_forall (P := IterOver fun row => Except.ok row ∈ env.rows .smallDifferences)
    (Q := fun small => Except.ok small.row ∈ env.rows .smallDifferences) ?_ ?_ h
  · intro it small it' hover hnext
    unfold nextSmallRow at hnext
    cases hstep : it.next with
    | error e =>
      rw [hstep] at hnext
      cases hnext
    | ok found =>
      rw [hstep] at hnext
      obtain ⟨hfound, rfl⟩ := Prod.mk.inj hnext
      have hdelivered : it.next = .ok (found.1,found.2) := hstep
      have hover' := hover.next hdelivered
      exact ⟨hover'.1 small (Except.ok.inj hfound), hover'.2⟩
  · exact ⟨fun _ hx => absurd hx List.not_mem_nil, fun _ hx => absurd hx (Option.not_mem_none _),
      .inr (.inr hsourced)⟩

/-- The rows of a query are looked up by their addresses. -/
theorem rows_found {q : SqlQuery} {row : HeuristicRow} (h : Except.ok row ∈ env.rows q) :
    row.row1 = env.tables.main.findRow row.ea1 ∧ row.row2 = env.tables.diff.findRow row.ea2 := by
  refine collect_forall (P := fun s => s.main = env.tables.main.functionRows ∧
    s.diff = env.tables.diff.functionRows) (Q := fun row => row.row1 = env.tables.main.findRow row.ea1 ∧
    row.row2 = env.tables.diff.findRow row.ea2) ?_ ⟨rfl, rfl⟩ h
  intro s row t ⟨hmain, hdiff⟩ hnext
  obtain ⟨hfound, hmain', hdiff'⟩ := next_found hnext
  rw [hmain, hdiff] at hfound
  exact ⟨hfound, hmain'.trans hmain, hdiff'.trans hdiff⟩

/-- The rows of the replay are those of two functions of the exports. -/
theorem replayRows_fill {lo1 hi1 lo2 hi2 : Binary64} {row : HeuristicRow}
    (h : Except.ok row ∈ replayRows (.new env.tables.main.functionTable env.tables.diff.functionTable
      lo1 hi1 lo2 hi2)) :
    ∃ r1 r2, (r1 < env.tables.main.count ∧ (env.tables.main.row r1).addressSqlNull = false) ∧
      (r2 < env.tables.diff.count ∧ (env.tables.diff.row r2).addressSqlNull = false) ∧
      CuReplaySource.fillRow (env.tables.main.row r1).toFunctionRow
        (env.tables.diff.row r2).toFunctionRow r1 r2 cuHeuristic = .ok row := by
  have hgives := (CuReplaySource.gives_new env.tables.main.functionTable env.tables.diff.functionTable
    lo1 hi1 lo2 hi2).mem_of_collect h
  obtain ⟨⟨r1, r2⟩, hpair, hfill⟩ := List.mem_map.mp hgives
  obtain ⟨r1', hr1, hpairs⟩ := List.mem_flatMap.mp hpair
  obtain ⟨r2', hr2, heq⟩ := List.mem_map.mp hpairs
  obtain ⟨rfl, rfl⟩ := Prod.mk.inj heq
  rw [ExportTable.functionTable_row, ExportTable.functionTable_row] at hfill
  exact ⟨_, _, ExportTable.mem_rowsInRange hr1, ExportTable.mem_rowsInRange hr2, hfill⟩

end Environment

/-- The queries select the exports: the MD-Indices of a row are those of its functions, and an address
that SQLite casts is there. -/
structure Environment.ReadsExports (env : Environment) : Prop where
  md1 : ∀ q row r, Except.ok row ∈ env.rows q → row.row1 = some r → row.md1 = env.tables.main.mdSql r
  md2 : ∀ q row r, Except.ok row ∈ env.rows q → row.row2 = some r → row.md2 = env.tables.diff.mdSql r
  addresses : ∀ which, ∀ row ∈ (env.tables.table which).rows, row.addressSqlNull = false →
    row.addrIdOf.isSome = true

/-- A fetched row has the functions at its addresses, with their MD-Indices. -/
theorem Environment.ReadsExports.fetched {env : Environment} (h : env.ReadsExports) {row : HeuristicRow}
    (hrow : env.Fetches row) {r1 r2 : Nat} (hrow1 : row.row1 = some r1) (hrow2 : row.row2 = some r2) :
    (env.tables.main.StandsAt (some row.ea1) r1 ∧ row.md1 = env.tables.main.mdSql r1) ∧
      env.tables.diff.StandsAt (some row.ea2) r2 ∧ row.md2 = env.tables.diff.mdSql r2 := by
  cases hrow with
  | query q hq =>
    obtain ⟨hfound1, hfound2⟩ := Environment.rows_found hq
    exact ⟨⟨ExportTable.standsAt_of_findRow (hfound1 ▸ hrow1), h.md1 q row r1 hq hrow1⟩,
      ExportTable.standsAt_of_findRow (hfound2 ▸ hrow2), h.md2 q row r2 hq hrow2⟩
  | replayed lo1 hi1 lo2 hi2 hreplay =>
    obtain ⟨r1', r2', ⟨hr1, hcast1⟩, ⟨hr2, hcast2⟩, hfill⟩ := Environment.replayRows_fill hreplay
    obtain ⟨nodes1, nodes2, rfl⟩ := fillRow_ok hfill
    obtain rfl : r1' = r1 := Option.some.inj hrow1
    obtain rfl : r2' = r2 := Option.some.inj hrow2
    have hsome1 := h.addresses .main _ (ExportTable.row_mem hr1) hcast1
    have hsome2 := h.addresses .diff _ (ExportTable.row_mem hr2) hcast2
    have hget (ea : Option Text) (hea : ea.isSome = true) : ea = some (ea.getD []) := by
      cases ea with
      | none => cases hea
      | some a => rfl
    exact ⟨⟨⟨hr1, hget _ hsome1⟩, rfl⟩, ⟨hr2, hget _ hsome2⟩, rfl⟩

end DSigMatcher.Engine
