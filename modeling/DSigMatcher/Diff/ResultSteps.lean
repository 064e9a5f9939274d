import DSigMatcher.Diff.ResultBatches

namespace DSigMatcher.Diff
open DSigMatcher.Base DSigMatcher.Framework

/-- An error of a conversion waits for the batch of its row. -/
def Defers {α : Type} : Except FetchError α → Prop
  | .ok _ => True
  | .error e => e.defers

theorem Defers.bind {α β : Type} {x : Except FetchError α} {f : α → Except FetchError β}
    (hx : Defers x) (hf : ∀ a, Defers (f a)) : Defers (x >>= f) := by
  cases x with
  | ok a => exact hf a
  | error e => exact hx

namespace Statement
variable (s : Statement) (column : Option Nat) (name : Text)

theorem mapAddress_defers : Defers (s.mapAddress column name) := by
  unfold mapAddress
  cases s.cell column <;> trivial

theorem mapName_defers : Defers (s.mapName column name) := by
  unfold mapName
  cases s.cell column <;> trivial

theorem readDesc_defers : Defers (s.readDesc column) := by
  unfold readDesc
  cases s.cell column <;> trivial

theorem readNodes_defers : Defers (s.readNodes column name) := by
  unfold readNodes
  cases s.cell column <;> trivial

theorem readMd_defers : Defers (s.readMd column name) := by
  unfold readMd
  cases s.cell column <;> trivial

theorem names_defers : Defers (s.names column name) := by
  unfold names
  cases s.cell column <;> trivial

theorem checkUtf8_defers (main diff : FunctionRows) (c : RowColumns) :
    Defers (s.checkUtf8 main diff c) := by
  have hfetch (detail : Text) : (wouldRaise (text "fetch") detail).defers = true := by
    change decide (text "fetch" ≠ text "sqlite3_step") = true
    decide
  unfold checkUtf8
  simp only
  split_ifs
  · exact hfetch _
  · cases c.directUtf8.find? s.badText with
    | none => trivial
    | some column => exact hfetch _

theorem convertRow_defers (main diff : FunctionRows) (c : RowColumns) :
    Defers (s.convertRow main diff c) := by
  apply (s.checkUtf8_defers main diff c).bind
  intro
  apply (s.mapAddress_defers _ _).bind
  intro ea1
  apply (s.mapAddress_defers _ _).bind
  intro ea2
  apply (s.mapName_defers _ _).bind
  intro name1
  apply (s.mapName_defers _ _).bind
  intro name2
  apply (s.readDesc_defers _).bind
  intro desc
  apply (s.readNodes_defers _ _).bind
  intro nodes1
  apply (s.readNodes_defers _ _).bind
  intro nodes2
  apply (s.readMd_defers _ _).bind
  intro md1
  apply (s.readMd_defers _ _).bind
  intro md2
  trivial

theorem smallRow_defers (row : HeuristicRow) (colFNames colDfNames : Option Nat) :
    Defers (s.smallRow row colFNames colDfNames) := by
  apply (s.names_defers _ _).bind
  intro fNames
  apply (s.names_defers _ _).bind
  intro dfNames
  trivial

/-- The conversion of one row of the statement, its names included. -/
def convert (s : Statement) (main diff : FunctionRows) (cells : List SqlValue) :
    Except FetchError SmallRow := do
  let s := { s with current := cells }
  let row ← s.convertRow main diff s.rowColumns
  if (s.findColumn (text "f_names")).isNone || (s.findColumn (text "df_names")).isNone then
    throw (unsupported (text "search_small_differences: the query lacks f_names / df_names"))
  s.smallRow row (s.findColumn (text "f_names")) (s.findColumn (text "df_names"))

theorem convert_defers (main diff : FunctionRows) (cells : List SqlValue) :
    Defers (s.convert main diff cells) := by
  apply (convertRow_defers _ main diff _).bind
  intro row
  split_ifs
  · trivial
  · exact smallRow_defers _ row _ _

end Statement

/-- The rows of a statement, at its next steps. -/
structure SmallRows.At (r : SmallRows) (main diff : FunctionRows) (stmt : Statement)
    (steps : List SqlStep) : Prop where
  tables : r.source.main = main ∧ r.source.diff = diff
  going : r.source.done = false
  started : r.source.started = false ∧ r.source.prepared = .ok { stmt with steps } ∨
    r.source.started = true ∧ r.source.columns = stmt.rowColumns ∧
      ∃ current, r.source.stmt = { stmt with current, steps }
  names : r.colFNames = none ∨
    r.colFNames = stmt.findColumn (text "f_names") ∧ r.colFNames.isSome ∧
      r.colDfNames = stmt.findColumn (text "df_names") ∧ r.colDfNames.isSome

namespace SmallRows
variable {r : SmallRows} {main diff : FunctionRows} {stmt : Statement} {steps : List SqlStep}

theorem start_prepared (s : SqlRowSource) {t : Statement} (hprepared : s.prepared = .ok t)
    (hcolumns : t.rowColumns.complete = true) :
    s.start = (.ok (),{ s with started := true, stmt := t, columns := t.rowColumns }) := by
  cases s with
  | mk main diff prepared =>
    subst hprepared
    exact if_pos hcolumns

/-- A source that has not started starts with its first row. -/
theorem At.next (h : r.At main diff stmt steps) (hcolumns : stmt.rowColumns.complete = true) :
    ∃ s : SqlRowSource, r.source.next = s.fetchRow ∧ s.main = main ∧ s.diff = diff ∧
      s.done = false ∧ s.started = true ∧ s.columns = stmt.rowColumns ∧
      ∃ current, s.stmt = { stmt with current, steps } := by
  rcases h.started with ⟨hstarted, hprepared⟩ | ⟨hstarted, hcols, hstmt⟩
  · refine ⟨{ r.source with started := true, stmt := { stmt with steps }, columns := stmt.rowColumns },
      ?_, h.tables.1, h.tables.2, h.going, rfl, rfl, stmt.current, rfl⟩
    rw [SqlRowSource.next, hstarted, if_neg Bool.false_ne_true, start_prepared _ hprepared hcolumns]
    rfl
  · refine ⟨r.source, ?_, h.tables.1, h.tables.2, h.going, hstarted, hcols, hstmt⟩
    rw [SqlRowSource.next, if_pos hstarted]

/-- Behind the last row nothing is fetched. -/
theorem At.fetch_nil (h : r.At main diff stmt []) (hcolumns : stmt.rowColumns.complete = true) :
    r.fetch.1 = .ok none := by
  obtain ⟨s, hnext, -, -, hgoing, -, -, current, hstmt⟩ := h.next hcolumns
  rw [fetch, hnext, SqlRowSource.fetchRow, hgoing, if_neg Bool.false_ne_true, hstmt]
  rfl

theorem At.fetch_failed {failure : SqlFailure} (h : r.At main diff stmt (.failed failure::steps))
    (hcolumns : stmt.rowColumns.complete = true) :
    r.fetch.1 = .error (throwSqlError failure (text "sqlite3_step")) := by
  obtain ⟨s, hnext, -, -, hgoing, -, -, current, hstmt⟩ := h.next hcolumns
  rw [fetch, hnext, SqlRowSource.fetchRow, hgoing, if_neg Bool.false_ne_true, hstmt]
  rfl

/-- The names columns are those of the statement, or the query lacks them. -/
theorem findNames_spec {t : Statement} (ht : r.source.stmt = t) (hnames : r.colFNames = none ∨
      r.colFNames = t.findColumn (text "f_names") ∧ r.colFNames.isSome ∧
        r.colDfNames = t.findColumn (text "df_names") ∧ r.colDfNames.isSome) :
    let lacks := (t.findColumn (text "f_names")).isNone || (t.findColumn (text "df_names")).isNone
    (lacks = true → r.findNames.1 = .error (Statement.unsupported
      (text "search_small_differences: the query lacks f_names / df_names"))) ∧
    (lacks = false → r.findNames = (.ok (),{ r with
      colFNames := t.findColumn (text "f_names"), colDfNames := t.findColumn (text "df_names") })) := by
  intro lacks
  rcases hnames with hnone | ⟨hf, hfsome, hdf, hdfsome⟩
  · unfold findNames
    rw [hnone, if_pos Option.isNone_none, ht]
    constructor
    · intro hlacks
      exact congrArg Prod.fst (if_pos hlacks)
    · intro hfound
      exact if_neg fun hlacks => Bool.false_ne_true (hfound.symm.trans hlacks)
  · have hfound : lacks = false := by
      simp only [lacks, ← hf, ← hdf, Option.isNone_eq_false_iff.mpr hfsome,
        Option.isNone_eq_false_iff.mpr hdfsome, Bool.or_self]
    constructor
    · intro hlacks
      rw [hfound] at hlacks
      cases hlacks
    · intro _
      rw [findNames, Option.isNone_eq_false_iff.mpr hfsome, if_neg Bool.false_ne_true, ← hf, ← hdf]

/-- A row is fetched as it is converted, and the next one is behind it. -/
theorem At.fetch_row {cells : List SqlValue} (h : r.At main diff stmt (.row cells::steps))
    (hcolumns : stmt.rowColumns.complete = true) :
    r.fetch.1 = (stmt.convert main diff cells).map some ∧
    ((∃ row, stmt.convert main diff cells = .ok row) → r.fetch.2.At main diff stmt steps) := by
  obtain ⟨s, hnext, hmain, hdiff, hgoing, hstarted, hcols, current, hstmt⟩ := h.next hcolumns
  let t : Statement := { stmt with current := cells, steps }
  let source : SqlRowSource := { s with stmt := t, done := false, fetched := s.fetched+1 }
  have hsource : r.source.next = ((t.convertRow main diff stmt.rowColumns).map some,source) := by
    rw [hnext, SqlRowSource.fetchRow, hgoing, if_neg Bool.false_ne_true, hstmt, ← hmain, ← hdiff,
      ← hcols]
    rfl
  have hconvert : stmt.convert main diff cells = t.convertRow main diff stmt.rowColumns >>= fun row =>
      if (t.findColumn (text "f_names")).isNone || (t.findColumn (text "df_names")).isNone then
        .error (Statement.unsupported
          (text "search_small_differences: the query lacks f_names / df_names"))
      else t.smallRow row (t.findColumn (text "f_names")) (t.findColumn (text "df_names")) := rfl
  obtain ⟨hlacks, hfound⟩ := findNames_spec (r := { r with source }) (t := t) rfl h.names
  rw [hconvert, fetch, hsource]
  cases t.convertRow main diff stmt.rowColumns with
  | error e =>
    refine ⟨rfl, ?_⟩
    rintro ⟨row, hrow⟩
    cases hrow
  | ok row =>
    cases hlack : (t.findColumn (text "f_names")).isNone || (t.findColumn (text "df_names")).isNone with
    | true =>
      have hfailed := hlacks hlack
      constructor
      · simp only [Except.map]
        rw [← Prod.mk.eta (p := SmallRows.findNames _), hfailed]
        rfl
      · rintro ⟨row, hrow⟩
        cases hrow
    | false =>
      have hnames := hfound hlack
      simp only [Except.map]
      rw [hnames]
      rw [Bool.or_eq_false_iff, Option.isNone_eq_false_iff, Option.isNone_eq_false_iff] at hlack
      exact ⟨rfl, fun _ => ⟨⟨hmain, hdiff⟩, rfl, Or.inr ⟨hstarted, hcols, cells, rfl⟩,
        Or.inr ⟨rfl, hlack.1, rfl, hlack.2⟩⟩⟩

/-- Rows that convert are given one by one. -/
theorem At.gives {raws : List (List SqlValue)} {rows : List SmallRow}
    (hrows : raws.map (stmt.convert main diff) = rows.map .ok)
    (hcolumns : stmt.rowColumns.complete = true) (h : r.At main diff stmt (raws.map .row ++ steps))
    {fault : Option FetchError}
    (hend : ∀ r : SmallRows, r.At main diff stmt steps → r.Gives [] fault) : r.Gives rows fault := by
  induction raws generalizing r rows with
  | nil =>
    rw [List.map_nil, eq_comm, List.map_eq_nil_iff] at hrows
    rw [hrows]
    exact hend r h
  | cons cells raws ih =>
    cases rows with
    | nil => cases hrows
    | cons row rows =>
      simp only [List.map_cons, List.cons.injEq] at hrows
      obtain ⟨hconvert, hrows⟩ := hrows
      obtain ⟨hfetch, hnext⟩ := At.fetch_row h hcolumns
      rw [hconvert] at hfetch
      exact ⟨hfetch, ih hrows (hnext ⟨row, hconvert⟩)⟩

end SmallRows

namespace ResultIter

/-- The iterator over the rows of a statement. -/
def overRows (main diff : FunctionRows) (stmt : Statement) : ResultIter where
  rows := { source := { main, diff, prepared := .ok stmt } }

theorem overRows_at (main diff : FunctionRows) (stmt : Statement) (steps : List SqlStep) :
    (overRows main diff { stmt with steps }).rows.At main diff stmt steps :=
  ⟨⟨rfl, rfl⟩, rfl, Or.inl ⟨rfl, rfl⟩, Or.inl rfl⟩

/-- The iterator delivers whole batches or raises. -/
theorem drain_wholeBatches (main diff : FunctionRows) (stmt : Statement)
    (hcolumns : stmt.rowColumns.complete = true) (raws : List (List SqlValue)) (rows : List SmallRow)
    (hrows : raws.map (stmt.convert main diff) = rows.map .ok) (k fuel : Nat)
    (hk : rows.length+1 = k) (hfuel : k ≤ fuel) :
    let result (steps : List SqlStep) := drain fuel (overRows main diff { stmt with steps })
    result (raws.map .row) = (rows,.exhausted) ∧
    (∀ cells e later, stmt.convert main diff cells = .error e →
      result (raws.map .row ++ .row cells::later) = (rows.take (1000*((k-1)/1000)),.raised e)) ∧
    (2 ≤ k → ∀ failure later, result (raws.map .row ++ .failed failure::later) =
      (rows.take (1000*((k-2)/1000)),.raised (throwSqlError failure (text "sqlite3_step")))) := by
  intro result
  subst hk
  have hresult (steps : List SqlStep) (fault : Option FetchError)
      (hend : ∀ r : SmallRows, r.At main diff stmt steps → r.Gives [] fault) :
      result (raws.map .row ++ steps) = (delivered rows fault,endingOf fault) :=
    drain_pending (Nat.le_refl _) rfl rfl
      (SmallRows.At.gives hrows hcolumns (overRows_at main diff stmt _) hend) hfuel
  refine ⟨?_, ?_, ?_⟩
  · have hall := hresult [] none fun r hr => hr.fetch_nil hcolumns
    rwa [List.append_nil] at hall
  · intro cells e later hconvert
    have hdefers : Defers (stmt.convert main diff cells) := stmt.convert_defers main diff cells
    rw [hconvert] at hdefers
    have hraised := hresult (.row cells::later) (some e) fun r hr => by
      have hfetch := (hr.fetch_row hcolumns).1
      rwa [hconvert] at hfetch
    rw [hraised, delivered_some, FetchError.behind, if_pos (show e.defers = true from hdefers)]
    rfl
  · intro hk failure later
    have hdefers : (throwSqlError failure (text "sqlite3_step")).defers = false := by
      unfold throwSqlError
      split_ifs
      · rfl
      · change decide (text "sqlite3_step" ≠ text "sqlite3_step") = false
        exact decide_eq_false (not_not.mpr rfl)
    have hraised := hresult (.failed failure::later) (some _) fun r hr => hr.fetch_failed hcolumns
    rw [hraised, delivered_some, FetchError.behind, if_neg (Bool.eq_false_iff.mp hdefers)]
    rfl

/-- A query with the columns the stage selects. -/
def namesQuery : Statement where
  columnNames := (["ea", "name1", "ea2", "name2", "description", "f_names", "df_names"] :
    List String).map text

def noRows : FunctionRows := ⟨fun _ => none,fun _ => false⟩

def namesRow (desc : SqlValue) : List SqlValue :=
  [.text (text "16"),.text (text "f"),.text (text "32"),.null,desc,.text (text "[]"),.null]

def namesSmallRow : SmallRow :=
  ⟨⟨text "16",text "32",none,none,some (text "f"),none,text "d",none,none,none,none⟩,
    some (text "[]"),none⟩

theorem drain_wholeBatches_names :
    let result (steps : List SqlStep) :=
      drain 2 (overRows noRows noRows { namesQuery with steps })
    let first := SqlStep.row (namesRow (.text (text "d")))
    let overflow : SqlFailure := ⟨1,text "SQL logic error",text "integer overflow"⟩
    result [first] = ([namesSmallRow],.exhausted) ∧
    result [first,.row (namesRow .null)] =
      ([],.raised (Statement.unsupported (text "row alias 'description' is not TEXT"))) ∧
    result [first,.failed overflow] =
      ([],.raised (throwSqlError overflow (text "sqlite3_step"))) := by
  intro result first overflow
  obtain ⟨hall, hconversion, hstep⟩ := drain_wholeBatches noRows noRows namesQuery (by decide)
    [namesRow (.text (text "d"))] [namesSmallRow] (by decide +kernel) 2 2 rfl (Nat.le_refl 2)
  exact ⟨hall, hconversion _ _ [] (by decide +kernel), hstep (Nat.le_refl 2) overflow []⟩

end ResultIter

end DSigMatcher.Diff
