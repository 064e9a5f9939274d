import DSigMatcher.Diff.CuReplay
import DSigMatcher.Diff.ResultIter
import DSigMatcher.Engine.RatioEngine
import DSigMatcher.Framework.Reading

namespace DSigMatcher.Engine
open DSigMatcher.Base DSigMatcher.Framework DSigMatcher.Diff

/-- The flags of a diff that its stages read. -/
structure DiffConfig where
  unreliable : Bool := false
  experimental : Bool := true
  slowHeuristics : Bool := true
  ignoreSubNames : Bool := true
  ignoreAllNames : Bool := false
  ignoreSmallFunctions : Bool := false
  maxProcessedRows : Int := 1000000

/-- What `%POSTFIX%` stands for. -/
def DiffConfig.filterText (config : DiffConfig) : Text :=
  if config.ignoreSmallFunctions then text " and f.instructions > 5 and df.instructions > 5 " else []

/-- The queries of the engine, with what they bind. -/
inductive SqlQuery
  | version | equalDbMd5 | equalDbExcept | callgraph | totals | equalMatches | sameProcessor
  | strippedCount | strippedRows | patchCount | sameName | smallDifferences | unmatchedUnion
  | heuristic (id : Nat) (filterText : Text)
  | remainingPair (heur : Text) (ea1 ea2 : Option Text)
  | unmatched (which : Side)
  | functionRow (which : Side) (name : Option Text)
  | functionsExists (name1 name2 : Text)
  | gap (which : Side) (low high : Option Text)
  | relatedConstants (constant : Text)
  | cuLookup (which : Side) (name : Option Text)
  | cuCartesian (lo1 hi1 lo2 hi2 : Binary64)

inductive RelatedCuSource
  | native | sql
  deriving DecidableEq

/-- A row of `EXPLAIN QUERY PLAN`. -/
structure PlanRow where
  parent : Int
  detail : Text
  deriving DecidableEq

/-- What a diff reads and never writes: its options, both exports, and the databases as what their
prepared queries give. -/
structure Environment where
  config : DiffConfig := {}
  tables : Tables
  problems : List Text := []
  db : SqlQuery → Except FetchError Statement
  cuSource : RelatedCuSource := .native
  cuPlan : Except FetchError (List PlanRow) := .ok []
  /-- The order of the constants two functions share, where one is installed. -/
  constantOrder : Option (Text → Text → List Text → List Text) := none

def ExportTable.functionRows (t : ExportTable) : FunctionRows where
  findRow := t.findRow
  selectFieldsUtf8Bad r := (t.row r).selectFieldsUtf8Bad

def ExportTable.functionTable (t : ExportTable) : FunctionTable where
  rows := t.rows.map ExportRow.toFunctionRow

/-- A step onto a row. -/
def nextRow (s : Statement) : Except FetchError (Option Statement) × Statement :=
  match s.step with
  | (.ok true,s) => (.ok (some s),s)
  | (.ok false,s) => (.ok none,s)
  | (.error e,s) => (.error e,s)

/-- The rows that a loop over `Step` comes by. -/
def rowsOf (s : Statement) : List (Except FetchError Statement) := collect nextRow (s.steps.length+1) s

/-- A loop over `Step` that reads each row. -/
def readRows {α : Type} (s : Statement) (read : Statement → Except FetchError α) :
    Except FetchError (List α) :=
  (rowsOf s).mapM fun row => row >>= read

/-- The total of an export. -/
def readTotal (s : Statement) : Except FetchError Int :=
  match s.cell (some 0) with
  | .integer n => .ok n
  | _ => .error (Statement.unsupported (text "find_equal_matches: a function count is not an INTEGER"))

/-- The steps that a source has before it. -/
def stepsAhead (s : SqlRowSource) : Nat :=
  if s.started then s.stmt.steps.length
  else
    match s.prepared with
    | .ok stmt => stmt.steps.length
    | .error _ => 0

/-- The calls of `Next`, up to the end of the query or its first error. -/
def sourceRows (s : SqlRowSource) : List (Except FetchError HeuristicRow) :=
  collect SqlRowSource.next (stepsAhead s+1) s

def replayRows (s : CuReplaySource) : List (Except FetchError HeuristicRow) :=
  collect CuReplaySource.next (s.rows1.length*s.rows2.length+1) s

/-- A row of the same-name query with its mangled name. -/
structure SameNameRow where
  row : HeuristicRow
  mangled : SqlValue

def nextSameName (s : SqlRowSource) : Except FetchError (Option SameNameRow) × SqlRowSource :=
  match s.next with
  | (.error e,s) => (.error e,s)
  | (.ok none,s) => (.ok none,s)
  | (.ok (some row),s) =>
    match s.stmt.findColumn (text "mangled1") with
    | none =>
      (.error (Statement.unsupported (text "find_same_name: the query does not select mangled1")),s)
    | some column => (.ok (some ⟨row,s.stmt.cell (some column)⟩),s)

def nextSmallRow (it : ResultIter) : Except FetchError (Option SmallRow) × ResultIter :=
  match it.next with
  | .error e => (.error e,it)
  | .ok (row,it) => (.ok row,it)

/-- A function row that a query found, or none in its table. -/
structure FunctionRowRef where
  which : Side
  row : Option Nat
  deriving DecidableEq

namespace Environment
variable (env : Environment)

def sqlRowSource (q : SqlQuery) : SqlRowSource where
  main := env.tables.main.functionRows
  diff := env.tables.diff.functionRows
  prepared := env.db q

def rows (q : SqlQuery) : List (Except FetchError HeuristicRow) := sourceRows (env.sqlRowSource q)

def sameNameRows : List (Except FetchError SameNameRow) :=
  let source := env.sqlRowSource .sameName
  collect nextSameName (stepsAhead source+1) source

/-- The numbers of functions of both exports. -/
def totals : Except FetchError (List Int) := env.db .totals >>= fun s => readRows s readTotal

/-- The names query, through the iterator that fetches in batches. -/
def smallRows : List (Except FetchError SmallRow) :=
  let source := env.sqlRowSource .smallDifferences
  collect nextSmallRow (stepsAhead source+1) { rows := { source } }

/-- The function of the row a statement is on; the fetch decodes every column. -/
def functionRowRef (fallback : Side) (address dbName : Option Nat) (s : Statement) :
    Except FetchError FunctionRowRef :=
  let which :=
    if dbName.isNone then fallback else if s.textAt dbName = text "diff" then .diff else .main
  let table := env.tables.table which
  let row :=
    match s.cell address with
    | .text t => table.findRow t
    | _ => none
  if row.any fun r => (table.row r).anyColumnUtf8Bad then
    .error (Statement.wouldRaise (text "fetch")
      (text "Could not decode to UTF-8 a functions column (invalid UTF-8) of the function at address " ++
        s.textAt address))
  else .ok ⟨which,row⟩

/-- `FetchFunctionRows`, with a limit or without. -/
def fetchFunctionRows (q : SqlQuery) (fallback : Side) (limit : Option Nat) :
    Except FetchError (List FunctionRowRef) := do
  let stmt ← env.db q
  let address := stmt.findColumn (text "address")
  let dbName := stmt.findColumn (text "db_name")
  if address.isNone then
    .error (Statement.unsupported (text "FetchFunctionRows: the query does not select `address`"))
  else
    let found := rowsOf stmt
    (found.take (limit.getD found.length)).mapM fun row =>
      row >>= env.functionRowRef fallback address dbName

/-- `GetFunctionRow`: what Python raises counts as no row. -/
def getFunctionRow (which : Side) (name : Option Text) (refused : Text) :
    Except FetchError (Option Nat) :=
  match env.fetchFunctionRows (.functionRow which name) which (some 1) with
  | .error (.diff (.wouldRaise _ _)) => .ok none
  | .error e => .error e
  | .ok [] => .ok none
  | .ok (ref::_) =>
    match ref.row with
    | some r => .ok (some r)
    | none => .error (Statement.unsupported refused)

/-- `CuReplayPlanOk`: two scans, the first function outside. -/
def cuReplayPlanOk : Except FetchError Bool :=
  match env.cuPlan with
  | .error (.diff (.wouldRaise _ _)) => .ok false
  | .error e => .error e
  | .ok plan => .ok (plan = [⟨0,text "SCAN f"⟩,⟨0,text "SCAN df"⟩])

/-- The pairs of two compilation units, replayed or by the query. -/
def cuRows (lo1 hi1 lo2 hi2 : Binary64) :
    Except FetchError (List (Except FetchError HeuristicRow)) := do
  let native ← (if env.cuSource = .native then env.cuReplayPlanOk else .ok false)
  return if native then
    replayRows (.new env.tables.main.functionTable env.tables.diff.functionTable lo1 hi1 lo2 hi2)
  else env.rows (.cuCartesian lo1 hi1 lo2 hi2)

end Environment

/-- A step onto a row leaves fewer steps. -/
theorem step_length {s t : Statement} (h : s.step = (.ok true,t)) :
    t.steps.length < s.steps.length := by
  unfold Statement.step at h
  cases hsteps : s.steps with
  | nil => simp [hsteps] at h
  | cons step steps =>
    cases step with
    | failed failure => simp [hsteps] at h
    | row cells =>
      simp only [hsteps, Prod.mk.injEq] at h
      rw [← h.2]
      exact Nat.lt_succ_self _

/-- The loop over the rows of a statement ends behind the last one. -/
theorem rowsOf_gives (s : Statement) : Gives nextRow (rowsOf s) s := by
  refine @gives_collect _ _ _ _ (fun s => s.steps.length) ?_ _ _ (Nat.lt_succ_self _)
  intro s row t hnext
  unfold nextRow at hnext
  rcases hstep : s.step with ⟨r, u⟩
  rw [hstep] at hnext
  rcases r with e | b
  · cases hnext
  cases b with
  | false => cases hnext
  | true =>
    cases hnext
    exact step_length hstep

theorem fetchRow_steps {s t : SqlRowSource} {row : HeuristicRow}
    (h : s.fetchRow = (.ok (some row),t)) :
    t.stmt.steps.length < s.stmt.steps.length ∧ t.started = s.started := by
  unfold SqlRowSource.fetchRow at h
  split_ifs at h
  · cases h
  rcases hstep : s.stmt.step with ⟨r, u⟩
  rw [hstep] at h
  rcases r with e | b
  · cases h
  cases b with
  | false => cases h
  | true =>
    obtain ⟨-, rfl⟩ := Prod.mk.inj h
    exact ⟨step_length hstep, rfl⟩

/-- A source gives its rows, and ends behind the last one or its first error. -/
theorem sourceRows_gives (s : SqlRowSource) : Gives SqlRowSource.next (sourceRows s) s := by
  refine @gives_collect _ _ _ _ stepsAhead ?_ _ _ (Nat.lt_succ_self _)
  intro s row t hnext
  unfold SqlRowSource.next at hnext
  cases hstarted : s.started with
  | true =>
    rw [hstarted, if_pos rfl] at hnext
    obtain ⟨hsteps, ht⟩ := fetchRow_steps hnext
    rw [stepsAhead, if_pos (ht.trans hstarted), stepsAhead, if_pos hstarted]
    exact hsteps
  | false =>
    rw [hstarted, if_neg Bool.false_ne_true] at hnext
    rcases hstart : s.start with ⟨r, u⟩
    rw [hstart] at hnext
    cases r with
    | error e => cases hnext
    | ok v =>
      obtain ⟨hsteps, ht⟩ := fetchRow_steps hnext
      unfold SqlRowSource.start at hstart
      have hahead : stepsAhead s = match s.prepared with
          | .ok stmt => stmt.steps.length
          | .error _ => 0 := by
        rw [stepsAhead, hstarted, if_neg Bool.false_ne_true]
      rw [hahead]
      cases hprepared : s.prepared with
      | error e => simp [hprepared] at hstart
      | ok stmt =>
        simp only [hprepared] at hstart
        split_ifs at hstart
        · obtain rfl := (Prod.mk.inj hstart).2
          rw [stepsAhead, if_pos ht]
          exact hsteps
        · cases hstart

/-- The rows of the same-name query are rows of its source. -/
theorem sameNameRows_rows {env : Environment} {row : SameNameRow}
    (h : Except.ok row ∈ env.sameNameRows) : Except.ok row.row ∈ env.rows .sameName := by
  refine mem_collect_map (f := SameNameRow.row) (fun s b t hnext => ?_) h
  unfold nextSameName at hnext
  rcases hstep : s.next with ⟨r, u⟩
  rw [hstep] at hnext
  rcases r with e | found
  · cases hnext
  cases found with
  | none => cases hnext
  | some fetched =>
    dsimp only at hnext
    split at hnext
    · cases hnext
    · cases hnext
      rfl

end DSigMatcher.Engine
