import DSigMatcher.Engine.WholeRun

namespace DSigMatcher.Engine
open DSigMatcher.Base DSigMatcher.Framework DSigMatcher.Diff DSigMatcher.Pipeline

/-- A query with these columns and rows. -/
def given (columns : List String) (rows : List (List SqlValue)) : Except FetchError Statement :=
  .ok { columnNames := columns.map text, steps := rows.map SqlStep.row }

/-- The rows of a query that selects these pairs. -/
def samplePairs (pairs : List (Nat × Nat)) : Except FetchError Statement :=
  given ["ea","name1","ea2","name2","description","nodes1","nodes2","md1","md2","mangled1"] <|
    pairs.map fun p =>
      let f := sampleTables.main.row p.1
      let df := sampleTables.diff.row p.2
      [f.address.value,f.name.value,df.address.value,df.name.value,.text (text "Heuristic"),
        .integer f.nodes.value,.integer df.nodes.value,.real f.mdSqlReal,.real df.mdSqlReal,f.name.value]

/-- The functions between `parse` and `close`. -/
def sampleGap : Side → List (List SqlValue)
  | .main => [[.text (text "9216")]]
  | .diff => [[.text (text "9232")]]

def sampleDatabase : SqlQuery → Except FetchError Statement
  | .version => given ["value"] [[.text (text "3.2")]]
  | .equalDbMd5 => given ["count(*)"] [[.integer 1]]
  | .callgraph =>
    let primes : List SqlValue := [.text (text "3"),.text (text "\x7b\"3\": 1\x7d")]
    given ["callgraph_primes","callgraph_all_primes"] [primes,primes]
  | .totals => given ["total"] [[.integer 6],[.integer 7]]
  | .equalMatches =>
    given ["ea","mangled_function","nodes"] [[.text (text "4096"),.text (text "main"),.integer 1]]
  | .sameProcessor => given ["1"] [[.integer 1]]
  | .sameName => samplePairs [(1,1),(4,5)]
  | .heuristic 15 _ => samplePairs [(2,2),(2,3)]
  | .heuristic _ _ => samplePairs []
  | .gap which low _ => given ["address"] <|
    if low = some (text "8192") ∨ low = some (text "8208") then sampleGap which else []
  | .unmatched which => given ["name","address"] <|
    (sampleTables.table which).rows.map fun row => [row.name.value,row.address.value]
  | _ => given ["address"] []

def sampleEnvironment : Environment where
  config := { experimental := false, slowHeuristics := false }
  tables := sampleTables
  db := sampleDatabase
  cuSource := .sql

/-- The row of a pair. -/
def samplePair (p : Nat × Nat) : HeuristicRow :=
  let f := sampleTables.main.row p.1
  let df := sampleTables.diff.row p.2
  ⟨f.addrIdOf.getD [],df.addrIdOf.getD [],some p.1,some p.2,f.nameIdOf,df.nameIdOf,text "Heuristic",
    some f.nodes.value,some df.nodes.value,some f.mdSqlReal,some df.mdSqlReal⟩

/-- The pairs that the queries give. -/
def samplePaired : List (Nat × Nat) := [(1,1),(4,5),(2,2),(2,3)]

theorem sampleEnvironment_rows {q : SqlQuery} {row : HeuristicRow}
    (h : Except.ok row ∈ sampleEnvironment.rows q) : row ∈ samplePaired.map samplePair := by
  have hpairs (pairs : List (Nat × Nat)) (hpairs : pairs ∈ [[(1,1),(4,5)],[(2,2),(2,3)],[]])
      (hq : sampleEnvironment.db q = samplePairs pairs) : row ∈ samplePaired.map samplePair := by
    have hrows : sampleEnvironment.rows q =
        sourceRows ⟨sampleTables.main.functionRows, sampleTables.diff.functionRows, samplePairs pairs, {},
          {}, false, false, 0⟩ := by
      rw [← hq]
      rfl
    have hall : ∀ pairs ∈ [[(1,1),(4,5)],[(2,2),(2,3)],[]], ∀ x ∈ sourceRows
        ⟨sampleTables.main.functionRows, sampleTables.diff.functionRows, samplePairs pairs, {}, {}, false,
          false, 0⟩, x ∈ samplePaired.map fun p => Except.ok (samplePair p) := by decide +kernel
    obtain ⟨p, hp, hrow⟩ := List.mem_map.mp (hall pairs hpairs _ (hrows ▸ h))
    exact List.mem_map.mpr ⟨p, hp, Except.ok.inj hrow⟩
  have herror {e : FetchError} (hq : sampleEnvironment.rows q = [.error e]) :
      row ∈ samplePaired.map samplePair := by
    rw [hq, List.mem_singleton] at h
    cases h
  cases q with
  | sameName => exact hpairs [(1,1),(4,5)] (by decide) rfl
  | heuristic id filterText =>
    by_cases hid : id = 15
    · exact hpairs [(2,2),(2,3)] (by decide) (by rw [hid]; rfl)
    · refine hpairs [] (by decide) ?_
      show sampleDatabase (.heuristic id filterText) = _
      unfold sampleDatabase
      split
      all_goals first | rfl | simp_all
  | unmatched which => cases which <;> exact herror rfl
  | version | equalDbMd5 | equalDbExcept | callgraph | totals | equalMatches | sameProcessor
  | strippedCount | strippedRows | patchCount | smallDifferences | unmatchedUnion
  | remainingPair heur ea1 ea2 | functionRow which name | functionsExists name1 name2
  | gap which low high | relatedConstants constant | cuLookup which name | cuCartesian lo1 hi1 lo2 hi2 =>
    exact herror rfl

theorem sampleEnvironment_reads : sampleEnvironment.ReadsExports where
  md1 q row r hrow hr := by
    have hall : ∀ row ∈ samplePaired.map samplePair,
        ∀ r ∈ row.row1, row.md1 = sampleTables.main.mdSql r := by decide +kernel
    exact hall row (sampleEnvironment_rows hrow) r hr
  md2 q row r hrow hr := by
    have hall : ∀ row ∈ samplePaired.map samplePair,
        ∀ r ∈ row.row2, row.md2 = sampleTables.diff.mdSql r := by decide +kernel
    exact hall row (sampleEnvironment_rows hrow) r hr
  addresses which := by cases which <;> decide +kernel

theorem isInt64_zero : IsInt64 0 := ⟨by decide, by decide⟩

/-- A session that has not begun. -/
def unstarted : State := .initial 0 0 isInt64_zero isInt64_zero {}

def sampleRun : Run Rest := sampleEnvironment.stages.runPipeline 3 none unstarted

/-- The diff comes to its end, with two best matches and four partial ones of which two are tied. -/
theorem sampleRun_ends :
    (sampleRun.outcome = .returned true ∧ sampleRun.session.flags.isSameProcessor = true) ∧
    (sampleRun.session.matchState.best.length,sampleRun.session.matchState.partials.length) = (2,4) ∧
    sampleRun.session.final.choosers.multimatch.length = 2 := by
  decide +kernel

/-- It saves in its loop; there the cache, empty at first, gets the last of its five ratios. -/
theorem sampleRun_saves :
    (sampleRun.saves.map fun y => y.2.ratiosCache.entries.length) =
      [0,0,2,2,4,4,4,4,4,5,5,5,5,5,5,5,5,5] ∧
    ∃ y ∈ sampleRun.saves, y.1.done = .matchesDiffing ∧ y.2.ratiosCache.entries.length = 4 := by
  decide +kernel

theorem sampleRun_ended : sampleRun.outcome ≠ .running := by
  rw [sampleRun_ends.1.1]
  exact Outcome.noConfusion

end DSigMatcher.Engine
