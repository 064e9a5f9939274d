import DSigMatcher.Engine.HeuristicTiers

namespace DSigMatcher.Engine
open DSigMatcher.Base DSigMatcher.Framework DSigMatcher.Diff DSigMatcher.Pipeline DSigMatcher.Preflight

/-- Python decodes a TEXT cell when it fetches the row. -/
def requireDecodable (site : Text) (s : Statement) (column : Nat) : Except FetchError Unit :=
  if s.badText column then
    .error (Statement.wouldRaise site
      (text "OperationalError: Could not decode to UTF-8 column '" ++ s.columnNames.getD column [] ++
        text "'"))
  else .ok ()

def requireRowDecodable (site : Text) (s : Statement) : Except FetchError Unit :=
  (List.range s.columnNames.length).forM (requireDecodable site s)

/-- The first step of a statement. -/
def firstStep (s : Statement) : Except FetchError (Bool × Statement) :=
  match s.step with
  | (.ok row,s) => .ok (row,s)
  | (.error e,_) => .error e

/-- `fetchone()` builds the row and steps once more. -/
def stepBehind (s : Statement) : Except FetchError Unit := (firstStep s).map fun _ => ()

def sqlCell : SqlValue → SqlCell
  | .null => .null
  | .integer n => .integer (Int64.ofInt n)
  | .real x => .real x
  | .text t => .text t
  | .blob b => .blob b

/-- A count stands in the first column. -/
def countValue (s : Statement) : Except FetchError Int :=
  match s.cell (some 0) with
  | .integer n => .ok n
  | _ => .error (Statement.unsupported (text "equal_db: the count is not an INTEGER"))

namespace Environment
variable (env : Environment)

/-- A version that cannot be read at all is no Diaphora database; another version only logs. -/
def checkVersion : Program Bool :=
  match env.db .version >>= firstStep with
  | .error (.diff (.wouldRaise _ _)) => pure false
  | .error e => Program.lift (.error e)
  | .ok (false,_) => pure false
  | .ok (true,s) => do
    Program.lift (requireDecodable (text "fetch") s 0)
    Program.lift (stepBehind s)
    return true

/-- The answer is only logged. -/
def equalDb : Program Unit := do
  let (_,md5) ← Program.lift (env.db .equalDbMd5 >>= firstStep)
  let same ← Program.lift (countValue md5)
  if same = 1 then pure ()
  else do
    let (_,except) ← Program.lift (env.db .equalDbExcept >>= firstStep)
    let _ ← Program.lift (countValue except)

/-- The difference is only logged. -/
def checkCallgraph : Program Unit := do
  let stmt ← Program.lift (env.db .callgraph)
  let primes := stmt.findColumn (text "callgraph_primes")
  let all := stmt.findColumn (text "callgraph_all_primes")
  let rows ← Program.lift (readRows stmt fun s => do
    requireRowDecodable (text "fetch") s
    return (sqlCell (s.cell primes),sqlCell (s.cell all)))
  match rows with
  | [row1,row2] => do
    let cg1 ← Program.pureDiff (decimalOfCell row1.1 (text "D:1300"))
    let factors1 ← Program.pureDiff (jsonOfCell row1.2 (text "D:1301"))
    let cg2 ← Program.pureDiff (decimalOfCell row2.1 (text "D:1302"))
    let factors2 ← Program.pureDiff (jsonOfCell row2.2 (text "D:1303"))
    let _ ← Program.pureDiff (callgraphDifference cg1 factors1 cg2 factors2)
  | _ =>
    Program.raise (text "D:1322 Exception")
      (text "Not enough rows in databases! Size is " ++ decimal rows.length)

def sameProcessor : Program Bool := do
  let (same,s) ← Program.lift (env.db .sameProcessor >>= firstStep)
  if same then do
    Program.lift (stepBehind s)
    return true
  else return false

end Environment

/-- A row of the equal functions. -/
structure EqualRow where
  ea : Option Text
  name : Option Text
  nodes : SqlValue

/-- A text or None; another value is refused. -/
def textOrNone (v : SqlValue) (refused : Text) : Except FetchError (Option Text) :=
  match v with
  | .null => .ok none
  | .text t => .ok (some t)
  | _ => .error (Statement.unsupported refused)

theorem textOrNone_ok {v : SqlValue} {refused : Text} {name : Option Text}
    (h : textOrNone v refused = .ok name) : textOf v = name := by
  cases v with
  | null => exact Except.ok.inj h
  | text t => exact Except.ok.inj h
  | integer n => cases h
  | real x => cases h
  | blob b => cases h

def readEqualRow (ea name nodes : Option Nat) (s : Statement) : Except FetchError EqualRow := do
  requireRowDecodable (text "fetch") s
  let address ← textOrNone (s.cell ea) (text "find_equal_matches: a non-TEXT address is not ported")
  let mangled ← textOrNone (s.cell name)
    (text "find_equal_matches: a non-TEXT mangled_function is not ported")
  return ⟨address,mangled,s.cell nodes⟩

/-- An equal function is a best match with its own name on both sides. -/
def addEqual (row : EqualRow) : Program Unit :=
  match row.nodes with
  | .null => Program.raise (text "D:1437 TypeError") intOfNone
  | .integer n =>
    Program.addMatch ⟨row.ea,row.name,row.ea,row.name,text "100% equal",.one,n,n⟩ .best
  | _ => Program.refuse
      (text "find_equal_matches: a non-INTEGER nodes value (int() of it is not ported)")

/-- All rows are fetched before the first one is used. -/
def Environment.findEqualMatches (env : Environment) : Program Unit := do
  let totals ← Program.lift env.totals
  match totals with
  | [total1,total2] => do
    Program.setTotals total1 total2
    let stmt ← Program.lift (env.db .equalMatches)
    let rows ← Program.lift (readRows stmt (readEqualRow (stmt.findColumn (text "ea"))
      (stmt.findColumn (text "mangled_function")) (stmt.findColumn (text "nodes"))))
    rows.forM addEqual
  | _ => Program.raise (text "D:1419 Exception") (text "Malformed database!")

/-- `CountOf`. -/
def countOf (s : Statement) : Except FetchError Int := do
  let (row,s) ← firstStep s
  match row, s.cell (some 0) with
  | true, .integer n => do
    stepBehind s
    return n
  | _, _ => .error (Statement.unsupported
      (text "apply_dirty_heuristics: the count query returned no INTEGER"))

/-- `(matches * 100) / total`, where both are exact doubles. -/
def percentOf (matched total : Int) (site : Text) : Except DiffError Binary64 :=
  if matched < 0 ∨ 2^53/100 < matched then
    .error (.unsupportedInput (site ++ text ": a match count above 2**53 / 100 is not ported"))
  else if total = 0 then
    .error (.wouldRaise (site ++ text " ZeroDivisionError")
      (text "division by zero (total_functions1 == 0)"))
  else if 2^53 < total ∨ total < -2^53 then
    .error (.unsupportedInput (site ++ text ": a function count above 2**53 is not ported"))
  else .ok ((Statement.doubleOf (matched*100)).div (Statement.doubleOf total))

def kSpeedupStrippedBinariesMinPercent : Binary64 := .ofNat 99

def kSpeedupPatchDiffSymbolsMinPercent : Binary64 := .ofNat 90

namespace Environment
variable (env : Environment)

/-- The percent of a count of matches. -/
def matchedPercent (q : SqlQuery) (site : Text) : Program Binary64 := do
  let st ← Program.matchState
  let matched ← Program.lift (env.db q >>= countOf)
  Program.pureDiff (percentOf matched st.total1 site)

def searchJustStrippedBinaries : Program Bool := do
  let percent ← env.matchedPercent .strippedCount (text "D:2562")
  if kSpeedupStrippedBinariesMinPercent ≤ percent then do
    Program.setFlags fun flags => { flags with isSymbolsStripped := true }
    env.addMatchesFromQueryRatio (env.rows .strippedRows) .best .partials
    return true
  else return false

/-- The default script is a new hook: it has analysed nothing yet. -/
def searchPatchdiffWithSymbols : Program Bool := do
  let percent ← env.matchedPercent .patchCount (text "D:2609")
  if kSpeedupPatchDiffSymbolsMinPercent < percent then do
    Program.setFlags fun flags => { flags with isPatchDiff := true, hooksLoaded := true }
    Program.clearHook
    return true
  else return false

def applyDirtyHeuristics : Program Bool := do
  let stripped ← env.searchJustStrippedBinaries
  if stripped then return true else env.searchPatchdiffWithSymbols

end Environment

section
variable {env : Environment} {I : State → Prop}

theorem keeps_checkVersion : env.checkVersion.Keeps I fun _ => True := by
  unfold Environment.checkVersion
  rcases env.db .version >>= firstStep with e | ⟨row, s⟩
  · cases e with
    | ioFailure what => exact keeps_any (keeps_lift _)
    | diff e =>
      cases e with
      | wouldRaise site what => exact keeps_pure false
      | unsupportedInput what => exact keeps_any (keeps_lift _)
  · cases row with
    | false => exact keeps_pure false
    | true => exact (keeps_lift _).bind fun _ _ => (keeps_lift _).bind fun _ _ => keeps_pure true

theorem keeps_equalDb : env.equalDb.Keeps I fun _ => True := by
  refine (keeps_lift _).bind fun md5 _ => (keeps_lift _).bind fun same _ => ?_
  refine .ite (fun _ => keeps_pure ()) fun _ => ?_
  exact (keeps_lift _).bind fun _ _ => (keeps_lift _).bind fun _ _ => keeps_pure ()

theorem keeps_checkCallgraph : env.checkCallgraph.Keeps I fun _ => True := by
  refine (keeps_lift _).bind fun stmt _ => (keeps_lift _).bind fun rows _ => ?_
  split
  · exact (keeps_pureDiff _).bind fun _ _ => (keeps_pureDiff _).bind fun _ _ =>
      (keeps_pureDiff _).bind fun _ _ => (keeps_pureDiff _).bind fun _ _ =>
      (keeps_pureDiff _).bind fun _ _ => keeps_pure ()
  · exact .raise _

theorem keeps_sameProcessor : env.sameProcessor.Keeps I fun _ => True := by
  refine (keeps_lift _).bind fun first _ => .ite (fun _ => ?_) fun _ => keeps_pure false
  exact (keeps_lift _).bind fun _ _ => keeps_pure true

/-- A row that a loop has read is a row of the statement. -/
theorem readRows_ok {α : Type} {s : Statement} {read : Statement → Except FetchError α} {as : List α}
    (h : readRows s read = .ok as) : ∀ a ∈ as, ∃ row, Except.ok row ∈ rowsOf s ∧ read row = .ok a := by
  have hmap : ∀ (rows : List (Except FetchError Statement)) (as : List α),
      (rows.mapM fun row => row >>= read) = .ok as →
      ∀ a ∈ as, ∃ row, Except.ok row ∈ rows ∧ read row = .ok a := by
    intro rows
    induction rows with
    | nil =>
      intro as has a ha
      rw [List.mapM_nil] at has
      rw [← Except.ok.inj has] at ha
      cases ha
    | cons row rows ih =>
      intro as has a ha
      simp only [List.mapM_cons, bind_eq_ok] at has
      obtain ⟨b, ⟨s, hs, hb⟩, bs, hbs, has⟩ := has
      rw [← Except.ok.inj has] at ha
      rcases List.mem_cons.mp ha with rfl | ha
      · exact ⟨s, hs ▸ List.mem_cons_self, hb⟩
      · obtain ⟨row', hrow', hread⟩ := ih bs hbs a ha
        exact ⟨row', List.mem_cons_of_mem _ hrow', hread⟩
  exact hmap _ _ h

/-- A row of the equal functions that the engine reads. -/
def Environment.Equal (env : Environment) (row : EqualRow) : Prop :=
  ∃ stmt, env.db .equalMatches = .ok stmt ∧ ∃ s, Except.ok s ∈ rowsOf stmt ∧
    textOf (s.cell (stmt.findColumn (text "ea"))) = row.ea ∧
    textOf (s.cell (stmt.findColumn (text "mangled_function"))) = row.name

/-- What the totals and the best matches of the equal functions keep, the stage keeps. -/
theorem findEqualMatches_keeps
    (htotals : ∀ total1 total2, env.totals = .ok [total1,total2] →
      (Program.setTotals total1 total2).Keeps I fun _ => True)
    (hequal : ∀ row, env.Equal row → ∀ n, (Program.addMatch
      ⟨row.ea,row.name,row.ea,row.name,text "100% equal",.one,n,n⟩ .best).Keeps I fun _ => True) :
    env.findEqualMatches.Keeps I fun _ => True := by
  refine (keeps_lift _).bind fun totals htotal => ?_
  split
  · refine (htotals _ _ htotal).bind fun _ _ => (keeps_lift _).bind fun stmt hstmt => ?_
    refine (keeps_lift _).bind fun rows hrows => keeps_forM fun row hrow => ?_
    obtain ⟨s, hs, hread⟩ := readRows_ok hrows row hrow
    simp only [readEqualRow, bind_eq_ok] at hread
    obtain ⟨-, -, address, haddress, mangled, hmangled, hread⟩ := hread
    have hrow : env.Equal row := by
      rw [← Except.ok.inj hread]
      exact ⟨stmt, hstmt, s, hs, textOrNone_ok haddress, textOrNone_ok hmangled⟩
    unfold addEqual
    split
    · exact .raise _
    · exact hequal row hrow _
    · exact .raise _
  · exact .raise _

end

section
variable {env : Environment} {facts : Facts env} {start : State}

theorem keeps_findEqualMatches : env.findEqualMatches.Keeps (Within facts start) fun _ => True := by
  refine findEqualMatches_keeps (fun _ _ h => keeps_setTotals (facts.totals _ _ h)) ?_
  intro row ⟨stmt, hstmt, s, hs, hea, hname⟩ n
  exact keeps_addMatch (.best (facts.equalMatches stmt hstmt s hs row.ea row.name hea hname) rfl)

theorem keeps_matchedPercent (q : SqlQuery) (site : Text) :
    (env.matchedPercent q site).Keeps (Within facts start) fun _ => True :=
  keeps_matchState.bind fun _ _ => (keeps_lift _).bind fun _ _ => keeps_any (keeps_pureDiff _)

theorem keeps_searchJustStrippedBinaries :
    env.searchJustStrippedBinaries.Keeps (Within facts start) fun _ => True := by
  refine (keeps_matchedPercent _ _).bind fun percent _ => .ite (fun _ => ?_) fun _ => keeps_pure false
  have hrows : (env.addMatchesFromQueryRatio (env.rows .strippedRows) .best .partials).Keeps
      (Within facts start) fun _ => True :=
    keeps_unlessAllMatched (keeps_addMatchesInternal none false (env.rows_fetched _))
  refine (keeps_setFlags ?_).bind fun _ _ => hrows.bind fun _ _ => keeps_pure true
  exact fun _ => rfl

theorem keeps_searchPatchdiffWithSymbols :
    env.searchPatchdiffWithSymbols.Keeps (Within facts start) fun _ => True := by
  refine (keeps_matchedPercent _ _).bind fun percent _ => .ite (fun _ => ?_) fun _ => keeps_pure false
  refine (keeps_setFlags ?_).bind fun _ _ => keeps_clearHook.bind fun _ _ => keeps_pure true
  exact fun _ => rfl

theorem keeps_applyDirtyHeuristics :
    env.applyDirtyHeuristics.Keeps (Within facts start) fun _ => True :=
  keeps_searchJustStrippedBinaries.bind fun _ _ =>
    .ite (fun _ => keeps_pure true) fun _ => keeps_searchPatchdiffWithSymbols

end

end DSigMatcher.Engine
