import DSigMatcher.Engine.EarlyPasses

namespace DSigMatcher.Engine
open DSigMatcher.Base DSigMatcher.Framework DSigMatcher.Diff DSigMatcher.Pipeline DSigMatcher.Json
open DSigMatcher.Preflight (ofLoadsError)

/-- `int(row["nodes"])`, where the site names the error. -/
def requireNodes (nodes : Option Int) (site : Text) : Except DiffError Int :=
  match nodes with
  | some n => .ok n
  | none => .error (.wouldRaise (site ++ text " TypeError") intOfNone)

/-- Whether the mangled name is a generated one; only a text has `startswith`. -/
def startsWithSub : SqlValue → Except DiffError Bool
  | .null => .error (.wouldRaise (text "D:2179 AttributeError")
      (text "'NoneType' object has no attribute 'startswith'"))
  | .blob _ => .error (.wouldRaise (text "D:2179 TypeError")
      (text "startswith first arg must be bytes or a tuple of bytes, not str"))
  | .integer _ | .real _ => .error (.wouldRaise (text "D:2179 AttributeError")
      (text "the mangled1 value has no attribute 'startswith'"))
  | .text t => .ok (startsWith t (text "sub_"))

/-- The bonus of a partial match, while the sum stays below one. -/
def withBonus (ratio : Binary64) : Binary64 :=
  if ratio.add kMatchesBonusRatio < Binary64.one then ratio.add kMatchesBonusRatio else ratio

namespace Environment
variable (env : Environment)

/-- One round of `find_same_name`. -/
def addSameName (entry : SameNameRow) : Program Unit := do
  let row := entry.row
  let skipped ← Program.pureDiff
    (if env.config.ignoreSubNames then startsWithSub entry.mangled else .ok false)
  if skipped then pure ()
  else
    let checked ← env.checkMatch row
    match checked with
    | none => pure ()
    | some ratio =>
      let nodes1 ← Program.pureDiff (requireNodes row.nodes1 (text "D:2192"))
      let nodes2 ← Program.pureDiff (requireNodes row.nodes2 (text "D:2193"))
      if ratio.eq .one then Program.addMatch (itemOf row .one nodes1 nodes2) .best
      else Program.addMatch (itemOf row (withBonus ratio) nodes1 nodes2) .partials

/-- `fetchall()` comes before the loop, and so does the test for a match of all functions. -/
def findSameName : Program Unit := do
  let rows ← Program.lift (env.sameNameRows.mapM id)
  let st ← Program.matchState
  if rows.isEmpty || st.allFunctionsMatched then pure () else rows.forM env.addSameName

/-- `set(json.loads(names))`. -/
def namesSet (names : Option Text) (site : Text) : Except DiffError PySet :=
  match names with
  | none => .error (.wouldRaise (site ++ text " TypeError")
      (text "the JSON object must be str, bytes or bytearray, not NoneType"))
  | some t => (pyJsonLoadsList t >>= pySetFromList).mapError ofLoadsError

/-- How many of the names two functions share. -/
def namesRatio (names1 names2 : Option Text) : Except DiffError Binary64 := do
  let set1 ← namesSet names1 (text "D:2119")
  let set2 ← namesSet names2 (text "D:2120")
  let total := max set1.size set2.size
  let commons ← (pySetIntersectionSize set1 set2).mapError ofLoadsError
  if total = 0 then
    .error (.wouldRaise (text "D:2123 ZeroDivisionError") (text "float division by zero"))
  else return ((Binary64.ofNat commons).mul .one).div (.ofNat total)

/-- One round of `search_small_differences`. -/
def addSmallDifference (fetched : Except FetchError SmallRow) : Program Unit := do
  let small ← Program.lift fetched
  let row := small.row
  let nodes1 ← Program.pureDiff (requireNodes row.nodes1 (text "D:2116"))
  let nodes2 ← Program.pureDiff (requireNodes row.nodes2 (text "D:2117"))
  let names ← Program.pureDiff (namesRatio small.fNames small.dfNames)
  let st ← Program.matchState
  let better ← Program.pureDiff (st.hasBetterMatch row.name1 row.name2 names)
  if better || !decide (kDefaultPartialRatio ≤ names) then pure ()
  else
    let checked ← env.checkMatch row
    match checked with
    | none => pure ()
    | some ratio =>
      Program.addMatch (itemOf row ratio nodes1 nodes2) (if ratio.eq .one then .best else .partials)

def searchSmallDifferences : Program Unit := env.smallRows.forM env.addSmallDifference

/-- `StageFindPartialMatchesSmallDifferences`. -/
def smallDifferences : Program Unit :=
  if env.config.slowHeuristics then do
    Program.point
    env.searchSmallDifferences
    Program.point
  else pure ()

end Environment

/-- A function without a match, by address and name. -/
structure UnmatchedKey where
  ea : Option Text
  name : Option Text
  deriving DecidableEq

/-- A text or None of a column; the fetch decodes it. -/
def textCell (s : Statement) (column : Option Nat) (refused : Text) :
    Except FetchError (Option Text) := do
  (match column with
    | some c => requireDecodable (text "fetch") s c
    | none => .ok ())
  textOrNone (s.cell column) refused

def readUnmatched (db name address : Option Nat) (s : Statement) :
    Except FetchError (Side × UnmatchedKey) := do
  let refused (column : Option Nat) : Text :=
    text "get_unmatched_functions: a non-TEXT value in column '" ++
    s.columnNames.getD (column.getD 0) [] ++ text "' is not ported"
  let which ← textCell s db (refused db)
  let name' ← textCell s name (refused name)
  let ea ← textCell s address (refused address)
  return (if which = some (text "diff") then .diff else .main,⟨ea,name'⟩)

/-- Whether the function of a side has a match. -/
def isMatched (st : MatchState) (which : Side) (name : Option Text) : Bool :=
  match which with
  | .main => (st.primary.find? name).isSome
  | .diff => (st.secondary.find? name).isSome

/-- The functions of a side without a match, each once. -/
def leftover (st : MatchState) (which : Side) (rows : List (Side × UnmatchedKey)) : List UnmatchedKey :=
  rows.foldl (fun keys row =>
    if row.1 ≠ which ∨ isMatched st row.1 row.2.name ∨ row.2 ∈ keys then keys else keys ++ [row.2]) []

def kSpeedupPatchDiffRenamedFunctionMinRatio : Binary64 := literal 6 10

def renamedHeuristic : Text := text "Renamed or anonymous function match in patch diffing session"

namespace Environment
variable (env : Environment)

/-- A generated name of the main export against every leftover of the other. -/
def searchRenamed (diff : List UnmatchedKey) (main : UnmatchedKey) : Program Unit := do
  let generated ← Program.pureDiff (match main.name with
    | none => .error (.wouldRaise (text "D:2691 AttributeError")
        (text "'NoneType' object has no attribute 'startswith'"))
    | some name => .ok (startsWith name (text "sub_")))
  if generated then
    diff.forM fun key =>
      env.addMatchesInternal (env.rows (.remainingPair renamedHeuristic main.ea key.ea)) .best
        (some .partials) (some kSpeedupPatchDiffRenamedFunctionMinRatio) false
  else pure ()

/-- The lists are read once; the matches of the loop do not shorten them. -/
def findRemainingFunctions : Program Unit := do
  let stmt ← Program.lift (env.db .unmatchedUnion)
  let rows ← Program.lift (readRows stmt (readUnmatched (stmt.findColumn (text "db_name"))
    (stmt.findColumn (text "name")) (stmt.findColumn (text "address"))))
  let st ← Program.matchState
  let flags ← Program.flags
  if flags.isPatchDiff then (leftover st .main rows).forM (env.searchRenamed (leftover st .diff rows))
  else pure ()

end Environment

section
variable {env : Environment} {facts : Facts env} {start : State}

/-- A partial match with its bonus, or without. -/
theorem withBonus_made {sameCpu : Bool} {it : Item} {ratio : Binary64} (hpair : facts.PairedItem it)
    (hrated : facts.Found sameCpu it.pairKey ratio) (hone : ratio.eq .one = false)
    (hratio : it.ratio = withBonus ratio) : Made facts sameCpu it .partials := by
  unfold withBonus at hratio
  split_ifs at hratio with hlt
  · exact .boosted ratio hpair hrated hone hlt hratio
  · rw [← hratio] at hrated hone
    exact .rated hpair hrated hone

theorem keeps_addSameName {entry : SameNameRow} (hfetches : env.Fetches entry.row) :
    (env.addSameName entry).Keeps (Within facts start) fun _ => True := by
  refine (keeps_pureDiff _).bind fun skipped _ => .ite (fun _ => keeps_pure ()) fun _ => ?_
  have hpair := facts.rows entry.row hfetches
  refine (keeps_checkMatch hfetches).bind fun checked hchecked => ?_
  cases checked with
  | none => exact keeps_pure ()
  | some ratio =>
    refine (keeps_pureDiff _).bind fun nodes1 _ => (keeps_pureDiff _).bind fun nodes2 _ => ?_
    refine .ite (fun _ => keeps_addMatch (.best hpair rfl)) fun hone => keeps_addMatch ?_
    exact withBonus_made hpair (hchecked ratio rfl) (Bool.eq_false_iff.mpr hone) rfl

theorem mapM_id_ok {ε α : Type} {l : List (Except ε α)} {as : List α} (h : l.mapM id = .ok as) :
    ∀ a ∈ as, Except.ok a ∈ l := by
  induction l generalizing as with
  | nil =>
    rw [List.mapM_nil] at h
    rw [← Except.ok.inj h]
    exact fun a ha => absurd ha List.not_mem_nil
  | cons x l ih =>
    simp only [List.mapM_cons, bind_eq_ok] at h
    obtain ⟨b, hb, bs, hbs, h⟩ := h
    rw [← Except.ok.inj h]
    refine List.forall_mem_cons.mpr ⟨?_, fun a ha => List.mem_cons_of_mem x (ih hbs a ha)⟩
    exact (show x = .ok b from hb) ▸ List.mem_cons_self

theorem keeps_findSameName : env.findSameName.Keeps (Within facts start) fun _ => True := by
  refine (keeps_lift _).bind fun rows hrows => keeps_matchState.bind fun st _ => ?_
  refine .ite (fun _ => keeps_pure ()) fun _ => keeps_forM fun entry hentry => keeps_addSameName ?_
  exact env.rows_fetched .sameName _ (sameNameRows_rows (mapM_id_ok hrows entry hentry))

theorem keeps_addSmallDifference {fetched : Except FetchError SmallRow}
    (hfetches : ∀ small, fetched = .ok small → env.Fetches small.row) :
    (env.addSmallDifference fetched).Keeps (Within facts start) fun _ => True := by
  refine (keeps_lift fetched).bind fun small hsmall => (keeps_pureDiff _).bind fun nodes1 _ => ?_
  refine (keeps_pureDiff _).bind fun nodes2 _ => (keeps_pureDiff _).bind fun names _ => ?_
  refine keeps_matchState.bind fun st _ => (keeps_pureDiff _).bind fun better _ => ?_
  refine .ite (fun _ => keeps_pure ()) fun _ => ?_
  have hpair := facts.rows small.row (hfetches small hsmall)
  refine (keeps_checkMatch (hfetches small hsmall)).bind fun checked hchecked => ?_
  cases checked with
  | none => exact keeps_pure ()
  | some ratio =>
    refine keeps_addMatch ?_
    split_ifs with hone
    · exact .best hpair (Binary64.eq_one_iff.mp hone)
    · exact .rated hpair (hchecked ratio rfl) (Bool.eq_false_iff.mpr hone)

theorem keeps_smallDifferences : env.smallDifferences.Keeps (Within facts start) fun _ => True := by
  have hsearch : env.searchSmallDifferences.Keeps (Within facts start) fun _ => True :=
    keeps_forM fun fetched hfetched => keeps_addSmallDifference fun small hsmall =>
      env.rows_fetched _ _ (Environment.smallRows_rows (hsmall ▸ hfetched))
  refine .ite (fun _ => ?_) fun _ => keeps_pure ()
  exact keeps_point.bind fun _ _ => hsearch.bind fun _ _ => keeps_point

theorem keeps_findRemainingFunctions :
    env.findRemainingFunctions.Keeps (Within facts start) fun _ => True := by
  refine (keeps_lift _).bind fun stmt _ => (keeps_lift _).bind fun rows _ => ?_
  refine keeps_matchState.bind fun st _ => keeps_flags.bind fun flags _ => ?_
  refine .ite (fun _ => keeps_forM fun main _ => ?_) fun _ => keeps_pure ()
  refine (keeps_pureDiff _).bind fun generated _ => .ite (fun _ => ?_) fun _ => keeps_pure ()
  exact keeps_forM fun key _ => keeps_addMatchesInternal _ false (env.rows_fetched _)

end

end DSigMatcher.Engine
