import DSigMatcher.Engine.NamePasses

namespace DSigMatcher.Engine
open DSigMatcher.Base DSigMatcher.Framework DSigMatcher.Diff DSigMatcher.Pipeline DSigMatcher.Json
open DSigMatcher.Preflight (ofLoadsError)

def kRelatedMatchesMinRatio : Binary64 := literal 8 10

/-- `str` of a value; a list or a dict is in no set. -/
def pyStr : PyValue → Except DiffError Text
  | .none => .ok (text "None")
  | .bool b => .ok (if b then text "True" else text "False")
  | .int digits => .ok digits
  | .float x => .ok (pyReprFloat x)
  | .str t => .ok t
  | v =>
    .error (.unsupportedInput (text "PyStr: str() of a " ++ kindName v.kind ++
      text " is not ported"))

/-- `row["constants_count"] > 0`. -/
def constantsCountPositive (count : IntCell) (site : Text) : Except DiffError Bool :=
  if count.isNull then
    .error (.wouldRaise site
      (text "TypeError: '>' not supported between instances of 'NoneType' and 'int'"))
  else if count.notInteger then
    .error (.unsupportedInput (site ++ text ": functions.constants_count is not INTEGER (not ported)"))
  else .ok (0 < count.value)

/-- `set(json.loads(constants))`. -/
def constantsSet (constants : Cell) (site : Text) : Except DiffError PySet :=
  match constants with
  | .null => .error (.wouldRaise site
      (text "TypeError: the JSON object must be str, bytes or bytearray, not NoneType"))
  | .blob _ => .error (.unsupportedInput
      (site ++ text ": functions.constants is a BLOB (json.loads(bytes) not ported)"))
  | .str t => (pyJsonLoadsList t >>= pySetFromList).mapError ofLoadsError

/-- No surrogate half stands in the text. -/
def isBindable : Text → Bool
  | a::b::t => !(a = 0xED && 0xA0 ≤ b && b ≤ 0xBF) && isBindable (b::t)
  | _ => true

def requireBindableStr (t site : Text) : Except DiffError Unit :=
  if isBindable t then .ok ()
  else .error (.wouldRaise site
    (text "UnicodeEncodeError: 'utf-8' codec can't encode a surrogate: surrogates not allowed"))

namespace Environment
variable (env : Environment)

/-- An installed order of the constants is a permutation of the documented one. -/
def orderedConstants (row1 row2 : Nat) (texts : List Text) : Except DiffError (List Text) :=
  match env.constantOrder with
  | none => .ok texts
  | some reorder =>
    let reordered := reorder ((env.tables.main.row row1).name.bytes.getD [])
      ((env.tables.diff.row row2).name.bytes.getD []) texts
    if texts.length < 2 then .ok texts
    else if reordered.Perm texts then .ok reordered
    else .error (.unsupportedInput
      (text "RelatedConstantOrder: the installed order is not a permutation of the intersection"))

/-- The texts of the constants that both functions have. -/
def sharedConstants (row1 row2 : Nat) : Except DiffError (List Text) := do
  let set1 ← constantsSet (env.tables.main.row row1).constants
    (text "D:3370 set(json.loads(main constants))")
  let set2 ← constantsSet (env.tables.diff.row row2).constants
    (text "D:3371 set(json.loads(diff constants))")
  let shared ← (pySetIntersection set1 set2).mapError ofLoadsError
  let texts ← shared.mapM pyStr
  env.orderedConstants row1 row2 texts

def addRelatedConstant (constant : Text) : Program Unit := do
  Program.pureDiff (requireBindableStr constant (text "D:3390 cur.execute(str(constant))"))
  env.addMatchesInternal (env.rows (.relatedConstants constant)) .best (some .partials) none false

def findRelatedConstants (row1 row2 : Nat) : Program Unit := do
  let texts ← Program.pureDiff (env.sharedConstants row1 row2)
  texts.forM env.addRelatedConstant

def notTextAddress : Text :=
  text "get_function_row: the fetched row's address is not a TEXT address of the export"

/-- A match in the loop of `find_related_matches`. -/
def relatedMatch (it : Item) : Program Unit := do
  let main ← Program.lift (env.getFunctionRow .main it.name1 notTextAddress)
  let diff ← Program.lift (env.getFunctionRow .diff it.name2 notTextAddress)
  match main, diff with
  | some row1, some row2 => do
    let first ← Program.pureDiff (constantsCountPositive (env.tables.main.row row1).constantsCount
      (text "D:3493 main constants_count > 0"))
    let second ← Program.pureDiff
      (if first then constantsCountPositive (env.tables.diff.row row2).constantsCount
        (text "D:3493 diff constants_count > 0") else .ok false)
    if second then env.findRelatedConstants row1 row2 else pure ()
  | _, _ => pure ()

/-- The sorted matches of a category, up to the first ratio that is too low; pairs of names that are
done are passed over. -/
def relatedWalk (dones : List Text) : List Item → Program (List Text)
  | [] => pure dones
  | it::its =>
    if namePairKey it ∈ dones then relatedWalk dones its
    else if it.ratio < kRelatedMatchesMinRatio then pure (namePairKey it::dones)
    else do
      env.relatedMatch it
      relatedWalk (namePairKey it::dones) its

/-- The partial matches are sorted when the best ones are done. -/
def findRelatedMatches : Program Unit := do
  Program.cleanup .l3471
  let st ← Program.matchState
  let dones ← env.relatedWalk [] (st.sortedResults .best)
  let st ← Program.matchState
  let _ ← env.relatedWalk dones (st.sortedResults .partials)

/-- The first compilation unit of a function, if it has one: where it starts and where it ends. -/
def cuLookup (which : Side) (name : Option Text) (site : Text) :
    Except FetchError (Option (SqlValue × SqlValue)) := do
  let (row,s) ← env.db (.cuLookup which name) >>= firstStep
  if row then
    requireRowDecodable site s
    match s.findColumn (text "start_ea"), s.findColumn (text "end_ea") with
    | some low, some high => return some (s.cell (some low),s.cell (some high))
    | _, _ => .error (Statement.unsupported
        (text "related CU lookup: the query does not select start_ea / end_ea"))
  else return none

end Environment

/-- `float` of a fetched value. -/
def pyFloatOfCell (v : SqlValue) (site : Text) : Except DiffError Binary64 :=
  let parse (t : Text) : Except DiffError Binary64 :=
    match pyFloat t with
    | .error e => .error (ofLoadsError e)
    | .ok none => .error (.wouldRaise site
        (text "ValueError: could not convert string to float: '" ++ t ++ text "'"))
    | .ok (some x) => .ok x
  match v with
  | .null => .error (.wouldRaise site
      (text "TypeError: float() argument must be a string or a real number, not 'NoneType'"))
  | .real x => .ok x
  | .integer n =>
    if n < -2^53 ∨ 2^53 < n then
      .error (.unsupportedInput
        (site ++ text ": float() of an INTEGER CU bound beyond 2^53 is not ported"))
    else .ok (Statement.doubleOf n)
  | .blob b =>
    if isAscii b then parse b
    else .error (.wouldRaise site
      (text "ValueError: could not convert string to float (non-ASCII bytes)"))
  | .text t => parse t

namespace Environment
variable (env : Environment)

/-- The rows between the bounds of two compilation units. -/
def cuRowsOf (cu1 cu2 : SqlValue × SqlValue) :
    Except FetchError (List (Except FetchError HeuristicRow)) := do
  let lo1 ← (pyFloatOfCell cu1.1 (text "D:3453 float(start_ea)")).mapError .diff
  let hi1 ← (pyFloatOfCell cu1.2 (text "D:3454 float(end_ea)")).mapError .diff
  let lo2 ← (pyFloatOfCell cu2.1 (text "D:3455 float(start_ea)")).mapError .diff
  let hi2 ← (pyFloatOfCell cu2.2 (text "D:3456 float(end_ea)")).mapError .diff
  env.cuRows lo1 hi1 lo2 hi2

/-- A seed of `find_related_compilation_unit`. -/
def relatedUnit (it : Item) : Program Unit := do
  let cu1 ← Program.lift (env.cuLookup .main it.name1 (text "D:3445 fetchone (main CU)"))
  let cu2 ← Program.lift (env.cuLookup .diff it.name2 (text "D:3448 fetchone (diff CU)"))
  match cu1, cu2 with
  | some cu1, some cu2 => do
    let rows ← Program.lift (env.cuRowsOf cu1 cu2)
    env.addMatchesInternal rows .best (some .partials) none false
  | _, _ => pure ()

/-- One list for both categories, up to the first ratio that is too low. -/
def findRelatedCompilationUnit : Program Unit := do
  Program.cleanup .l3413
  let st ← Program.matchState
  let seeds := st.sortedResults .best ++ st.sortedResults .partials
  (seeds.takeWhile fun it => !decide (it.ratio < kRelatedMatchesMinRatio)).forM env.relatedUnit

end Environment

section
variable {env : Environment} {facts : Facts env} {start : State}

theorem cuRows_fetched {lo1 hi1 lo2 hi2 : Binary64} {rows : List (Except FetchError HeuristicRow)}
    (h : env.cuRows lo1 hi1 lo2 hi2 = .ok rows) : env.AllFetched rows := by
  simp only [Environment.cuRows, bind_eq_ok] at h
  obtain ⟨native, -, h⟩ := h
  rw [← Except.ok.inj h]
  split_ifs
  · exact fun _ hrow => .replayed lo1 hi1 lo2 hi2 hrow
  · exact env.rows_fetched _

theorem keeps_findRelatedConstants (row1 row2 : Nat) :
    (env.findRelatedConstants row1 row2).Keeps (Within facts start) fun _ => True :=
  (keeps_pureDiff _).bind fun _ _ => keeps_forM fun _ _ =>
    (keeps_pureDiff _).bind fun _ _ => keeps_addMatchesInternal none false (env.rows_fetched _)

theorem keeps_relatedMatch (it : Item) :
    (env.relatedMatch it).Keeps (Within facts start) fun _ => True := by
  refine (keeps_lift _).bind fun main _ => (keeps_lift _).bind fun diff _ => ?_
  split
  · refine (keeps_pureDiff _).bind fun first _ => (keeps_pureDiff _).bind fun second _ => ?_
    exact .ite (fun _ => keeps_findRelatedConstants _ _) fun _ => keeps_pure ()
  · exact keeps_pure ()

theorem keeps_relatedWalk (dones : List Text) (its : List Item) :
    (env.relatedWalk dones its).Keeps (Within facts start) fun _ => True := by
  induction its generalizing dones with
  | nil => exact keeps_pure dones
  | cons it its ih =>
    refine .ite (fun _ => ih dones) fun _ => .ite (fun _ => keeps_pure _) fun _ => ?_
    exact (keeps_relatedMatch it).bind fun _ _ => ih _

theorem keeps_findRelatedMatches : env.findRelatedMatches.Keeps (Within facts start) fun _ => True :=
  (keeps_cleanup _).bind fun _ _ => keeps_matchState.bind fun _ _ =>
    (keeps_relatedWalk _ _).bind fun _ _ => keeps_matchState.bind fun _ _ =>
    (keeps_relatedWalk _ _).bind fun _ _ => keeps_pure ()

theorem keeps_relatedUnit (it : Item) :
    (env.relatedUnit it).Keeps (Within facts start) fun _ => True := by
  refine (keeps_lift _).bind fun cu1 _ => (keeps_lift _).bind fun cu2 _ => ?_
  split
  · refine (keeps_lift _).bind fun rows hrows => keeps_addMatchesInternal none false ?_
    simp only [Environment.cuRowsOf, bind_eq_ok] at hrows
    obtain ⟨lo1, -, hi1, -, lo2, -, hi2, -, hrows⟩ := hrows
    exact cuRows_fetched hrows
  · exact keeps_pure ()

theorem keeps_findRelatedCompilationUnit :
    env.findRelatedCompilationUnit.Keeps (Within facts start) fun _ => True :=
  (keeps_cleanup _).bind fun _ _ => keeps_matchState.bind fun _ _ =>
    keeps_forM fun it _ => keeps_relatedUnit it

end

end DSigMatcher.Engine
