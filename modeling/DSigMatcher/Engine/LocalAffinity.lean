import DSigMatcher.Engine.CalleeDiffing

namespace DSigMatcher.Engine
open DSigMatcher.Base DSigMatcher.Framework DSigMatcher.Diff DSigMatcher.Pipeline

def kMaxFunctionsPerGap : Nat := 100

def localAffinity : Text := text "Local affinity"

/-- `name.startswith`. -/
def rowNameStartsWith (name : Cell) (start site : Text) : Except DiffError Bool :=
  match name with
  | .null => .error (.wouldRaise site
      (text "AttributeError: 'NoneType' object has no attribute 'startswith'"))
  | .blob _ => .error (.wouldRaise site
      (text "TypeError: startswith first arg must be bytes or a tuple of bytes, not str"))
  | .str t => .ok (startsWith t start)

/-- The second name is looked at where the first does not start so. -/
def rowsStartWith (main diff : ExportRow) (start site : Text) : Except DiffError Bool := do
  let first ← rowNameStartsWith main.name start site
  if first then return true else rowNameStartsWith diff.name start site

def pseudocodeLinesOf (lines : IntCell) : Except DiffError Int :=
  if lines.isNull then
    .error (.wouldRaise (text "D:3276")
      (text "TypeError: unsupported operand type(s) for +: 'NoneType' and 'int'"))
  else if lines.notInteger then
    .error (.unsupportedInput (text "D:3276: functions.pseudocode_lines is not INTEGER (not ported)"))
  else .ok lines.value

/-- The sum of two 64-bit numbers, taken modulo `2^64`. -/
def sumIsNonZero (a b : Int) : Bool := (a+b)%2^64 ≠ 0 || (a = -2^63 && b = -2^63)

def intOfNodesCell (nodes : IntCell) (site : Text) : Except DiffError Int :=
  if nodes.isNull then intOfNodes none site
  else if nodes.notInteger then
    .error (.unsupportedInput
      (site ++ text ": functions.nodes is not INTEGER (int() semantics not ported)"))
  else .ok nodes.value

/-- Whether two functions of a gap are compared: one of them has a generated name, and neither has
three lines of pseudo-code. -/
def gapPasses (main diff : ExportRow) : Except DiffError Bool := do
  let nullsub ← rowsStartWith main diff (text "nullsub_") (text "D:3269")
  if nullsub then return false
  else
    let generated ← rowsStartWith main diff (text "sub_") (text "D:3271")
    if generated then
      let lines1 ← pseudocodeLinesOf main.pseudocodeLines
      let lines2 ← pseudocodeLinesOf diff.pseudocodeLines
      return !(sumIsNonZero lines1 lines2 && (lines1 = 3 || lines2 = 3))
    else return false

/-- The last ratios of a gap by the names of both sides. -/
structure GapScores where
  main : InsertionDict (Option Text) Binary64 := .empty
  diff : InsertionDict (Option Text) Binary64 := .empty

namespace GapScores

/-- A name has a ratio at least as good. -/
def covers (scores : GapScores) (name1 name2 : Option Text) (ratio : Binary64) : Bool :=
  ((scores.main.find? name1).any fun score => decide (ratio ≤ score)) ||
    (scores.diff.find? name2).any fun score => decide (ratio ≤ score)

def record (scores : GapScores) (name1 name2 : Option Text) (ratio : Binary64) : GapScores :=
  ⟨scores.main.put name1 ratio,scores.diff.put name2 ratio⟩

end GapScores

/-- `int` of both addresses of a match. -/
def affinityKeys (it : Item) : Except DiffError (PyIntKey × PyIntKey) := do
  let key1 ← intKeyOf it.ea1 (text "D:3345 int(x[0])")
  let key2 ← intKeyOf it.ea2 (text "D:3345 int(x[2])")
  return (key1,key2)

def keysBefore (a b : PyIntKey × PyIntKey) : Bool :=
  if a.1.compare b.1 ≠ 0 then a.1.compare b.1 < 0 else a.2.compare b.2 < 0

/-- The matches by their addresses; every key is computed before two are compared. -/
def sortByAddress (its : List Item) : Except DiffError (List Item) := do
  let keyed ← its.mapM fun it => (affinityKeys it).map fun key => (key,it)
  return (keyed.insertionSort fun a b => ¬ keysBefore b.1 a.1).map Prod.snd

namespace Environment
variable (env : Environment)

/-- The functions between two addresses. -/
def gapRows (which : Side) (low high : Option Text) : Except FetchError (List Nat) := do
  let found ← env.fetchFunctionRows (.gap which low high) which none
  found.mapM fun ref =>
    match ref.row with
    | some row => .ok row
    | none => .error (Statement.unsupported
        (text "find_functions_between: a gap row's address is not a TEXT address of the export"))

/-- The hook sees the main name twice. -/
def callOnMatchHook (row1 row2 : Nat) (ratio : Binary64) : Program Unit := do
  let main := env.tables.main.row row1
  let diff := env.tables.diff.row row2
  let flags ← Program.flags
  if flags.hooksLoaded then
    let nodes1 ← Program.pureDiff (intOfNodesCell main.nodes (text "D:3020"))
    let nodes2 ← Program.pureDiff (intOfNodesCell diff.nodes (text "D:3021"))
    patchDiffHookOnMatch env.tables ⟨main.addrIdOf,diff.addrIdOf,some row1,some row2,main.nameIdOf,
      main.nameIdOf,some nodes1,some nodes2⟩ ratio
  else pure ()

/-- A match of a gap, recorded whether or not `AddMatch` keeps it. -/
def addAffine (scores : GapScores) (row1 row2 : Nat) (ratio : Binary64) (category : Chooser) :
    Program GapScores := do
  let main := env.tables.main.row row1
  let diff := env.tables.diff.row row2
  if scores.covers main.nameIdOf diff.nameIdOf ratio then return scores
  else
    env.callOnMatchHook row1 row2 ratio
    let nodes1 ← Program.pureDiff (intOfNodesCell main.nodes (text "D:3303"))
    let nodes2 ← Program.pureDiff (intOfNodesCell diff.nodes (text "D:3304"))
    Program.addMatch ⟨main.addrIdOf,main.nameIdOf,diff.addrIdOf,diff.nameIdOf,localAffinity,ratio,
      nodes1,nodes2⟩ category
    return scores.record main.nameIdOf diff.nameIdOf ratio

/-- A pair of functions of a gap. -/
def gapPair (scores : GapScores) (row1 row2 : Nat) : Program GapScores := do
  let passes ← Program.pureDiff (gapPasses (env.tables.main.row row1) (env.tables.diff.row row2))
  if passes then
    let ratio ← env.compareFunctionRows row1 row2
    match target .best (some .partials) kDefaultPartialRatio ratio with
    | none => return scores
    | some category => env.addAffine scores row1 row2 ratio category
  else return scores

def gapWalk (scores : GapScores) : List (Nat × Nat) → Program Unit
  | [] => pure ()
  | pair::pairs => do
    let scores ← env.gapPair scores pair.1 pair.2
    gapWalk scores pairs

def gapSize (rows : List Nat) : Bool := 0 < rows.length && rows.length ≤ kMaxFunctionsPerGap

/-- The other export is asked where this one has functions, and not too many. -/
def findFunctionsBetween (prev curr : Item) : Program Unit := do
  let mainRows ← Program.lift (env.gapRows .main prev.ea1 curr.ea1)
  if gapSize mainRows then
    let diffRows ← Program.lift (env.gapRows .diff prev.ea2 curr.ea2)
    if gapSize diffRows then env.gapWalk {} (mainRows.product diffRows) else pure ()
  else pure ()

/-- The lists of both categories as the cleanup leaves them, and their neighbours by address. -/
def findLocallyAffineFunctions : Program Unit := do
  Program.cleanup .l3340
  let st ← Program.matchState
  let sorted ← Program.pureDiff (sortByAddress (st.items .best ++ st.items .partials))
  (sorted.zip sorted.tail).forM fun pair => env.findFunctionsBetween pair.1 pair.2

end Environment

section
variable {env : Environment} {facts : Facts env} {start : State}

theorem keeps_callOnMatchHook (row1 row2 : Nat) (ratio : Binary64) :
    (env.callOnMatchHook row1 row2 ratio).Keeps (Within facts start) fun _ => True := by
  refine keeps_flags.bind fun flags _ => .ite (fun _ => ?_) fun _ => keeps_pure ()
  exact (keeps_pureDiff _).bind fun nodes1 _ => (keeps_pureDiff _).bind fun nodes2 _ =>
    keeps_patchDiffHook _ _ _

theorem keeps_addAffine (scores : GapScores) {row1 row2 : Nat} {ratio : Binary64} {category : Chooser}
    (hmade : ∀ nodes1 nodes2, Made facts start.flags.isSameProcessor
      ⟨(env.tables.main.row row1).addrIdOf,(env.tables.main.row row1).nameIdOf,
        (env.tables.diff.row row2).addrIdOf,(env.tables.diff.row row2).nameIdOf,localAffinity,ratio,
        nodes1,nodes2⟩ category) :
    (env.addAffine scores row1 row2 ratio category).Keeps (Within facts start) fun _ => True := by
  refine .ite (fun _ => keeps_pure scores) fun _ => (keeps_callOnMatchHook row1 row2 ratio).bind ?_
  refine fun _ _ => (keeps_pureDiff _).bind fun nodes1 _ => (keeps_pureDiff _).bind fun nodes2 _ => ?_
  exact (keeps_addMatch (hmade nodes1 nodes2)).bind fun _ _ => keeps_pure _

theorem keeps_gapPair (scores : GapScores) (row1 row2 : Nat) :
    (env.gapPair scores row1 row2).Keeps (Within facts start) fun _ => True := by
  refine (keeps_pureDiff _).bind fun passes _ => .ite (fun _ => ?_) fun _ => keeps_pure scores
  refine (keeps_compareFunctionRows row1 row2).bind fun ratio hratio => ?_
  obtain ⟨hrated, hrow1, hrow2⟩ := hratio
  cases htarget : Environment.target .best (some .partials) kDefaultPartialRatio ratio with
  | none => exact keeps_pure scores
  | some category =>
    exact keeps_addAffine scores fun _ _ => target_made (facts.tables _ _ hrow1 hrow2) hrated htarget

theorem keeps_gapWalk (scores : GapScores) (pairs : List (Nat × Nat)) :
    (env.gapWalk scores pairs).Keeps (Within facts start) fun _ => True := by
  induction pairs generalizing scores with
  | nil => exact keeps_pure ()
  | cons pair pairs ih => exact (keeps_gapPair scores _ _).bind fun scores _ => ih scores

theorem keeps_findFunctionsBetween (prev curr : Item) :
    (env.findFunctionsBetween prev curr).Keeps (Within facts start) fun _ => True := by
  refine (keeps_lift _).bind fun mainRows _ => .ite (fun _ => ?_) fun _ => keeps_pure ()
  refine (keeps_lift _).bind fun diffRows _ => .ite (fun _ => ?_) fun _ => keeps_pure ()
  exact keeps_gapWalk {} _

theorem keeps_findLocallyAffineFunctions :
    env.findLocallyAffineFunctions.Keeps (Within facts start) fun _ => True :=
  (keeps_cleanup _).bind fun _ _ => keeps_matchState.bind fun _ _ =>
    (keeps_pureDiff _).bind fun _ _ => keeps_forM fun _ _ => keeps_findFunctionsBetween _ _

end

end DSigMatcher.Engine
