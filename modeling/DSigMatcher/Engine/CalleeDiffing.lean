import DSigMatcher.Diff.CppNames
import DSigMatcher.Diff.SplitLines
import DSigMatcher.Engine.RelatedMatches

namespace DSigMatcher.Engine
open DSigMatcher.Base DSigMatcher.Framework DSigMatcher.Diff DSigMatcher.Pipeline

/-- `"\n".join`. -/
def joinLines (lines : List Text) : Text := List.intercalate [10] lines

/-- The removed and the added lines that wait for a line of context. -/
structure CalleeBlocks where
  minus : List Text := []
  plus : List Text := []

/-- A row of the diff: the blocks behind it, and the names that are paired at it. -/
def calleeStep (blocks : CalleeBlocks) (row : Text) : CalleeBlocks × List (Text × Text) :=
  match row.head? with
  | some 45 => ({ blocks with minus := blocks.minus ++ [row] },[])
  | some 43 => ({ blocks with plus := blocks.plus ++ [row] },[])
  | some 32 =>
    if blocks.minus ≠ [] ∧ blocks.plus ≠ [] then
      ({},(cppNamesFindAll (joinLines blocks.minus)).zip (cppNamesFindAll (joinLines blocks.plus)))
    else (blocks,[])
  -- a hunk header does not end a block
  | _ => (blocks,[])

/-- What still waits behind the last row is dropped. -/
def calleeWalk (blocks : CalleeBlocks) : List Text → List (Text × Text)
  | [] => []
  | row::rows => (calleeStep blocks row).2 ++ calleeWalk (calleeStep blocks row).1 rows

def calleeCandidatePairs (mainText diffText : Text) : Except FetchError (List (Text × Text)) := do
  let rows ← contextDiff (pySplitLines mainText) (pySplitLines diffText) []
  return calleeWalk {} rows

/-- The column whose texts are compared. -/
inductive Field
  | assembly | pseudocode
  deriving DecidableEq

def Field.name : Field → Text
  | .assembly => text "assembly"
  | .pseudocode => text "pseudocode"

def Field.column : Field → ExportRow → Cell
  | .assembly => ExportRow.assembly
  | .pseudocode => ExportRow.pseudocode

def Field.heur : Field → Text
  | .assembly => text "Callee found diffing matches assembly"
  | .pseudocode => text "Callee found diffing matches pseudo-code"

def pyNodes (nodes : IntCell) : Except DiffError (Option Int) :=
  if nodes.isNull then .ok none
  else if nodes.notInteger then
    .error (.unsupportedInput (text ("functions.nodes holds a non-INTEGER value (Python " ++
      "min/max/true-division over float or str is not ported)")))
  else .ok (some nodes.value)

def nodesType (nodes : Option Int) : Text := if nodes.isSome then text "int" else text "NoneType"

/-- Both node counts; Python compares the second one with the first. -/
def comparedNodes (nodes1 nodes2 : Option Int) : Except DiffError (Int × Int) :=
  match nodes1, nodes2 with
  | some nodes1, some nodes2 => .ok (nodes1,nodes2)
  | _, _ => .error (.wouldRaise (text "D:3084 TypeError")
      (text "'<' not supported between instances of '" ++ nodesType nodes2 ++ text "' and '" ++
        nodesType nodes1 ++ text "'"))

def kExactDoubleInt : Int := 2^53

def kDiffingMatchesMaxDifferentBblocksPercent : Int := 25

def kDiffingMatchesMinBblocks : Int := 3

/-- Whether the counts differ too much, or one of them is too small. -/
def blocksDiffer (nodes1 nodes2 : Int) : Except DiffError Bool :=
  let minNodes := min nodes1 nodes2
  let maxNodes := max nodes1 nodes2
  if maxNodes = 0 then .error (.wouldRaise (text "D:3089 ZeroDivisionError") (text "division by zero"))
  else if kExactDoubleInt/100 < minNodes ∨ minNodes < -(kExactDoubleInt/100) ∨
      kExactDoubleInt < maxNodes ∨ maxNodes < -kExactDoubleInt then
    .error (.unsupportedInput
      (text "functions.nodes beyond 2^53 / 100: Python's exact int true division is not ported"))
  else
    let percent := (Statement.doubleOf (minNodes*100)).div (Statement.doubleOf maxNodes)
    .ok (decide (percent < Statement.doubleOf kDiffingMatchesMaxDifferentBblocksPercent) ||
      decide (nodes1 < kDiffingMatchesMinBblocks) || decide (nodes2 < kDiffingMatchesMinBblocks))

def kDefaultTrustedPartialRatio : Binary64 := literal 3 10

/-- The category of a callee's ratio, before the bonus. -/
def calleeChooser (ratio : Binary64) : Option Chooser :=
  if ratio.eq .one then some .best
  else if kDefaultTrustedPartialRatio < ratio then some .partials
  else none

namespace Environment
variable (env : Environment)

/-- The item has the names of the diff, and the hook sees the main name twice. -/
def addCallee (heur : Text) (inner : Nat) (name1 name2 : Text) (row1 row2 : Nat) (nodes1 nodes2 : Int) :
    Program Unit := do
  let main := env.tables.main.row row1
  let diff := env.tables.diff.row row2
  let ratio ← env.compareFunctionRows row1 row2
  match calleeChooser ratio with
  | none => pure ()
  | some category => do
    env.onMatch ⟨main.addrIdOf,diff.addrIdOf,some row1,some row2,main.nameIdOf,main.nameIdOf,
      some nodes1,some nodes2⟩ (withBonus ratio)
    Program.addMatch ⟨main.addrIdOf,some name1,diff.addrIdOf,some name2,
      heur ++ text " (iteration #" ++ decimal inner ++ text ")",withBonus ratio,nodes1,nodes2⟩ category

/-- The two functions of a pair; their blocks are read before it matters that both are of one export. -/
def compareCallees (heur : Text) (inner : Nat) (name1 name2 : Text) (which1 : Side) (row1 : Nat)
    (which2 : Side) (row2 : Nat) : Program Unit := do
  let first ← Program.pureDiff (pyNodes ((env.tables.table which1).row row1).nodes)
  let second ← Program.pureDiff (pyNodes ((env.tables.table which2).row row2).nodes)
  let nodes ← Program.pureDiff (comparedNodes first second)
  let differ ← Program.pureDiff (blocksDiffer nodes.1 nodes.2)
  if differ then pure ()
  else if which1 = .main ∧ which2 = .diff then
    env.addCallee heur inner name1 name2 row1 row2 nodes.1 nodes.2
  else Program.refuse (text "functions_exists('" ++ name1 ++ text "', '" ++ name2 ++
    text "') returned two rows of the same database (duplicate function names; 06 " ++ [0xC2,0xA7] ++
    text "2.10)")

def processCandidate (heur : Text) (inner : Nat) (name1 name2 : Text) : Program Unit := do
  let found ← Program.lift (env.fetchFunctionRows (.functionsExists name1 name2) .main none)
  match found with
  | [⟨which1,some row1⟩,⟨which2,some row2⟩] =>
    env.compareCallees heur inner name1 name2 which1 row1 which2 row2
  | [_,_] =>
    Program.refuse
      (text "functions_exists: a fetched row's address is not TEXT (input quirk not emulated)")
  | _ => pure ()

/-- The candidates of a match; what a filter drops is done too. -/
def candidateWalk (heur : Text) (inner : Nat) (dones : List Text) :
    List (Text × Text) → Program (List Text)
  | [] => pure dones
  | (name1,name2)::pairs =>
    let key := name1 ++ text "-" ++ name2
    if key ∈ dones then candidateWalk heur inner dones pairs
    else if startsWith name1 (text "nullsub") || startsWith name2 (text "nullsub") then
      candidateWalk heur inner (key::dones) pairs
    else do
      env.processCandidate heur inner name1 name2
      candidateWalk heur inner (key::dones) pairs

def findOneMatchDiffing (field : Field) (inner : Nat) (dones : List Text) (row1 row2 : Nat) :
    Program (List Text) := do
  match field.column (env.tables.main.row row1), field.column (env.tables.diff.row row2) with
  | .str mainText, .str diffText => do
    let pairs ← Program.lift (calleeCandidatePairs mainText diffText)
    env.candidateWalk field.heur inner dones pairs
  -- NULL has gone before
  | .null, _ | _, .null => pure dones
  | _, _ =>
    Program.refuse (text "functions." ++ field.name ++
      text " is a BLOB (Python bytes semantics of D:3040-3059 not ported)")

def notTextRow : Text :=
  text "get_function_row: the row's address is not TEXT (input quirk not emulated)"

/-- A match that is not done: its functions, found by their names, and what their texts call. -/
def diffMatch (field : Field) (inner : Nat) (dones : List Text) (it : Item) : Program (List Text) := do
  let main ← Program.lift (env.getFunctionRow .main it.name1 notTextRow)
  let diff ← Program.lift (env.getFunctionRow .diff it.name2 notTextRow)
  match main, diff with
  | some row1, some row2 => env.findOneMatchDiffing field inner dones row1 row2
  | _, _ => pure dones

def matchWalk (field : Field) (inner : Nat) (dones : List Text) : List Item → Program (List Text)
  | [] => pure dones
  | it::its =>
    if namePairKey it ∈ dones then matchWalk field inner dones its
    else do
      let dones ← env.diffMatch field inner (namePairKey it::dones) it
      matchWalk field inner dones its

/-- The partial matches are sorted when the best ones are done. -/
def diffingRound (field : Field) (inner : Nat) (dones : List Text) : Program (List Text) := do
  let st ← Program.matchState
  let dones ← env.matchWalk field inner dones (st.sortedResults .best)
  let st ← Program.matchState
  let dones ← env.matchWalk field inner dones (st.sortedResults .partials)
  Program.cleanup .l3185
  logShowSummary
  return dones

/-- Rounds, while the number of matched functions changes. -/
def diffingRounds (field : Field) : Nat → Nat → List Text → Program Unit
  | 0, _, _ => pure ()
  | rounds+1, inner, dones => do
    let before ← Program.matchState
    let dones ← env.diffingRound field inner dones
    let after ← Program.matchState
    if after.totalMatchedFunctions = before.totalMatchedFunctions then pure ()
    else diffingRounds field rounds (inner+1) dones

def findMatchesDiffingInternal (field : Field) : Program Unit := env.diffingRounds field 3 1 []

/-- The assembly of two processors is not compared. -/
def findMatchesDiffingAssembly : Program Unit := do
  let flags ← Program.flags
  if flags.isSameProcessor then env.findMatchesDiffingInternal .assembly else pure ()

def findMatchesDiffing : Program Unit := do
  Program.cleanup .l3217
  env.findMatchesDiffingAssembly
  env.findMatchesDiffingInternal .pseudocode

end Environment

section
variable {env : Environment} {facts : Facts env} {start : State}

/-- A one keeps no bonus. -/
theorem withBonus_one : withBonus .one = .one := by decide +kernel

theorem calleeChooser_made {sameCpu : Bool} {it : Item} {ratio : Binary64} {c : Chooser}
    (hpair : facts.PairedItem it) (hrated : facts.Found sameCpu it.pairKey ratio)
    (hratio : it.ratio = withBonus ratio) (h : calleeChooser ratio = some c) :
    Made facts sameCpu it c := by
  unfold calleeChooser at h
  split_ifs at h with hone htrusted
  · obtain rfl := Option.some.inj h
    rw [Binary64.eq_one_iff.mp hone, withBonus_one] at hratio
    exact .best hpair hratio
  · obtain rfl := Option.some.inj h
    exact withBonus_made hpair hrated (Bool.eq_false_iff.mpr hone) hratio

theorem keeps_addCallee {heur name1 name2 : Text} (inner : Nat) {row1 row2 : Nat} (nodes1 nodes2 : Int)
    (hpair : facts.Paired (env.tables.main.row row1).addrIdOf (some name1)
      (env.tables.diff.row row2).addrIdOf (some name2)) :
    (env.addCallee heur inner name1 name2 row1 row2 nodes1 nodes2).Keeps (Within facts start)
      fun _ => True := by
  refine (keeps_compareFunctionRows row1 row2).bind fun ratio hratio => ?_
  cases hchooser : calleeChooser ratio with
  | none => exact keeps_pure ()
  | some category =>
    refine (keeps_onMatch _ _).bind fun _ _ => keeps_addMatch ?_
    exact calleeChooser_made hpair hratio.1 rfl hchooser

theorem keeps_compareCallees {heur name1 name2 : Text} {which1 which2 : Side} (inner : Nat)
    {row1 row2 : Nat}
    (hpair : which1 = .main → which2 = .diff → facts.Paired (env.tables.main.row row1).addrIdOf
      (some name1) (env.tables.diff.row row2).addrIdOf (some name2)) :
    (env.compareCallees heur inner name1 name2 which1 row1 which2 row2).Keeps (Within facts start)
      fun _ => True := by
  refine (keeps_pureDiff _).bind fun first _ => (keeps_pureDiff _).bind fun second _ => ?_
  refine (keeps_pureDiff _).bind fun nodes _ => (keeps_pureDiff _).bind fun differ _ => ?_
  refine .ite (fun _ => keeps_pure ()) fun _ => .ite (fun hsides => ?_) fun _ => .raise _
  exact keeps_addCallee inner nodes.1 nodes.2 (hpair hsides.1 hsides.2)

theorem keeps_processCandidate (heur : Text) (inner : Nat) (name1 name2 : Text) :
    (env.processCandidate heur inner name1 name2).Keeps (Within facts start) fun _ => True := by
  refine (keeps_lift _).bind fun found hfound => ?_
  split
  · refine keeps_compareCallees inner fun h1 h2 => ?_
    rw [h1, h2] at hfound
    exact facts.callees name1 name2 _ _ hfound
  · exact .raise _
  · exact keeps_pure ()

theorem keeps_candidateWalk (heur : Text) (inner : Nat) (dones : List Text)
    (pairs : List (Text × Text)) :
    (env.candidateWalk heur inner dones pairs).Keeps (Within facts start) fun _ => True := by
  induction pairs generalizing dones with
  | nil => exact keeps_pure dones
  | cons pair pairs ih =>
    refine .ite (fun _ => ih dones) fun _ => .ite (fun _ => ih _) fun _ => ?_
    exact (keeps_processCandidate heur inner _ _).bind fun _ _ => ih _

theorem keeps_diffMatch (field : Field) (inner : Nat) (dones : List Text) (it : Item) :
    (env.diffMatch field inner dones it).Keeps (Within facts start) fun _ => True := by
  refine (keeps_lift _).bind fun main _ => (keeps_lift _).bind fun diff _ => ?_
  split
  · unfold Environment.findOneMatchDiffing
    split
    · exact (keeps_lift _).bind fun pairs _ => keeps_candidateWalk _ inner dones pairs
    · exact keeps_pure dones
    · exact keeps_pure dones
    · exact .raise _
  · exact keeps_pure dones

theorem keeps_matchWalk (field : Field) (inner : Nat) (dones : List Text) (its : List Item) :
    (env.matchWalk field inner dones its).Keeps (Within facts start) fun _ => True := by
  induction its generalizing dones with
  | nil => exact keeps_pure dones
  | cons it its ih =>
    refine .ite (fun _ => ih dones) fun _ => ?_
    exact (keeps_diffMatch field inner _ it).bind fun dones _ => ih dones

theorem keeps_diffingRound (field : Field) (inner : Nat) (dones : List Text) :
    (env.diffingRound field inner dones).Keeps (Within facts start) fun _ => True :=
  keeps_matchState.bind fun _ _ => (keeps_matchWalk _ _ _ _).bind fun _ _ =>
    keeps_matchState.bind fun _ _ => (keeps_matchWalk _ _ _ _).bind fun dones _ =>
    (keeps_cleanup _).bind fun _ _ => keeps_logShowSummary.bind fun _ _ => keeps_pure dones

theorem keeps_diffingRounds (field : Field) (rounds inner : Nat) (dones : List Text) :
    (env.diffingRounds field rounds inner dones).Keeps (Within facts start) fun _ => True := by
  induction rounds generalizing inner dones with
  | zero => exact keeps_pure ()
  | succ rounds ih =>
    refine keeps_matchState.bind fun before _ => ?_
    refine (keeps_diffingRound field inner dones).bind fun dones _ => ?_
    exact keeps_matchState.bind fun after _ => .ite (fun _ => keeps_pure ()) fun _ => ih _ _

theorem keeps_findMatchesDiffing : env.findMatchesDiffing.Keeps (Within facts start) fun _ => True := by
  have hassembly : env.findMatchesDiffingAssembly.Keeps (Within facts start) fun _ => True :=
    keeps_flags.bind fun _ _ => .ite (fun _ => keeps_diffingRounds _ 3 1 []) fun _ => keeps_pure ()
  exact (keeps_cleanup _).bind fun _ _ => hassembly.bind fun _ _ => keeps_diffingRounds _ 3 1 []

end

end DSigMatcher.Engine
