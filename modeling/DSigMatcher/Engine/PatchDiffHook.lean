import DSigMatcher.Diff.UnifiedDiff
import DSigMatcher.Engine.Moves
import Mathlib.Data.List.DropRight

namespace DSigMatcher.Engine
open DSigMatcher.Base DSigMatcher.Framework DSigMatcher.Diff DSigMatcher.Pipeline

/-- `PySplitNewline`. -/
def pySplitNewline (t : Text) : List Text := t.splitOn 10

/-- `UnifiedDiff` with three lines of context; what the standard library throws passes every handler. -/
def contextDiff (a b : List Text) (lineTerm : Text) : Except FetchError (List Text) :=
  match (unifiedDiff a b 3 lineTerm).getD (.ok []) with
  | .ok rows => .ok rows
  | .error (.lengthError what) => .error (.ioFailure what)
  | .error (.invalidArgument what) => .error (.ioFailure what)

/-- What the hook reads of a match. -/
structure HookRow where
  ea1 : Option Text
  ea2 : Option Text
  row1 : Option Nat
  row2 : Option Nat
  name1 : Option Text
  name2 : Option Text
  nodes1 : Option Int
  nodes2 : Option Int

/-- `ColumnValue`. -/
def hookValue (t : ExportTable) (column : ExportRow → Cell) (row : Option Nat) :
    Except DiffError Cell :=
  if row.any (· < t.count) then .ok (column (t.row (row.getD 0)))
  else .error (.unsupportedInput
    (text "patch_diff_vulns on_match: the row's function is not in the export"))

def requireStr (cell : Cell) (site : Text) : Except DiffError Text :=
  match cell with
  | .null => .ok []
  | .str t => .ok t
  | .blob _ => .error (.wouldRaise (site ++ text " TypeError")
      (text "a bytes-like object is required, not 'str'"))

/-- The unsigned jump of a signed one, and the other way round. -/
def signedUnsignedPartner (lower : Text) : Option Text :=
  let pairs := [("jl","jb"),("jle","jbe"),("jg","ja"),("jge","jae"),
    ("jb","jl"),("jbe","jle"),("ja","jg"),("jae","jge")]
  (pairs.find? fun p => text p.1 = lower).map fun p => text p.2

def firstToken (t : Text) : Text := t.takeWhile (· ≠ 32)

def raiseIndexError : Except DiffError Bool :=
  .error (.wouldRaise (text "scripts/patch_diff_vulns.py:162 IndexError")
    (text "string index out of range"))

/-- Whether an added and a removed line together look like a fix. -/
def mnemonicsFound (added removed : Text) : Except DiffError Bool :=
  let lower1 := (firstToken added).map lowerAscii
  let lower2 := (firstToken removed).map lowerAscii
  match signedUnsignedPartner lower1 with
  | some partner => .ok (partner = lower2)
  | none =>
    if lower1 = [] then raiseIndexError
    else if lower1.head? ≠ some 98 then .ok false
    else if lower2 = [] then raiseIndexError
    else if lower2.head? ≠ some 98 then .ok false
    else
      let last1 := lower1.getLast?
      let last2 := lower2.getLast?
      .ok ((last1 = some 115 || last2 = some 115) && last1 ≠ last2)

/-- The last added and removed lines up to a changed line; a removed label counts for none. -/
def changedSides (sides : Option Text × Option Text) : Text → Option (Option Text × Option Text)
  | 43::rest => some (some rest,sides.2)
  | 45::rest => if rest.getLast? = some 58 then none else some (sides.1,some rest)
  | _ => none

/-- The walk over the lines of a diff. -/
def assemblyWalk (sides : Option Text × Option Text) : List Text → Except DiffError Bool
  | [] => .ok false
  | line::lines =>
    match changedSides sides line with
    | none => assemblyWalk sides lines
    | some (some added,some removed) =>
      match mnemonicsFound added removed with
      | .ok false => assemblyWalk (some added,some removed) lines
      | found => found
    | some sides => assemblyWalk sides lines

def findVulnsUsingAssembly (asm1 asm2 : Cell) : Except FetchError Bool :=
  if asm1 = .null || asm2 = .null then .ok false
  else do
    let a ← (requireStr asm1 (text "scripts/patch_diff_vulns.py:137")).mapError .diff
    let b ← (requireStr asm2 (text "scripts/patch_diff_vulns.py:137")).mapError .diff
    let lines ← contextDiff (pySplitNewline a) (pySplitNewline b) [10]
    (assemblyWalk (none,none) lines).mapError .diff

/-- `line.find(pattern) != npos`. -/
def hasText (line pattern : Text) : Bool := line.tails.any fun rest => startsWith rest pattern

def searchPseudoPatterns (line : Text) : Bool :=
  ["cpy", "printf", "strcat", "strncat", "gets", "mem", "system", "scanf", "alloc", "free", "strto",
    "ShellExecute", "WinExec", "LoadLibrary", "CreateProcess", "ProbeForWrite", "ProbeForRead",
    "UNC"].any fun pattern => hasText line (text pattern)

def searchForAddedSizeCheck (line : Text) : Bool :=
  startsWith line (text "if ") && [" < ", " > ", " <= ", " >= "].any fun pattern =>
    hasText line (text pattern) && !hasText line (text pattern ++ text "0 ")

/-- `line[2:]`: without the tag and the character behind it. -/
def afterTwoCharacters (line : Text) : Text := (line.drop 2).dropWhile fun c => c &&& 0xC0 = 0x80

def stripSpaces (t : Text) : Text := (t.dropWhile (· = 32)).rdropWhile (· = 32)

def pseudocodeLineFound (line : Text) : Bool :=
  let source := stripSpaces (afterTwoCharacters line)
  (line.head? = some 45 || line.head? = some 43) &&
    (searchPseudoPatterns source || (line.head? = some 43 && searchForAddedSizeCheck source))

def findVulnsUsingPseudocode (pseudo1 pseudo2 : Cell) : Except FetchError Bool :=
  if pseudo1 = .null || pseudo2 = .null then .ok false
  else do
    let a ← (requireStr pseudo1 (text "scripts/patch_diff_vulns.py:186")).mapError .diff
    let b ← (requireStr pseudo2 (text "scripts/patch_diff_vulns.py:186")).mapError .diff
    let lines ← contextDiff (pySplitNewline a) (pySplitNewline b) [10]
    return lines.any pseudocodeLineFound

/-- What the two searches of the hook find; the second is left out where the first one has found
something. -/
def hookFound (t : Tables) (row : HookRow) : Except FetchError Bool := do
  let asm1 ← (hookValue t.main ExportRow.assembly row.row1).mapError .diff
  let asm2 ← (hookValue t.diff ExportRow.assembly row.row2).mapError .diff
  let found ← findVulnsUsingAssembly asm1 asm2
  if found then return true
  else
    let pseudo1 ← (hookValue t.main ExportRow.pseudocode row.row1).mapError .diff
    let pseudo2 ← (hookValue t.diff ExportRow.pseudocode row.row2).mapError .diff
    findVulnsUsingPseudocode pseudo1 pseudo2

def intOfNone : Text :=
  text "int() argument must be a string, a bytes-like object or a real number, not 'NoneType'"

/-- What Python evaluates where something was found. -/
def hookItem (row : HookRow) : Except DiffError Unit :=
  if row.nodes1.isNone then .error (.wouldRaise (text "D:244 TypeError") intOfNone)
  else if row.nodes2.isNone then .error (.wouldRaise (text "D:245 TypeError") intOfNone)
  else do
    requirePyInt row.ea1 (text "D:286")
    requirePyInt row.ea2 (text "D:288")

/-- The hook changes no match; what it can do is raise. -/
def patchDiffHookOnMatch (t : Tables) (row : HookRow) (ratio : Binary64) : Program Unit := do
  if ratio < Binary64.one then
    let new ← Program.isNew (row.name1,row.name2)
    if new then
      Program.analysed (row.name1,row.name2)
      let found ← Program.lift (hookFound t row)
      if found then Program.pureDiff (hookItem row) else pure ()
    else pure ()
  else pure ()

section
variable {env : Environment} {facts : Facts env} {start : State}

theorem keeps_patchDiffHook (t : Tables) (row : HookRow) (ratio : Binary64) :
    (patchDiffHookOnMatch t row ratio).Keeps (Within facts start) fun _ => True := by
  refine .ite (fun _ => ?_) fun _ => keeps_pure ()
  refine (keeps_isNew _).bind fun new _ => ?_
  refine .ite (fun _ => ?_) fun _ => keeps_pure ()
  refine (keeps_analysed _).bind fun _ _ => (keeps_lift _).bind fun found _ => ?_
  exact .ite (fun _ => keeps_any (keeps_pureDiff _)) fun _ => keeps_pure ()

end

end DSigMatcher.Engine
