import DSigMatcher.Diff.IntKeys
import DSigMatcher.Diff.RoundDecimal
import DSigMatcher.Diff.FunctionTable
import DSigMatcher.Json.PySet
import DSigMatcher.Preflight.CallgraphDifference

namespace DSigMatcher.Engine
open DSigMatcher.Base DSigMatcher.Framework DSigMatcher.Diff DSigMatcher.Json
open DSigMatcher.Preflight (ofLoadsError)

/-- A row of a `FunctionTable` with the other columns that the engine reads. -/
structure ExportRow extends FunctionRow where
  bytesHash : Cell := .null
  pseudocode : Cell := .null
  assembly : Cell := .null
  cleanPseudo : Cell := .null
  cleanAssembly : Cell := .null
  cleanMicrocode : Cell := .null
  mdIndex : Cell := .null
  sourceFile : Cell := .null
  pseudocodePrimes : Cell := .null
  switches : Cell := .null
  constants : Cell := .null
  indegree : IntCell := {}
  outdegree : IntCell := {}
  cyclomaticComplexity : IntCell := {}
  constantsCount : IntCell := {}
  pseudocodeLines : IntCell := {}
  anyColumnUtf8Bad : Bool := false

structure ExportTable where
  rows : List ExportRow

namespace ExportTable
variable (t : ExportTable)

def row (r : Nat) : ExportRow := t.rows.getD r {}

def count : Nat := t.rows.length

/-- `RowByAddr`, where `emplace` keeps the first row of an address. -/
def findRow (ea : Text) : Option Nat := t.rows.findIdx? fun row => row.addrIdOf = some ea

end ExportTable

/-- The functions of both exports. -/
structure Tables where
  main : ExportTable
  diff : ExportTable

namespace Tables
variable (t : Tables)

def table : Side → ExportTable
  | .main => t.main
  | .diff => t.diff

/-- The prepared columns of the engine. -/
def cleanPseudo : PreparedColumn :=
  prepareColumn (t.main.rows.map ExportRow.cleanPseudo) (t.diff.rows.map ExportRow.cleanPseudo)

def cleanAssembly : PreparedColumn :=
  prepareColumn (t.main.rows.map ExportRow.cleanAssembly) (t.diff.rows.map ExportRow.cleanAssembly)

def cleanMicrocode : PreparedColumn :=
  prepareColumn (t.main.rows.map ExportRow.cleanMicrocode) (t.diff.rows.map ExportRow.cleanMicrocode)

end Tables

/-- A literal of the source, the double nearest to a decimal fraction. -/
def literal (n d : Nat) : Binary64 := Binary64.ofMagnitude false (Binary64.ratioMagnitude n d)

def kIncreaseRatioPerConstantMatchSameCpu : Binary64 := literal 6 1000

def kIncreaseRatioPerConstantMatch : Binary64 := literal 8 1000

/-- Python's `==` of two cells. -/
def pyEq (a b : Cell) : Bool := a = b

/-- Python's `!=` of a cell and a text; None and bytes are no text. -/
def pyNe (a : Cell) (literal : Text) : Bool := a ≠ .str literal

def isEmptyStr (a : Cell) : Bool := a = .str []

def requireInteger (cell : IntCell) (name : Text) : Except DiffError Unit :=
  if !cell.isNull && cell.notInteger then
    .error (.unsupportedInput (text "functions." ++ name ++
      text " holds a non-INTEGER value (Python float/str comparison semantics not ported)"))
  else .ok ()

def pyEqInt (a b : IntCell) (name : Text) : Except DiffError Bool := do
  requireInteger a name
  requireInteger b name
  return if a.isNull || b.isNull then a.isNull && b.isNull else a.value = b.value

def pyNeZero (a : IntCell) : Bool := a.isNull || a.value ≠ 0

/-- `float(md_index)` of the text. -/
def mdPython (row : ExportRow) : Except DiffError Binary64 :=
  let read (value : Except PyLoadsError (Option Binary64)) (bytes : Text) : Except DiffError Binary64 :=
    match value with
    | .ok (some x) => .ok x
    | .ok none => .error (.wouldRaise (text "D:1672 float(md_index)")
        (text "ValueError: could not convert string to float: '" ++ bytes ++ text "'"))
    | .error e => .error (ofLoadsError e)
  match row.mdIndex with
  | .null => .error (.wouldRaise (text "D:1672 float(md_index)")
      (text "TypeError: float() argument must be a string or a real number, not 'NoneType'"))
  | .blob bytes => read (if isAscii bytes then pyFloat bytes else .ok none) bytes
  | .str t => read (pyFloat t) t

/-- `cast(md_index as real)` of the row. -/
def mdSqlOf : Option Binary64 → Except DiffError Binary64
  | none => .error (.wouldRaise (text "D:1672 float(md)")
      (text "TypeError: float() argument must be a string or a real number, not 'NoneType'"))
  | some x => .ok x

/-- `set(json.loads(row["constants"]))`. -/
def constantsOf (row : ExportRow) : Except DiffError PySet :=
  match row.constants with
  | .null => .error (.wouldRaise (text "D:2813 json.loads(constants)")
      (text "TypeError: the JSON object must be str, bytes or bytearray, not NoneType"))
  | .blob _ => .error (.unsupportedInput
      (text "functions.constants is a BLOB (json.loads(bytes) encoding detection not ported)"))
  | .str t => (pyJsonLoadsList t >>= pySetFromList).mapError ofLoadsError

/-- A step of the score, where its condition holds. -/
def scored (holds : Bool) (step score : Binary64) : Binary64 := if holds then score.add step else score

/-- What the constants that both functions have add to the score. -/
def constantsScore (sameCpu : Bool) (m d : ExportRow) (score : Binary64) : Except DiffError Binary64 :=
  if pyNe m.constants (text "[]") then do
    let set1 ← constantsOf m
    let set2 ← constantsOf d
    let common ← (pySetIntersectionSize set1 set2).mapError ofLoadsError
    let step :=
      if sameCpu then kIncreaseRatioPerConstantMatchSameCpu else kIncreaseRatioPerConstantMatch
    return scored (0 < common) ((Binary64.ofNat common).mul step) score
  else .ok score

/-- Equal cells, neither of them None and not the empty text. -/
def sameText (a b : Cell) : Bool := a ≠ .null && b ≠ .null && pyEq a b && pyNe a []

/-- `DeepScore`: the additions one at a time, in the order of the source. -/
def deepScore (sameCpu : Bool) (m d : ExportRow) : Except DiffError Binary64 := do
  let score := scored (sameText m.sourceFile d.sourceFile) (literal 1 1000) .zero
  let score := scored (sameText m.pseudocodePrimes d.pseudocodePrimes) (literal 1 1000) score
  let sameIndegree ← pyEqInt m.indegree d.indegree (text "indegree")
  let score := scored (sameIndegree && pyNeZero m.indegree) (literal 1 1000) score
  let sameOutdegree ← pyEqInt m.outdegree d.outdegree (text "outdegree")
  let score := scored (sameOutdegree && pyNeZero m.outdegree) (literal 1 1000) score
  let score := scored (pyEq m.switches d.switches && pyNe m.switches (text "[]")) (literal 3 1000) score
  let sameComplexity ← pyEqInt m.cyclomaticComplexity d.cyclomaticComplexity
    (text "cyclomatic_complexity")
  let score := scored (sameComplexity && pyNeZero m.cyclomaticComplexity) (literal 1 1000) score
  constantsScore sameCpu m d score

/-- `str(int(ea))`. -/
def canonicalAddress (ea : Option Text) (site : Text) : Except DiffError Text :=
  match ea with
  | none => .error (.wouldRaise site (text "TypeError: int() argument must be a string, a " ++
      text "bytes-like object or a real number, not 'NoneType'"))
  | some t =>
    match pyIntCanonical t with
    | .error e => .error e
    | .ok none => .error (.wouldRaise site
        (text "ValueError: invalid literal for int() with base 10: '" ++ t ++ text "'"))
    | .ok (some canonical) => .ok canonical

/-- A text parameter equals no BLOB address; the fetch decodes every column of the row. -/
def fetchRowByAddress (t : ExportTable) (canonical site : Text) : Except DiffError (Option Nat) :=
  match t.findRow canonical with
  | none => .ok none
  | some r =>
    if (t.row r).address.isBlob then .ok none
    else if (t.row r).anyColumnUtf8Bad then .error (.wouldRaise site
      (text "OperationalError: Could not decode to UTF-8 a functions column"))
    else .ok (some r)

def deepRatioByAddress (t : Tables) (sameCpu : Bool) (ea1 ea2 : Option Text) :
    Except DiffError Binary64 := do
  let address1 ← canonicalAddress ea1 (text "D:2763 deep_ratio int(ea1)")
  let address2 ← canonicalAddress ea2 (text "D:2764 deep_ratio int(ea2)")
  let mainRow ← fetchRowByAddress t.main address1 (text "D:2775 deep_ratio fetchone (main)")
  let diffRow ← fetchRowByAddress t.diff address2 (text "D:2778 deep_ratio fetchone (diff)")
  match mainRow, diffRow with
  | none, _ => .error (.wouldRaise (text "D:2780 deep_ratio")
      (text "TypeError: 'NoneType' object is not subscriptable (main row)"))
  | some _, none => .error (.wouldRaise (text "D:2781 deep_ratio")
      (text "TypeError: 'NoneType' object is not subscriptable (diff row)"))
  | some m, some d => deepScore sameCpu (t.main.row m) (t.diff.row d)

def noFunctionRow : DiffError :=
  .unsupportedInput (text "check_ratio: an address of the pair has no function row")

/-- `RoundDecimal7` outside the tests; every finite value has a result. -/
def round7 (v : Binary64) : Except DiffError Binary64 :=
  match roundDecimal7 v 0 with
  | .ok (some x) => .ok x
  | .ok none => .error (.unsupportedInput (text "PyFloat"))
  | .error e => .error (ofLoadsError e)

/-- A rounded quick ratio over a prepared column. -/
def quickRound7 (column : PreparedColumn) (row1 row2 : Nat) (name : Text) : Except DiffError Binary64 :=
  ((quickPrepared column .main row1 .diff row2 name).getD (.error noFunctionRow)) >>= round7

/-- v1: pseudo-code on both sides, and what cleaning left of it. -/
def pseudoRatio (t : Tables) (row1 row2 : Nat) : Except DiffError Binary64 :=
  let pseudo1 := (t.main.row row1).pseudocode
  let pseudo2 := (t.diff.row row2).pseudocode
  if pseudo1 ≠ .null && pseudo2 ≠ .null && pyNe pseudo1 [] && pyNe pseudo2 [] then
    if isEmptyStr (t.main.row row1).cleanPseudo || isEmptyStr (t.diff.row row2).cleanPseudo then
      .ok .zero
    else quickRound7 t.cleanPseudo row1 row2 (text "clean_pseudo")
  else .ok .zero

/-- v4: the mean with three ones, where the MD-Indices are equal and positive. -/
def mdRatio (md1 md2 v1 v2 : Binary64) : Binary64 :=
  if md1.eq md2 && decide (Binary64.zero < md1) then
    let x := (((v1.add v2).add .zero).add (.ofNat 3)).div (.ofNat 5)
    if Binary64.one < x then .one else x
  else .zero

/-- v5: no microcode on a side gives nothing. -/
def microRatio (t : Tables) (row1 row2 : Nat) : Except DiffError Binary64 :=
  if (t.main.row row1).cleanMicrocode ≠ .null && (t.diff.row row2).cleanMicrocode ≠ .null then
    quickRound7 t.cleanMicrocode row1 row2 (text "clean_microcode")
  else .ok .zero

/-- The greatest of the values, from a first one on. -/
def maxFrom (first : Binary64) (values : List Binary64) : Binary64 :=
  values.foldl (fun r v => if r < v then v else r) first

/-- The greatest value; a one is no one where the MD-Indices differ. -/
def greatest (md1 md2 : Binary64) (v1 : Binary64) (values : List Binary64) : Binary64 :=
  let r := maxFrom v1 (v1::values)
  if r.eq .one && !md1.eq md2 then maxFrom .zero ((v1::values).filter fun v => !v.eq .one) else r

/-- The score is added while the sum stays below one. -/
def withScore (r score : Binary64) : Binary64 :=
  if r.add score < Binary64.one then r.add score else literal 99 100

inductive MdSource
  | sql | python
  deriving DecidableEq

def mdOf (src : MdSource) (row : ExportRow) (sqlMd : Option Binary64) : Except DiffError Binary64 :=
  match src with
  | .sql => mdSqlOf sqlMd
  | .python => mdPython row

/-- The part of `Compute` behind the bytes hash. -/
def computeRatio (t : Tables) (sameCpu : Bool) (ea1 ea2 : Option Text) (row1 row2 : Nat)
    (md1 md2 : Binary64) : Except DiffError Binary64 := do
  let v1 ← pseudoRatio t row1 row2
  let v2 ← quickRound7 t.cleanAssembly row1 row2 (text "clean_assembly")
  let v5 ← microRatio t row1 row2
  if v5.eq .one then return .one
  else
    let r := greatest md1 md2 v1 [v2,.zero,mdRatio md1 md2 v1 v2,v5]
    if r < Binary64.one then
      let score ← deepRatioByAddress t sameCpu ea1 ea2
      return withScore r score
    else return r

def compute (t : Tables) (sameCpu : Bool) (ea1 ea2 : Option Text) (row1 row2 : Nat) (src : MdSource)
    (sqlMd1 sqlMd2 : Option Binary64) : Except DiffError Binary64 := do
  let md1 ← mdOf src (t.main.row row1) sqlMd1
  let md2 ← mdOf src (t.diff.row row2) sqlMd2
  if pyEq (t.main.row row1).bytesHash (t.diff.row row2).bytesHash then return .one
  else computeRatio t sameCpu ea1 ea2 row1 row2 md1 md2

end DSigMatcher.Engine
