import DSigMatcher.Framework.InsertionDict
import DSigMatcher.Json.PySet
import DSigMatcher.Preflight.DecimalText
import Mathlib

namespace DSigMatcher.Preflight
open DSigMatcher.Base DSigMatcher.Framework DSigMatcher.Json JsonValue
open DSigMatcher.Diff (DiffError)

def ofLoadsError : PyLoadsError → DiffError
  | .diaphoraWouldRaise site message => .wouldRaise site message
  | .unsupportedInput message => .unsupportedInput message

/-- `float(int)`, through the decimal text. -/
def bigToDouble (v : BigInt) : Except DiffError Binary64 :=
  match pyFloat (bigText v) with
  | .error e => .error (ofLoadsError e)
  | .ok none => .error (.unsupportedInput
      (text "check_callgraph: cannot convert " ++ bigText v ++ text " to float"))
  | .ok (some x) => .ok x

/-- `json.loads` of a fetched cell. -/
def jsonOfCell (cell : SqlCell) (site : Text) : Except DiffError PyValue :=
  let notText (kind : String) : DiffError := .wouldRaise (site ++ text " TypeError")
    (text "the JSON object must be str, bytes or bytearray, not " ++ text kind)
  match cell with
  | .text bytes =>
    match pyJsonLoads bytes with
    | .ok v => .ok v
    | .error (.diaphoraWouldRaise inner message) =>
      .error (.wouldRaise (site ++ text " " ++ inner) message)
    | .error (.unsupportedInput message) => .error (.unsupportedInput message)
  | .null => .error (notText "NoneType")
  | .integer _ => .error (notText "int")
  | .real _ => .error (notText "float")
  | .blob _ => .error (.unsupportedInput
      (text "check_callgraph: a BLOB callgraph_all_primes is not ported (json.loads of bytes)"))

structure PyNumber where
  isFloat : Bool := false
  int : BigInt := {}
  float : Binary64 := .zero
  deriving DecidableEq

def asNumber : PyValue → Option PyNumber
  | .bool b => some { int := { mag := if b then text "1" else [] } }
  | .int digits =>
    let negative : Bool := digits.head? = some 45
    let digits := if negative then digits.tail else digits
    let mag := if digits = text "0" then [] else digits
    some { int := { negative := negative && !mag.isEmpty, mag } }
  | .float x => some { isFloat := true, float := x }
  | _ => none

/-- `int == float` without rounding. -/
def intEqualsFloat (i : BigInt) (f : Binary64) : Bool :=
  if !isIntegralFinite f then false
  else
    let d := decimalOfDouble f
    if d.coefficient.isEmpty then i.mag.isEmpty
    else i.negative = d.negative && i.mag = d.coefficient ++ List.replicate d.exponent.toNat 48

/-- `a != b`; a NaN differs from itself. -/
def pyNotEqual (a b : PyValue) : Bool :=
  match asNumber a, asNumber b with
  | some x, some y =>
    if !x.isFloat && !y.isFloat then x.int.negative != y.int.negative || x.int.mag != y.int.mag
    else if x.isFloat && y.isFloat then !x.float.eq y.float
    else if x.isFloat then !intEqualsFloat y.int x.float
    else !intEqualsFloat x.int y.float
  | _, _ => !pyEquals a b

def intTooLarge (site : Text) : DiffError :=
  .wouldRaise (site ++ text " OverflowError") (text "int too large to convert to float")

/-- `max(a, b) - min(a, b)` of two values that differ. -/
def maxMinusMin (a b : PyValue) : Except DiffError PyNumber :=
  match asNumber a, asNumber b with
  | some x, some y =>
    if !x.isFloat && !y.isFloat then .ok { int := bigAbsDiff x.int y.int }
    else if !x.isFloat && floatOverflows x.int then .error (intTooLarge (text "jkutils/factor.py:222"))
    else if !y.isFloat && floatOverflows y.int then .error (intTooLarge (text "jkutils/factor.py:222"))
    else do
      let fx ← if x.isFloat then .ok x.float else bigToDouble x.int
      let fy ← if y.isFloat then .ok y.float else bigToDouble y.int
      return { isFloat := true, float := (fx.sub fy).abs }
  | _, _ => .error (.wouldRaise (text "jkutils/factor.py:222 TypeError")
      (text "max()/min()/- of non-numeric JSON values"))

/-- One round of `SumValues`. -/
def sumRound (site : Text) (acc v : PyNumber) : Except DiffError PyNumber :=
  if !acc.isFloat && !v.isFloat then .ok { acc with int := bigAdd acc.int v.int }
  else if !acc.isFloat then
    if floatOverflows acc.int then .error (intTooLarge site)
    else do
      let x ← bigToDouble acc.int
      return { acc with isFloat := true, float := x.add v.float }
  else if !v.isFloat then
    if floatOverflows v.int then .error (intTooLarge site)
    else do
      let x ← bigToDouble v.int
      return { acc with float := acc.float.add x }
  else .ok { acc with float := acc.float.add v.float }

def sumValues (values : List PyNumber) (site : Text) : Except DiffError PyNumber :=
  values.foldlM (sumRound site) {}

def numberOf (site : Text) (v : PyValue) : Except DiffError PyNumber :=
  match asNumber v with
  | some n => .ok n
  | none => .error (.wouldRaise (site ++ text " TypeError") (text "unsupported operand type(s) for +"))

def numbersOf (values : List PyValue) (site : Text) : Except DiffError (List PyNumber) :=
  values.mapM (numberOf site)

/-- What `Diffs` holds for a key: a number, or a value as it stood. -/
inductive DiffEntry
  | number (n : PyNumber)
  | raw (v : PyValue)

/-- `Diffs`, in the order of `Order`. -/
abbrev Diffs := InsertionDict Text DiffEntry

/-- One round over the first object. -/
def mainRound (factors2 : List (Text × PyValue)) (diffs : Diffs) (member : Text × PyValue) :
    Except DiffError Diffs :=
  match factors2.find? fun other => other.1 = member.1 with
  | some other =>
    if pyNotEqual member.2 other.2 then do
      let n ← maxMinusMin member.2 other.2
      return diffs.put member.1 (.number n)
    else .ok diffs
  | none => .ok (diffs.put member.1 (.raw member.2))

/-- One round over the second object; a shared key is assigned once more. -/
def diffRound (factors1 : List (Text × PyValue)) (diffs : Diffs) (member : Text × PyValue) :
    Except DiffError Diffs :=
  match factors1.find? fun other => other.1 = member.1 with
  | some other =>
    if pyNotEqual member.2 other.2 then do
      let n ← maxMinusMin other.2 member.2
      return diffs.put member.1 (.number n)
    else .ok diffs
  | none => .ok (diffs.put member.1 (.raw member.2))

def callgraphDiffs (factors1 factors2 : List (Text × PyValue)) : Except DiffError Diffs := do
  let diffs ← factors1.foldlM (mainRound factors2) .empty
  factors2.foldlM (diffRound factors1) diffs

def entryNumber : DiffEntry → Except DiffError PyNumber
  | .number n => .ok n
  | .raw v => numberOf (text "jkutils/factor.py:242") v

/-- `Diff` and `Total`. -/
def callgraphSums (factors1 factors2 : List (Text × PyValue)) :
    Except DiffError (PyNumber × PyNumber) := do
  let diffs ← callgraphDiffs factors1 factors2
  let diffValues ← diffs.entries.mapM fun entry => entryNumber entry.2
  let diff ← sumValues diffValues (text "jkutils/factor.py:242")
  let values1 ← numbersOf (factors1.map Prod.snd) (text "D:1315")
  let total ← sumValues values1 (text "D:1315")
  return (diff,total)

structure CallgraphOutcome where
  equal : Bool := false
  percent : Option Binary64 := none
  deriving DecidableEq

/-- The percent of two sums, where it is known exactly. -/
def callgraphPercent (diff total : PyNumber) : Except DiffError CallgraphOutcome :=
  let diffBig := !diff.isFloat && floatOverflows diff.int
  let totalBig := !total.isFloat && floatOverflows total.int
  let zeroTest (name : String) : DiffError := .unsupportedInput
    (text "check_callgraph: NOT PORTED: a float sum() zero test (" ++ text name ++
      text " == 0, D:1316) decides whether an int too large for a double is converted (D:1319)")
  if !total.isFloat && total.int.mag.isEmpty then .ok { percent := some .zero }
  else if total.isFloat then
    if !diff.isFloat && diff.int.mag.isEmpty then .ok { percent := some .zero }
    else if diffBig then .error (zeroTest "total")
    else .ok {}
  else if !diff.isFloat && diff.int.mag.isEmpty then .ok { percent := some .zero }
  else if diff.isFloat then if totalBig then .error (zeroTest "diff") else .ok {}
  else if diffBig || totalBig then .error (intTooLarge (text "D:1319"))
  else do
    let d ← bigToDouble diff.int
    let t ← bigToDouble total.int
    return { percent := some ((d.mul (Binary64.ofBits 0x4059000000000000)).div t) }

/-- `CallgraphDifference`. -/
def callgraphDifference (cg1 : PyDecimal) (factors1 : PyValue) (cg2 : PyDecimal)
    (factors2 : PyValue) : Except DiffError CallgraphOutcome := do
  if ← decimalEquals cg1 cg2 then return { equal := true, percent := some .zero }
  match factors1, factors2 with
  | .dict members1, .dict members2 =>
    let sums ← callgraphSums members1 members2
    callgraphPercent sums.1 sums.2
  | .dict members1, _ =>
    throw (.wouldRaise
      (if members1.isEmpty then text "jkutils/factor.py:226 AttributeError"
        else text "jkutils/factor.py:220 AttributeError")
      (text "the diff callgraph_all_primes JSON is not an object"))
  | _, _ =>
    throw (.wouldRaise (text "jkutils/factor.py:219 AttributeError")
      (text "the main callgraph_all_primes JSON is not an object"))

end DSigMatcher.Preflight
