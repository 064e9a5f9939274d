import DSigMatcher.Framework.FloatOps
import DSigMatcher.Json.PyFloat
import Mathlib

namespace DSigMatcher.Json
open DSigMatcher.Base DSigMatcher.Framework JsonValue
open Binary64 (grid)

/-- `frexp`, and the mantissa of 53 bits with its power of two. -/
def frexp53 (m : Nat) : Nat × Int :=
  let mantissa := Binary64.mantissa m
  let missing := 53-bitLength mantissa
  (mantissa*2^missing,Binary64.exponent m-missing)

/-- The loop that halves an even mantissa. -/
def oddPart : Nat → Nat → Int → Nat × Int
  | 0, mantissa, exp2 => (mantissa,exp2)
  | fuel+1, mantissa, exp2 =>
    if mantissa%2 = 0 then oddPart fuel (mantissa/2) (exp2+1) else (mantissa,exp2)

/-- `ExactDecimal` of a magnitude: digits without zeros at either end, and the position of the
point before them. -/
def exactDecimal (m : Nat) : Text × Int :=
  let normal := frexp53 m
  let odd := oddPart 53 normal.1 normal.2
  let value := BigUInt.ofUInt64 (UInt64.ofNat odd.1)
  if 0 ≤ odd.2 then
    let digits := (value.shiftLeft odd.2.toNat).toDecimal
    (digits.rdropWhile (· = 48),digits.length)
  else
    let digits := (value.mulPow5 (-odd.2).toNat).toDecimal
    (digits.rdropWhile (· = 48),digits.length+odd.2)

/-- The loop of `IncrementDigits`, and whether it carries out of the first digit. -/
def incrementLoop : Text → Text × Bool
  | [] => ([],true)
  | c::t =>
    let rest := incrementLoop t
    if rest.2 then if c = 57 then (48::rest.1,true) else ((c+1)::rest.1,false)
    else (c::rest.1,false)

def incrementDigits (t : Text) : Text × Bool :=
  let rest := incrementLoop t
  (if rest.2 then 49::rest.1 else rest.1,rest.2)

/-- Whether digits behind a point are read as the double. -/
def readsAs (v : Binary64) (digits : Text) (decPt : Int) : Bool :=
  (BigUInt.decimalToDouble false digits (decPt-digits.length)).eq v

/-- The digits above the exact ones that are cut off, and the position of their point. -/
def upDigits (down : Text) (decPt : Int) : Text × Int :=
  let incremented := incrementDigits down
  if incremented.2 then (incremented.1.dropLast,decPt+1) else (incremented.1,decPt)

/-- Whether the upper one of two candidates is nearer; a tie takes the even last digit. -/
def nearerUp (down rest : Text) : Bool :=
  let first := rest.headD 0
  53 < first || first = 53 && (1 < rest.length || (down.getLastD 48).toNat%2 = 1)

/-- The loop of `ShortestDigits`, from a precision on. -/
def searchDigits (v : Binary64) (exact : Text) (decPt : Int) : Nat → Nat → Text × Int
  | 0, _ => (exact,decPt)
  | fuel+1, precision =>
    if exact.length ≤ precision then (exact,decPt)
    else
      let down := exact.take precision
      let up := upDigits down decPt
      let downOk := readsAs v down decPt
      let upOk := readsAs v up.1 up.2
      if !downOk && !upOk then searchDigits v exact decPt fuel (precision+1)
      else
        let takeUp := if downOk && upOk then nearerUp down (exact.drop precision)
          else upOk && !downOk
        if takeUp then (up.1.rdropWhile (· = 48),up.2) else (down.rdropWhile (· = 48),decPt)

def shortestDigits (v : Binary64) : Text × Int :=
  let exact := exactDecimal v.magnitude
  searchDigits v exact.1 exact.2 17 1

/-- Digits and the position of their point, written out. -/
def formatDigits (digits : Text) (decPt : Int) : Text :=
  if decPt ≤ -4 ∨ 16 < decPt then
    let exp := decPt-1
    let expDigits := decimal exp.natAbs
    digits.take 1 ++ (if 1 < digits.length then 46::digits.drop 1 else []) ++
      (if exp < 0 then text "e-" else text "e+") ++
      (if expDigits.length < 2 then [48] else []) ++ expDigits
  else if decPt ≤ 0 then text "0." ++ List.replicate (-decPt).toNat 48 ++ digits
  else if digits.length ≤ decPt then
    digits ++ List.replicate (decPt-digits.length).toNat 48 ++ text ".0"
  else digits.take decPt.toNat ++ [46] ++ digits.drop decPt.toNat

/-- `PyReprFloat`. -/
def pyReprFloat (x : Binary64) : Text :=
  if x.isNaN then text "nan"
  else if x.isInfinite then if x.negative then text "-inf" else text "inf"
  else if x.isZero then if x.negative then text "-0.0" else text "0.0"
  else
    let shortest := shortestDigits (signed false x.magnitude)
    (if x.negative then [45] else []) ++ formatDigits shortest.1 shortest.2

example : pyReprFloat Binary64.one = text "1.0" := by decide +kernel
example : pyReprFloat (Binary64.ofBits 0xBFB999999999999A) = text "-0.1" := by decide +kernel
example : pyReprFloat (Binary64.ofBits 1) = text "5e-324" := by decide +kernel

end DSigMatcher.Json
