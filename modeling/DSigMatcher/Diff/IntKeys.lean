import DSigMatcher.Diff.PyInt

namespace DSigMatcher.Diff
open DSigMatcher.Base

/-- The digit loop of `PyIntCanonical` behind a byte: the digits, and the last byte. -/
def canonicalDigits : UInt8 → Text → Option (Text × UInt8)
  | prev, [] => some ([],prev)
  | prev, c::r =>
    if c = 95 then if !isDigit prev then none else canonicalDigits c r
    else if isDigit c then (canonicalDigits c r).map fun read => (c::read.1,read.2)
    else none

/-- `PyIntCanonical`: `str(int(text))`. -/
def pyIntCanonical (t : Text) : Except DiffError (Option Text) :=
  if !isAscii t then
    .error (.unsupportedInput
      (text "int(): non-ASCII address text is not ported (Unicode digit/space mapping)"))
  else
    match canonicalDigits 0 (dropSign (trimSpaces t)) with
    | none => .ok none
    | some (digits,last) =>
      if digits.isEmpty || last = 95 then .ok none
      else
        let significant := digits.dropWhile (· = 48)
        if significant.isEmpty then .ok (some (text "0"))
        else .ok (some (if (trimSpaces t).head? = some 45 then 45::significant else significant))

example : pyIntCanonical (text " -0_12 ") = .ok (some (text "-12")) := by rfl

/-- An integer as it is compared: the sign, and the digits without leading zeros. -/
structure PyIntKey where
  negative : Bool := false
  digits : Text := []
  deriving DecidableEq

/-- `std::string::compare`. -/
def compareText : Text → Text → Int
  | [], [] => 0
  | [], _::_ => -1
  | _::_, [] => 1
  | a::s, b::t => if a < b then -1 else if b < a then 1 else compareText s t

def PyIntKey.compare (a b : PyIntKey) : Int :=
  if a.negative ≠ b.negative then if a.negative then -1 else 1
  else
    let magnitude :=
      if a.digits.length ≠ b.digits.length then
        if a.digits.length < b.digits.length then -1 else 1
      else
        let cmp := compareText a.digits b.digits
        if cmp < 0 then -1 else if cmp > 0 then 1 else 0
    if a.negative then -magnitude else magnitude

/-- The loop of `IntKeyOf`; `leading` holds up to the first digit other than zero. -/
def intKeyLoop : Bool → PyIntKey → Text → PyIntKey
  | _, key, [] => key
  | leading, key, c::t =>
    if c = 45 then intKeyLoop leading { key with negative := true } t
    else if isDigit c then
      if leading && c = 48 then intKeyLoop leading key t
      else intKeyLoop false { key with digits := key.digits ++ [c] } t
    else intKeyLoop leading key t

def intKeyOf (ea : Option Text) (site : Text) : Except DiffError PyIntKey :=
  match requirePyInt ea site with
  | .error e => .error e
  | .ok () =>
    let key := intKeyLoop true {} (ea.getD [])
    .ok (if key.digits.isEmpty then { key with negative := false } else key)

end DSigMatcher.Diff
