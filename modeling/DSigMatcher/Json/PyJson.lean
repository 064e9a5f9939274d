import DSigMatcher.Json.Parse
import DSigMatcher.Framework.Binary64

namespace DSigMatcher.Json
open DSigMatcher.Base DSigMatcher.Framework

/-- A `PyValue`; an integer is its canonical decimal, and a dict its keys with their values. -/
inductive PyValue
  | none
  | bool (b : Bool)
  | int (digits : Text)
  | float (x : Binary64)
  | str (t : Text)
  | list (items : List PyValue)
  | dict (members : List (Text × PyValue))

def bitLength (n : Nat) : Nat := if n = 0 then 0 else Nat.log2 n+1

/-- The division loop of `DecimalToDouble`: so many bits of the quotient, and what remains. -/
def quotientBits : Nat → Nat → Nat → Nat × Nat
  | 0, numerator, _ => (0,numerator)
  | bit+1, numerator, denominator =>
    let step := denominator*2^bit
    if step ≤ numerator then
      let (quotient, rest) := quotientBits bit (numerator-step) denominator
      (2^bit+quotient,rest)
    else quotientBits bit numerator denominator

/-- `ldexp(kept, exponent)` where the result is exact or overflows. -/
def ldexp (kept : Nat) (exponent : Int) : Nat :=
  let top := (bitLength kept : Int)-1+exponent
  if kept = 0 then 0
  else if 1023 < top then Binary64.infinityMagnitude
  else if -1022 ≤ top then
    (top+1022).toNat*2^52 + kept*2^53/2^(bitLength kept)
  else kept*2^(exponent+1074).toNat

/-- The word of a magnitude under a sign. -/
def signed (negative : Bool) (magnitude : Nat) : Binary64 :=
  Binary64.ofBits ((if negative then 2^63 else 0) + magnitude)

def maxSignificantDigits : Nat := 800

/-- The bits that are kept of a quotient of `bits` bits, and the rounding to even. -/
def roundQuotient (quotient shift : Nat) (sticky : Bool) : Nat :=
  if shift < 64 then
    let kept := quotient/2^shift
    let dropped := quotient%2^shift
    let half := 2^(shift-1)
    if half < dropped ∨ dropped = half ∧ (sticky ∨ kept%2 = 1) then kept+1 else kept
  else if shift = 64 ∧ (2^63 < quotient ∨ quotient = 2^63 ∧ sticky) then 1
  else 0

/-- `DecimalToDouble`: the double nearest to the digits times a power of ten, ties to even. -/
def decimalToDouble (negative : Bool) (digits : Text) (exp10 : Int) : Binary64 :=
  let digits := digits.dropWhile (· = 48)
  let zeros := (digits.reverse.takeWhile (· = 48)).length
  let exp10 := exp10+zeros
  let digits := digits.take (digits.length-zeros)
  if digits.isEmpty then signed negative 0
  else
    let long := maxSignificantDigits < digits.length
    let exp10 := if long then exp10+(digits.length-maxSignificantDigits-1 : Nat) else exp10
    let digits := if long then digits.take maxSignificantDigits ++ [49] else digits
    let magnitude := digits.length+exp10
    if 310 < magnitude then signed negative Binary64.infinityMagnitude
    else if magnitude ≤ -324 then signed negative 0
    else
      let numerator := JsonValue.digitsValue digits*10^exp10.toNat
      let denominator := 10^(-exp10).toNat
      let k : Int := 63-((bitLength numerator : Int)-bitLength denominator)
      let (quotient, rest) := quotientBits 64 (numerator*2^k.toNat) (denominator*2^(-k).toNat)
      let bits := bitLength quotient
      let exp2 := (bits : Int)-1-k
      if 1023 < exp2 then signed negative Binary64.infinityMagnitude
      else
        let keep := if -1022 ≤ exp2 then 53 else exp2+1075
        let shift := (bits : Int)-keep
        signed negative (ldexp (roundQuotient quotient shift.toNat (rest ≠ 0)) (shift-k))

example : decimalToDouble false (text "100") (-2) = Binary64.one := by decide
example : (decimalToDouble true (text "15") (-1)).toBits = 0xBFF8000000000000 := by decide
example : (decimalToDouble false (text "5") (-324)).toBits = 1 := by decide +kernel

/-- `MAX_ABS_EXP` of dtoa.c. -/
def maxAbsExp : Nat := 1100000000

/-- What `PyJsonParser` throws: a decode error at an offset, or `JsonDepthExceeded`. -/
inductive PyJsonError
  | decode (message : Text) (position : Nat)
  | depthExceeded
  deriving DecidableEq

/-- What `PyJsonLoads` throws. -/
inductive PyLoadsError
  | diaphoraWouldRaise (site message : Text)
  | unsupportedInput (message : Text)
  deriving DecidableEq

abbrev PyParsed (α : Type) := Except PyJsonError (α × Text)

/-- `PyJsonParser` on a text of this length; what is left to read stands for `Pos_`. -/
structure PyJsonParser where
  size : Nat

def PyJsonParser.fail {α : Type} (p : PyJsonParser) (rest : Text) (message : Text) :
    Except PyJsonError α :=
  .error (.decode message (p.size-rest.length))

def skipWs (t : Text) : Text := t.dropWhile fun c => c = 32 || c = 9 || c = 10 || c = 13

def appendCodePoint (code : Nat) : Text :=
  if code < 0x80 then [UInt8.ofNat code]
  else if code < 0x800 then [UInt8.ofNat (0xC0+code/64), UInt8.ofNat (0x80+code%64)]
  else if code < 0x10000 then
    [UInt8.ofNat (0xE0+code/4096), UInt8.ofNat (0x80+code/64%64), UInt8.ofNat (0x80+code%64)]
  else [UInt8.ofNat (0xF0+code/262144), UInt8.ofNat (0x80+code/4096%64),
    UInt8.ofNat (0x80+code/64%64), UInt8.ofNat (0x80+code%64)]

/-- One round of the exponent's digit loop: the value, and how many digits are significant. -/
def exponentRound (state : Nat × Nat) (c : UInt8) : Nat × Nat :=
  (if state.1 ≤ maxAbsExp then state.1*10+(c.toNat-48) else state.1,
    if 0 < state.2 || c != 48 then state.2+1 else state.2)

/-- The value of the exponent's digits, clamped as in dtoa.c. -/
def exponentValue (digits : Text) : Nat :=
  let (value, significant) := digits.foldl exponentRound (0,0)
  if 8 < significant ∨ maxAbsExp < value then maxAbsExp else value

namespace PyJsonParser
variable (p : PyJsonParser)

def hexDigits : Nat → Nat → Text → PyParsed Nat
  | 0, value, rest => .ok (value,rest)
  | _+1, _, [] => p.fail [] (text "Invalid \\uXXXX escape")
  | n+1, value, c::rest =>
    if 48 ≤ c ∧ c ≤ 57 then hexDigits n (value*16+(c.toNat-48)) rest
    else if 97 ≤ c ∧ c ≤ 102 then hexDigits n (value*16+(c.toNat-87)) rest
    else if 65 ≤ c ∧ c ≤ 70 then hexDigits n (value*16+(c.toNat-55)) rest
    else p.fail rest (text "Invalid \\uXXXX escape")

def hex4 (t : Text) : PyParsed Nat :=
  if t.length < 4 then p.fail t (text "Invalid \\uXXXX escape") else p.hexDigits 4 0 t

/-- After `\u`; the second escape is tried only where a byte follows it. -/
def unicodeEscape (t : Text) : PyParsed Text :=
  match p.hex4 t with
  | .error e => .error e
  | .ok (code,rest) =>
    if 0xD800 ≤ code ∧ code ≤ 0xDBFF ∧ 6 < rest.length ∧ rest.take 2 = [92, 117] then
      match p.hex4 (rest.drop 2) with
      | .error e => .error e
      | .ok (low,rest') =>
        if 0xDC00 ≤ low ∧ low ≤ 0xDFFF then
          .ok (appendCodePoint (0x10000+(code-0xD800)*1024+(low-0xDC00)),rest')
        else .ok (appendCodePoint code,rest)
    else .ok (appendCodePoint code,rest)

def escape (c : UInt8) (rest : Text) : PyParsed Text :=
  if c = 34 then .ok ([34],rest)
  else if c = 92 then .ok ([92],rest)
  else if c = 47 then .ok ([47],rest)
  else if c = 98 then .ok ([8],rest)
  else if c = 102 then .ok ([12],rest)
  else if c = 110 then .ok ([10],rest)
  else if c = 114 then .ok ([13],rest)
  else if c = 116 then .ok ([9],rest)
  else if c = 117 then p.unicodeEscape rest
  else p.fail rest (text "Invalid \\escape")

def prepend (bytes : Text) : PyParsed Text → PyParsed Text
  | .ok (t,rest) => .ok (bytes ++ t,rest)
  | .error e => .error e

/-- `ParseString` after the opening quote; every round reads a byte. -/
def parseString : Nat → Text → PyParsed Text
  | 0, t => p.fail t (text "Unterminated string starting at")
  | _+1, [] => p.fail [] (text "Unterminated string starting at")
  | fuel+1, c::rest =>
    if c = 34 then .ok ([],rest)
    else if c < 32 then p.fail (c::rest) (text "Invalid control character at")
    else if c ≠ 92 then prepend [c] (parseString fuel rest)
    else
      match rest with
      | [] => p.fail [] (text "Unterminated string starting at")
      | e::rest =>
        match p.escape e rest with
        | .error error => .error error
        | .ok (bytes,rest) => prepend bytes (parseString fuel rest)

/-- The fraction's digits, where a digit follows the point. -/
def fraction (t : Text) : Option (Text × Text) :=
  match t with
  | 46::r =>
    if r.head?.any isDigit then some (r.takeWhile isDigit,r.dropWhile isDigit) else none
  | _ => none

/-- The exponent, where digits end it; a sign with nothing behind it is not skipped. -/
def exponent (t : Text) : Option (Int × Text) :=
  match t with
  | [] => none
  | e::r =>
    if r ≠ [] ∧ (e = 101 ∨ e = 69) then
      let signed := 1 < r.length && (r.head? = some 45 || r.head? = some 43)
      let digits := if signed then r.tail else r
      let value : Int := exponentValue (digits.takeWhile isDigit)
      if (digits.takeWhile isDigit).isEmpty then none
      else some (if signed && r.head? = some 45 then -value else value,digits.dropWhile isDigit)
    else none

/-- `ParseNumber` after the integer part. -/
def numberTail (negative : Bool) (integer t : Text) : PyParsed PyValue :=
  let fractionPart := ((fraction t).map Prod.fst).getD []
  let afterFraction := ((fraction t).map Prod.snd).getD t
  let exponentPart := ((exponent afterFraction).map Prod.fst).getD 0
  let rest := ((exponent afterFraction).map Prod.snd).getD afterFraction
  if (fraction t).isNone && (exponent afterFraction).isNone then
    .ok (.int (if integer = [48] || !negative then integer else 45::integer),rest)
  else
    .ok (.float (decimalToDouble negative (integer ++ fractionPart)
      (exponentPart-fractionPart.length)),rest)

def parseNumber (t : Text) : PyParsed PyValue :=
  let negative : Bool := t.head? = some 45
  match if negative then t.tail else t with
  | [] => p.fail [] (text "Expecting value")
  | c::r =>
    if 49 ≤ c ∧ c ≤ 57 then numberTail negative (c::r.takeWhile isDigit) (r.dropWhile isDigit)
    else if c = 48 then numberTail negative [48] r
    else p.fail (c::r) (text "Expecting value")

/-- The loop of `ParseArray`, at an item. -/
def parseItems (parseValue : Text → PyParsed PyValue) :
    Nat → List PyValue → Text → PyParsed PyValue
  | 0, _, t => p.fail t (text "Expecting ',' delimiter")
  | fuel+1, items, t =>
    match parseValue t with
    | .error e => .error e
    | .ok (v,t) =>
      match skipWs t with
      | [] => p.fail [] (text "Expecting ',' delimiter")
      | c::rest =>
        if c = 93 then .ok (.list (items ++ [v]),rest)
        else if c ≠ 44 then p.fail (c::rest) (text "Expecting ',' delimiter")
        else if (skipWs rest).head? = some 93 then
          p.fail (skipWs rest) (text "Illegal trailing comma before end of array")
        else parseItems parseValue fuel (items ++ [v]) (skipWs rest)

def parseArray (parseValue : Text → PyParsed PyValue) (t : Text) : PyParsed PyValue :=
  match skipWs t with
  | 93::rest => .ok (.list [],rest)
  | t => p.parseItems parseValue (t.length+1) [] t

/-- Dict assignment: an existing key keeps its position. -/
def setItem (key : Text) (value : PyValue) : List (Text × PyValue) → List (Text × PyValue)
  | [] => [(key,value)]
  | m::ms => if m.1 = key then (m.1,value)::ms else m::setItem key value ms

/-- One `"key": value` of an object, at the key. -/
def parseMember (parseValue : Text → PyParsed PyValue) (t : Text) :
    PyParsed (Text × PyValue) :=
  match t with
  | 34::t =>
    match p.parseString (t.length+1) t with
    | .error e => .error e
    | .ok (key,t) =>
      match skipWs t with
      | 58::t =>
        match parseValue (skipWs t) with
        | .error e => .error e
        | .ok (v,t) => .ok ((key,v),t)
      | t => p.fail t (text "Expecting ':' delimiter")
  | t => p.fail t (text "Expecting property name enclosed in double quotes")

/-- The loop of `ParseObject`, at a key. -/
def parseMembers (parseValue : Text → PyParsed PyValue) :
    Nat → List (Text × PyValue) → Text → PyParsed PyValue
  | 0, _, t => p.fail t (text "Expecting ',' delimiter")
  | fuel+1, members, t =>
    match p.parseMember parseValue t with
    | .error e => .error e
    | .ok ((key,v),t) =>
      match skipWs t with
      | [] => p.fail [] (text "Expecting ',' delimiter")
      | c::rest =>
        if c = 125 then .ok (.dict (setItem key v members),rest)
        else if c ≠ 44 then p.fail (c::rest) (text "Expecting ',' delimiter")
        else if (skipWs rest).head? = some 125 then
          p.fail (skipWs rest) (text "Illegal trailing comma before end of object")
        else parseMembers parseValue fuel (setItem key v members) (skipWs rest)

def parseObject (parseValue : Text → PyParsed PyValue) (t : Text) : PyParsed PyValue :=
  match skipWs t with
  | 125::rest => .ok (.dict [],rest)
  | t => p.parseMembers parseValue (t.length+1) [] t

/-- A case of `ParseValue` that knows one word. -/
def literal (t : Text) (word : Text) (v : PyValue) : PyParsed PyValue :=
  if startsWith t word then .ok (v,t.drop word.length) else p.fail t (text "Expecting value")

/-- The quiet NaN. -/
def nan : Binary64 := Binary64.ofBits 0x7FF8000000000000

/-- `ParseValue`, given how containers are read. -/
def parseToken (parseArray parseObject : Text → PyParsed PyValue) (t : Text) :
    PyParsed PyValue :=
  match t with
  | [] => p.fail [] (text "Expecting value")
  | c::rest =>
    if c = 34 then
      match p.parseString (rest.length+1) rest with
      | .error e => .error e
      | .ok (s,rest) => .ok (.str s,rest)
    else if c = 123 then parseObject rest
    else if c = 91 then parseArray rest
    else if c = 110 then p.literal t (text "null") .none
    else if c = 116 then p.literal t (text "true") (.bool true)
    else if c = 102 then p.literal t (text "false") (.bool false)
    else if c = 78 then p.literal t (text "NaN") (.float nan)
    else if c = 73 then
      p.literal t (text "Infinity") (.float (signed false Binary64.infinityMagnitude))
    else if c = 45 then
      if startsWith t (text "-Infinity") then
        .ok (.float (signed true Binary64.infinityMagnitude),t.drop 9)
      else p.parseNumber t
    else if isDigit c then p.parseNumber t
    else p.fail t (text "Expecting value")

/-- `ParseValue` with so many levels left; a container below them ends the whole parse. -/
def parseValue : Nat → Text → PyParsed PyValue
  | 0 => p.parseToken (fun _ => .error .depthExceeded) (fun _ => .error .depthExceeded)
  | levels+1 => p.parseToken (p.parseArray (parseValue levels)) (p.parseObject (parseValue levels))

/-- `Document`. -/
def document (t : Text) : Except PyJsonError PyValue :=
  match p.parseValue maxJsonDepth (skipWs t) with
  | .error e => .error e
  | .ok (v,rest) =>
    match skipWs rest with
    | [] => .ok v
    | rest => p.fail rest (text "Extra data")

end PyJsonParser

/-- `PyJsonLoads`. -/
def pyJsonLoads (t : Text) : Except PyLoadsError PyValue :=
  match (PyJsonParser.mk t.length).document t with
  | .ok v => .ok v
  | .error (.decode message position) =>
    .error (.diaphoraWouldRaise (text "json.loads")
      (text "JSONDecodeError: " ++ message ++ text " (char " ++ decimal position ++ text ")"))
  | .error .depthExceeded =>
    .error (.unsupportedInput (text "json.loads: nesting deeper than " ++ decimal maxJsonDepth ++
      text " (Python's RecursionError depth is NOT DETERMINED FROM SOURCE)"))

end DSigMatcher.Json
