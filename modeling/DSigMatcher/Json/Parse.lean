import DSigMatcher.Json.Value

namespace DSigMatcher.Json
open DSigMatcher.Base

structure JsonParseOptions where
  pythonCompat : Bool := false
  strictControlChars : Bool := true
  deriving DecidableEq

/-- `kMaxJsonDepth`. -/
def maxJsonDepth : Nat := 512

/-- The parser: the length of the whole text, and its options. -/
structure Parser where
  size : Nat
  options : JsonParseOptions

/-- A parsed value and the text that is left. -/
abbrev Parsed (α : Type) := Except JsonError (α × Text)

/-- `Fail` with `rest` still to read. -/
def Parser.fail {α : Type} (p : Parser) (rest : Text) (message : Text) : Except JsonError α :=
  .error { detail := message, position := some (p.size-rest.length) }

def isSpace (c : UInt8) : Bool := c = 32 || c = 9 || c = 10 || c = 13

def skipWhitespace (t : Text) : Text := t.dropWhile isSpace

def hexValue (c : UInt8) : Option Nat :=
  if 48 ≤ c ∧ c ≤ 57 then some (c.toNat-48)
  else if 97 ≤ c ∧ c ≤ 102 then some (c.toNat-87)
  else if 65 ≤ c ∧ c ≤ 70 then some (c.toNat-55)
  else none

/-- The bytes of a code point; a lone surrogate is three bytes like any other. -/
def appendUtf8 (code : Nat) : Text :=
  if code < 0x80 then [UInt8.ofNat code]
  else if code < 0x800 then [UInt8.ofNat (0xC0+code/64), UInt8.ofNat (0x80+code%64)]
  else if code < 0x10000 then
    [UInt8.ofNat (0xE0+code/4096), UInt8.ofNat (0x80+code/64%64), UInt8.ofNat (0x80+code%64)]
  else [UInt8.ofNat (0xF0+code/262144), UInt8.ofNat (0x80+code/4096%64),
    UInt8.ofNat (0x80+code/64%64), UInt8.ofNat (0x80+code%64)]

namespace Parser
variable (p : Parser)

/-- The digit loop of `ParseHex4`. -/
def hexDigits : Nat → Nat → Text → Parsed Nat
  | 0, value, rest => .ok (value,rest)
  | _+1, _, [] => p.fail [] (text "Invalid \\uXXXX escape")
  | n+1, value, c::rest =>
    match hexValue c with
    | some d => hexDigits n (value*16+d) rest
    | none => p.fail rest (text "Invalid \\uXXXX escape")

def parseHex4 (t : Text) : Parsed Nat :=
  if t.length < 4 then p.fail t (text "Invalid \\uXXXX escape") else p.hexDigits 4 0 t

/-- After `\u`: a high surrogate pairs up with a low one that follows it. -/
def parseUnicode (t : Text) : Parsed Text :=
  match p.parseHex4 t with
  | .error e => .error e
  | .ok (code,rest) =>
    if 0xD800 ≤ code ∧ code ≤ 0xDBFF ∧ 6 ≤ rest.length ∧ rest.take 2 = [92, 117] then
      match p.parseHex4 (rest.drop 2) with
      | .error e => .error e
      | .ok (low,rest') =>
        if 0xDC00 ≤ low ∧ low ≤ 0xDFFF then
          .ok (appendUtf8 (0x10000+(code-0xD800)*1024+(low-0xDC00)),rest')
        else .ok (appendUtf8 code,rest)
    else .ok (appendUtf8 code,rest)

/-- The character after a backslash. -/
def parseEscape (escape : UInt8) (rest : Text) : Parsed Text :=
  if escape = 34 then .ok ([34],rest)
  else if escape = 92 then .ok ([92],rest)
  else if escape = 47 then .ok ([47],rest)
  else if escape = 98 then .ok ([8],rest)
  else if escape = 102 then .ok ([12],rest)
  else if escape = 110 then .ok ([10],rest)
  else if escape = 114 then .ok ([13],rest)
  else if escape = 116 then .ok ([9],rest)
  else if escape = 117 then p.parseUnicode rest
  else p.fail rest (text "Invalid \\escape")

def prepend (bytes : Text) : Parsed Text → Parsed Text
  | .ok (t,rest) => .ok (bytes ++ t,rest)
  | .error e => .error e

/-- `ParseString` after the opening quote; every round reads a byte, so `fuel` rounds past the
length are never used. -/
def parseString : Nat → Text → Parsed Text
  | 0, t => p.fail t (text "Unterminated string")
  | _+1, [] => p.fail [] (text "Unterminated string")
  | fuel+1, c::rest =>
    if c = 34 then .ok ([],rest)
    else if c = 92 then
      match rest with
      | [] => p.fail [] (text "Unterminated string")
      | escape::rest =>
        match p.parseEscape escape rest with
        | .error e => .error e
        | .ok (bytes,rest) => prepend bytes (parseString fuel rest)
    else if c < 32 && p.options.strictControlChars then
      p.fail (c::rest) (text "Invalid control character")
    else prepend [c] (parseString fuel rest)

/-- The optional fraction: a point without a digit is left alone. -/
def scanFraction (t : Text) : Text × Text :=
  match t with
  | 46::r =>
    if r.head?.any isDigit then (46::r.takeWhile isDigit,dropDigits r) else ([],t)
  | _ => ([],t)

def scanExponent (t : Text) : Text × Text :=
  match t with
  | [] => ([],t)
  | e::r =>
    let sign := if r.head? = some 43 ∨ r.head? = some 45 then r.take 1 else []
    let digits := r.drop sign.length
    if (e = 101 || e = 69) && digits.head?.any isDigit then
      (e::sign ++ digits.takeWhile isDigit,dropDigits digits)
    else ([],t)

/-- Fraction and exponent after the integer part. -/
def numberTail (integer t : Text) : Parsed JsonValue :=
  let (fraction,t) := scanFraction t
  let (exponent,t) := scanExponent t
  .ok (.number (integer ++ fraction ++ exponent),t)

def parseNumber (t : Text) : Parsed JsonValue :=
  let sign := if t.head? = some 45 then [45] else []
  match t.drop sign.length with
  | [] => p.fail [] (text "Expecting value")
  | c::r =>
    if c = 48 then numberTail (sign ++ [48]) r
    else if 49 ≤ c ∧ c ≤ 57 then numberTail (sign ++ c::r.takeWhile isDigit) (dropDigits r)
    else p.fail (c::r) (text "Expecting value")

/-- The loop of `ParseArray`; every round reads at least one byte. -/
def parseItems (parseValue : Text → Parsed JsonValue) :
    Nat → List JsonValue → Text → Parsed JsonValue
  | 0, _, t => p.fail t (text "Expecting ',' delimiter")
  | fuel+1, items, t =>
    match parseValue (skipWhitespace t) with
    | .error e => .error e
    | .ok (v,t) =>
      match skipWhitespace t with
      | [] => p.fail [] (text "Expecting ',' delimiter")
      | c::rest =>
        if c = 44 then parseItems parseValue fuel (items ++ [v]) rest
        else if c = 93 then .ok (.array (items ++ [v]),rest)
        else p.fail (c::rest) (text "Expecting ',' delimiter")

/-- After the opening bracket. -/
def parseArray (parseValue : Text → Parsed JsonValue) (t : Text) : Parsed JsonValue :=
  match skipWhitespace t with
  | 93::rest => .ok (.array [],rest)
  | t => p.parseItems parseValue (t.length+1) [] t

/-- One `"key": value` of an object. -/
def parseMember (parseValue : Text → Parsed JsonValue) (t : Text) : Parsed (Text × JsonValue) :=
  match skipWhitespace t with
  | 34::t =>
    match p.parseString (t.length+1) t with
    | .error e => .error e
    | .ok (key,t) =>
      match skipWhitespace t with
      | 58::t =>
        match parseValue (skipWhitespace t) with
        | .error e => .error e
        | .ok (v,t) => .ok ((key,v),t)
      | t => p.fail t (text "Expecting ':' delimiter")
  | t => p.fail t (text "Expecting property name enclosed in double quotes")

/-- The loop of `ParseObject`; a duplicate key replaces the earlier value in place. -/
def parseMembers (parseValue : Text → Parsed JsonValue) :
    Nat → List (Text × JsonValue) → Text → Parsed JsonValue
  | 0, _, t => p.fail t (text "Expecting ',' delimiter")
  | fuel+1, members, t =>
    match p.parseMember parseValue t with
    | .error e => .error e
    | .ok ((key,v),t) =>
      match skipWhitespace t with
      | [] => p.fail [] (text "Expecting ',' delimiter")
      | c::rest =>
        if c = 44 then
          parseMembers parseValue fuel (JsonValue.setMember key v members) rest
        else if c = 125 then .ok (.object (JsonValue.setMember key v members),rest)
        else p.fail (c::rest) (text "Expecting ',' delimiter")

/-- After the opening brace. -/
def parseObject (parseValue : Text → Parsed JsonValue) (t : Text) : Parsed JsonValue :=
  match skipWhitespace t with
  | 125::rest => .ok (.object [],rest)
  | t => p.parseMembers parseValue (t.length+1) [] t

/-- The literals, and the numbers of `PythonCompat`. -/
def literals : List (Text × JsonValue) :=
  [(text "null",.null), (text "true",.bool true), (text "false",.bool false)] ++
    if p.options.pythonCompat then
      [(text "NaN",.number (text "NaN")), (text "Infinity",.number (text "Infinity")),
        (text "-Infinity",.number (text "-Infinity"))]
    else []

/-- `ParseValue`, given how containers are read. -/
def parseToken (parseArray parseObject : Text → Parsed JsonValue) (t : Text) :
    Parsed JsonValue :=
  match t with
  | [] => p.fail [] (text "Expecting value")
  | c::rest =>
    if c = 123 then parseObject rest
    else if c = 91 then parseArray rest
    else if c = 34 then
      match p.parseString (rest.length+1) rest with
      | .error e => .error e
      | .ok (s,rest) => .ok (.string s,rest)
    else
      match p.literals.find? fun l => startsWith t l.1 with
      | some (literal,v) => .ok (v,t.drop literal.length)
      | none =>
        if c = 45 || isDigit c then p.parseNumber t
        else p.fail t (text "Expecting value")

/-- A container below the deepest level; it is reported at its bracket. -/
def tooDeep (bracket : UInt8) (rest : Text) : Parsed JsonValue :=
  p.fail (bracket::rest) (text "nesting too deep (more than 512 levels)")

/-- `ParseValue` with so many levels left. -/
def parseValue : Nat → Text → Parsed JsonValue
  | 0 => p.parseToken (p.tooDeep 91) (p.tooDeep 123)
  | levels+1 => p.parseToken (p.parseArray (parseValue levels)) (p.parseObject (parseValue levels))

end Parser

/-- `JsonParse`. -/
def jsonParse (t : Text) (options : JsonParseOptions) : Except JsonError JsonValue :=
  let p : Parser := ⟨t.length, options⟩
  match p.parseValue maxJsonDepth (skipWhitespace t) with
  | .error e => .error e
  | .ok (v,rest) =>
    match skipWhitespace rest with
    | [] => .ok v
    | rest => p.fail rest (text "Extra data")

end DSigMatcher.Json
