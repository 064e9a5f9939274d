import DSigMatcher.Json.Value

namespace DSigMatcher.Json
open DSigMatcher.Base

/-- `%x` of one digit. -/
def hexDigit (n : Nat) : UInt8 := UInt8.ofNat (if n < 10 then 48+n else 87+n)

/-- One byte of a string literal. -/
def quoteByte (c : UInt8) : Text :=
  if c = 34 then [92, 34]
  else if c = 92 then [92, 92]
  else if c = 10 then [92, 110]
  else if c = 13 then [92, 114]
  else if c = 9 then [92, 116]
  else if c = 8 then [92, 98]
  else if c = 12 then [92, 102]
  else if c < 32 then [92, 117, 48, 48, hexDigit (c.toNat/16), hexDigit (c.toNat%16)]
  else [c]

/-- `JsonQuote`. -/
def jsonQuote (t : Text) : Text := [34] ++ t.flatMap quoteByte ++ [34]

example : jsonQuote [65, 34, 1] = text "\"A\\\"\\u0001\"" := by decide

def newLine (pretty : Bool) (level : Nat) : Text :=
  if pretty then 10::List.replicate (level*2) 32 else []

def separator (first : Bool) : Text := if first then [] else [44]

def colon (pretty : Bool) : Text := if pretty then [58, 32] else [58]

mutual

/-- `Write`; the items and members of one container are written by its two companions. -/
def write (pretty : Bool) (indent : Nat) : JsonValue → Text
  | .null => text "null"
  | .bool b => if b then text "true" else text "false"
  | .number t => t
  | .string t => jsonQuote t
  | .array items => [91] ++ writeItems pretty (indent+1) true items ++
      (if items.isEmpty then [] else newLine pretty indent) ++ [93]
  | .object members => [123] ++ writeMembers pretty (indent+1) true members ++
      (if members.isEmpty then [] else newLine pretty indent) ++ [125]

def writeItems (pretty : Bool) (indent : Nat) (first : Bool) : List JsonValue → Text
  | [] => []
  | v::vs => separator first ++ newLine pretty indent ++ write pretty indent v ++
      writeItems pretty indent false vs

def writeMembers (pretty : Bool) (indent : Nat) (first : Bool) :
    List (Text × JsonValue) → Text
  | [] => []
  | (k,v)::ms => separator first ++ newLine pretty indent ++ jsonQuote k ++ colon pretty ++
      write pretty indent v ++ writeMembers pretty indent false ms

end

def jsonWrite (pretty : Bool) (v : JsonValue) : Text := write pretty 0 v

example : jsonWrite false (.array [.null, .object [(text "k",.number (text "1"))]]) =
    text "[null,\x7b\"k\":1\x7d]" := by decide

end DSigMatcher.Json
