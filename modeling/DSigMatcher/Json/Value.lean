import DSigMatcher.Base.Text
import Mathlib

namespace DSigMatcher.Json
open DSigMatcher.Base

/-- An error of the parser, at an offset, or of a reader, at a member path. -/
structure JsonError where
  detail : Text
  position : Option Nat := none
  path : Text := []
  deriving DecidableEq

/-- `JsonError::Format`. -/
def JsonError.what (e : JsonError) : Text :=
  (if e.path.isEmpty then e.detail else e.path ++ text ": " ++ e.detail) ++
    match e.position with
    | some offset => text " at offset " ++ decimal offset
    | none => []

/-- Numbers are kept as their source text, members in order. -/
inductive JsonValue
  | null
  | bool (b : Bool)
  | number (t : Text)
  | string (t : Text)
  | array (items : List JsonValue)
  | object (members : List (Text × JsonValue))

def isDigit (c : UInt8) : Bool := 48 ≤ c && c ≤ 57

def dropDigits (t : Text) : Text := t.dropWhile isDigit

/-- The exponent part of `NUMBER_RE`, up to the end of the text. -/
def isExponentText : Text → Bool
  | [] => true
  | e::r =>
    let r := if r.head? = some 43 ∨ r.head? = some 45 then r.tail else r
    (e = 101 || e = 69) && r.head?.any isDigit && (dropDigits r).isEmpty

/-- `IsJsonNumberText`. -/
def isJsonNumberText (t : Text) : Bool :=
  match if t.head? = some 45 then t.tail else t with
  | [] => false
  | c::r =>
    if !isDigit c then false
    else
      match if c = 48 then r else dropDigits r with
      | 46::f => f.head?.any isDigit && isExponentText (dropDigits f)
      | r => isExponentText r

example : isJsonNumberText (text "-12.50e+3") = true := by decide
example : isJsonNumberText (text "01") = false := by decide

namespace JsonValue

/-- `KindError`. -/
def kindError {α : Type} (wanted : String) : Except JsonError α :=
  .error { detail := text "JSON value is not " ++ text wanted }

def isObject : JsonValue → Bool
  | object _ => true
  | _ => false

def asBool : JsonValue → Except JsonError Bool
  | bool b => .ok b
  | _ => kindError "a boolean"

def asString : JsonValue → Except JsonError Text
  | string t => .ok t
  | _ => kindError "a string"

def items : JsonValue → Except JsonError (List JsonValue)
  | array items => .ok items
  | _ => kindError "an array"

/-- `IsIntegerText`: no fraction, no exponent, no NaN or Infinity. -/
def isIntegerText : JsonValue → Bool
  | number t => !t.isEmpty && t.all fun c => c != 46 && c != 101 && c != 69 && c != 78 && c != 73
  | _ => false

def digitsValue (t : Text) : Nat := t.foldl (fun value c => value*10 + (c.toNat-48)) 0

/-- `from_chars` of a whole text into a signed 64-bit number. -/
def fromChars (t : Text) : Option Int64 :=
  let negative := t.head? = some 45
  let digits := if negative then t.tail else t
  let value : Int := if negative then -digitsValue digits else digitsValue digits
  if digits.isEmpty || !digits.all isDigit then none
  else if -2^63 ≤ value ∧ value < 2^63 then some (Int64.ofInt value)
  else none

def asInt64 (v : JsonValue) : Except JsonError Int64 :=
  match v with
  | number t =>
    if !v.isIntegerText then kindError "an integer"
    else
      match fromChars t with
      | some value => .ok value
      | none => .error { detail := text "integer out of int64 range: " ++ t }
  | _ => kindError "an integer"

def int (value : Int64) : JsonValue := number (decimalInt value.toInt)

def find? (v : JsonValue) (key : Text) : Option JsonValue :=
  match v with
  | object members => (members.find? fun m => m.1 = key).map Prod.snd
  | _ => none

/-- `At`: an error without a path. -/
def atKey (v : JsonValue) (key : Text) : Except JsonError JsonValue :=
  match v.find? key with
  | some value => .ok value
  | none => .error { detail := text "missing member \"" ++ key ++ text "\"" }

/-- `Set` on the members: a known key is replaced in place. -/
def setMember (key : Text) (value : JsonValue) : List (Text × JsonValue) → List (Text × JsonValue)
  | [] => [(key,value)]
  | m::ms => if m.1 = key then (key,value)::ms else m::setMember key value ms

theorem setMember_new (key : Text) (value : JsonValue) (members : List (Text × JsonValue))
    (h : key ∉ members.map Prod.fst) : setMember key value members = members ++ [(key,value)] := by
  induction members with
  | nil => rfl
  | cons m ms ih =>
    rw [List.map_cons, List.mem_cons, not_or] at h
    rw [setMember, if_neg (Ne.symm h.1), ih h.2, List.cons_append]

end JsonValue

end DSigMatcher.Json
