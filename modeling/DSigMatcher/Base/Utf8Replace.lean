import DSigMatcher.Base.Text

namespace DSigMatcher.Base

/-- A sequence that is not complete: the bytes it still needs, its code point so far, and the range
of its next byte. -/
structure Unfinished where
  need : Nat
  code : Nat
  low : Nat := 0x80
  high : Nat := 0xBF

def replacement : Char := Char.ofNat 0xFFFD

/-- The sequence that a byte above ASCII starts, if any does. -/
def startsSequence (b : Nat) : Option Unfinished :=
  if b < 0xC2 then none
  else if b ≤ 0xDF then some { need := 1, code := b-0xC0 }
  else if b = 0xE0 then some { need := 2, code := 0, low := 0xA0 }
  else if b = 0xED then some { need := 2, code := 0xD, high := 0x9F }
  else if b ≤ 0xEF then some { need := 2, code := b-0xE0 }
  else if b = 0xF0 then some { need := 3, code := 0, low := 0x90 }
  else if b ≤ 0xF3 then some { need := 3, code := b-0xF0 }
  else if b = 0xF4 then some { need := 3, code := 4, high := 0x8F }
  else none

/-- What a first byte gives at once, and the sequence it leaves open. -/
def firstByte (b : Nat) : List Char × Option Unfinished :=
  if b < 0x80 then ([Char.ofNat b],none)
  else
    match startsSequence b with
    | some u => ([],some u)
    | none => ([replacement],none)

/-- `bytes.decode("utf-8", "replace")`: one replacement for each longest start of a sequence that
does not go on. -/
def decodeReplace : Option Unfinished → Text → List Char
  | none, [] => []
  | some _, [] => [replacement]
  | none, b::r => (firstByte b.toNat).1 ++ decodeReplace (firstByte b.toNat).2 r
  | some u, b::r =>
    if u.low ≤ b.toNat ∧ b.toNat ≤ u.high then
      let code := u.code*64+(b.toNat-0x80)
      if u.need = 1 then Char.ofNat code::decodeReplace none r
      else decodeReplace (some { need := u.need-1, code }) r
    else replacement::((firstByte b.toNat).1 ++ decodeReplace (firstByte b.toNat).2 r)

end DSigMatcher.Base
