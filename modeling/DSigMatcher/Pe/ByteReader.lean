import DSigMatcher.Base.Text
import DSigMatcher.Framework.Traced
import Mathlib

namespace DSigMatcher.Pe
open DSigMatcher.Base DSigMatcher.Framework

/-- A `string_view` into the buffer. -/
structure View where
  offset : Nat := 0
  length : Nat := 0
  deriving DecidableEq

def View.bytes (v : View) (b : Text) : Text := (b.drop v.offset).take v.length

/-- The view ends inside a buffer of a size. -/
def View.Inside (size : Nat) (v : View) : Prop := v.offset+v.length ≤ size

instance (size : Nat) (v : View) : Decidable (v.Inside size) :=
  inferInstanceAs (Decidable (_ ≤ _))

/-- `ByteReader::Range`, which `Fits` asks. -/
def fits (b : Text) (offset length : Nat) : Bool := offset ≤ b.length && length ≤ b.length-offset

def byteAt (b : Text) (offset : Nat) : UInt8 := b.getD offset 0

def u8 (b : Text) (offset : Nat) : Option UInt8 :=
  if fits b offset 1 then some (byteAt b offset) else none

def u16 (b : Text) (offset : Nat) : Option UInt16 :=
  if fits b offset 2 then
    some ((byteAt b offset).toUInt16 ||| ((byteAt b (offset+1)).toUInt16 <<< 8))
  else none

def u32 (b : Text) (offset : Nat) : Option UInt32 :=
  if fits b offset 4 then
    some ((byteAt b offset).toUInt32 ||| ((byteAt b (offset+1)).toUInt32 <<< 8) |||
      ((byteAt b (offset+2)).toUInt32 <<< 16) ||| ((byteAt b (offset+3)).toUInt32 <<< 24))
  else none

def u64 (b : Text) (offset : Nat) : Option UInt64 :=
  if fits b offset 8 then
    some ((List.range 8).foldl (fun value index =>
      value ||| ((byteAt b (offset+index)).toUInt64 <<< UInt64.ofNat (index*8))) 0)
  else none

def bytes (b : Text) (offset length : Nat) : Option Text :=
  if fits b offset length then some ((b.drop offset).take length) else none

/-- `ByteReader::CString`: up to the next zero of the buffer. -/
def cString (b : Text) (offset : Nat) : Option View :=
  if fits b offset 1 then
    let length := ((b.drop offset).takeWhile (· ≠ 0)).length
    if length < b.length-offset then some ⟨offset,length⟩ else none
  else none

/-- What the parser does with offsets: a read whose success is not tested, a view that is kept, and
an offset that is computed. -/
inductive PeEvent
  | read (offset length : Nat)
  | view (v : View)
  | sum (value : Nat)

/-- The parser of an image, or its error text. -/
abbrev PeParser := Traced PeEvent Text

def sum (value : Nat) : PeParser Nat := Traced.note (.sum value) value

/-- A read at a displacement whose success is not tested: where it fails, the field keeps its zero. -/
def untested {α : Type} (read : Text → Nat → Option α) (width : Nat) (zero : α) (b : Text)
    (base displacement : Nat) : PeParser α := do
  let offset ← sum (base+displacement)
  Traced.note (.read offset width) ((read b offset).getD zero)

def read8 : Text → Nat → Nat → PeParser UInt8 := untested u8 1 0

def read16 : Text → Nat → Nat → PeParser UInt16 := untested u16 2 0

def read32 : Text → Nat → Nat → PeParser UInt32 := untested u32 4 0

def read64 : Text → Nat → Nat → PeParser UInt64 := untested u64 8 0

def require (c : Prop) [Decidable c] (error : Text) : PeParser Unit :=
  if c then pure () else Traced.fail error

/-- What has to be there. -/
def tested {α : Type} (value : Option α) (error : Text) : PeParser α :=
  match value with
  | some a => pure a
  | none => Traced.fail error

def keep (v : View) : PeParser View := Traced.note (.view v) v

/-- No untested read fails, no view leaves the buffer, and no offset leaves 64 bits. -/
def PeEvent.Good (size : Nat) : PeEvent → Prop
  | .read offset length => offset+length ≤ size
  | .view v => v.Inside size
  | .sum value => value < 2^64

section
variable {b : Text} {offset length : Nat}

theorem fits_iff : fits b offset length = true ↔ offset+length ≤ b.length := by
  rw [fits, Bool.and_eq_true, decide_eq_true_iff, decide_eq_true_iff]
  omega

theorem cString_inside {v : View} (h : cString b offset = some v) : v.Inside b.length := by
  rw [cString] at h
  dsimp only at h
  split_ifs at h with hfits hend
  cases h
  rw [View.Inside]
  rw [fits_iff] at hfits
  dsimp only
  omega

end

section
variable {size : Nat} {α : Type}

theorem sum_runs {value : Nat} (h : value < 2^64) :
    (sum value).Runs (PeEvent.Good size) (· = value) := .note h rfl

theorem untested_runs {read : Text → Nat → Option α} {width : Nat} {zero : α} {b : Text}
    {base displacement : Nat} (hread : base+displacement+width ≤ size)
    (hsum : base+displacement < 2^64) :
    (untested read width zero b base displacement).Runs (PeEvent.Good size) fun a =>
      a = (read b (base+displacement)).getD zero :=
  Traced.Runs.bind (sum_runs hsum) fun offset hoffset => by
    rw [hoffset]
    exact .note hread rfl

theorem require_runs {c : Prop} [Decidable c] {error : Text} :
    (require c error).Runs (PeEvent.Good size) fun _ => c :=
  .ite (fun h => .pure h) fun _ => .fail

theorem tested_runs {value : Option α} {error : Text} :
    (tested value error).Runs (PeEvent.Good size) fun a => value = some a := by
  cases value with
  | none => exact .fail
  | some a => exact .pure rfl

theorem keep_runs {v : View} (h : v.Inside size) : (keep v).Runs (PeEvent.Good size) (· = v) :=
  .note h rfl

theorem require_gives {c : Prop} [Decidable c] {error : Text} (h : c) :
    (require c error).Gives fun _ => c := by
  rw [require, if_pos h]
  exact .pure h

theorem tested_gives {value : Option α} {error : Text} {a : α} (h : value = some a) :
    (tested value error).Gives (· = a) := by
  rw [h]
  exact .pure rfl

theorem sum_gives {value : Nat} : (sum value).Gives (· = value) := .note rfl

theorem untested_gives {read : Text → Nat → Option α} {width : Nat} {zero : α} {b : Text}
    {base displacement : Nat} : (untested read width zero b base displacement).Gives fun _ => True :=
  .bind sum_gives fun _ _ => .note trivial

theorem keep_gives {v : View} : (keep v).Gives (· = v) := .note rfl

end

end DSigMatcher.Pe
