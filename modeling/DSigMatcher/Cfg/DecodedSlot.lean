import DSigMatcher.Base.Text
import Mathlib

namespace DSigMatcher.Cfg
open DSigMatcher.Base

inductive DecodeStatus
  | success
  | noMoreData
  | decodingError
  | instructionTooLong
  | badRegister
  | otherError
  deriving DecidableEq

inductive OperandKind
  | unused
  | register
  | memory
  | immediate
  | pointer
  deriving DecidableEq

/-- An operand, with what the scanner reads of it. -/
structure OperandInfo where
  kind : OperandKind
  immediate : Int
  immediateIsRelative : Bool

/-- `operands` are the `OperandCount` visible ones. -/
structure InstructionInfo where
  offset : Nat
  length : Nat
  mnemonic : Nat
  operands : List OperandInfo

/-- `DisassemblerBackend`, with a state of its own. -/
structure DisassemblerBackend (σ : Type*) where
  decodeRange : σ → Text → Nat → σ × DecodeStatus × List InstructionInfo
  mnemonicName : σ → Nat → Text

def cfgNoTarget : Int := -2^31
def cfgOutsideRangeTarget : Int := 2^31-1
def cfgMaxRangeBytes : Nat := 512*1024

inductive CfgInstructionRole
  | normal
  | directBranch
  | conditionalBranch
  | indirectBranch
  | directCall
  | indirectCall
  | return
  | noReturn
  | invalid
  deriving DecidableEq

inductive CfgNameKind
  | none
  | jump
  | call
  | conditionalJump
  | return
  | noReturn
  deriving DecidableEq

structure CfgDecodedSlot where
  relativeTarget : Int := cfgNoTarget
  mnemonic : Nat := 0
  length : Nat := 0
  role : CfgInstructionRole := .normal
  deriving DecidableEq

def cfgConditionalJumpNames : List Text :=
  ["jo", "jno", "jb", "jnb", "jbe", "jnbe", "jl", "jnl", "jle", "jnle", "jz", "jnz", "js", "jns",
    "jp", "jnp", "jcxz", "jecxz", "jrcxz", "jkzd", "jknzd", "loop", "loope", "loopne"].map text

/-- `NameKindOf`: the switch on the first letter, then the names it leaves. -/
def nameKindOf (name : Text) : CfgNameKind :=
  match name with
  | [] => .none
  | 0x6A::_ =>
    if name = text "jmp" then .jump
    else if name ∈ cfgConditionalJumpNames then .conditionalJump
    else .none
  | 0x63::_ => if name = text "call" then .call else .none
  | 0x72::_ => if name = text "ret" then .return else .none
  | 0x69::_ =>
    if name ∈ ["iret", "iretd", "iretq"].map text then .return
    else if name ∈ ["int", "int3"].map text then .noReturn
    else .none
  | 0x6C::_ => if name ∈ cfgConditionalJumpNames then .conditionalJump else .none
  | 0x75::_ => if name ∈ ["ud0", "ud1", "ud2"].map text then .noReturn else .none
  | 0x68::_ => if name = text "hlt" then .noReturn else .none
  | _ => .none

def relativeDisplacementOf (info : InstructionInfo) : Option Int :=
  (info.operands.find? fun operand =>
    operand.kind = .immediate ∧ operand.immediateIsRelative).map (·.immediate)

def relativeTargetOf (offset length : Nat) (displacement : Int) : Int :=
  let candidate := offset+length+displacement
  if cfgOutsideRangeTarget-1 < candidate then cfgOutsideRangeTarget
  else if candidate < -2^31+1 then cfgOutsideRangeTarget
  else candidate

def targetInsideRange (target : Int) (length : Nat) : Bool :=
  target ≠ cfgNoTarget ∧ 0 ≤ target ∧ target < length

/-- `MakeSlot`; `name` is what `MnemonicName` gives for the instruction. -/
def makeSlot (name : Text) (info : InstructionInfo) (offset : Nat) : CfgDecodedSlot :=
  let slot : CfgDecodedSlot := { mnemonic := info.mnemonic, length := info.length }
  let displacement := relativeDisplacementOf info
  let branch (role : CfgInstructionRole) : CfgDecodedSlot :=
    match displacement with
    | some d => { slot with role, relativeTarget := relativeTargetOf offset info.length d }
    | none => { slot with role := .indirectBranch }
  match nameKindOf name with
  | .jump => branch .directBranch
  | .conditionalJump => branch .conditionalBranch
  | .call => { slot with role := if displacement.isSome then .directCall else .indirectCall }
  | .return => { slot with role := .return }
  | .noReturn => { slot with role := .noReturn }
  | .none => { slot with role := .normal }

def makeInvalidSlot : CfgDecodedSlot := { role := .invalid, length := 1 }

@[simp] theorem makeSlot_length (name : Text) (info : InstructionInfo) (offset : Nat) :
    (makeSlot name info offset).length = info.length := by
  unfold makeSlot
  cases nameKindOf name <;> cases relativeDisplacementOf info <;> rfl

/-- Where the instruction behind a slot starts, at the end of the range at the latest. -/
def nextOffset (length offset : Nat) (slot : CfgDecodedSlot) : Nat :=
  let next := offset+slot.length
  if length < next ∨ next ≤ offset then length else next

theorem lt_nextOffset {length offset : Nat} (slot : CfgDecodedSlot) (h : offset < length) :
    offset < nextOffset length offset slot := by
  simp only [nextOffset]
  split_ifs <;> omega

theorem nextOffset_le (length offset : Nat) (slot : CfgDecodedSlot) :
    nextOffset length offset slot ≤ length := by
  simp only [nextOffset]
  split_ifs <;> omega

/-- An instruction that ends inside the range is not cut. -/
theorem nextOffset_eq {length offset : Nat} {slot : CfgDecodedSlot} (hpos : 0 < slot.length)
    (hend : offset+slot.length ≤ length) :
    nextOffset length offset slot = offset+slot.length := by
  rw [nextOffset, if_neg (by omega)]

end DSigMatcher.Cfg
