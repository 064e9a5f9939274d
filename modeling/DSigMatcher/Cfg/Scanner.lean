import DSigMatcher.Cfg.DecodedSlot
import DSigMatcher.Framework.Loop
import Mathlib.Logic.Function.Basic

namespace DSigMatcher.Cfg
open DSigMatcher.Base DSigMatcher.Framework

def cfgDecodeWindowBytes : Nat := 512
def cfgMaxBlocks : Nat := 32768
def cfgMaxInstructions : Nat := 262144

inductive CfgStatus
  | ok
  | nullCode
  | emptyRange
  | rangeTooLarge
  | backendUnavailable
  | entryUndecodable
  | blockLimitReached
  | instructionLimitReached
  deriving DecidableEq

inductive CfgBlockEnd
  | fallthrough
  | rangeEnd
  | directBranch
  | conditionalBranch
  | indirectBranch
  | return
  | noReturn
  | decodeError
  deriving DecidableEq

structure CfgBlock where
  offset : Nat := 0
  size : Nat := 0
  instructionCount : Nat := 0
  firstSuccessor : Nat := 0
  successorCount : Nat := 0
  firstPredecessor : Nat := 0
  predecessorCount : Nat := 0
  blockEnd : CfgBlockEnd := .fallthrough
  targetOffset : Int := cfgNoTarget
  targetOutsideRange : Bool := false
  indirectTargetUnresolved : Bool := false
  deriving DecidableEq

/-- `ControlFlowGraph`, up to the components that are computed from its edges. -/
structure ControlFlowGraph where
  status : CfgStatus := .ok
  error : Text := []
  blocks : List CfgBlock := []
  successorBlocks : List Nat := []
  predecessorBlocks : List Nat := []
  nodeCount : Nat := 0
  edgeCount : Nat := 0
  callCount : Nat := 0
  decodeErrorCount : Nat := 0
  outOfRangeBranchCount : Nat := 0
  unresolvedIndirectBranchCount : Nat := 0
  droppedSuccessorCount : Nat := 0
  overlappingLeaderCount : Nat := 0
  exitBlockCount : Nat := 0
  rangeBytes : Nat := 0
  deriving DecidableEq

/-- The first failure stays. -/
def ControlFlowGraph.fail (g : ControlFlowGraph) (status : CfgStatus) (message : String) :
    ControlFlowGraph :=
  if g.status = .ok then { g with status, error := text message } else g

/-- What a `CfgScanner` is built over. -/
structure CfgRange (σ : Type*) where
  backend : DisassemblerBackend σ
  code : Text
  runtimeAddress : Nat

abbrev CfgRange.length {σ : Type*} (r : CfgRange σ) : Nat := r.code.length

/-- `slots` are `Slots_` where `SlotState_` is known. -/
structure CfgScanner (σ : Type*) where
  backend : σ
  out : ControlFlowGraph
  slots : Nat → Option CfgDecodedSlot
  leaders : List Nat
  decodedSlotCount : Nat

namespace CfgScanner
variable {σ : Type*} (s : CfgScanner σ)

/-- `IsLeader_` is set for what is in `Leaders_`. -/
def isLeader (offset : Nat) : Bool := decide (offset ∈ s.leaders)

def halted : Bool := s.out.status ≠ .ok
def decodeHalted : Bool := s.out.status = .instructionLimitReached

def fail (status : CfgStatus) (message : String) : CfgScanner σ :=
  { s with out := s.out.fail status message }

/-- A slot becomes known. -/
def remember (offset : Nat) (slot : CfgDecodedSlot) : CfgScanner σ :=
  { s with
    slots := Function.update s.slots offset (some slot)
    decodedSlotCount := s.decodedSlotCount+1 }

def addLeader (length offset : Nat) : CfgScanner σ :=
  if length ≤ offset ∨ s.isLeader offset then s
  else if cfgMaxBlocks ≤ s.leaders.length then
    s.fail .blockLimitReached "block limit reached while collecting block leaders"
  else { s with leaders := s.leaders ++ [offset] }

def addBranchLeader (length : Nat) (slot : CfgDecodedSlot) : CfgScanner σ :=
  if targetInsideRange slot.relativeTarget length then
    s.addLeader length slot.relativeTarget.toNat
  else s

/-- The leaders an instruction makes, and whether the walk stops behind it. -/
def markLeaders (length : Nat) (slot : CfgDecodedSlot) (next : Nat) : CfgScanner σ × Bool :=
  match slot.role with
  | .directBranch => (s.addBranchLeader length slot,true)
  | .conditionalBranch => ((s.addBranchLeader length slot).addLeader length next,true)
  | .indirectBranch | .return | .noReturn | .invalid => (s,true)
  | .normal | .directCall | .indirectCall => (s,false)

end CfgScanner

namespace CfgRange
variable {σ : Type*} (r : CfgRange σ)

/-- A scanner as it is built. -/
def start (st : σ) : CfgScanner σ where
  backend := st
  out := { rangeBytes := r.length }
  slots := fun _ => none
  leaders := []
  decodedSlotCount := 0

/-- The slots a decoded window fills. -/
def decodeSlots (offset : Nat) : List InstructionInfo → CfgScanner σ → CfgScanner σ
  | [], s => s
  | info::infos, s =>
    let slotOffset := (offset+info.offset)%2^32
    if r.length ≤ slotOffset then s
    else if info.length = 0 ∨ (s.slots slotOffset).isSome then decodeSlots offset infos s
    else if cfgMaxInstructions ≤ s.decodedSlotCount then
      s.fail .instructionLimitReached "instruction limit reached while decoding the code range"
    else
      let name := r.backend.mnemonicName s.backend info.mnemonic
      decodeSlots offset infos (s.remember slotOffset (makeSlot name info slotOffset))

/-- The bytes a window gives to the backend. -/
def window (offset : Nat) : Text := (r.code.drop offset).take cfgDecodeWindowBytes

/-- What the backend decodes of a window. -/
def decodeRange (offset : Nat) (st : σ) : σ × DecodeStatus × List InstructionInfo :=
  r.backend.decodeRange st (r.window offset) ((r.runtimeAddress+offset)%2^64)

/-- The scanner behind the loop over a decoded window. -/
def readWindow (offset : Nat) (s : CfgScanner σ) : CfgScanner σ :=
  let decoded := r.decodeRange offset s.backend
  r.decodeSlots offset decoded.2.2 { s with backend := decoded.1 }

def decodeWindowAt (offset : Nat) (s : CfgScanner σ) : CfgScanner σ :=
  if r.length ≤ offset ∨ (s.slots offset).isSome then s
  else if (r.readWindow offset s).halted ∨ ((r.readWindow offset s).slots offset).isSome then
    r.readWindow offset s
  else if cfgMaxInstructions ≤ (r.readWindow offset s).decodedSlotCount then
    (r.readWindow offset s).fail .instructionLimitReached
      "instruction limit reached while decoding the code range"
  else (r.readWindow offset s).remember offset makeInvalidSlot

/-- A slot that is still unknown is decoded. -/
def ensureDecoded (offset : Nat) (s : CfgScanner σ) : CfgScanner σ :=
  if (s.slots offset).isNone then r.decodeWindowAt offset s else s

/-- The leaders of the instruction at an offset: where the walk goes on, unless it ends. -/
def walkSlot (offset : Nat) (s : CfgScanner σ) : CfgScanner σ × Option Nat :=
  let slot := (s.slots offset).getD {}
  let next := nextOffset r.length offset slot
  let marked := s.markLeaders r.length slot next
  if marked.2 ∨ marked.1.halted then (marked.1,none) else (marked.1,some next)

/-- One round of the walk from a leader. -/
def walkStep (leader offset : Nat) (s : CfgScanner σ) : CfgScanner σ × Option Nat :=
  if offset ≠ leader ∧ s.isLeader offset then (s,none)
  else if (s.slots offset).isNone ∧ (r.ensureDecoded offset s).halted then
    (r.ensureDecoded offset s,none)
  else r.walkSlot offset (r.ensureDecoded offset s)

/-- The walk; each round goes up, so that the range's length bounds their number. -/
def walk (leader : Nat) : Nat → Nat → CfgScanner σ → CfgScanner σ
  | 0, _, s => s
  | n+1, offset, s =>
    if offset < r.length then
      match r.walkStep leader offset s with
      | (s,none) => s
      | (s,some next) => walk leader n next s
    else s

/-- One round over `Leaders_`, with its cursor. -/
def discoverRound (c : Nat × CfgScanner σ) : Option (Nat × CfgScanner σ) :=
  match c.2.leaders[c.1]? with
  | none => none
  | some leader =>
    if c.2.halted then none else some (c.1+1,r.walk leader r.length leader c.2)

/-- The rounds end, as there are at most `CfgMaxBlocks` leaders. -/
def discoverLeaders (s : CfgScanner σ) : Option (CfgScanner σ) :=
  (loop r.discoverRound (cfgMaxBlocks+1) (0,s.addLeader r.length 0)).map (·.2)

end CfgRange

end DSigMatcher.Cfg
