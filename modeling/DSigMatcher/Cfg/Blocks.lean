import DSigMatcher.Cfg.Scanner
import Mathlib.Data.List.Sort

namespace DSigMatcher.Cfg
open DSigMatcher.Base DSigMatcher.Framework

def CfgBlock.endAs (block : CfgBlock) (blockEnd : CfgBlockEnd) : CfgBlock := { block with blockEnd }

/-- A branch inside the range is the target of its block. -/
def branchBlock (length : Nat) (slot : CfgDecodedSlot) (block : CfgBlock) (out : ControlFlowGraph) :
    CfgBlock × ControlFlowGraph :=
  if targetInsideRange slot.relativeTarget length then
    ({ block with targetOffset := slot.relativeTarget },out)
  else
    ({ block with targetOutsideRange := true },
      { out with outOfRangeBranchCount := out.outOfRangeBranchCount+1 })

/-- What an instruction is to its block and to the counters, and whether the block stops behind it. -/
def endBlock (length : Nat) (slot : CfgDecodedSlot) (block : CfgBlock) (out : ControlFlowGraph) :
    (CfgBlock × ControlFlowGraph) × Bool :=
  match slot.role with
  | .invalid =>
    ((block.endAs .decodeError,{ out with decodeErrorCount := out.decodeErrorCount+1 }),true)
  | .directBranch => (branchBlock length slot (block.endAs .directBranch) out,true)
  | .conditionalBranch => (branchBlock length slot (block.endAs .conditionalBranch) out,true)
  | .indirectBranch =>
    (({ block.endAs .indirectBranch with indirectTargetUnresolved := true },
      { out with unresolvedIndirectBranchCount := out.unresolvedIndirectBranchCount+1 }),true)
  | .return => ((block.endAs .return,out),true)
  | .noReturn => ((block.endAs .noReturn,out),true)
  | .directCall | .indirectCall => ((block,{ out with callCount := out.callCount+1 }),false)
  | .normal => ((block,out),false)

namespace CfgScanner
variable {σ : Type*} (s : CfgScanner σ)

def countOverlap : CfgScanner σ :=
  { s with out := { s.out with overlappingLeaderCount := s.out.overlappingLeaderCount+1 } }

def pushBlock (block : CfgBlock) : CfgScanner σ :=
  { s with out := { s.out with blocks := s.out.blocks ++ [block] } }

end CfgScanner

/-- A block that is being built, up to an offset. -/
structure BlockWalk (σ : Type*) where
  block : CfgBlock
  offset : Nat
  scanner : CfgScanner σ

namespace CfgRange
variable {σ : Type*} (r : CfgRange σ)

/-- An instruction joins the block, and whether another one follows. -/
def takeInstruction (slot : CfgDecodedSlot) (w : BlockWalk σ) : BlockWalk σ × Bool :=
  let next := nextOffset r.length w.offset slot
  let block := { w.block with instructionCount := w.block.instructionCount+1 }
  let ended := endBlock r.length slot block w.scanner.out
  let s := { w.scanner with out := ended.1.2 }
  if ended.2 then (⟨ended.1.1,next,s⟩,false)
  else if r.length ≤ next then (⟨ended.1.1.endAs .rangeEnd,next,s⟩,false)
  else (⟨ended.1.1,next,s⟩,true)

/-- One round of the loop over a block's instructions. -/
def blockStep (start : Nat) (w : BlockWalk σ) : BlockWalk σ × Bool :=
  if w.offset ≠ start ∧ w.scanner.isLeader w.offset then
    ({ w with block := w.block.endAs .fallthrough },false)
  else if (w.scanner.slots w.offset).isNone ∧ w.scanner.decodeHalted then
    ({ w with block := w.block.endAs .rangeEnd },false)
  else
    let s := r.ensureDecoded w.offset w.scanner
    match s.slots w.offset with
    | none => (⟨w.block.endAs .rangeEnd,w.offset,s⟩,false)
    | some slot => r.takeInstruction slot ⟨w.block,w.offset,s⟩

/-- The loop; each round that another one follows goes up. -/
def walkBlock (start : Nat) : Nat → BlockWalk σ → BlockWalk σ
  | 0, w => w
  | n+1, w =>
    if w.offset < r.length then
      match r.blockStep start w with
      | (w,false) => w
      | (w,true) => walkBlock start n w
    else w

/-- The block at a leader, whatever the loop over its instructions has found. -/
def blockAt (start : Nat) (s : CfgScanner σ) : CfgBlock × CfgScanner σ :=
  let w := r.walkBlock start r.length ⟨{ offset := start },start,s⟩
  ({ w.block with size := w.offset-start },w.scanner)

/-- The loop over the ordered leaders, with `CoveredUntil`. -/
def partition : List Nat → Nat → CfgScanner σ → CfgScanner σ
  | [], _, s => s
  | start::starts, coveredUntil, s =>
    if start < coveredUntil then partition starts coveredUntil s.countOverlap
    else if cfgMaxBlocks ≤ s.out.blocks.length then
      s.fail .blockLimitReached "block limit reached while partitioning the code range"
    else
      let built := r.blockAt start s
      if built.1.instructionCount = 0 then partition starts coveredUntil built.2
      else partition starts (built.1.offset+built.1.size) (built.2.pushBlock built.1)

/-- A graph of one undecodable byte at the entry is a failure. -/
def checkEntry (g : ControlFlowGraph) : ControlFlowGraph :=
  match g.blocks with
  | [block] =>
    if block.offset = 0 ∧ block.size = 1 ∧ block.instructionCount = 1 ∧
        block.blockEnd = .decodeError then
      { g with blocks := [], nodeCount := 0, decodeErrorCount := 0 }.fail .entryUndecodable
        "the first instruction of the range does not decode"
    else g
  | _ => g

def buildBlocks (s : CfgScanner σ) : CfgScanner σ :=
  let s := r.partition (s.leaders.insertionSort (· ≤ ·)) 0 s
  { s with out := checkEntry { s.out with nodeCount := s.out.blocks.length } }

end CfgRange

end DSigMatcher.Cfg
