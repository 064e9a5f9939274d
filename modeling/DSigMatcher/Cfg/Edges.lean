import DSigMatcher.Cfg.Blocks
import DSigMatcher.Framework.Buckets

namespace DSigMatcher.Cfg
open DSigMatcher.Base DSigMatcher.Framework

namespace ControlFlowGraph
variable (g : ControlFlowGraph)

/-- `BlockSuccessors`. -/
def blockSuccessors (block : Nat) : List Nat :=
  match g.blocks[block]? with
  | none => []
  | some item => (g.successorBlocks.drop item.firstSuccessor).take item.successorCount

/-- `BlockPredecessors`. -/
def blockPredecessors (block : Nat) : List Nat :=
  match g.blocks[block]? with
  | none => []
  | some item => (g.predecessorBlocks.drop item.firstPredecessor).take item.predecessorCount

/-- `BlockAtOffset`; `std::lower_bound` finds the first block that does not start below. -/
def blockAtOffset (offset : Nat) : Option Nat :=
  let found := g.blocks.findIdx fun block => !decide (block.offset < offset)
  match g.blocks[found]? with
  | none => none
  | some block => if block.offset = offset then some found else none

/-- `ResolveSuccessor`. -/
def resolveSuccessor (length offset : Nat) : Option Nat × ControlFlowGraph :=
  if length ≤ offset then (none,g)
  else
    match g.blockAtOffset offset with
    | none => (none,{ g with droppedSuccessorCount := g.droppedSuccessorCount+1 })
    | some block => (some block,g)

/-- The candidate of a block's branch target. -/
def resolveTarget (length : Nat) (block : CfgBlock) : Option Nat × ControlFlowGraph :=
  if block.targetOffset ≠ cfgNoTarget then g.resolveSuccessor length block.targetOffset.toNat
  else (none,g)

/-- The candidates of a block. -/
def candidates (length : Nat) (block : CfgBlock) : List (Option Nat) × ControlFlowGraph :=
  let fallthroughOffset := block.offset+block.size
  match block.blockEnd with
  | .conditionalBranch =>
    let target := g.resolveTarget length block
    let next := target.2.resolveSuccessor length fallthroughOffset
    ([target.1,next.1],next.2)
  | .directBranch =>
    let target := g.resolveTarget length block
    ([target.1,none],target.2)
  | .fallthrough | .rangeEnd =>
    let next := g.resolveSuccessor length fallthroughOffset
    ([next.1,none],next.2)
  | .indirectBranch | .return | .noReturn | .decodeError => ([none,none],g)

/-- The successors that are stored, each candidate once. -/
def takeCandidates (candidates : List (Option Nat)) : List Nat :=
  candidates.foldl (fun taken candidate =>
    match candidate with
    | none => taken
    | some block => if block ∈ taken then taken else taken ++ [block]) []

/-- The edges of one block. -/
def addSuccessors (length index : Nat) : ControlFlowGraph :=
  match g.blocks[index]? with
  | none => g
  | some block =>
    let found := g.candidates length block
    let taken := takeCandidates found.1
    let block := { block with
      firstSuccessor := g.successorBlocks.length, successorCount := taken.length }
    { found.2 with
      blocks := found.2.blocks.set index block
      successorBlocks := found.2.successorBlocks ++ taken
      exitBlockCount :=
        if taken.length = 0 then found.2.exitBlockCount+1 else found.2.exitBlockCount }

def buildSuccessors (length : Nat) : ControlFlowGraph :=
  let g := (List.range g.nodeCount).foldl (fun g index => g.addSuccessors length index) g
  { g with edgeCount := g.successorBlocks.length }

/-- The edges, each with the successor it counts for. -/
def edges : List (Nat × Nat) :=
  (List.range g.nodeCount).flatMap fun index =>
    (g.blockSuccessors index).map fun successor => (successor,index)

def buildPredecessors : ControlFlowGraph :=
  let counts := Buckets.counts g.nodeCount g.successorBlocks
  let firsts := Buckets.firsts 0 counts
  let placed := g.edges.foldl Buckets.place (List.replicate counts.sum 0,firsts)
  { g with
    blocks := g.blocks.mapIdx fun index block =>
      { block with
        firstPredecessor := firsts.getD index 0
        predecessorCount := counts.getD index 0 }
    predecessorBlocks := placed.1 }

end ControlFlowGraph

namespace CfgRange
variable {σ : Type*} (r : CfgRange σ)

/-- `Run`, up to the passes that read the finished edges. -/
def run (st : σ) : Option (CfgScanner σ) :=
  (r.discoverLeaders (r.start st)).map fun s =>
    let s := r.buildBlocks s
    if s.out.status = .entryUndecodable then s
    else { s with out := (s.out.buildSuccessors r.length).buildPredecessors }

end CfgRange

/-- `BuildControlFlowGraph`; `code` is what the pointer points at, unless it is null. -/
def buildControlFlowGraph {σ : Type*} (backend : DisassemblerBackend σ) (st : σ)
    (code : Option Text) (length runtimeAddress : Nat) : Option ControlFlowGraph :=
  let g : ControlFlowGraph := {}
  if length = 0 then some (g.fail .emptyRange "code range is empty")
  else
    match code with
    | none => some (g.fail .nullCode "code pointer is null")
    | some bytes =>
      if cfgMaxRangeBytes < length then
        some (g.fail .rangeTooLarge "code range exceeds CfgMaxRangeBytes")
      else ((CfgRange.mk backend (bytes.take length) runtimeAddress).run st).map (·.out)

end DSigMatcher.Cfg
