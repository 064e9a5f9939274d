import DSigMatcher.Cfg.Edges
import DSigMatcher.Framework.Loop
import Mathlib.Logic.Function.Basic

namespace DSigMatcher.Cfg
open DSigMatcher.Base DSigMatcher.Framework

def cfgUnvisited : Nat := 0xFFFFFFFF

structure CfgTarjanFrame where
  node : Nat
  cursor : Nat

/-- The locals of `ComputeStronglyConnected` and what it writes; the stacks have their top first. -/
structure TarjanState where
  index : Nat → Nat := fun _ => cfgUnvisited
  lowLink : Nat → Nat := fun _ => 0
  onStack : Nat → Bool := fun _ => false
  sccStack : List Nat := []
  frames : List CfgTarjanFrame := []
  nextIndex : Nat := 0
  nextComponent : Nat := 0
  componentOfBlock : Nat → Nat := fun _ => 0
  componentNodeCounts : List Nat := []
  componentIsLoop : List Bool := []

namespace TarjanState

/-- A node is numbered and pushed on both stacks. -/
def visit (s : TarjanState) (node : Nat) : TarjanState :=
  { s with
    index := Function.update s.index node s.nextIndex
    lowLink := Function.update s.lowLink node s.nextIndex
    nextIndex := s.nextIndex+1
    sccStack := node::s.sccStack
    onStack := Function.update s.onStack node true
    frames := ⟨node,0⟩::s.frames }

/-- The inner loop: the members of a component are popped up to its root. -/
def popMembers (node : Nat) : List Nat → TarjanState → Nat → TarjanState × Nat
  | [], s, members => ({ s with sccStack := [] },members)
  | top::rest, s, members =>
    let s := { s with
      sccStack := rest
      onStack := Function.update s.onStack top false
      componentOfBlock := Function.update s.componentOfBlock top s.nextComponent }
    if top = node then (s,members+1) else popMembers node rest s (members+1)

def closeComponent (s : TarjanState) (node : Nat) : TarjanState :=
  let popped := popMembers node s.sccStack s 0
  { popped.1 with
    componentNodeCounts := popped.1.componentNodeCounts ++ [popped.2]
    componentIsLoop := popped.1.componentIsLoop ++ [decide (1 < popped.2)]
    nextComponent := popped.1.nextComponent+1 }

/-- The top frame looks at its next successor. -/
def advance (n : Nat) (frame : CfgTarjanFrame) (frames : List CfgTarjanFrame) (child : Nat)
    (s : TarjanState) : TarjanState :=
  let s := { s with frames := ⟨frame.node,frame.cursor+1⟩::frames }
  if n ≤ child then s
  else if s.index child = cfgUnvisited then s.visit child
  else if s.onStack child ∧ s.index child < s.lowLink frame.node then
    { s with lowLink := Function.update s.lowLink frame.node (s.index child) }
  else s

/-- The top frame has seen its successors. -/
def finish (node : Nat) (frames : List CfgTarjanFrame) (s : TarjanState) : TarjanState :=
  let s := if s.lowLink node = s.index node then s.closeComponent node else s
  match frames with
  | [] => { s with frames := [] }
  | parent::rest =>
    { s with
      frames := parent::rest
      lowLink :=
        if s.lowLink node < s.lowLink parent.node then
          Function.update s.lowLink parent.node (s.lowLink node)
        else s.lowLink }

/-- One round of the loop over the frames. -/
def round (n : Nat) (successors : Nat → List Nat) (s : TarjanState) : Option TarjanState :=
  match s.frames with
  | [] => none
  | frame::frames =>
    match (successors frame.node)[frame.cursor]? with
    | some child => some (s.advance n frame frames child)
    | none => some (s.finish frame.node frames)

/-- More rounds than the loop can take. -/
def roundLimit (n : Nat) (successors : Nat → List Nat) : Nat :=
  ((List.range n).map fun node => (successors node).length+1).sum+1

def searchFrom (n : Nat) (successors : Nat → List Nat) (s : TarjanState) (root : Nat) :
    Option TarjanState :=
  if s.index root ≠ cfgUnvisited then some s
  else loop (round n successors) (roundLimit n successors) ({ s with frames := [] }.visit root)

def search (n : Nat) (successors : Nat → List Nat) : Option TarjanState :=
  (List.range n).foldlM (searchFrom n successors) {}

end TarjanState

/-- What `ComputeStronglyConnected` writes into the graph. -/
structure StrongComponents where
  componentOfBlock : List Nat := []
  componentNodeCounts : List Nat := []
  componentIsLoop : List Bool := []
  stronglyConnectedCount : Nat := 0
  loopCount : Nat := 0
  deriving DecidableEq

namespace ControlFlowGraph
variable (g : ControlFlowGraph)

def hasSelfEdge (block : Nat) : Bool := (g.blockSuccessors block).any (· == block)

/-- A component of one node is a loop when the node has an edge to itself. -/
def markSelfLoops (s : TarjanState) : List Bool :=
  (List.range g.nodeCount).foldl (fun isLoop node =>
    let component := s.componentOfBlock node
    match s.componentNodeCounts[component]? with
    | none => isLoop
    | some members =>
      if members = 1 ∧ g.hasSelfEdge node then isLoop.set component true else isLoop)
    s.componentIsLoop

def computeStronglyConnected : Option StrongComponents :=
  if g.nodeCount = 0 then some {}
  else
    (TarjanState.search g.nodeCount g.blockSuccessors).map fun s =>
      let componentIsLoop := g.markSelfLoops s
      { componentOfBlock := (List.range g.nodeCount).map s.componentOfBlock
        componentNodeCounts := s.componentNodeCounts
        componentIsLoop
        stronglyConnectedCount := s.nextComponent
        loopCount := componentIsLoop.countP id }

end ControlFlowGraph

end DSigMatcher.Cfg
