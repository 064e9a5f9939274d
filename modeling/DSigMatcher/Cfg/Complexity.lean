import DSigMatcher.Cfg.ConnectedComponents
import DSigMatcher.Cfg.EdgesExact
import DSigMatcher.Cfg.StrongComponents
import DSigMatcher.Cfg.WeakComponents

namespace DSigMatcher.Cfg
open DSigMatcher.Base DSigMatcher.Framework

structure CfgStatistics where
  instructionCount : Nat := 0
  decodedBytes : Nat := 0
  entryBlock : Option Nat := none
  cyclomaticComplexity : Int64 := 0

/-- What `Run` computes from the finished edges. -/
structure CfgAnalysis where
  strong : StrongComponents := {}
  connectedComponentCount : Nat := 0
  statistics : CfgStatistics := {}

namespace ControlFlowGraph

section
variable (g : ControlFlowGraph)

def complexity (connectedComponentCount : Nat) : Int64 :=
  Int64.ofNat g.edgeCount-Int64.ofNat g.nodeCount+2*Int64.ofNat connectedComponentCount

def computeStatistics (connectedComponentCount : Nat) : CfgStatistics where
  instructionCount := g.blocks.foldl (fun sum block => (sum+block.instructionCount)%2^32) 0
  decodedBytes := g.blocks.foldl (fun sum block => (sum+block.size)%2^32) 0
  entryBlock := g.blockAtOffset 0
  cyclomaticComplexity :=
    if g.nodeCount = 0 then 0
    else if g.complexity connectedComponentCount < 1 then 1
    else g.complexity connectedComponentCount

/-- The passes of `Run` behind `BuildPredecessors`. -/
def analyse : Option CfgAnalysis :=
  if g.status = .entryUndecodable then some {}
  else
    g.computeStronglyConnected.bind fun strong =>
      g.computeConnectedComponents.map fun connectedComponentCount =>
        { strong, connectedComponentCount, statistics := g.computeStatistics connectedComponentCount }

end

/-- A block has at most two successors. -/
theorem length_takeCandidates (candidates : List (Option Nat)) :
    (takeCandidates candidates).length ≤ candidates.length := by
  obtain ⟨hnodup, hmem⟩ := takeCandidates_spec candidates
  have hsub : (takeCandidates candidates).map some ⊆ candidates := by
    intro c hc
    obtain ⟨i, hi, rfl⟩ := List.mem_map.mp hc
    exact (hmem i).mp hi
  have hlength := ((hnodup.map (Option.some_injective _)).subperm hsub).length_le
  rwa [List.length_map] at hlength

theorem addSuccessors_length (g : ControlFlowGraph) (length index : Nat) :
    (g.addSuccessors length index).successorBlocks.length ≤ g.successorBlocks.length+2 := by
  unfold addSuccessors
  cases g.blocks[index]? with
  | none => exact Nat.le_add_right _ 2
  | some b =>
    obtain ⟨htaken, hfound⟩ := g.candidates_spec length b
    have htwo : (g.successorsOf length b).length ≤ 2 := length_takeCandidates _
    simp only
    rw [htaken, hfound, List.length_append]
    exact Nat.add_le_add_left htwo _

theorem buildSuccessors_length (g : ControlFlowGraph) (length : Nat)
    (hsuccessors : g.successorBlocks = []) :
    (g.buildSuccessors length).edgeCount ≤ 2*g.nodeCount := by
  have hrange (n : Nat) : ((List.range n).foldl (fun g index => g.addSuccessors length index)
      g).successorBlocks.length ≤ 2*n := by
    induction n with
    | zero => rw [List.range_zero, List.foldl_nil, hsuccessors, List.length_nil]
    | succ n ih =>
      rw [List.range_succ, List.foldl_append]
      exact (addSuccessors_length _ length n).trans (by omega)
  exact hrange g.nodeCount

end ControlFlowGraph

namespace CfgRange
variable {σ : Type*} {r : CfgRange σ} {s : CfgScanner σ}

/-- What a graph without its edges keeps to. -/
structure Bounded (g : ControlFlowGraph) : Prop where
  blocks : g.blocks.length ≤ cfgMaxBlocks
  entry : g.status ≠ .entryUndecodable

theorem Bounded.same {g h : ControlFlowGraph} (hg : Bounded g) (hgh : g.Same h) : Bounded h :=
  ⟨hgh.blocks ▸ hg.blocks, hgh.entry hg.entry⟩

theorem partition_bounded (r : CfgRange σ) (starts : List Nat) (coveredUntil : Nat)
    (s : CfgScanner σ) (h : Bounded s.out) : Bounded (r.partition starts coveredUntil s).out := by
  induction starts generalizing coveredUntil s with
  | nil => exact h
  | cons start starts ih =>
    have hbuilt := h.same (r.blockAt_apart start s).graph
    have hblocks := (r.blockAt_apart start s).graph.blocks
    simp only [CfgRange.partition]
    split_ifs with hcovered hlimit
    · exact ih coveredUntil s.countOverlap ⟨h.blocks, h.entry⟩
    · exact h.same (s.out.fail_same (by decide) _)
    · exact ih _ _ hbuilt
    · refine ih _ _ ⟨?_, hbuilt.entry⟩
      rw [CfgScanner.pushBlock, List.length_append, hblocks, List.length_singleton]
      omega

/-- A graph that fails at its entry has no blocks. -/
theorem checkEntry_spec (g : ControlFlowGraph) :
    (checkEntry g).successorBlocks = g.successorBlocks ∧
      (checkEntry g = g ∨ (checkEntry g).nodeCount = 0) := by
  unfold checkEntry
  split
  · split_ifs
    · unfold ControlFlowGraph.fail
      split_ifs <;> exact ⟨rfl, .inr rfl⟩
    · exact ⟨rfl, .inl rfl⟩
  · exact ⟨rfl, .inl rfl⟩

theorem buildBlocks_bounds {st : σ} {t : CfgScanner σ}
    (h : r.discoverLeaders (r.start st) = some t) :
    (r.buildBlocks t).out.successorBlocks = [] ∧ (r.buildBlocks t).out.nodeCount ≤ cfgMaxBlocks ∧
      ((r.buildBlocks t).out.status = .entryUndecodable → (r.buildBlocks t).out.nodeCount = 0) := by
  have hsame := r.discoverLeaders_same h
  have hstart : Bounded (r.start st).out := ⟨Nat.zero_le _, nofun⟩
  have hbounded := r.partition_bounded (t.leaders.insertionSort (· ≤ ·)) 0 t (hstart.same hsame)
  obtain ⟨-, hsuccessors, -⟩ := r.partition_apart (t.leaders.insertionSort (· ≤ ·)) 0 t
  unfold buildBlocks
  generalize r.partition (t.leaders.insertionSort (· ≤ ·)) 0 t = p at *
  obtain ⟨hkept, hentry⟩ := checkEntry_spec { p.out with nodeCount := p.out.blocks.length }
  refine ⟨hkept.trans (hsuccessors.trans hsame.successorBlocks), ?_⟩
  simp only
  rcases hentry with hentry | hentry
  · rw [hentry]
    exact ⟨hbounded.blocks, fun hstatus => absurd hstatus hbounded.entry⟩
  · rw [hentry]
    exact ⟨Nat.zero_le _, fun _ => rfl⟩

/-- A graph with blocks has few of them and no failure at its entry. -/
theorem run_bounds {st : σ} (h : r.run st = some s) :
    s.out.nodeCount ≤ cfgMaxBlocks ∧ (0 < s.out.nodeCount →
      s.out.status ≠ .entryUndecodable ∧ s.out.edgeCount = s.out.successorBlocks.length ∧
        s.out.edgeCount ≤ 2*s.out.nodeCount) := by
  obtain ⟨t, ht, rfl⟩ := Option.map_eq_some_iff.mp h
  obtain ⟨hsuccessors, hblocks, hentry⟩ := buildBlocks_bounds ht
  have hbodies := ((r.buildBlocks t).out.buildSuccessors_bodies r.length).trans
    (ControlFlowGraph.buildPredecessors_bodies _)
  simp only
  split_ifs with hstatus
  · exact ⟨hblocks, fun hpos => absurd (hentry hstatus) hpos.ne'⟩
  · refine ⟨hbodies.nodeCount ▸ hblocks, fun _ => ⟨hbodies.status ▸ hstatus, rfl, ?_⟩⟩
    rw [hbodies.nodeCount]
    exact (r.buildBlocks t).out.buildSuccessors_length r.length hsuccessors

end CfgRange

namespace ControlFlowGraph
variable (g : ControlFlowGraph)

/-- The sum does not wrap around for any counts of 32 bits. -/
theorem toInt_complexity (count : Nat) (hnodes : g.nodeCount < 2^32) (hedges : g.edgeCount < 2^32)
    (hcount : count < 2^32) : (g.complexity count).toInt = g.edgeCount-g.nodeCount+2*count := by
  have htwo : (2 : Int64).toInt = 2 := by decide
  have hsmall {x : Int} (hlow : -2^62 ≤ x) (hhigh : x < 2^62) : x.bmod (2^64) = x :=
    Int.bmod_eq_of_le_mul_two (by omega) (by omega)
  rw [complexity, Int64.toInt_add, Int64.toInt_sub, Int64.toInt_mul, htwo,
    Int64.toInt_ofNat_of_lt (by omega), Int64.toInt_ofNat_of_lt (by omega),
    Int64.toInt_ofNat_of_lt (by omega)]
  rw [hsmall (x := (g.edgeCount : Int)-g.nodeCount) (by omega) (by omega),
    hsmall (x := 2*(count : Int)) (by omega) (by omega), hsmall (by omega) (by omega)]

theorem toInt_cyclomaticComplexity (count : Nat) (hblocks : 0 < g.nodeCount)
    (hnodes : g.nodeCount < 2^32) (hedges : g.edgeCount < 2^32) (hcount : count < 2^32) :
    (g.computeStatistics count).cyclomaticComplexity.toInt =
      max 1 ((g.edgeCount : Int)-g.nodeCount+2*count) := by
  have hsum := g.toInt_complexity count hnodes hedges hcount
  simp only [computeStatistics]
  rw [if_neg hblocks.ne', ← hsum]
  split_ifs with hless
  · rw [Int64.lt_iff_toInt_lt, Int64.toInt_one] at hless
    rw [Int64.toInt_one, max_eq_left hless.le]
  · rw [Int64.lt_iff_toInt_lt, Int64.toInt_one] at hless
    rw [max_eq_right (Int.not_lt.mp hless)]

theorem card_components_le : Nat.card g.undirected.ConnectedComponent ≤ g.nodeCount := by
  have hcard := Nat.card_le_card_of_surjective g.undirected.connectedComponentMk Quot.mk_surjective
  rwa [Nat.card_fin] at hcard

end ControlFlowGraph

theorem buildControlFlowGraph_bounds {σ : Type*} {backend : DisassemblerBackend σ} {st : σ}
    {code : Option Text} {length runtimeAddress : Nat} {g : ControlFlowGraph}
    (h : buildControlFlowGraph backend st code length runtimeAddress = some g) :
    g.nodeCount ≤ cfgMaxBlocks ∧ (0 < g.nodeCount → g.status ≠ .entryUndecodable ∧
      g.edgeCount = g.successorBlocks.length ∧ g.edgeCount ≤ 2*g.nodeCount) := by
  have hfailed (status : CfgStatus) (message : String) :
      (({} : ControlFlowGraph).fail status message).nodeCount = 0 := rfl
  have hnone {g : ControlFlowGraph} (hzero : g.nodeCount = 0) : g.nodeCount ≤ cfgMaxBlocks ∧
      (0 < g.nodeCount → g.status ≠ .entryUndecodable ∧
        g.edgeCount = g.successorBlocks.length ∧ g.edgeCount ≤ 2*g.nodeCount) :=
    ⟨hzero ▸ Nat.zero_le _, fun hpos => absurd hzero hpos.ne'⟩
  unfold buildControlFlowGraph at h
  cases code with
  | none =>
    simp only at h
    split_ifs at h
    · exact hnone (Option.some.inj h ▸ hfailed _ _)
    · exact hnone (Option.some.inj h ▸ hfailed _ _)
  | some bytes =>
    simp only at h
    split_ifs at h
    · exact hnone (Option.some.inj h ▸ hfailed _ _)
    · exact hnone (Option.some.inj h ▸ hfailed _ _)
    · obtain ⟨s, hs, rfl⟩ := Option.map_eq_some_iff.mp h
      exact CfgRange.run_bounds hs

/-- The count of connected components is that of the graph without directions, whatever the graph;
of every graph that is built and has a block, the complexity is what the counts give exactly. -/
theorem cyclomaticComplexity_spec :
    (∀ g : ControlFlowGraph,
      g.computeConnectedComponents = some (Nat.card g.undirected.ConnectedComponent)) ∧
    ∀ {σ : Type*} (backend : DisassemblerBackend σ) (st : σ) (code : Option Text)
      (length runtimeAddress : Nat) (g : ControlFlowGraph),
      buildControlFlowGraph backend st code length runtimeAddress = some g → 0 < g.nodeCount →
      g.edgeCount = g.successorBlocks.length ∧ ∃ a, g.analyse = some a ∧
        a.connectedComponentCount = Nat.card g.undirected.ConnectedComponent ∧
        a.statistics.cyclomaticComplexity.toInt =
          max 1 ((g.edgeCount : Int)-g.nodeCount+2*a.connectedComponentCount) := by
  refine ⟨fun g => g.computeConnectedComponents_spec, ?_⟩
  intro σ backend st code length runtimeAddress g h hblocks
  obtain ⟨hnodes, hbounds⟩ := buildControlFlowGraph_bounds h
  obtain ⟨hstatus, hedgeCount, hedges⟩ := hbounds hblocks
  unfold cfgMaxBlocks at hnodes
  have hcomponents := g.card_components_le
  obtain ⟨strong, hstrong, -⟩ := g.computeStronglyConnected_spec (by omega)
  have hcomplexity := g.toInt_cyclomaticComplexity (Nat.card g.undirected.ConnectedComponent) hblocks
    (by omega) (by omega) (by omega)
  refine ⟨hedgeCount, ⟨strong, Nat.card g.undirected.ConnectedComponent, g.computeStatistics _⟩, ?_,
    rfl, hcomplexity⟩
  rw [ControlFlowGraph.analyse, if_neg hstatus, hstrong, Option.bind_some,
    g.computeConnectedComponents_spec, Option.map_some]

theorem cyclomaticComplexity_spec_jump :
    ∃ g, buildControlFlowGraph (zydisBackend CfgRange.shortJumps CfgRange.shortJumpNames) ()
        (some [0x74, 0x01, 0xEB, 0x90, 0x90]) 5 0 = some g ∧ 0 < g.nodeCount ∧
      ∃ a, g.analyse = some a ∧ a.statistics.cyclomaticComplexity.toInt =
        max 1 ((g.edgeCount : Int)-g.nodeCount+2*a.connectedComponentCount) := by
  have hbuilt : (buildControlFlowGraph (zydisBackend CfgRange.shortJumps CfgRange.shortJumpNames) ()
      (some [0x74, 0x01, 0xEB, 0x90, 0x90]) 5 0).any fun g => 0 < g.nodeCount := rfl
  obtain ⟨g, hg, hblocks⟩ := (Option.any_eq_true _ _).mp hbuilt
  rw [decide_eq_true_eq] at hblocks
  obtain ⟨-, a, ha, -, hcomplexity⟩ := cyclomaticComplexity_spec.2 _ () _ 5 0 g hg hblocks
  exact ⟨g, hg, hblocks, a, ha, hcomplexity⟩

end DSigMatcher.Cfg
