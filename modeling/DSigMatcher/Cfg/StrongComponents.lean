import DSigMatcher.Cfg.TarjanRun
import DSigMatcher.Framework.Buckets

namespace DSigMatcher.Cfg
open DSigMatcher.Base DSigMatcher.Framework
open Relation (ReflTransGen TransGen)

section
variable {n : Nat} {successors : Nat → List Nat} {u v : Nat}

/-- A node on a cycle has a self edge or another node in its component. -/
theorem on_cycle (h : TransGen (Edge n successors) v v) :
    v ∈ successors v ∨ ∃ u < n, u ≠ v ∧ Mutual n successors u v := by
  obtain ⟨u, hvu, huv⟩ := TransGen.head'_iff.mp h
  by_cases heq : u = v
  · exact .inl (heq ▸ hvu.1)
  · exact .inr ⟨u, hvu.2, heq, huv, .single hvu⟩

theorem Mutual.cycle (h : Mutual n successors u v) (hne : u ≠ v) :
    TransGen (Edge n successors) u u := by
  rcases ReflTransGen.cases_head h.1 with heq | ⟨w, huw, hwv⟩
  · exact absurd heq hne
  · exact TransGen.head' huw (hwv.trans h.2)

end

namespace TarjanState

section
variable {n : Nat} {successors : Nat → List Nat} {s : TarjanState}

theorem mem_members (hall : ∀ v < n, s.Closed v) {v k : Nat} :
    v ∈ s.members n k ↔ v < n ∧ s.componentOfBlock v = k := by
  rw [members, Finset.mem_filter, Finset.mem_range]
  exact ⟨fun h => ⟨h.1, h.2.2⟩, fun h => ⟨h.1, hall v h.1, h.2⟩⟩

/-- A component has a cycle when it has two nodes, or one with an edge to itself. -/
theorem Components.cycle_iff (h : Components n successors s) (hall : ∀ v < n, s.Closed v) (k : Nat) :
    (1 < (s.members n k).card ∨
        ∃ v < n, ((s.members n k).card = 1 ∧ v ∈ successors v) ∧ s.componentOfBlock v = k) ↔
      ∃ v < n, s.componentOfBlock v = k ∧ TransGen (Edge n successors) v v := by
  constructor
  · rintro (hcard | ⟨v, hv, ⟨-, hself⟩, hk⟩)
    · obtain ⟨u, hu, v, hv, hne⟩ := Finset.one_lt_card.mp hcard
      rw [mem_members hall] at hu hv
      refine ⟨u, hu.1, hu.2, Mutual.cycle ?_ hne⟩
      exact (h.mutual_iff u v (hall u hu.1) (hall v hv.1)).mp (hu.2.trans hv.2.symm)
    · exact ⟨v, hv, hk, .single ⟨hself, hv⟩⟩
  · rintro ⟨v, hv, hk, hcycle⟩
    have hvk : v ∈ s.members n k := (mem_members hall).mpr ⟨hv, hk⟩
    have hother {u : Nat} (hu : u < n) (hne : u ≠ v) (hmutual : Mutual n successors u v) :
        1 < (s.members n k).card := by
      refine Finset.one_lt_card.mpr ⟨u, (mem_members hall).mpr ⟨hu, ?_⟩, v, hvk, hne⟩
      rw [← hk]
      exact (h.mutual_iff u v (hall u hu) (hall v hv)).mpr hmutual
    rcases on_cycle hcycle with hself | ⟨u, hu, hne, hmutual⟩
    · rcases Nat.lt_or_ge 1 (s.members n k).card with hcard | hcard
      · exact .inl hcard
      · have hpos := Finset.card_pos.mpr ⟨v, hvk⟩
        exact .inr ⟨v, hv, ⟨by omega, hself⟩, hk⟩
    · exact .inl (hother hu hne hmutual)

end

end TarjanState

namespace ControlFlowGraph
variable (g : ControlFlowGraph)

theorem hasSelfEdge_iff (block : Nat) :
    g.hasSelfEdge block = true ↔ block ∈ g.blockSuccessors block := by
  rw [hasSelfEdge, List.any_eq_true]
  constructor
  · rintro ⟨successor, hmem, heq⟩
    rwa [beq_iff_eq.mp heq] at hmem
  · intro hmem
    exact ⟨block, hmem, beq_self_eq_true block⟩

/-- A component is marked as a loop when it has a cycle. -/
theorem markSelfLoops_iff {s : TarjanState}
    (h : TarjanState.Components g.nodeCount g.blockSuccessors s)
    (hall : ∀ v < g.nodeCount, s.Closed v) :
    (g.markSelfLoops s).length = s.nextComponent ∧ ∀ k < s.nextComponent,
      ((g.markSelfLoops s).getD k false = true ↔ ∃ v < g.nodeCount, s.componentOfBlock v = k ∧
        TransGen (Edge g.nodeCount g.blockSuccessors) v v) := by
  have hlength : s.componentIsLoop.length = s.nextComponent := by
    rw [h.loops, List.length_map, h.counts, List.length_map, List.length_range]
  have hcount {k : Nat} (hk : k < s.nextComponent) :
      s.componentNodeCounts[k]? = some (s.members g.nodeCount k).card := by
    rw [h.counts, List.getElem?_map, List.getElem?_range hk, Option.map_some]
  have hrounds : g.markSelfLoops s = (List.range g.nodeCount).foldl (fun m v =>
      if decide ((s.members g.nodeCount (s.componentOfBlock v)).card = 1 ∧ g.hasSelfEdge v) then
        m.set (s.componentOfBlock v) true else m) s.componentIsLoop := by
    refine List.foldl_ext _ _ _ fun m v hv => ?_
    dsimp only
    rw [hcount (h.below v (hall v (List.mem_range.mp hv)))]
    simp only [decide_eq_true_eq]
  rw [hrounds]
  refine ⟨(Buckets.length_foldl_mark _ _ _ _).trans hlength, fun k hk => ?_⟩
  rw [Buckets.foldl_mark _ _ _ _ (hlength.symm ▸ hk), ← h.cycle_iff hall]
  refine or_congr ?_ ?_
  · rw [h.loops, List.getD_eq_getElem?_getD, List.getElem?_map, hcount hk, Option.map_some,
      Option.getD_some, decide_eq_true_iff]
  · constructor
    · rintro ⟨v, hv, hmark, hkey⟩
      rw [decide_eq_true_iff, hkey, hasSelfEdge_iff] at hmark
      exact ⟨v, List.mem_range.mp hv, hmark, hkey⟩
    · rintro ⟨v, hv, hmark, hkey⟩
      refine ⟨v, List.mem_range.mpr hv, ?_, hkey⟩
      rw [decide_eq_true_iff, hkey, hasSelfEdge_iff]
      exact hmark

theorem members_card {s : TarjanState} (hall : ∀ v < g.nodeCount, s.Closed v) (k : Nat) :
    (s.members g.nodeCount k).card = ((List.range g.nodeCount).map s.componentOfBlock).count k := by
  have hset : s.members g.nodeCount k =
      (Finset.range g.nodeCount).filter fun v => s.componentOfBlock v = k :=
    Finset.filter_congr fun v hv => and_iff_right (hall v (Finset.mem_range.mp hv))
  rw [hset, List.count, List.countP_map, List.countP_eq_length_filter]
  rfl

/-- The components cover the blocks. -/
theorem members_sum {s : TarjanState}
    (h : TarjanState.Components g.nodeCount g.blockSuccessors s)
    (hall : ∀ v < g.nodeCount, s.Closed v) : s.componentNodeCounts.sum = g.nodeCount := by
  have hfibers := Finset.card_eq_sum_card_fiberwise (s := Finset.range g.nodeCount)
    (t := Finset.range s.nextComponent) (f := s.componentOfBlock) fun v hv =>
      Finset.mem_coe.mpr (Finset.mem_range.mpr (h.below v (hall v (Finset.mem_range.mp hv))))
  rw [Finset.card_range] at hfibers
  have hsum : s.componentNodeCounts.sum =
      ∑ k ∈ Finset.range s.nextComponent, (s.members g.nodeCount k).card := by
    rw [h.counts]
    rfl
  refine (hsum.trans ?_).trans hfibers.symm
  refine Finset.sum_congr rfl fun k _ => congrArg Finset.card ?_
  exact Finset.filter_congr fun v hv => and_iff_right (hall v (Finset.mem_range.mp hv))

theorem loops_ncard {s : TarjanState}
    (h : TarjanState.Components g.nodeCount g.blockSuccessors s)
    (hall : ∀ v < g.nodeCount, s.Closed v) :
    (g.markSelfLoops s).countP id = Set.ncard {k | ∃ v < g.nodeCount, s.componentOfBlock v = k ∧
      TransGen (Edge g.nodeCount g.blockSuccessors) v v} := by
  obtain ⟨hlength, hmarks⟩ := g.markSelfLoops_iff h hall
  rw [Buckets.countP_id_eq, hlength, ← Set.ncard_coe_finset]
  congr 1
  ext k
  rw [Finset.mem_coe, Finset.mem_filter, Finset.mem_range, Set.mem_ofPred_eq]
  constructor
  · rintro ⟨hk, hmark⟩
    exact (hmarks k hk).mp hmark
  · rintro ⟨v, hv, rfl, hcycle⟩
    have hk := h.below v (hall v hv)
    exact ⟨hk, (hmarks _ hk).mpr ⟨v, hv, rfl, hcycle⟩⟩

/-- `ComputeStronglyConnected` ends. Two blocks are in one component exactly when each is reachable
from the other; the sizes are those of the components and sum to the number of blocks; and the loops
are the components with a cycle. -/
theorem computeStronglyConnected_spec (hsize : g.nodeCount < 2^32) :
    ∃ c, g.computeStronglyConnected = some c ∧ c.componentOfBlock.length = g.nodeCount ∧
      (∀ u < g.nodeCount, ∀ v < g.nodeCount,
        (c.componentOfBlock[u]? = c.componentOfBlock[v]? ↔
          Mutual g.nodeCount g.blockSuccessors u v)) ∧
      c.componentNodeCounts =
        (List.range c.stronglyConnectedCount).map (fun k => c.componentOfBlock.count k) ∧
      c.componentNodeCounts.sum = g.nodeCount ∧
      c.loopCount = Set.ncard {k | ∃ v < g.nodeCount, c.componentOfBlock[v]? = some k ∧
        TransGen (Edge g.nodeCount g.blockSuccessors) v v} := by
  obtain ⟨s, hs, h, hall⟩ := TarjanState.search_spec g.nodeCount g.blockSuccessors
    (Nat.le_of_lt_succ hsize)
  rw [computeStronglyConnected]
  by_cases hzero : g.nodeCount = 0
  · rw [if_pos hzero, hzero]
    have hnone (k : Nat) : ¬ ∃ v < 0, ([] : List Nat)[v]? = some k ∧
        TransGen (Edge 0 g.blockSuccessors) v v := by
      rintro ⟨v, hv, -⟩
      exact absurd hv v.not_lt_zero
    refine ⟨{}, rfl, rfl, fun u hu => absurd hu u.not_lt_zero, rfl, rfl, ?_⟩
    have hempty := Set.eq_empty_of_forall_notMem hnone
    exact ((congrArg Set.ncard hempty).trans (Set.ncard_empty Nat)).symm
  · rw [if_neg hzero, hs, Option.map_some]
    have hof {v : Nat} (hv : v < g.nodeCount) :
        ((List.range g.nodeCount).map s.componentOfBlock)[v]? = some (s.componentOfBlock v) := by
      rw [List.getElem?_map, List.getElem?_range hv, Option.map_some]
    refine ⟨_, rfl, ?_, ?_, ?_, g.members_sum h hall, ?_⟩
    · rw [List.length_map, List.length_range]
    · intro u hu v hv
      rw [hof hu, hof hv, Option.some_inj]
      exact h.mutual_iff u v (hall u hu) (hall v hv)
    · dsimp only
      rw [h.counts]
      exact List.map_congr_left fun k _ => g.members_card hall k
    · dsimp only
      rw [g.loops_ncard h hall]
      congr 1
      ext k
      refine exists_congr fun v => and_congr_right fun hv => ?_
      rw [hof hv, Option.some_inj]

theorem computeStronglyConnected_spec_cycle :
    let g : ControlFlowGraph := {
      nodeCount := 3
      blocks := [
        { firstSuccessor := 0, successorCount := 1 },
        { firstSuccessor := 1, successorCount := 2 },
        { firstSuccessor := 3, successorCount := 1 }]
      successorBlocks := [1, 0, 2, 2] }
    ∃ c, g.computeStronglyConnected = some c ∧ c.componentNodeCounts.sum = 3 ∧
      (c.componentOfBlock[0]? = c.componentOfBlock[1]? ↔ Mutual 3 g.blockSuccessors 0 1) := by
  intro g
  obtain ⟨c, hc, -, hsame, -, hsum, -⟩ := g.computeStronglyConnected_spec (by decide)
  exact ⟨c, hc, hsum, hsame 0 (by decide) 1 (by decide)⟩

end ControlFlowGraph

end DSigMatcher.Cfg
