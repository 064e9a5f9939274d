import DSigMatcher.Cfg.Successors

namespace DSigMatcher.Cfg
open DSigMatcher.Base DSigMatcher.Framework

namespace ControlFlowGraph
variable (g : ControlFlowGraph)

/-- The edges are the stored successors, block after block. -/
structure Stored (g : ControlFlowGraph) : Prop where
  nodeCount : g.nodeCount = g.blocks.length
  stored : g.successorBlocks = (List.range g.nodeCount).flatMap g.blockSuccessors
  inside : ∀ i, ∀ j ∈ g.blockSuccessors i, j < g.nodeCount
  nodup : ∀ i, (g.blockSuccessors i).Nodup

theorem edges_keys : g.edges.map Prod.fst = (List.range g.nodeCount).flatMap g.blockSuccessors := by
  rw [edges, List.map_flatMap]
  refine List.flatMap_congr fun i _ => ?_
  rw [List.map_map]
  exact List.map_id _

theorem edges_inside (h : g.Stored) : ∀ e ∈ g.edges, e.1 < g.nodeCount := by
  intro e he
  have hmem := List.mem_map_of_mem (f := Prod.fst) he
  rw [g.edges_keys] at hmem
  obtain ⟨i, -, hi⟩ := List.mem_flatMap.mp hmem
  exact h.inside i _ hi

theorem flatMap_ite {α : Type*} (p : α → Prop) [DecidablePred p] (l : List α) :
    (l.flatMap fun a => if p a then [a] else []) = l.filter p := by
  induction l with
  | nil => rfl
  | cons a l ih =>
    rw [List.flatMap_cons, ih, List.filter_cons]
    by_cases ha : p a <;> simp [ha]

/-- The blocks a block is a successor of. -/
theorem edges_bucket (h : g.Stored) (j : Nat) :
    Buckets.bucket g.edges j = (List.range g.nodeCount).filter fun i => j ∈ g.blockSuccessors i := by
  rw [Buckets.bucket, edges, List.filter_flatMap, List.map_flatMap, ← flatMap_ite]
  refine List.flatMap_congr fun i _ => ?_
  have hsame : ((fun e : Nat × Nat => e.1 == j) ∘ fun successor => (successor,i)) = (· == j) := rfl
  rw [List.filter_map, List.map_map, hsame, List.filter_beq, List.map_replicate,
    (h.nodup i).count]
  split_ifs <;> rfl

theorem buildPredecessors_bodies : g.SameBodies g.buildPredecessors := by
  refine ⟨List.ext_getElem? fun i => ?_, rfl, rfl, rfl⟩
  simp only [buildPredecessors, List.getElem?_map, List.getElem?_mapIdx, Option.map_map]
  rfl

/-- `BuildPredecessors`: the successors are as before, and the predecessors of a block are the blocks
that it is a successor of. -/
theorem buildPredecessors_spec (h : g.Stored) :
    (∀ i, g.buildPredecessors.blockSuccessors i = g.blockSuccessors i) ∧
    ∀ j < g.nodeCount, g.buildPredecessors.blockPredecessors j =
      (List.range g.nodeCount).filter fun i => j ∈ g.blockSuccessors i := by
  have hkeys : g.successorBlocks = g.edges.map Prod.fst := h.stored.trans g.edges_keys.symm
  constructor
  · intro i
    simp only [blockSuccessors, buildPredecessors, List.getElem?_mapIdx]
    cases g.blocks[i]? <;> rfl
  · intro j hj
    obtain ⟨b, hb⟩ : ∃ b, g.blocks[j]? = some b :=
      ⟨_, List.getElem?_eq_getElem (h.nodeCount ▸ hj)⟩
    have hfirst := Buckets.firsts_counts g.nodeCount g.edges hj
    have hcount := Buckets.counts_getElem? g.nodeCount g.edges hj
    simp only [blockPredecessors, buildPredecessors, List.getElem?_mapIdx, hb, Option.map_some, hkeys,
      List.getD_eq_getElem?_getD, hfirst, hcount, Option.getD_some, Buckets.counts_sum]
    rw [Buckets.placed_bucket g.nodeCount g.edges (g.edges_inside h) 0 hj, g.edges_bucket h]

/-- There are as many predecessors as edges. -/
theorem predecessors_sum (h : g.Stored) :
    ((List.range g.nodeCount).map fun j =>
      ((List.range g.nodeCount).filter fun i => j ∈ g.blockSuccessors i).length).sum =
    g.successorBlocks.length := by
  have hlength : g.successorBlocks.length = g.edges.length := by
    rw [h.stored, ← g.edges_keys, List.length_map]
  rw [hlength, ← Buckets.below_eq_length (g.edges_inside h)]
  refine congrArg List.sum (List.map_congr_left fun j _ => ?_)
  rw [← Buckets.bucket_length, g.edges_bucket h]

end ControlFlowGraph

end DSigMatcher.Cfg
