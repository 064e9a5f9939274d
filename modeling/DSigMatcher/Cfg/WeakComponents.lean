import DSigMatcher.Cfg.ConnectedComponents

namespace DSigMatcher.Cfg
open DSigMatcher.Base DSigMatcher.Framework

namespace ControlFlowGraph
variable {g : ControlFlowGraph} {s : CfgForest} {root : Nat → Nat}

/-- The trees of the forest are parts of the graph's components. -/
structure Joined (g : ControlFlowGraph) (s : CfgForest) (root : Nat → Nat) : Prop where
  rooted : s.Rooted g.nodeCount root
  connected : ∀ u v : Fin g.nodeCount, root u = root v → g.undirected.Reachable u v

theorem reachable_of_edge {u v : Fin g.nodeCount} (h : (v : Nat) ∈ g.blockSuccessors u) :
    g.undirected.Reachable u v := by
  by_cases heq : u = v
  · exact heq ▸ .refl u
  · apply SimpleGraph.Adj.reachable
    exact (SimpleGraph.fromRel_adj _ u v).mpr ⟨heq, .inl h⟩

theorem joined_start : Joined g {} id := by
  refine ⟨⟨Forest.single _, fun v hv => hv, fun v hv => hv⟩, fun u v heq => ?_⟩
  exact Fin.ext heq ▸ .refl u

/-- An edge joins the trees of its ends. -/
theorem Joined.joinEdge (h : Joined g s root) {index successor : Nat} (hindex : index < g.nodeCount)
    (hedge : successor ∈ g.blockSuccessors index) :
    ∃ t root', CfgForest.joinEdge g.nodeCount index s successor = some t ∧ Joined g t root' ∧
      (∀ u v, root u = root v → root' u = root' v) ∧
      (successor < g.nodeCount → root' index = root' successor) := by
  unfold CfgForest.joinEdge
  split_ifs with hrange
  · exact ⟨s, root, rfl, h, fun u v heq => heq, fun hlt => absurd hrange (Nat.not_le.mpr hlt)⟩
  · rw [Nat.not_le] at hrange
    obtain ⟨p, hp, hleft⟩ := cfgFindRoot_spec h.rooted hindex
    obtain ⟨q, hq, hright⟩ := cfgFindRoot_spec hleft hrange
    obtain ⟨top, htop, hunion⟩ := cfgUnion_spec hright (hright.forest.fixed index)
      (hright.forest.fixed successor) (hright.rootInside index hindex)
      (hright.rootInside successor hrange)
    rw [hp, Option.bind_some, hq, Option.map_some]
    refine ⟨_, _, rfl, ⟨hunion, fun u v heq => ?_⟩, fun u v heq => ?_, fun _ => ?_⟩
    · let left : Fin g.nodeCount := ⟨index, hindex⟩
      let right : Fin g.nodeCount := ⟨successor, hrange⟩
      have hbridge : g.undirected.Reachable left right := reachable_of_edge hedge
      have hmerged {w : Fin g.nodeCount} (hw : root w = root index ∨ root w = root successor) :
          g.undirected.Reachable w left := by
        rcases hw with hw | hw
        · exact h.connected w left hw
        · exact (h.connected w right hw).trans hbridge.symm
      have hother {w : Nat} (hw : ¬ (root w = root index ∨ root w = root successor)) :
          root w ≠ top := by
        rcases htop with rfl | rfl
        · exact fun heq => hw (.inl heq)
        · exact fun heq => hw (.inr heq)
      by_cases hu : root u = root index ∨ root u = root successor
      · by_cases hv : root v = root index ∨ root v = root successor
        · exact (hmerged hu).trans (hmerged hv).symm
        · rw [if_pos hu, if_neg hv] at heq
          exact absurd heq.symm (hother hv)
      · by_cases hv : root v = root index ∨ root v = root successor
        · rw [if_neg hu, if_pos hv] at heq
          exact absurd heq (hother hu)
        · rw [if_neg hu, if_neg hv] at heq
          exact h.connected u v heq
    · simp only [heq]
    · rw [if_pos (Or.inl rfl), if_pos (Or.inr rfl)]

theorem Joined.joinBlock (successors : List Nat) (h : Joined g s root) {index : Nat}
    (hindex : index < g.nodeCount) (hedges : ∀ v ∈ successors, v ∈ g.blockSuccessors index) :
    ∃ t root', successors.foldlM (CfgForest.joinEdge g.nodeCount index) s = some t ∧
      Joined g t root' ∧ (∀ u v, root u = root v → root' u = root' v) ∧
      ∀ v ∈ successors, v < g.nodeCount → root' index = root' v := by
  induction successors generalizing s root with
  | nil => exact ⟨s, root, rfl, h, fun u v heq => heq, fun v hv => absurd hv List.not_mem_nil⟩
  | cons successor successors ih =>
    obtain ⟨r, root₁, hr, hjoined, hkept, hnew⟩ := h.joinEdge hindex (hedges _ List.mem_cons_self)
    obtain ⟨t, root₂, ht, hjoined', hkept', hall⟩ :=
      ih hjoined fun v hv => hedges v (List.mem_cons_of_mem _ hv)
    refine ⟨t, root₂, ?_, hjoined', fun u v heq => hkept' u v (hkept u v heq), fun v hv hlt => ?_⟩
    · rw [List.foldlM_cons, hr]
      exact ht
    · rcases List.mem_cons.mp hv with rfl | hv
      · exact hkept' index v (hnew hlt)
      · exact hall v hv hlt

theorem Joined.joinBlocks (blocks : List Nat) (h : Joined g s root)
    (hblocks : ∀ index ∈ blocks, index < g.nodeCount) :
    ∃ t root', blocks.foldlM (fun s index =>
        (g.blockSuccessors index).foldlM (CfgForest.joinEdge g.nodeCount index) s) s = some t ∧
      Joined g t root' ∧ (∀ u v, root u = root v → root' u = root' v) ∧
      ∀ index ∈ blocks, ∀ v ∈ g.blockSuccessors index, v < g.nodeCount →
        root' index = root' v := by
  induction blocks generalizing s root with
  | nil => exact ⟨s, root, rfl, h, fun u v heq => heq, fun v hv => absurd hv List.not_mem_nil⟩
  | cons block blocks ih =>
    obtain ⟨r, root₁, hr, hjoined, hkept, hnew⟩ :=
      h.joinBlock (g.blockSuccessors block) (hblocks block List.mem_cons_self) fun v hv => hv
    obtain ⟨t, root₂, ht, hjoined', hkept', hall⟩ :=
      ih hjoined fun index hindex => hblocks index (List.mem_cons_of_mem _ hindex)
    refine ⟨t, root₂, ?_, hjoined', fun u v heq => hkept' u v (hkept u v heq),
      fun index hindex v hv hlt => ?_⟩
    · rw [List.foldlM_cons, hr]
      exact ht
    · rcases List.mem_cons.mp hindex with rfl | hindex
      · exact hkept' index v (hnew v hv hlt)
      · exact hall index hindex v hv hlt

/-- Where the trees are whole components, there is one root for each. -/
theorem Joined.card (h : Joined g s root)
    (hedges : ∀ u v : Fin g.nodeCount, (v : Nat) ∈ g.blockSuccessors u → root u = root v) :
    ((List.range g.nodeCount).countP fun index => s.parent index = index) =
      Nat.card g.undirected.ConnectedComponent := by
  have hreach {u v : Fin g.nodeCount} (huv : g.undirected.Reachable u v) : root u = root v := by
    rw [SimpleGraph.reachable_iff_reflTransGen] at huv
    induction huv with
    | refl => rfl
    | tail _ hadj ih =>
      rcases ((SimpleGraph.fromRel_adj _ _ _).mp hadj).2 with hedge | hedge
      · exact ih.trans (hedges _ _ hedge)
      · exact ih.trans (hedges _ _ hedge).symm
  let roots := (Finset.range g.nodeCount).filter fun index => s.parent index = index
  have hmem {index : Nat} : index ∈ roots ↔ index < g.nodeCount ∧ s.parent index = index := by
    rw [Finset.mem_filter, Finset.mem_range]
  let component (r : roots) : g.undirected.ConnectedComponent :=
    g.undirected.connectedComponentMk ⟨r, (hmem.mp r.2).1⟩
  have hinjective : Function.Injective component := by
    intro a b hab
    have heq := hreach (SimpleGraph.ConnectedComponent.eq.mp hab)
    dsimp only at heq
    rw [h.rooted.forest.own _ (hmem.mp a.2).2, h.rooted.forest.own _ (hmem.mp b.2).2] at heq
    exact Subtype.ext heq
  have hsurjective : Function.Surjective component := by
    intro c
    induction c using SimpleGraph.ConnectedComponent.ind with
    | h v =>
      have hinside := h.rooted.rootInside v v.2
      refine ⟨⟨root v, hmem.mpr ⟨hinside, h.rooted.forest.fixed v⟩⟩, ?_⟩
      refine SimpleGraph.ConnectedComponent.eq.mpr (h.connected _ _ ?_)
      exact h.rooted.forest.root_root v
  rw [← Nat.card_eq_of_bijective component ⟨hinjective, hsurjective⟩, Nat.card_eq_fintype_card,
    Fintype.card_coe, List.countP_eq_length_filter]
  rfl

variable (g) in
/-- There are as many roots as components. -/
theorem computeConnectedComponents_spec :
    g.computeConnectedComponents = some (Nat.card g.undirected.ConnectedComponent) := by
  unfold computeConnectedComponents
  split_ifs with hzero
  · have hempty : IsEmpty (Fin g.nodeCount) := hzero ▸ Fin.isEmpty
    rw [Nat.card_of_isEmpty]
  · obtain ⟨t, root, ht, hjoined, -, hall⟩ := joined_start.joinBlocks (List.range g.nodeCount)
      fun index hindex => List.mem_range.mp hindex
    rw [joinEdges, ht, Option.map_some, hjoined.card]
    intro u v hedge
    exact hall u (List.mem_range.mpr u.2) v hedge v.2

end ControlFlowGraph

end DSigMatcher.Cfg
