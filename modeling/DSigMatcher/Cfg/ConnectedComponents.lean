import DSigMatcher.Cfg.StronglyConnected
import DSigMatcher.Framework.DisjointSets
import Mathlib.Combinatorics.SimpleGraph.Connectivity.Connected
import Mathlib.SetTheory.Cardinal.Finite

namespace DSigMatcher.Cfg
open DSigMatcher.Base DSigMatcher.Framework

/-- The first loop of `CfgFindRoot`: up to the root. -/
def climb (parent : Nat → Nat) (root : Nat) : Option Nat :=
  if parent root ≠ root then some (parent root) else none

/-- The second: every node that the first has met gets the root as its parent. -/
def compress (root : Nat) (w : (Nat → Nat) × Nat) : Option ((Nat → Nat) × Nat) :=
  if w.1 w.2 ≠ w.2 then some (Function.update w.1 w.2 root,w.1 w.2) else none

/-- `CfgFindRoot` over `n` nodes, which is more than the rounds of its loops. -/
def cfgFindRoot (n : Nat) (parent : Nat → Nat) (node : Nat) : Option (Nat × (Nat → Nat)) :=
  (loop (climb parent) n node).bind fun root =>
    (loop (compress root) n (parent,node)).map fun w => (root,w.1)

/-- `Parent` and `Rank`. -/
structure CfgForest where
  parent : Nat → Nat := id
  rank : Nat → Nat := fun _ => 0

def cfgUnion (s : CfgForest) (left right : Nat) : CfgForest :=
  if left = right then s
  else if s.rank left < s.rank right then { s with parent := Function.update s.parent left right }
  else if s.rank right < s.rank left then { s with parent := Function.update s.parent right left }
  else
    { parent := Function.update s.parent right left
      rank := Function.update s.rank left (s.rank left+1) }

/-- One successor of a block. -/
def CfgForest.joinEdge (n index : Nat) (s : CfgForest) (successor : Nat) : Option CfgForest :=
  if n ≤ successor then some s
  else
    (cfgFindRoot n s.parent index).bind fun left =>
      (cfgFindRoot n left.2 successor).map fun right =>
        cfgUnion { s with parent := right.2 } left.1 right.1

namespace ControlFlowGraph
variable (g : ControlFlowGraph)

def joinEdges : Option CfgForest :=
  (List.range g.nodeCount).foldlM (fun s index =>
    (g.blockSuccessors index).foldlM (CfgForest.joinEdge g.nodeCount index) s) {}

def computeConnectedComponents : Option Nat :=
  if g.nodeCount = 0 then some 0
  else g.joinEdges.map fun s => (List.range g.nodeCount).countP fun index => s.parent index = index

/-- The blocks and their edges, without a direction. -/
def undirected : SimpleGraph (Fin g.nodeCount) :=
  SimpleGraph.fromRel fun u v => (v : Nat) ∈ g.blockSuccessors u

end ControlFlowGraph

/-- A forest over the first `n` numbers. -/
structure CfgForest.Rooted (n : Nat) (s : CfgForest) (root : Nat → Nat) : Prop where
  forest : Forest s.parent s.rank root
  parentInside : ∀ v < n, s.parent v < n
  rootInside : ∀ v < n, root v < n

theorem update_inside {n : Nat} {f : Nat → Nat} (hf : ∀ v < n, f v < n) (c : Nat) {x : Nat}
    (hx : x < n) : ∀ v < n, Function.update f c x v < n := by
  intro v hv
  by_cases hvc : v = c
  · rw [hvc, Function.update_self]
    exact hx
  · rw [Function.update_of_ne hvc]
    exact hf v hv

section
variable {n : Nat} {s : CfgForest} {root : Nat → Nat}

namespace CfgForest.Rooted

theorem above_lt (h : s.Rooted n root) {v : Nat} (hv : v < n) (hup : s.parent v ≠ v) :
    Forest.above (Finset.range n) s.rank (s.parent v) < Forest.above (Finset.range n) s.rank v :=
  Forest.above_lt _ _ (Finset.mem_range.mpr (h.parentInside v hv)) (h.forest.parentAbove v hup)

theorem congr (h : s.Rooted n root) {root' : Nat → Nat} (heq : ∀ v, root' v = root v) :
    s.Rooted n root' := funext heq ▸ h

theorem shortcut (h : s.Rooted n root) {c : Nat} (hc : c < n) :
    ({ s with parent := Function.update s.parent c (root c) } : CfgForest).Rooted n root :=
  ⟨h.forest.shortcut c, update_inside h.parentInside c (h.rootInside c hc), h.rootInside⟩

/-- One root is put under another. -/
theorem link (h : s.Rooted n root) {l r k : Nat} (hl : s.parent l = l) (hr : s.parent r = r)
    (hne : l ≠ r) (hrk : s.rank r ≤ k) (hlk : s.rank l < k) (hrn : r < n) :
    (CfgForest.mk (Function.update s.parent l r) (Function.update s.rank r k)).Rooted n
      (fun v => if root v = l then r else root v) := by
  refine ⟨h.forest.link hl hr hne hrk hlk, update_inside h.parentInside l hrn, fun v hv => ?_⟩
  split_ifs
  · exact hrn
  · exact h.rootInside v hv

end CfgForest.Rooted

theorem above_lt_size (rank : Nat → Nat) {v : Nat} (hv : v < n) :
    Forest.above (Finset.range n) rank v < n := by
  have hcard := Forest.above_lt_card (Finset.range n) rank (Finset.mem_range.mpr hv)
  rwa [Finset.card_range] at hcard

theorem climb_spec (h : s.Rooted n root) {v : Nat} (hv : v < n) :
    loop (climb s.parent) n v = some (root v) := by
  have hkept : ∀ u w, climb s.parent u = some w → (u < n ∧ root u = root v) →
      w < n ∧ root w = root v := by
    intro u w hround hu
    unfold climb at hround
    split_ifs at hround
    obtain rfl := Option.some.inj hround
    exact ⟨h.parentInside u hu.1, (h.forest.step u).trans hu.2⟩
  have hdown : ∀ u w, (u < n ∧ root u = root v) → climb s.parent u = some w →
      Forest.above (Finset.range n) s.rank w < Forest.above (Finset.range n) s.rank u := by
    intro u w hu hround
    unfold climb at hround
    split_ifs at hround with hup
    obtain rfl := Option.some.inj hround
    exact h.above_lt hu.1 hup
  obtain ⟨w, hw⟩ := loop_terminates_of (climb s.parent) _ hkept _ hdown n v ⟨hv, rfl⟩
    (above_lt_size s.rank hv)
  have hend := loop_invariant (climb s.parent) _ hkept n v w hw ⟨hv, rfl⟩
  have hstable := loop_stable (climb s.parent) n v w hw
  unfold climb at hstable
  split_ifs at hstable with hup
  rw [hw, ← hend.2, h.forest.own w (not_not.mp hup)]

/-- What holds of the second loop: the trees are those of before, and its cursor is in one of them. -/
def Compressing (n : Nat) (rank root : Nat → Nat) (v : Nat) (w : (Nat → Nat) × Nat) : Prop :=
  (CfgForest.mk w.1 rank).Rooted n root ∧ w.2 < n ∧ root w.2 = root v

theorem compress_spec (h : s.Rooted n root) {v : Nat} (hv : v < n) :
    ∃ w, loop (compress (root v)) n (s.parent,v) = some w ∧
      ({ s with parent := w.1 } : CfgForest).Rooted n root := by
  have hkept : ∀ a b, compress (root v) a = some b → Compressing n s.rank root v a →
      Compressing n s.rank root v b := by
    rintro a b hround ⟨hrooted, hinside, hroot⟩
    unfold compress at hround
    split_ifs at hround
    obtain rfl := Option.some.inj hround
    refine ⟨?_, hrooted.parentInside a.2 hinside, (hrooted.forest.step a.2).trans hroot⟩
    rw [← hroot]
    exact hrooted.shortcut hinside
  have hdown : ∀ a b, Compressing n s.rank root v a → compress (root v) a = some b →
      Forest.above (Finset.range n) s.rank b.2 < Forest.above (Finset.range n) s.rank a.2 := by
    intro a b ha hround
    unfold compress at hround
    split_ifs at hround with hup
    obtain rfl := Option.some.inj hround
    exact ha.1.above_lt ha.2.1 hup
  have hstart : Compressing n s.rank root v (s.parent,v) := ⟨h, hv, rfl⟩
  obtain ⟨w, hw⟩ := loop_terminates_of (compress (root v)) _ hkept
    (fun a => Forest.above (Finset.range n) s.rank a.2) hdown n _ hstart (above_lt_size s.rank hv)
  exact ⟨w, hw, (loop_invariant (compress (root v)) _ hkept n _ w hw hstart).1⟩

/-- `CfgFindRoot` returns the root and moves no node to another tree. -/
theorem cfgFindRoot_spec (h : s.Rooted n root) {v : Nat} (hv : v < n) :
    ∃ parent, cfgFindRoot n s.parent v = some (root v,parent) ∧
      ({ s with parent } : CfgForest).Rooted n root := by
  obtain ⟨w, hw, hrooted⟩ := compress_spec h hv
  refine ⟨w.1, ?_, hrooted⟩
  rw [cfgFindRoot, climb_spec h hv, Option.bind_some, hw, Option.map_some]

/-- `CfgUnion` of two roots makes one tree of their trees. -/
theorem cfgUnion_spec (h : s.Rooted n root) {l r : Nat} (hl : s.parent l = l) (hr : s.parent r = r)
    (hln : l < n) (hrn : r < n) :
    ∃ top, (top = l ∨ top = r) ∧
      (cfgUnion s l r).Rooted n fun v => if root v = l ∨ root v = r then top else root v := by
  unfold cfgUnion
  split_ifs with heq hlt hgt
  · refine ⟨l, .inl rfl, h.congr fun v => ?_⟩
    split_ifs <;> grind
  · have hlink := h.link hl hr heq le_rfl hlt hrn
    rw [Function.update_eq_self] at hlink
    refine ⟨r, .inr rfl, hlink.congr fun v => ?_⟩
    split_ifs <;> grind
  · have hlink := h.link hr hl (Ne.symm heq) le_rfl hgt hln
    rw [Function.update_eq_self] at hlink
    refine ⟨l, .inl rfl, hlink.congr fun v => ?_⟩
    split_ifs <;> grind
  · have hlink := h.link hr hl (Ne.symm heq) (Nat.le_succ (s.rank l)) (by omega) hln
    refine ⟨l, .inl rfl, hlink.congr fun v => ?_⟩
    split_ifs <;> grind

end

end DSigMatcher.Cfg
