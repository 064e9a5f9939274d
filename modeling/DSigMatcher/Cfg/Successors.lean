import DSigMatcher.Cfg.Edges

namespace DSigMatcher.Cfg
open DSigMatcher.Base DSigMatcher.Framework

/-- A block without its edges. -/
def CfgBlock.body (b : CfgBlock) : CfgBlock :=
  { b with firstSuccessor := 0, successorCount := 0, firstPredecessor := 0, predecessorCount := 0 }

/-- The offset a block branches to. -/
def CfgBlock.branchTarget (b : CfgBlock) : Option Nat :=
  if (b.blockEnd = .directBranch ∨ b.blockEnd = .conditionalBranch) ∧ b.targetOffset ≠ cfgNoTarget then
    some b.targetOffset.toNat
  else none

/-- The offset behind a block, where the block goes on there. -/
def CfgBlock.fallThrough (b : CfgBlock) : Option Nat :=
  if b.blockEnd = .conditionalBranch ∨ b.blockEnd = .fallthrough ∨ b.blockEnd = .rangeEnd then
    some (b.offset+b.size)
  else none

namespace ControlFlowGraph

/-- The blocks of `h` are those of `g`, up to their edges. -/
structure SameBodies (g h : ControlFlowGraph) : Prop where
  blocks : h.blocks.map CfgBlock.body = g.blocks.map CfgBlock.body
  status : h.status = g.status
  nodeCount : h.nodeCount = g.nodeCount
  overlappingLeaderCount : h.overlappingLeaderCount = g.overlappingLeaderCount

/-- The block an offset in the range resolves to. -/
def resolved (g : ControlFlowGraph) (length : Nat) (offset : Option Nat) : Option Nat :=
  offset.bind fun t => if t < length then g.blockAtOffset t else none

/-- An offset in the range that no block starts at counts as dropped. -/
def missed (g : ControlFlowGraph) (length : Nat) (offset : Option Nat) : Nat :=
  match offset with
  | none => 0
  | some t => if t < length ∧ g.blockAtOffset t = none then 1 else 0

def successorsOf (g : ControlFlowGraph) (length : Nat) (b : CfgBlock) : List Nat :=
  takeCandidates [g.resolved length b.branchTarget,g.resolved length b.fallThrough]

def missedBy (g : ControlFlowGraph) (length : Nat) (b : CfgBlock) : Nat :=
  g.missed length b.branchTarget+g.missed length b.fallThrough

theorem SameBodies.refl (g : ControlFlowGraph) : g.SameBodies g := ⟨rfl, rfl, rfl, rfl⟩

theorem SameBodies.trans {g h k : ControlFlowGraph} (hgh : g.SameBodies h) (hhk : h.SameBodies k) :
    g.SameBodies k :=
  ⟨hhk.blocks.trans hgh.blocks, hhk.status.trans hgh.status, hhk.nodeCount.trans hgh.nodeCount,
    hhk.overlappingLeaderCount.trans hgh.overlappingLeaderCount⟩

theorem SameBodies.length {g h : ControlFlowGraph} (hgh : g.SameBodies h) :
    h.blocks.length = g.blocks.length := by
  have hlength := congrArg List.length hgh.blocks
  rwa [List.length_map, List.length_map] at hlength

/-- A block of one graph has the body of the other's. -/
theorem SameBodies.block {g h : ControlFlowGraph} (hgh : g.SameBodies h) {i : Nat} {c : CfgBlock}
    (hc : h.blocks[i]? = some c) : ∃ b, g.blocks[i]? = some b ∧ c.body = b.body := by
  have hget := congrArg (·[i]?) hgh.blocks
  simp only [List.getElem?_map, hc, Option.map_some] at hget
  obtain ⟨b, hb, hbody⟩ := Option.map_eq_some_iff.mp hget.symm
  exact ⟨b, hb, hbody.symm⟩

theorem SameBodies.symm_block {g h : ControlFlowGraph} (hgh : g.SameBodies h) {i : Nat}
    {b : CfgBlock} (hb : g.blocks[i]? = some b) : ∃ c, h.blocks[i]? = some c ∧ c.body = b.body := by
  have hget := congrArg (·[i]?) hgh.blocks
  simp only [List.getElem?_map, hb, Option.map_some] at hget
  exact Option.map_eq_some_iff.mp hget

theorem blockAtOffset_offsets (g : ControlFlowGraph) (offset : Nat) :
    g.blockAtOffset offset =
      let offsets := g.blocks.map fun b => b.body.offset
      let found := offsets.findIdx fun o => !decide (o < offset)
      if offsets[found]? = some offset then some found else none := by
  have hbody : ((fun o => !decide (o < offset)) ∘ fun b : CfgBlock => b.body.offset) =
      fun b => !decide (b.offset < offset) := rfl
  simp only [blockAtOffset, List.findIdx_map, List.getElem?_map, hbody]
  generalize g.blocks.findIdx (fun b => !decide (b.offset < offset)) = found
  cases g.blocks[found]? with
  | none => simp
  | some b => simp [CfgBlock.body]

theorem SameBodies.blockAtOffset {g h : ControlFlowGraph} (hgh : g.SameBodies h) (offset : Nat) :
    h.blockAtOffset offset = g.blockAtOffset offset := by
  have hoffsets : (h.blocks.map fun b => b.body.offset) = g.blocks.map fun b => b.body.offset := by
    have hmap := congrArg (List.map CfgBlock.offset) hgh.blocks
    rwa [List.map_map, List.map_map] at hmap
  rw [blockAtOffset_offsets, blockAtOffset_offsets, hoffsets]

/-- On blocks in order, `std::lower_bound` finds the block that starts at an offset. -/
theorem blockAtOffset_eq_some {g : ControlFlowGraph}
    (hsorted : g.blocks.Pairwise fun b c => b.offset < c.offset) {offset i : Nat} :
    g.blockAtOffset offset = some i ↔ ∃ b, g.blocks[i]? = some b ∧ b.offset = offset := by
  constructor
  · intro h
    simp only [ControlFlowGraph.blockAtOffset] at h
    split at h
    · cases h
    · split_ifs at h with hat
      obtain rfl := Option.some.inj h
      exact ⟨_, ‹_›, hat⟩
  · rintro ⟨b, hb, rfl⟩
    obtain ⟨hi, hget⟩ := List.getElem?_eq_some_iff.mp hb
    have hfound : g.blocks.findIdx (fun c => !decide (c.offset < b.offset)) = i := by
      rw [List.findIdx_eq hi]
      refine ⟨by simp [hget], fun j hj => ?_⟩
      have hlt := List.pairwise_iff_getElem.mp hsorted j i (hj.trans hi) hi hj
      rw [hget] at hlt
      simpa using hlt
    simp only [ControlFlowGraph.blockAtOffset, hfound, hb, if_true]

theorem resolveSuccessor_spec (g : ControlFlowGraph) (length offset : Nat) :
    (g.resolveSuccessor length offset).1 = g.resolved length (some offset) ∧
    (g.resolveSuccessor length offset).2 =
      { g with droppedSuccessorCount := g.droppedSuccessorCount+g.missed length (some offset) } := by
  simp only [resolveSuccessor, resolved, missed, Option.bind_some]
  by_cases hinside : offset < length
  · rw [if_neg (Nat.not_le.mpr hinside), if_pos hinside]
    cases g.blockAtOffset offset with
    | none => simp [hinside]
    | some i => simp
  · rw [if_pos (Nat.le_of_not_lt hinside), if_neg hinside, if_neg fun h => hinside h.1]
    exact ⟨rfl, rfl⟩

theorem missed_congr {g h : ControlFlowGraph} (hgh : g.SameBodies h) (length : Nat)
    (offset : Option Nat) : h.missed length offset = g.missed length offset := by
  cases offset with
  | none => rfl
  | some t => simp only [missed, hgh.blockAtOffset]

theorem resolved_congr {g h : ControlFlowGraph} (hgh : g.SameBodies h) (length : Nat)
    (offset : Option Nat) : h.resolved length offset = g.resolved length offset := by
  simp only [resolved, hgh.blockAtOffset]

theorem dropped_bodies (g : ControlFlowGraph) (n : Nat) :
    g.SameBodies { g with droppedSuccessorCount := n } := ⟨rfl, rfl, rfl, rfl⟩

/-- The candidates of a block are where its target and its fall-through offset resolve to. -/
theorem candidates_spec (g : ControlFlowGraph) (length : Nat) (b : CfgBlock) :
    takeCandidates (g.candidates length b).1 = g.successorsOf length b ∧
    (g.candidates length b).2 =
      { g with droppedSuccessorCount := g.droppedSuccessorCount+g.missedBy length b } := by
  have htarget (hend : b.blockEnd = .directBranch ∨ b.blockEnd = .conditionalBranch) :
      (g.resolveTarget length b).1 = g.resolved length b.branchTarget ∧
      (g.resolveTarget length b).2 = { g with
        droppedSuccessorCount := g.droppedSuccessorCount+g.missed length b.branchTarget } := by
    unfold resolveTarget CfgBlock.branchTarget
    by_cases hnone : b.targetOffset = cfgNoTarget
    · rw [if_neg (not_not.mpr hnone), if_neg fun h => h.2 hnone]
      exact ⟨rfl, rfl⟩
    · rw [if_pos hnone, if_pos ⟨hend, hnone⟩]
      exact g.resolveSuccessor_spec length _
  have hnone : g.resolved length none = none := rfl
  have hzero : g.missed length none = 0 := rfl
  have hflip (c : Option Nat) : takeCandidates [c,none] = takeCandidates [none,c] := rfl
  unfold candidates successorsOf missedBy
  cases hend : b.blockEnd with
  | conditionalBranch =>
    obtain ⟨hfirst, hdropped⟩ := htarget (Or.inr hend)
    have hfall : b.fallThrough = some (b.offset+b.size) := by simp [CfgBlock.fallThrough, hend]
    have hspec := resolveSuccessor_spec (g.resolveTarget length b).2 length (b.offset+b.size)
    have hbodies := g.dropped_bodies (g.droppedSuccessorCount+g.missed length b.branchTarget)
    rw [hdropped, resolved_congr hbodies, missed_congr hbodies] at hspec
    simp only
    rw [hfirst, hdropped, hspec.1, hspec.2, hfall, Nat.add_assoc]
    exact ⟨rfl, rfl⟩
  | directBranch =>
    obtain ⟨hfirst, hdropped⟩ := htarget (Or.inl hend)
    have hfall : b.fallThrough = none := by simp [CfgBlock.fallThrough, hend]
    simp only
    rw [hfirst, hdropped, hfall, hnone, hzero]
    exact ⟨rfl, rfl⟩
  | fallthrough | rangeEnd =>
    have htarget : b.branchTarget = none := by simp [CfgBlock.branchTarget, hend]
    have hfall : b.fallThrough = some (b.offset+b.size) := by simp [CfgBlock.fallThrough, hend]
    obtain ⟨hfirst, hdropped⟩ := g.resolveSuccessor_spec length (b.offset+b.size)
    simp only
    rw [hfirst, hdropped, htarget, hfall, hnone, hzero, hflip, Nat.zero_add]
    exact ⟨rfl, rfl⟩
  | indirectBranch | «return» | noReturn | decodeError =>
    have htarget : b.branchTarget = none := by simp [CfgBlock.branchTarget, hend]
    have hfall : b.fallThrough = none := by simp [CfgBlock.fallThrough, hend]
    rw [htarget, hfall, hnone, hzero]
    exact ⟨rfl, rfl⟩

theorem takeCandidates_spec (candidates : List (Option Nat)) :
    (takeCandidates candidates).Nodup ∧
      ∀ i, i ∈ takeCandidates candidates ↔ some i ∈ candidates := by
  induction candidates using List.reverseRecOn with
  | nil => simp [takeCandidates]
  | append_singleton candidates c ih =>
    rw [takeCandidates] at ih
    rw [takeCandidates, List.foldl_append, List.foldl_cons, List.foldl_nil]
    generalize candidates.foldl _ [] = taken at ih
    obtain ⟨hnodup, hmem⟩ := ih
    cases c with
    | none => exact ⟨hnodup, fun i => by rw [hmem, List.mem_append]; simp⟩
    | some block =>
      simp only
      split_ifs with htaken
      · refine ⟨hnodup, fun i => ?_⟩
        rw [hmem, List.mem_append, List.mem_singleton, Option.some.injEq]
        refine ⟨Or.inl, fun h => h.elim id ?_⟩
        rintro rfl
        exact (hmem i).mp htaken
      · refine ⟨hnodup.append (List.nodup_singleton block) (List.disjoint_singleton.mpr htaken),
          fun i => ?_⟩
        rw [List.mem_append, List.mem_append, hmem, List.mem_singleton, List.mem_singleton,
          Option.some.injEq]

theorem successorsOf_congr {g h : ControlFlowGraph} (hgh : g.SameBodies h) (length : Nat)
    {b c : CfgBlock} (hbody : c.body = b.body) :
    h.successorsOf length c = g.successorsOf length b ∧
      h.missedBy length c = g.missedBy length b := by
  have htarget : c.branchTarget = b.branchTarget := by
    change c.body.branchTarget = b.body.branchTarget
    rw [hbody]
  have hfall : c.fallThrough = b.fallThrough := by
    change c.body.fallThrough = b.body.fallThrough
    rw [hbody]
  simp only [successorsOf, missedBy, resolved_congr hgh, missed_congr hgh, htarget, hfall, and_self]

/-- A block may get other edges. -/
theorem map_body_set {bs : List CfgBlock} {index : Nat} {b c : CfgBlock} (hb : bs[index]? = some b)
    (hc : c.body = b.body) : (bs.set index c).map CfgBlock.body = bs.map CfgBlock.body := by
  obtain ⟨hindex, hget⟩ := List.getElem?_eq_some_iff.mp hb
  have hindex' : index < (bs.map CfgBlock.body).length := by rwa [List.length_map]
  have hsame : b.body = (bs.map CfgBlock.body)[index] := by rw [List.getElem_map, hget]
  rw [List.map_set, hc, hsame, List.set_getElem_self]

theorem addSuccessors_bodies (g : ControlFlowGraph) (length index : Nat) :
    g.SameBodies (g.addSuccessors length index) := by
  unfold addSuccessors
  cases hb : g.blocks[index]? with
  | none => exact .refl g
  | some b =>
    simp only
    rw [(g.candidates_spec length b).2]
    exact ⟨map_body_set hb rfl, rfl, rfl, rfl⟩

theorem buildSuccessors_bodies (g : ControlFlowGraph) (length : Nat) :
    g.SameBodies (g.buildSuccessors length) := by
  have hfold (indices : List Nat) (h : ControlFlowGraph) (hgh : g.SameBodies h) :
      g.SameBodies (indices.foldl (fun g index => g.addSuccessors length index) h) := by
    induction indices generalizing h with
    | nil => exact hgh
    | cons index indices ih => exact ih _ (hgh.trans (h.addSuccessors_bodies length index))
  have hbodies := hfold (List.range g.nodeCount) g (.refl g)
  exact ⟨hbodies.blocks, hbodies.status, hbodies.nodeCount, hbodies.overlappingLeaderCount⟩

/-- The first `n` blocks have their successors. -/
structure Linked (g₀ g : ControlFlowGraph) (length n : Nat) : Prop where
  bodies : g₀.SameBodies g
  successorBlocks : g.successorBlocks = (g₀.blocks.take n).flatMap (g₀.successorsOf length)
  dropped : g.droppedSuccessorCount =
    g₀.droppedSuccessorCount+((g₀.blocks.take n).map (g₀.missedBy length)).sum
  linked : ∀ i < n, ∀ b c, g₀.blocks[i]? = some b → g.blocks[i]? = some c →
    c.firstSuccessor = ((g₀.blocks.take i).flatMap (g₀.successorsOf length)).length ∧
      c.successorCount = (g₀.successorsOf length b).length

theorem Linked.step {g₀ g : ControlFlowGraph} {length n : Nat} (h : g₀.Linked g length n) :
    g₀.Linked (g.addSuccessors length n) length (n+1) := by
  have hbodies := h.bodies.trans (g.addSuccessors_bodies length n)
  unfold addSuccessors at hbodies ⊢
  cases hc : g.blocks[n]? with
  | none =>
    have hend : g₀.blocks.length ≤ n := h.bodies.length ▸ List.getElem?_eq_none_iff.mp hc
    have htake : g₀.blocks.take (n+1) = g₀.blocks.take n := by
      rw [List.take_of_length_le hend, List.take_of_length_le (Nat.le_succ_of_le hend)]
    refine ⟨h.bodies, htake ▸ h.successorBlocks, htake ▸ h.dropped, fun i _ b c hb => ?_⟩
    exact h.linked i (Nat.lt_of_lt_of_le (List.getElem?_eq_some_iff.mp hb).1 hend) b c hb
  | some c =>
    obtain ⟨b, hb, hbody⟩ := h.bodies.block hc
    obtain ⟨htaken, hfound⟩ := g.candidates_spec length c
    obtain ⟨hsuccessors, hmissed⟩ := successorsOf_congr h.bodies length hbody
    have htake : g₀.blocks.take (n+1) = g₀.blocks.take n ++ [b] := by
      rw [List.take_add_one, hb]
      rfl
    simp only [hc] at hbodies ⊢
    rw [htaken, hfound, hsuccessors, hmissed] at hbodies ⊢
    refine ⟨hbodies, ?_, ?_, ?_⟩
    · rw [htake, List.flatMap_append, List.flatMap_singleton, h.successorBlocks]
    · simp only
      rw [htake, List.map_append, List.sum_append, List.map_singleton, List.sum_singleton,
        h.dropped, Nat.add_assoc]
    · intro i hi b' c' hb' hc'
      rcases Nat.lt_or_eq_of_le (Nat.le_of_lt_succ hi) with hlt | rfl
      · rw [List.getElem?_set_ne (Nat.ne_of_gt hlt)] at hc'
        exact h.linked i hlt b' c' hb' hc'
      · rw [List.getElem?_set_self (List.getElem?_eq_some_iff.mp hc).1] at hc'
        obtain rfl := Option.some.inj (hb.symm.trans hb')
        obtain rfl := Option.some.inj hc'
        exact ⟨congrArg List.length h.successorBlocks, rfl⟩

theorem linked_range (g : ControlFlowGraph) (hsuccessors : g.successorBlocks = []) (length n : Nat) :
    g.Linked ((List.range n).foldl (fun g index => g.addSuccessors length index) g) length n := by
  induction n with
  | zero => exact ⟨.refl g, hsuccessors, rfl, fun i hi => absurd hi (Nat.not_lt_zero i)⟩
  | succ n ih =>
    rw [List.range_succ, List.foldl_append]
    exact ih.step

/-- `BuildSuccessors`: each block has the successors its offsets resolve to. -/
theorem buildSuccessors_spec (g : ControlFlowGraph) (length : Nat)
    (hcount : g.nodeCount = g.blocks.length) (hsuccessors : g.successorBlocks = []) :
    (g.buildSuccessors length).successorBlocks = g.blocks.flatMap (g.successorsOf length) ∧
    (g.buildSuccessors length).edgeCount = (g.buildSuccessors length).successorBlocks.length ∧
    (g.buildSuccessors length).droppedSuccessorCount =
      g.droppedSuccessorCount+(g.blocks.map (g.missedBy length)).sum ∧
    ∀ i b, g.blocks[i]? = some b →
      (g.buildSuccessors length).blockSuccessors i = g.successorsOf length b := by
  have h := g.linked_range hsuccessors length g.nodeCount
  have hsuccessors := h.successorBlocks
  have hdropped := h.dropped
  rw [hcount, List.take_length] at hsuccessors hdropped
  rw [← hcount] at hsuccessors hdropped
  refine ⟨hsuccessors, rfl, hdropped, fun i b hb => ?_⟩
  obtain ⟨c, hc, -⟩ := h.bodies.symm_block hb
  have hi := (List.getElem?_eq_some_iff.mp hb).1
  obtain ⟨hfirst, hnumber⟩ := h.linked i (hcount ▸ hi) b c hb hc
  have hsplit : g.blocks.flatMap (g.successorsOf length) =
      (g.blocks.take i).flatMap (g.successorsOf length) ++ (g.successorsOf length b ++
        (g.blocks.drop (i+1)).flatMap (g.successorsOf length)) := by
    rw [← List.flatMap_cons, ← List.flatMap_append, ← (List.getElem?_eq_some_iff.mp hb).2,
      ← List.drop_eq_getElem_cons hi, List.take_append_drop]
  simp only [blockSuccessors, buildSuccessors, hc, hsuccessors, hfirst, hnumber, hsplit,
    List.drop_left, List.take_left]

end ControlFlowGraph

end DSigMatcher.Cfg
