import DSigMatcher.Cfg.PartitionSound
import DSigMatcher.Cfg.Zydis

namespace DSigMatcher.Cfg
open DSigMatcher.Base DSigMatcher.Framework

variable {σ : Type*}

/-- Control goes on behind an instruction. -/
def CfgDecodedSlot.fallsThrough (slot : CfgDecodedSlot) : Bool :=
  slot.role = .conditionalBranch ∨ slot.stops = false

/-- A block's target and fall-through offset are those of its last instruction. -/
def CfgRange.EndsAsDecoded (r : CfgRange σ) (s : CfgScanner σ) (b : CfgBlock) : Prop :=
  ∃ taken last, r.Follows s.slots b.offset (taken ++ [last]) (b.offset+b.size) ∧
    b.branchTarget = last.branchTarget r.length ∧
    b.fallThrough = if last.fallsThrough then some (b.offset+b.size) else none

/-- A block's target starts no block. -/
def ControlFlowGraph.drops (g : ControlFlowGraph) (b : CfgBlock) : Bool :=
  b.branchTarget.any fun t => g.blocks.all fun c => c.offset ≠ t

/-- The edges of a graph are what its last instructions say. -/
structure CfgRange.EdgesExact (r : CfgRange σ) (s : CfgScanner σ) : Prop where
  decoded : ∀ b ∈ s.out.blocks, r.EndsAsDecoded s b
  successorsNodup : ∀ i, (s.out.blockSuccessors i).Nodup
  leads : ∀ i j, j ∈ s.out.blockSuccessors i ↔ ∃ b c, s.out.blocks[i]? = some b ∧
    s.out.blocks[j]? = some c ∧ (b.branchTarget = some c.offset ∨ b.fallThrough = some c.offset)
  goesOn : ∀ b ∈ s.out.blocks, ∀ t ∈ b.fallThrough, t < r.length → ∃ c ∈ s.out.blocks, c.offset = t
  target : ∀ b ∈ s.out.blocks, ∀ t ∈ b.branchTarget, t < r.length ∧ Accounted s.out.blocks t
  dropped : s.out.droppedSuccessorCount = s.out.blocks.countP s.out.drops
  transposed : ∀ i j, i ∈ s.out.blockPredecessors j ↔ j ∈ s.out.blockSuccessors i
  predecessorsNodup : ∀ j, (s.out.blockPredecessors j).Nodup
  nodeCount : s.out.nodeCount = s.out.blocks.length
  successorSum : s.out.edgeCount =
    ((List.range s.out.nodeCount).map fun i => (s.out.blockSuccessors i).length).sum
  predecessorSum : s.out.edgeCount =
    ((List.range s.out.nodeCount).map fun j => (s.out.blockPredecessors j).length).sum

namespace CfgRange
variable {r : CfgRange σ} {s : CfgScanner σ}

theorem targetOffset_ne {slot : CfgDecodedSlot} {length : Nat} {t : Nat}
    (h : slot.branchTarget length = some t) : slot.targetOffset length ≠ cfgNoTarget ∧
      (slot.targetOffset length).toNat = t := by
  rw [CfgDecodedSlot.targetOffset, h, cfgNoTarget]
  constructor
  · simp only
    omega
  · exact Int.toNat_natCast t

theorem branchTarget_lt {slot : CfgDecodedSlot} {length t : Nat}
    (h : slot.branchTarget length = some t) : t < length := by
  unfold CfgDecodedSlot.branchTarget targetInsideRange at h
  split_ifs at h with hbranch
  obtain ⟨-, hlow, hhigh⟩ := of_decide_eq_true hbranch.2
  rw [← Option.some.inj h]
  omega

theorem branchTarget_of_end {b : CfgBlock} {last : CfgDecodedSlot} {length : Nat}
    (hend : b.blockEnd = .directBranch ∨ b.blockEnd = .conditionalBranch)
    (htarget : b.targetOffset = last.targetOffset length) :
    b.branchTarget = last.branchTarget length := by
  rw [CfgBlock.branchTarget, htarget]
  cases hbranch : last.branchTarget length with
  | none =>
    have hnone : last.targetOffset length = cfgNoTarget := by rw [CfgDecodedSlot.targetOffset, hbranch]
    rw [if_neg fun h => h.2 hnone]
  | some t =>
    obtain ⟨hne, htoNat⟩ := targetOffset_ne hbranch
    rw [if_pos ⟨hend, hne⟩, htoNat]

/-- What the last instruction makes of a block's end. -/
theorem LastOk.ends {b : CfgBlock} {last : CfgDecodedSlot} (h : r.LastOk s b last) :
    b.branchTarget = last.branchTarget r.length ∧
    b.fallThrough = if last.fallsThrough then some (b.offset+b.size) else none := by
  have hplain (hrole : last.role ≠ .directBranch ∧ last.role ≠ .conditionalBranch)
      (hend : b.blockEnd ≠ .directBranch ∧ b.blockEnd ≠ .conditionalBranch) :
      b.branchTarget = last.branchTarget r.length := by
    rw [CfgBlock.branchTarget, if_neg fun hbranch => hbranch.1.elim hend.1 hend.2,
      CfgDecodedSlot.branchTarget, if_neg fun hbranch => hbranch.1.elim hrole.1 hrole.2]
  unfold CfgBlock.fallThrough CfgDecodedSlot.fallsThrough
  cases hrole : last.role with
  | directBranch =>
    have hstops : last.stops = true := by simp [CfgDecodedSlot.stops, hrole]
    have hend : b.blockEnd = .directBranch := by
      rw [h.stopped hstops, CfgDecodedSlot.blockEnd, hrole]
    refine ⟨branchTarget_of_end (Or.inl hend) h.target, ?_⟩
    simp [hend, hstops]
  | conditionalBranch =>
    have hstops : last.stops = true := by simp [CfgDecodedSlot.stops, hrole]
    have hend : b.blockEnd = .conditionalBranch := by
      rw [h.stopped hstops, CfgDecodedSlot.blockEnd, hrole]
    refine ⟨branchTarget_of_end (Or.inr hend) h.target, ?_⟩
    simp [hend]
  | indirectBranch | «return» | noReturn | invalid =>
    have hstops : last.stops = true := by simp [CfgDecodedSlot.stops, hrole]
    have hend := h.stopped hstops
    rw [CfgDecodedSlot.blockEnd, hrole] at hend
    refine ⟨hplain (by rw [hrole]; decide) (by rw [hend]; decide), ?_⟩
    simp [hend, hstops]
  | normal | directCall | indirectCall =>
    have hstops : last.stops = false := by simp [CfgDecodedSlot.stops, hrole]
    have hend : b.blockEnd = .fallthrough ∨ b.blockEnd = .rangeEnd :=
      (h.flowing hstops).imp And.left And.left
    refine ⟨hplain (by rw [hrole]; decide) ?_, ?_⟩
    · rcases hend with hend | hend <;> simp [hend]
    · simp [hend, hstops]

/-- In a graph without a failure, a target is a leader, and so is a fall-through offset in the
range. -/
theorem LastOk.leader {b : CfgBlock} {last : CfgDecodedSlot} (h : r.LastOk s b last)
    (hhalted : s.halted = false) :
    (∀ t ∈ b.branchTarget, t ∈ s.leaders) ∧
    ∀ t ∈ b.fallThrough, t < r.length → t ∈ s.leaders := by
  obtain ⟨htarget, hfall⟩ := h.ends
  refine ⟨htarget ▸ h.marked hhalted, fun t ht hinside => ?_⟩
  rw [hfall] at ht
  split_ifs at ht with hfalls
  · obtain rfl := Option.some.inj ht
    rcases of_decide_eq_true hfalls with hrole | hflow
    · exact h.conditional hhalted hrole hinside
    · rcases h.flowing hflow with hcut | hrange
      · exact hcut.2.2
      · exact absurd hinside (Nat.not_lt.mpr (hrange.2 hhalted))
  · cases ht

theorem IsPartition.sorted (h : r.IsPartition s) :
    s.out.blocks.Pairwise fun b c => b.offset < c.offset := by
  refine h.disjoint.imp_of_mem fun {b c} hb _ hends => ?_
  obtain ⟨hstart, taken, last, hfollows, -, -⟩ := h.blocks b hb
  have hlt := hfollows.lt hstart (by simp)
  omega

/-- The end of a block, where it is a leader, starts a block. -/
theorem IsPartition.behind (h : r.IsPartition s) (hok : s.out.status = .ok) {b : CfgBlock}
    (hb : b ∈ s.out.blocks) (hleader : b.offset+b.size ∈ s.leaders) :
    ∃ c ∈ s.out.blocks, c.offset = b.offset+b.size := by
  rcases h.accounted hok _ hleader with hstart | ⟨c, hc, hlow, hhigh⟩
  · exact hstart
  · have hne : b ≠ c := by
      rintro rfl
      omega
    have hsymm : Std.Symm fun b c : CfgBlock =>
        b.offset+b.size ≤ c.offset ∨ c.offset+c.size ≤ b.offset := ⟨fun _ _ hor => hor.symm⟩
    have hpairs : s.out.blocks.Pairwise fun b c : CfgBlock =>
        b.offset+b.size ≤ c.offset ∨ c.offset+c.size ≤ b.offset := h.disjoint.imp Or.inl
    have hapart := hpairs.forall hb hc hne
    omega

/-- Every block ends as its last instruction does. -/
theorem IsPartition.endsAsDecoded (h : r.IsPartition s) : ∀ b ∈ s.out.blocks, r.EndsAsDecoded s b := by
  intro b hb
  obtain ⟨-, taken, last, hfollows, -, hlast⟩ := h.blocks b hb
  exact ⟨taken, last, hfollows, hlast.ends⟩

/-- The edges of a run without a failure are built on its blocks. -/
theorem run_edges {st : σ} (h : r.run st = some s) (hok : s.out.status = .ok) :
    ∃ g : ControlFlowGraph, g.SameBodies s.out ∧ g.nodeCount = g.blocks.length ∧
      g.successorBlocks = [] ∧ g.droppedSuccessorCount = 0 ∧
      s.out = (g.buildSuccessors r.length).buildPredecessors := by
  obtain ⟨t, ht, rfl⟩ := Option.map_eq_some_iff.mp h
  have hbodies := ((r.buildBlocks t).out.buildSuccessors_bodies r.length).trans
    (ControlFlowGraph.buildPredecessors_bodies _)
  simp only at hok ⊢
  split_ifs at hok ⊢ with hentry
  · rw [hentry] at hok
    cases hok
  · obtain ⟨hcount, hsuccessors, hdropped⟩ := buildBlocks_edges ht (hbodies.status ▸ hok)
    exact ⟨(r.buildBlocks t).out, hbodies, hcount, hsuccessors, hdropped, rfl⟩

end CfgRange

namespace ControlFlowGraph
variable {g : ControlFlowGraph} {length : Nat}

theorem mem_successorsOf (hsorted : g.blocks.Pairwise fun b c => b.offset < c.offset)
    (hinside : ∀ c ∈ g.blocks, c.offset < length) (b : CfgBlock) (j : Nat) :
    j ∈ g.successorsOf length b ↔ ∃ c, g.blocks[j]? = some c ∧
      (b.branchTarget = some c.offset ∨ b.fallThrough = some c.offset) := by
  have hresolved (offset : Option Nat) : some j = g.resolved length offset ↔
      ∃ c, g.blocks[j]? = some c ∧ offset = some c.offset := by
    cases offset with
    | none => simp [resolved]
    | some t =>
      rw [resolved, Option.bind_some]
      split_ifs with ht
      · rw [eq_comm, blockAtOffset_eq_some hsorted]
        simp only [Option.some.injEq, eq_comm]
      · constructor
        · intro hnone
          cases hnone
        · rintro ⟨c, hc, hat⟩
          exact absurd (hinside c (List.mem_of_getElem? hc)) (Option.some.inj hat ▸ ht)
  rw [successorsOf, (takeCandidates_spec _).2, List.mem_cons, List.mem_singleton, hresolved,
    hresolved]
  simp only [and_or_left, exists_or]

theorem blockAtOffset_eq_none (hsorted : g.blocks.Pairwise fun b c => b.offset < c.offset)
    {offset : Nat} : g.blockAtOffset offset = none ↔ ∀ c ∈ g.blocks, c.offset ≠ offset := by
  rw [Option.eq_none_iff_forall_not_mem]
  constructor
  · rintro hnone c hc rfl
    obtain ⟨j, hj⟩ := List.mem_iff_getElem?.mp hc
    exact hnone j ((blockAtOffset_eq_some hsorted).mpr ⟨c, hj, rfl⟩)
  · intro hall j hj
    obtain ⟨c, hc, hat⟩ := (blockAtOffset_eq_some hsorted).mp hj
    exact hall c (List.mem_of_getElem? hc) hat

/-- A block whose fall-through offset starts a block misses its target only. -/
theorem missedBy_eq (hsorted : g.blocks.Pairwise fun b c => b.offset < c.offset) {b : CfgBlock}
    (htarget : ∀ t ∈ b.branchTarget, t < length)
    (hgoesOn : ∀ t ∈ b.fallThrough, t < length → ∃ c ∈ g.blocks, c.offset = t) :
    g.missedBy length b = if g.drops b then 1 else 0 := by
  have hfall : g.missed length b.fallThrough = 0 := by
    cases hb : b.fallThrough with
    | none => rfl
    | some t =>
      refine if_neg fun hmissed => ?_
      obtain ⟨c, hc, hat⟩ := hgoesOn t hb hmissed.1
      exact (blockAtOffset_eq_none hsorted).mp hmissed.2 c hc hat
  rw [missedBy, hfall, Nat.add_zero, drops]
  cases hb : b.branchTarget with
  | none => rfl
  | some t =>
    simp only [missed, htarget t hb, blockAtOffset_eq_none hsorted, true_and, Option.any_some,
      List.all_eq_true, decide_eq_true_eq]

/-- Graphs with the same blocks miss the same offsets. -/
theorem SameBodies.missed_sum {g h : ControlFlowGraph} (hgh : g.SameBodies h) :
    (g.blocks.map (g.missedBy length)).sum = (h.blocks.map (h.missedBy length)).sum := by
  have hbody (k : ControlFlowGraph) : k.missedBy length = k.missedBy length ∘ CfgBlock.body :=
    funext fun b => (successorsOf_congr (SameBodies.refl k) length (b := b.body) rfl).2
  have hsame : h.missedBy length = g.missedBy length :=
    funext fun b => (successorsOf_congr hgh length rfl).2
  rw [hsame, hbody g, ← List.map_map, ← List.map_map, hgh.blocks]

theorem sum_map_ite {α : Type*} (l : List α) (f : α → Nat) (p : α → Bool)
    (h : ∀ a ∈ l, f a = if p a then 1 else 0) : (l.map f).sum = l.countP p := by
  induction l with
  | nil => rfl
  | cons a l ih =>
    rw [List.forall_mem_cons] at h
    rw [List.map_cons, List.sum_cons, ih h.2, h.1, List.countP_cons, Nat.add_comm]

theorem flatMap_range {α β : Type*} (l : List α) (f : α → List β) (k : Nat → List β)
    (h : ∀ i a, l[i]? = some a → k i = f a) : l.flatMap f = (List.range l.length).flatMap k := by
  rw [List.flatMap_def, List.flatMap_def]
  refine congrArg List.flatten (List.ext_getElem? fun i => ?_)
  rw [List.getElem?_map, List.getElem?_map]
  by_cases hi : i < l.length
  · rw [List.getElem?_range hi, List.getElem?_eq_getElem hi, Option.map_some, Option.map_some,
      h i _ (List.getElem?_eq_getElem hi)]
  · rw [List.getElem?_eq_none (Nat.le_of_not_lt hi),
      List.getElem?_eq_none (by rw [List.length_range]; omega)]
    rfl

/-- The successors that were built are stored block after block. -/
theorem buildSuccessors_stored (hsorted : g.blocks.Pairwise fun b c => b.offset < c.offset)
    (hinside : ∀ c ∈ g.blocks, c.offset < length) (hcount : g.nodeCount = g.blocks.length)
    (hsuccessors : g.successorBlocks = []) : (g.buildSuccessors length).Stored := by
  obtain ⟨hstored, -, -, hblock⟩ := g.buildSuccessors_spec length hcount hsuccessors
  have hbodies := g.buildSuccessors_bodies length
  have hnode : (g.buildSuccessors length).nodeCount = g.blocks.length :=
    hbodies.nodeCount.trans hcount
  have hnone (i : Nat) (hi : g.blocks.length ≤ i) :
      (g.buildSuccessors length).blockSuccessors i = [] := by
    rw [blockSuccessors, List.getElem?_eq_none (hbodies.length ▸ hi)]
  refine ⟨hnode.trans hbodies.length.symm, ?_, ?_, ?_⟩
  · rw [hstored, hnode]
    exact flatMap_range g.blocks _ _ hblock
  · intro i j hj
    by_cases hi : i < g.blocks.length
    · rw [hblock i _ (List.getElem?_eq_getElem hi), mem_successorsOf hsorted hinside] at hj
      obtain ⟨c, hc, -⟩ := hj
      exact hnode ▸ (List.getElem?_eq_some_iff.mp hc).1
    · rw [hnone i (Nat.le_of_not_lt hi)] at hj
      cases hj
  · intro i
    by_cases hi : i < g.blocks.length
    · rw [hblock i _ (List.getElem?_eq_getElem hi)]
      exact (takeCandidates_spec _).1
    · rw [hnone i (Nat.le_of_not_lt hi)]
      exact List.nodup_nil

end ControlFlowGraph

namespace CfgRange
variable {r : CfgRange σ} {s : CfgScanner σ}

/-- Edges and predecessors are exact. -/
theorem run_edgesExact {st : σ} (h : r.run st = some s) (hok : s.out.status = .ok) :
    r.EdgesExact s := by
  have hpartition := run_isPartition h
  have hhalted : s.halted = false := by
    rw [CfgScanner.halted, hok]
    rfl
  have hsorted := hpartition.sorted
  have hinside : ∀ c ∈ s.out.blocks, c.offset < r.length := fun c hc => (hpartition.blocks c hc).1
  have hleader : ∀ b ∈ s.out.blocks, (∀ t ∈ b.branchTarget, t ∈ s.leaders) ∧
      ∀ t ∈ b.fallThrough, t < r.length → t ∈ s.leaders := by
    intro b hb
    obtain ⟨-, taken, last, -, -, hlast⟩ := hpartition.blocks b hb
    exact hlast.leader hhalted
  have hgoesOn : ∀ b ∈ s.out.blocks, ∀ t ∈ b.fallThrough, t < r.length →
      ∃ c ∈ s.out.blocks, c.offset = t := by
    intro b hb t ht hrange
    have hmem := (hleader b hb).2 t ht hrange
    unfold CfgBlock.fallThrough at ht
    split_ifs at ht
    · obtain rfl := Option.some.inj ht
      exact hpartition.behind hok hb hmem
    · cases ht
  obtain ⟨g, hbodies, hcount, hsuccessors, hdropped, hout⟩ := run_edges h hok
  have hstored := ControlFlowGraph.buildSuccessors_stored
    (pairwise_of_bodies (fun b c => Iff.rfl) hbodies.blocks.symm hsorted)
    (forall_of_bodies (P := fun c => c.offset < r.length) (fun b => Iff.rfl) hbodies.blocks.symm hinside)
    hcount hsuccessors
  obtain ⟨-, hedges, hmissed, hblock⟩ := g.buildSuccessors_spec r.length hcount hsuccessors
  obtain ⟨hsame, hpredecessors⟩ := (g.buildSuccessors r.length).buildPredecessors_spec hstored
  have hsum := (g.buildSuccessors r.length).predecessors_sum hstored
  have hnodes := hstored.nodeCount
  have hflat := congrArg List.length hstored.stored
  have hedgeCount : s.out.edgeCount = (g.buildSuccessors r.length).successorBlocks.length := by
    rw [hout]
    exact hedges
  have hnodeCount : s.out.nodeCount = (g.buildSuccessors r.length).nodeCount := by
    rw [hout]
    rfl
  have hdroppedCount : s.out.droppedSuccessorCount = ((g.blocks.map (g.missedBy r.length)).sum) := by
    rw [hout, ← Nat.zero_add (List.sum _), ← hdropped]
    exact hmissed
  have hlength : s.out.blocks.length = (g.buildSuccessors r.length).blocks.length := by
    rw [hbodies.length, (g.buildSuccessors_bodies r.length).length]
  rw [← hout] at hsame hpredecessors
  rw [← hnodeCount] at hpredecessors hsum hnodes hflat
  rw [← hlength] at hnodes
  simp only [← hsame] at hpredecessors hsum hflat
  have hnone (j : Nat) (hj : ¬ j < s.out.nodeCount) : s.out.blocks[j]? = none :=
    List.getElem?_eq_none (hnodes ▸ Nat.le_of_not_lt hj)
  have hleads : ∀ i j, j ∈ s.out.blockSuccessors i ↔ ∃ b c, s.out.blocks[i]? = some b ∧
      s.out.blocks[j]? = some c ∧
        (b.branchTarget = some c.offset ∨ b.fallThrough = some c.offset) := by
    intro i j
    cases hb : s.out.blocks[i]? with
    | none => simp [ControlFlowGraph.blockSuccessors, hb]
    | some b =>
      obtain ⟨b₀, hb₀, hbody⟩ := hbodies.block hb
      rw [hsame, hblock i b₀ hb₀, ← (ControlFlowGraph.successorsOf_congr hbodies _ hbody).1,
        ControlFlowGraph.mem_successorsOf hsorted hinside]
      simp
  have hpred (j : Nat) : s.out.blockPredecessors j =
      (List.range s.out.nodeCount).filter fun i => j ∈ s.out.blockSuccessors i := by
    by_cases hj : j < s.out.nodeCount
    · exact hpredecessors j hj
    · rw [ControlFlowGraph.blockPredecessors, hnone j hj, eq_comm, List.filter_eq_nil_iff]
      intro i _ hmem
      obtain ⟨b, c, -, hc, -⟩ := (hleads i j).mp (of_decide_eq_true hmem)
      rw [hnone j hj] at hc
      cases hc
  refine ⟨hpartition.endsAsDecoded, ?_, hleads, hgoesOn, ?_, ?_, ?_,
    ?_, hnodes, ?_, ?_⟩
  · intro i
    rw [hsame]
    exact hstored.nodup i
  · intro b hb t ht
    obtain ⟨taken, last, -, htarget, -⟩ := hpartition.endsAsDecoded b hb
    exact ⟨branchTarget_lt (htarget ▸ ht), hpartition.accounted hok t ((hleader b hb).1 t ht)⟩
  · rw [hdroppedCount, hbodies.missed_sum]
    refine ControlFlowGraph.sum_map_ite _ _ _ fun b hb => ?_
    obtain ⟨taken, last, -, htarget, -⟩ := hpartition.endsAsDecoded b hb
    refine ControlFlowGraph.missedBy_eq hsorted (fun t ht => branchTarget_lt (htarget ▸ ht)) ?_
    exact hgoesOn b hb
  · intro i j
    rw [hpred, List.mem_filter, List.mem_range, decide_eq_true_eq, and_iff_right_iff_imp]
    intro hmem
    obtain ⟨b, c, hb, -, -⟩ := (hleads i j).mp hmem
    by_contra hi
    rw [hnone i hi] at hb
    cases hb
  · intro j
    rw [hpred]
    exact List.nodup_range.filter _
  · simp only [hsame]
    rw [hedgeCount, hflat, List.length_flatMap]
  · simp only [hpred]
    rw [hedgeCount, hsum]

theorem run_edgesExact_jump :
    ∃ s, (zydisRange shortJumps shortJumpNames [0x74, 0x01, 0xEB, 0x90, 0x90] 0).run () = some s ∧
      s.out.status = .ok ∧
      (zydisRange shortJumps shortJumpNames [0x74, 0x01, 0xEB, 0x90, 0x90] 0).EdgesExact s := by
  have hok : ((zydisRange shortJumps shortJumpNames [0x74, 0x01, 0xEB, 0x90, 0x90] 0).run ()).any
      (·.out.status = .ok) := rfl
  obtain ⟨s, hs, hstatus⟩ := (Option.any_eq_true _ _).mp hok
  rw [decide_eq_true_eq] at hstatus
  exact ⟨s, hs, hstatus, run_edgesExact hs hstatus⟩

/-- A jump into its own last byte is dropped, and no other block is there. -/
theorem run_dropsOwn :
    ∃ s, (zydisRange shortJumps shortJumpNames [0xEB, 0xFF] 0).run () = some s ∧
      s.out.status = .ok ∧ s.out.droppedSuccessorCount = 1 ∧
      ∃ b ∈ s.out.blocks, s.out.drops b ∧ ¬ ∃ c ∈ s.out.blocks, c.offset ≠ b.offset ∧
        ∃ t ∈ b.branchTarget, c.offset < t ∧ t < c.offset+c.size := by
  have hrun : ((zydisRange shortJumps shortJumpNames [0xEB, 0xFF] 0).run ()).any fun s =>
      s.out.status = .ok ∧ s.out.droppedSuccessorCount = 1 ∧
        s.out.blocks.any (fun b => s.out.drops b) ∧ s.out.blocks.map (·.offset) = [0] := rfl
  obtain ⟨s, hs, hout⟩ := (Option.any_eq_true _ _).mp hrun
  rw [decide_eq_true_eq] at hout
  obtain ⟨hstatus, hdropped, hdrops, hblocks⟩ := hout
  obtain ⟨b, hb, hdrops⟩ := List.any_eq_true.mp hdrops
  have honly : ∀ c ∈ s.out.blocks, c.offset = 0 := fun c hc =>
    List.mem_singleton.mp (hblocks ▸ List.mem_map_of_mem (f := (·.offset)) hc)
  refine ⟨s, hs, hstatus, hdropped, b, hb, hdrops, ?_⟩
  rintro ⟨c, hc, hother, -⟩
  exact hother ((honly c hc).trans (honly b hb).symm)

end CfgRange

end DSigMatcher.Cfg
