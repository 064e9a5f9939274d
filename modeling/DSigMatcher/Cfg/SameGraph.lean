import DSigMatcher.Cfg.Blocks
import DSigMatcher.Cfg.Slots

namespace DSigMatcher.Cfg
open DSigMatcher.Base DSigMatcher.Framework

variable {σ : Type*}

/-- What decoding and counting leave of a graph. -/
structure ControlFlowGraph.Same (g h : ControlFlowGraph) : Prop where
  blocks : h.blocks = g.blocks
  overlappingLeaderCount : h.overlappingLeaderCount = g.overlappingLeaderCount
  successorBlocks : h.successorBlocks = g.successorBlocks
  droppedSuccessorCount : h.droppedSuccessorCount = g.droppedSuccessorCount
  entry : g.status ≠ .entryUndecodable → h.status ≠ .entryUndecodable

namespace ControlFlowGraph

theorem Same.refl (g : ControlFlowGraph) : g.Same g := ⟨rfl, rfl, rfl, rfl, id⟩

theorem Same.trans {g h k : ControlFlowGraph} (hgh : g.Same h) (hhk : h.Same k) : g.Same k :=
  ⟨hhk.blocks.trans hgh.blocks, hhk.overlappingLeaderCount.trans hgh.overlappingLeaderCount,
    hhk.successorBlocks.trans hgh.successorBlocks,
    hhk.droppedSuccessorCount.trans hgh.droppedSuccessorCount, fun hg => hhk.entry (hgh.entry hg)⟩

theorem fail_same (g : ControlFlowGraph) {status : CfgStatus} (hstatus : status ≠ .entryUndecodable)
    (message : String) : g.Same (g.fail status message) := by
  unfold fail
  split_ifs
  · exact ⟨rfl, rfl, rfl, rfl, fun _ => hstatus⟩
  · exact .refl g

end ControlFlowGraph

theorem branchBlock_same (length : Nat) (slot : CfgDecodedSlot) (block : CfgBlock)
    (out : ControlFlowGraph) : out.Same (branchBlock length slot block out).2 := by
  unfold branchBlock
  split_ifs
  · exact .refl out
  · exact ⟨rfl, rfl, rfl, rfl, id⟩

theorem endBlock_same (length : Nat) (slot : CfgDecodedSlot) (block : CfgBlock)
    (out : ControlFlowGraph) : out.Same (endBlock length slot block out).1.2 := by
  unfold endBlock
  cases slot.role with
  | directBranch | conditionalBranch => exact branchBlock_same _ _ _ _
  | normal | indirectBranch | directCall | indirectCall | «return» | noReturn | invalid =>
    exact ⟨rfl, rfl, rfl, rfl, id⟩

theorem CfgScanner.addLeader_same (s : CfgScanner σ) (length offset : Nat) :
    s.out.Same (s.addLeader length offset).out := by
  unfold addLeader
  split_ifs
  · exact .refl _
  · exact s.out.fail_same (by decide) _
  · exact .refl _

theorem CfgScanner.markLeaders_same (s : CfgScanner σ) (length : Nat) (slot : CfgDecodedSlot)
    (next : Nat) : s.out.Same (s.markLeaders length slot next).1.out := by
  have hbranch : s.out.Same (s.addBranchLeader length slot).out := by
    unfold addBranchLeader
    split_ifs
    · exact s.addLeader_same length _
    · exact .refl _
  unfold markLeaders
  cases slot.role with
  | directBranch => exact hbranch
  | conditionalBranch => exact hbranch.trans (addLeader_same _ length next)
  | normal | indirectBranch | directCall | indirectCall | «return» | noReturn | invalid =>
    exact .refl _

namespace CfgRange
variable (r : CfgRange σ)

theorem decodeSlots_same (offset : Nat) (infos : List InstructionInfo) (s : CfgScanner σ) :
    s.out.Same (r.decodeSlots offset infos s).out := by
  induction infos generalizing s with
  | nil => exact .refl _
  | cons info infos ih =>
    simp only [decodeSlots]
    split_ifs
    · exact .refl _
    · exact ih s
    · exact s.out.fail_same (by decide) _
    · exact ih (s.remember _ _)

theorem ensureDecoded_same (offset : Nat) (s : CfgScanner σ) :
    s.out.Same (r.ensureDecoded offset s).out := by
  have hwindow : s.out.Same (r.readWindow offset s).out :=
    r.decodeSlots_same offset _ { s with backend := (r.decodeRange offset s.backend).1 }
  unfold ensureDecoded decodeWindowAt
  split_ifs
  · exact .refl _
  · exact hwindow
  · exact hwindow.trans (ControlFlowGraph.fail_same _ (by decide) _)
  · exact hwindow
  · exact .refl _

theorem walkStep_same (leader offset : Nat) (s : CfgScanner σ) :
    s.out.Same (r.walkStep leader offset s).1.out := by
  unfold walkStep
  split_ifs
  · exact .refl _
  · exact r.ensureDecoded_same offset s
  · refine (r.ensureDecoded_same offset s).trans ?_
    simp only [walkSlot]
    split_ifs <;> exact CfgScanner.markLeaders_same _ _ _ _

theorem walk_same (leader n offset : Nat) (s : CfgScanner σ) :
    s.out.Same (r.walk leader n offset s).out := by
  induction n generalizing offset s with
  | zero => exact .refl _
  | succ n ih =>
    have hstep := r.walkStep_same leader offset s
    rw [walk]
    split_ifs
    · rcases hround : r.walkStep leader offset s with ⟨t, next⟩
      rw [hround] at hstep
      cases next with
      | none => exact hstep
      | some next => exact hstep.trans (ih next t)
    · exact .refl _

theorem discoverLeaders_same {s t : CfgScanner σ} (h : r.discoverLeaders s = some t) :
    s.out.Same t.out := by
  obtain ⟨c, hloop, rfl⟩ := Option.map_eq_some_iff.mp h
  refine loop_invariant r.discoverRound (fun c => s.out.Same c.2.out) ?_ _ _ _ hloop
    (s.addLeader_same r.length 0)
  intro c d hround hc
  unfold discoverRound at hround
  split at hround
  · cases hround
  · split_ifs at hround
    obtain rfl := Option.some.inj hround
    exact hc.trans (r.walk_same _ _ _ _)

/-- Building a block touches neither a leader nor a block. -/
structure Apart (s t : CfgScanner σ) : Prop where
  leaders : t.leaders = s.leaders
  graph : s.out.Same t.out

theorem Apart.trans {s t u : CfgScanner σ} (h : Apart s t) (h' : Apart t u) : Apart s u :=
  ⟨h'.leaders.trans h.leaders, h.graph.trans h'.graph⟩

theorem ensureDecoded_apart (offset : Nat) (s : CfgScanner σ) :
    Apart s (r.ensureDecoded offset s) := by
  refine ⟨?_, r.ensureDecoded_same offset s⟩
  unfold ensureDecoded
  split_ifs
  · exact r.decodeWindowAt_leaders offset s
  · rfl

theorem blockStep_apart (start : Nat) (w : BlockWalk σ) :
    Apart w.scanner (r.blockStep start w).1.scanner := by
  simp only [blockStep]
  split_ifs
  · exact ⟨rfl, .refl _⟩
  · exact ⟨rfl, .refl _⟩
  · cases (r.ensureDecoded w.offset w.scanner).slots w.offset with
    | none => exact r.ensureDecoded_apart w.offset w.scanner
    | some slot =>
      refine (r.ensureDecoded_apart w.offset w.scanner).trans ?_
      have hsame := endBlock_same r.length slot
        { w.block with instructionCount := w.block.instructionCount+1 }
        (r.ensureDecoded w.offset w.scanner).out
      simp only [takeInstruction]
      split_ifs <;> exact ⟨rfl, hsame⟩

theorem blockAt_apart (start : Nat) (s : CfgScanner σ) : Apart s (r.blockAt start s).2 := by
  have hwalk (n : Nat) (w : BlockWalk σ) : Apart w.scanner (r.walkBlock start n w).scanner := by
    induction n generalizing w with
    | zero => exact ⟨rfl, .refl _⟩
    | succ n ih =>
      have hstep := r.blockStep_apart start w
      rw [walkBlock]
      split_ifs
      · rcases hround : r.blockStep start w with ⟨t, again⟩
        rw [hround] at hstep
        cases again with
        | false => exact hstep
        | true => exact hstep.trans (ih t)
      · exact ⟨rfl, .refl _⟩
  exact hwalk r.length ⟨{ offset := start },start,s⟩

end CfgRange

end DSigMatcher.Cfg
