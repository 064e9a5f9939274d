import DSigMatcher.Cfg.Blocks
import DSigMatcher.Cfg.Slots

namespace DSigMatcher.Cfg
open DSigMatcher.Base DSigMatcher.Framework

variable {σ : Type*}

/-- What a scanner does to its slots: offsets are requested, in any order, and other work is done
aside. -/
inductive CfgRange.Runs (r : CfgRange σ) (s : CfgScanner σ) : CfgScanner σ → Prop
  | refl : Runs r s s
  | request {t : CfgScanner σ} (offset : Nat) (h : Runs r s t) :
      Runs r s (r.decodeWindowAt offset t)
  | aside {t u : CfgScanner σ} (h : Runs r s t) (hu : t.Aside u) : Runs r s u

namespace CfgScanner

theorem countOverlap_aside (s : CfgScanner σ) : s.Aside s.countOverlap := s.out_aside _ rfl

theorem pushBlock_aside (s : CfgScanner σ) (block : CfgBlock) : s.Aside (s.pushBlock block) :=
  s.out_aside _ rfl

end CfgScanner

namespace CfgRange
variable (r : CfgRange σ)

theorem Runs.later {r : CfgRange σ} {s t : CfgScanner σ} (h : r.Runs s t) : s.Later t := by
  induction h with
  | refl => exact .refl s
  | request offset _ ih => exact ih.trans (r.decodeWindowAt_later offset _)
  | aside _ hu ih => exact ih.trans hu.later

/-- What every request keeps true of the slots is true of them behind every order of requests. -/
theorem Runs.slotsAre {r : CfgRange σ} {P : Nat → CfgDecodedSlot → Prop} {s t : CfgScanner σ}
    (h : r.Runs s t) (hs : s.SlotsAre P)
    (hrequest : ∀ offset u, u.SlotsAre P → (r.decodeWindowAt offset u).SlotsAre P) :
    t.SlotsAre P := by
  induction h with
  | refl => exact hs
  | request offset _ ih => exact hrequest offset _ ih
  | aside _ hu ih => exact fun o slot hslot => ih o slot (hu.slots ▸ hslot)

theorem Runs.trans {r : CfgRange σ} {s t u : CfgScanner σ} (h : r.Runs s t) (h' : r.Runs t u) :
    r.Runs s u := by
  induction h' with
  | refl => exact h
  | request offset _ ih => exact ih.request offset
  | aside _ hu ih => exact ih.aside hu

theorem ensureDecoded_runs (offset : Nat) (s : CfgScanner σ) :
    r.Runs s (r.ensureDecoded offset s) := by
  unfold ensureDecoded
  split_ifs
  · exact .request offset .refl
  · exact .refl

theorem walkSlot_aside (offset : Nat) (s : CfgScanner σ) : s.Aside (r.walkSlot offset s).1 := by
  simp only [walkSlot]
  split_ifs <;> exact s.markLeaders_aside _ _ _

theorem walkStep_runs (leader offset : Nat) (s : CfgScanner σ) :
    r.Runs s (r.walkStep leader offset s).1 := by
  unfold walkStep
  split_ifs
  · exact .refl
  · exact r.ensureDecoded_runs offset s
  · exact (r.ensureDecoded_runs offset s).aside (r.walkSlot_aside offset _)

theorem walk_runs (leader n offset : Nat) (s : CfgScanner σ) :
    r.Runs s (r.walk leader n offset s) := by
  induction n generalizing offset s with
  | zero => exact .refl
  | succ n ih =>
    have hstep := r.walkStep_runs leader offset s
    rw [walk]
    split_ifs with hinside
    · rcases hround : r.walkStep leader offset s with ⟨t, next⟩
      rw [hround] at hstep
      cases next with
      | none => exact hstep
      | some next => exact hstep.trans (ih next t)
    · exact .refl

theorem discoverLeaders_runs {s t : CfgScanner σ} (h : r.discoverLeaders s = some t) :
    r.Runs s t := by
  obtain ⟨c, hloop, rfl⟩ := Option.map_eq_some_iff.mp h
  refine loop_invariant r.discoverRound (fun c => r.Runs s c.2) ?_ _ _ _ hloop
    (Runs.refl.aside (s.addLeader_aside r.length 0))
  intro c d hround hc
  unfold discoverRound at hround
  split at hround
  · cases hround
  · split_ifs at hround
    obtain rfl := Option.some.inj hround
    exact hc.trans (r.walk_runs _ _ _ _)

theorem branchBlock_status (length : Nat) (slot : CfgDecodedSlot) (block : CfgBlock)
    (out : ControlFlowGraph) : (branchBlock length slot block out).2.status = out.status := by
  unfold branchBlock
  split_ifs <;> rfl

theorem endBlock_status (length : Nat) (slot : CfgDecodedSlot) (block : CfgBlock)
    (out : ControlFlowGraph) : (endBlock length slot block out).1.2.status = out.status := by
  unfold endBlock
  cases slot.role with
  | directBranch | conditionalBranch => exact branchBlock_status _ _ _ _
  | normal | indirectBranch | directCall | indirectCall | «return» | noReturn | invalid => rfl

theorem takeInstruction_aside (slot : CfgDecodedSlot) (w : BlockWalk σ) :
    w.scanner.Aside (r.takeInstruction slot w).1.scanner := by
  have hout := w.scanner.out_aside _ (endBlock_status r.length slot
    { w.block with instructionCount := w.block.instructionCount+1 } w.scanner.out)
  simp only [takeInstruction]
  split_ifs <;> exact hout

theorem blockStep_runs (start : Nat) (w : BlockWalk σ) :
    r.Runs w.scanner (r.blockStep start w).1.scanner := by
  simp only [blockStep]
  split_ifs
  · exact .refl
  · exact .refl
  · cases (r.ensureDecoded w.offset w.scanner).slots w.offset with
    | none => exact r.ensureDecoded_runs w.offset w.scanner
    | some slot =>
      exact (r.ensureDecoded_runs w.offset w.scanner).aside
        (r.takeInstruction_aside slot ⟨w.block,w.offset,_⟩)

theorem walkBlock_runs (start n : Nat) (w : BlockWalk σ) :
    r.Runs w.scanner (r.walkBlock start n w).scanner := by
  induction n generalizing w with
  | zero => exact .refl
  | succ n ih =>
    have hstep := r.blockStep_runs start w
    rw [walkBlock]
    split_ifs
    · rcases hround : r.blockStep start w with ⟨t, again⟩
      rw [hround] at hstep
      cases again with
      | false => exact hstep
      | true => exact hstep.trans (ih t)
    · exact .refl

theorem blockAt_runs (start : Nat) (s : CfgScanner σ) : r.Runs s (r.blockAt start s).2 :=
  r.walkBlock_runs start r.length ⟨{ offset := start },start,s⟩

theorem partition_runs (starts : List Nat) (coveredUntil : Nat) (s : CfgScanner σ) :
    r.Runs s (r.partition starts coveredUntil s) := by
  induction starts generalizing coveredUntil s with
  | nil => exact .refl
  | cons start starts ih =>
    simp only [partition]
    split_ifs
    · exact (Runs.refl.aside s.countOverlap_aside).trans (ih _ _)
    · exact Runs.refl.aside (s.fail_aside (by decide) _)
    · exact (r.blockAt_runs start s).trans (ih _ _)
    · exact ((r.blockAt_runs start s).aside (CfgScanner.pushBlock_aside _ _)).trans (ih _ _)

theorem checkEntry_status (g : ControlFlowGraph) :
    g.status ≠ .ok → (checkEntry g).status ≠ .ok := by
  intro hg
  unfold checkEntry
  split
  · split_ifs
    · rw [ControlFlowGraph.fail, if_neg hg]
      exact hg
    · exact hg
  · exact hg

theorem buildBlocks_runs (s : CfgScanner σ) : r.Runs s (r.buildBlocks s) := by
  refine (r.partition_runs (s.leaders.insertionSort (· ≤ ·)) 0 s).aside
    ⟨rfl, rfl, rfl, List.prefix_rfl, fun hs => ?_⟩
  rw [CfgScanner.halted, decide_eq_true_eq] at hs ⊢
  exact checkEntry_status _ hs

end CfgRange

end DSigMatcher.Cfg
