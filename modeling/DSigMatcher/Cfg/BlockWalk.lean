import DSigMatcher.Cfg.Discovery

namespace DSigMatcher.Cfg
open DSigMatcher.Base DSigMatcher.Framework

variable {σ : Type*}

/-- Instructions one behind the other, from an offset to an offset. -/
def CfgRange.Follows (r : CfgRange σ) (slots : Nat → Option CfgDecodedSlot) :
    Nat → List CfgDecodedSlot → Nat → Prop
  | offset, [], last => offset = last
  | offset, slot::rest, last =>
    slots offset = some slot ∧ r.Follows slots (nextOffset r.length offset slot) rest last

/-- The end an instruction that stops gives its block. -/
def CfgDecodedSlot.blockEnd (slot : CfgDecodedSlot) : CfgBlockEnd :=
  match slot.role with
  | .invalid => .decodeError
  | .directBranch => .directBranch
  | .conditionalBranch => .conditionalBranch
  | .indirectBranch => .indirectBranch
  | .return => .return
  | .noReturn => .noReturn
  | .normal | .directCall | .indirectCall => .fallthrough

/-- The target a block gets of its last instruction. -/
def CfgDecodedSlot.targetOffset (slot : CfgDecodedSlot) (length : Nat) : Int :=
  match slot.branchTarget length with
  | none => cfgNoTarget
  | some target => target

/-- A block that goes on with `taken`. -/
structure CfgRange.Building (r : CfgRange σ) (start : Nat) (w : BlockWalk σ)
    (taken : List CfgDecodedSlot) : Prop where
  offset : w.block.offset = start
  count : w.block.instructionCount = taken.length
  follows : r.Follows w.scanner.slots start taken w.offset
  blockEnd : w.block.blockEnd = .fallthrough
  targetOffset : w.block.targetOffset = cfgNoTarget
  flowing : ∀ slot ∈ taken, slot.stops = false

/-- How a block ends behind its last instruction. -/
structure CfgRange.EndsWith (r : CfgRange σ) (w : BlockWalk σ) (slot : CfgDecodedSlot) : Prop where
  stopped : slot.stops = true → w.block.blockEnd = slot.blockEnd
  flowing : slot.stops = false →
    w.block.blockEnd = .fallthrough ∧ w.offset < r.length ∧ w.offset ∈ w.scanner.leaders ∨
    w.block.blockEnd = .rangeEnd ∧ (r.length ≤ w.offset ∨ w.scanner.slots w.offset = none)
  target : w.block.targetOffset = slot.targetOffset r.length

/-- A block that ends with `taken`. -/
structure CfgRange.Finished (r : CfgRange σ) (start : Nat) (w : BlockWalk σ)
    (taken : List CfgDecodedSlot) : Prop where
  offset : w.block.offset = start
  count : w.block.instructionCount = taken.length
  follows : r.Follows w.scanner.slots start taken w.offset
  flowing : ∀ slot ∈ taken.dropLast, slot.stops = false
  last : ∀ slot ∈ taken.getLast?, r.EndsWith w slot
  stuck : taken = [] → w.scanner.slots start = none

namespace CfgRange
variable {r : CfgRange σ}

theorem Follows.later {slots slots' : Nat → Option CfgDecodedSlot}
    (hslots : ∀ o slot, slots o = some slot → slots' o = some slot) {offset last : Nat}
    {taken : List CfgDecodedSlot} (h : r.Follows slots offset taken last) :
    r.Follows slots' offset taken last := by
  induction taken generalizing offset with
  | nil => exact h
  | cons slot taken ih => exact ⟨hslots offset slot h.1, ih h.2⟩

theorem follows_snoc {slots : Nat → Option CfgDecodedSlot} {offset last : Nat}
    {taken : List CfgDecodedSlot} {slot : CfgDecodedSlot} :
    r.Follows slots offset (taken ++ [slot]) last ↔ ∃ o, r.Follows slots offset taken o ∧
      slots o = some slot ∧ nextOffset r.length o slot = last := by
  induction taken generalizing offset with
  | nil =>
    constructor
    · rintro ⟨hslot, hlast⟩
      exact ⟨offset, rfl, hslot, hlast⟩
    · rintro ⟨o, rfl, hslot, hlast⟩
      exact ⟨hslot, hlast⟩
  | cons first taken ih =>
    constructor
    · rintro ⟨hfirst, hrest⟩
      obtain ⟨o, hfollows, hslot, hlast⟩ := ih.mp hrest
      exact ⟨o, ⟨hfirst, hfollows⟩, hslot, hlast⟩
    · rintro ⟨o, ⟨hfirst, hfollows⟩, hslot, hlast⟩
      exact ⟨hfirst, ih.mpr ⟨o, hfollows, hslot, hlast⟩⟩

/-- Instructions in the range go up. -/
theorem Follows.le {slots : Nat → Option CfgDecodedSlot} {offset last : Nat}
    {taken : List CfgDecodedSlot} (h : r.Follows slots offset taken last)
    (hoffset : offset ≤ r.length) : offset ≤ last ∧ last ≤ r.length := by
  induction taken generalizing offset with
  | nil => exact ⟨Nat.le_of_eq h, h ▸ hoffset⟩
  | cons slot taken ih =>
    have hle := ih h.2 (nextOffset_le r.length offset slot)
    refine ⟨Nat.le_trans ?_ hle.1, hle.2⟩
    rcases Nat.lt_or_eq_of_le hoffset with hlt | rfl
    · exact Nat.le_of_lt (lt_nextOffset slot hlt)
    · simp only [nextOffset]
      split_ifs <;> omega

theorem Follows.lt {slots : Nat → Option CfgDecodedSlot} {offset last : Nat}
    {taken : List CfgDecodedSlot} (h : r.Follows slots offset taken last)
    (hoffset : offset < r.length) (htaken : taken ≠ []) : offset < last := by
  cases taken with
  | nil => exact absurd rfl htaken
  | cons slot taken =>
    exact Nat.lt_of_lt_of_le (lt_nextOffset slot hoffset)
      (h.2.le (nextOffset_le r.length offset slot)).1

end CfgRange

theorem branchTarget_of_role {slot : CfgDecodedSlot} {length : Nat}
    (h : slot.role ≠ .directBranch ∧ slot.role ≠ .conditionalBranch) :
    slot.targetOffset length = cfgNoTarget := by
  rw [CfgDecodedSlot.targetOffset, CfgDecodedSlot.branchTarget, if_neg]
  rintro ⟨hdirect | hconditional, -⟩
  · exact h.1 hdirect
  · exact h.2 hconditional

theorem branchBlock_spec (length : Nat) (slot : CfgDecodedSlot) (block : CfgBlock)
    (out : ControlFlowGraph) (hblock : block.targetOffset = cfgNoTarget)
    (hrole : slot.role = .directBranch ∨ slot.role = .conditionalBranch) :
    (branchBlock length slot block out).1.offset = block.offset ∧
    (branchBlock length slot block out).1.instructionCount = block.instructionCount ∧
    (branchBlock length slot block out).1.blockEnd = block.blockEnd ∧
    (branchBlock length slot block out).1.targetOffset = slot.targetOffset length := by
  rw [branchBlock, CfgDecodedSlot.targetOffset, CfgDecodedSlot.branchTarget]
  by_cases hinside : targetInsideRange slot.relativeTarget length = true
  · rw [if_pos hinside, if_pos ⟨hrole, hinside⟩]
    exact ⟨rfl, rfl, rfl, (Int.toNat_of_nonneg (of_decide_eq_true hinside).2.1).symm⟩
  · rw [if_neg hinside, if_neg fun h => hinside h.2]
    exact ⟨rfl, rfl, rfl, hblock⟩

/-- What the last instruction is to its block. -/
theorem endBlock_spec (length : Nat) (slot : CfgDecodedSlot) (block : CfgBlock)
    (out : ControlFlowGraph) (hend : block.blockEnd = .fallthrough)
    (hblock : block.targetOffset = cfgNoTarget) :
    (endBlock length slot block out).2 = slot.stops ∧
    (endBlock length slot block out).1.1.offset = block.offset ∧
    (endBlock length slot block out).1.1.instructionCount = block.instructionCount ∧
    (endBlock length slot block out).1.1.blockEnd = slot.blockEnd ∧
    (endBlock length slot block out).1.1.targetOffset = slot.targetOffset length := by
  unfold endBlock CfgDecodedSlot.stops CfgDecodedSlot.blockEnd
  cases hrole : slot.role with
  | directBranch =>
    obtain ⟨hoffset, hcount, hends, htarget⟩ := branchBlock_spec length slot
      (block.endAs .directBranch) out hblock (Or.inl hrole)
    exact ⟨rfl, hoffset, hcount, hends, htarget⟩
  | conditionalBranch =>
    obtain ⟨hoffset, hcount, hends, htarget⟩ := branchBlock_spec length slot
      (block.endAs .conditionalBranch) out hblock (Or.inr hrole)
    exact ⟨rfl, hoffset, hcount, hends, htarget⟩
  | normal | directCall | indirectCall =>
    rw [branchTarget_of_role (by rw [hrole]; decide)]
    exact ⟨rfl, rfl, rfl, hend, hblock⟩
  | indirectBranch | «return» | noReturn | invalid =>
    rw [branchTarget_of_role (by rw [hrole]; decide)]
    exact ⟨rfl, rfl, rfl, rfl, hblock⟩

theorem blockEnd_of_flowing {slot : CfgDecodedSlot} (h : slot.stops = false) :
    slot.blockEnd = .fallthrough := by
  unfold CfgDecodedSlot.stops at h
  unfold CfgDecodedSlot.blockEnd
  cases hrole : slot.role with
  | normal | directCall | indirectCall => rfl
  | directBranch | conditionalBranch | indirectBranch | «return» | noReturn | invalid =>
    rw [hrole] at h
    cases h

namespace CfgRange
variable {r : CfgRange σ} {start : Nat} {w : BlockWalk σ} {taken : List CfgDecodedSlot}

/-- An instruction joins the block: it goes on, or it has ended. -/
theorem Building.takeInstruction {slot : CfgDecodedSlot} (h : r.Building start w taken)
    (hslot : w.scanner.slots w.offset = some slot) :
    ((r.takeInstruction slot w).2 = true →
      r.Building start (r.takeInstruction slot w).1 (taken ++ [slot]) ∧
      (r.takeInstruction slot w).1.offset = nextOffset r.length w.offset slot ∧
      nextOffset r.length w.offset slot < r.length) ∧
    ((r.takeInstruction slot w).2 = false →
      r.Finished start (r.takeInstruction slot w).1 (taken ++ [slot])) := by
  obtain ⟨hstops, hoffset, hcount, hends, htarget⟩ := endBlock_spec r.length slot
    { w.block with instructionCount := w.block.instructionCount+1 } w.scanner.out h.blockEnd
    h.targetOffset
  have hfollows : r.Follows w.scanner.slots start (taken ++ [slot])
      (nextOffset r.length w.offset slot) := follows_snoc.mpr ⟨w.offset, h.follows, hslot, rfl⟩
  have hnonempty : taken ++ [slot] = [] → w.scanner.slots start = none := by simp
  have hflowing : ∀ other ∈ (taken ++ [slot]).dropLast, other.stops = false := by
    rw [List.dropLast_concat]
    exact h.flowing
  have hcount' : w.block.instructionCount+1 = (taken ++ [slot]).length := by
    rw [h.count, List.length_append, List.length_singleton]
  simp only [CfgRange.takeInstruction]
  rw [hstops]
  split_ifs with hstop hrange
  · refine ⟨False.elim, fun _ => ⟨hoffset.trans h.offset, hcount.trans hcount', hfollows, hflowing, ?_,
      hnonempty⟩⟩
    intro last hlast
    rw [List.getLast?_concat, Option.mem_some_iff] at hlast
    subst hlast
    exact ⟨fun _ => hends, fun hflow => absurd hstop (by rw [hflow]; decide), htarget⟩
  · refine ⟨False.elim, fun _ => ⟨hoffset.trans h.offset, hcount.trans hcount', hfollows, hflowing, ?_,
      hnonempty⟩⟩
    intro last hlast
    rw [List.getLast?_concat, Option.mem_some_iff] at hlast
    subst hlast
    exact ⟨fun hstop' => absurd hstop' hstop, fun _ => Or.inr ⟨rfl, Or.inl hrange⟩, htarget⟩
  · have hflow : slot.stops = false := Bool.not_eq_true _ ▸ hstop
    have hplain : slot.role ≠ .directBranch ∧ slot.role ≠ .conditionalBranch := by
      rw [CfgDecodedSlot.stops] at hflow
      constructor <;> rintro hrole <;> simp [hrole] at hflow
    refine ⟨fun _ => ⟨⟨hoffset.trans h.offset, hcount.trans hcount', hfollows,
      hends.trans (blockEnd_of_flowing hflow), htarget.trans (branchTarget_of_role hplain), ?_⟩,
      rfl, Nat.lt_of_not_le hrange⟩, False.elim⟩
    intro other hother
    rcases List.mem_append.mp hother with hold | hnew
    · exact h.flowing other hold
    · rw [List.mem_singleton.mp hnew]
      exact hflow

/-- A block ends where it stands. -/
theorem Building.endAs (h : r.Building start w taken) (kind : CfgBlockEnd) {s : CfgScanner σ}
    (hs : w.scanner.Later s)
    (hkind : kind = .fallthrough ∧ w.offset < r.length ∧ w.offset ∈ s.leaders ∧ taken ≠ [] ∨
      kind = .rangeEnd ∧ s.slots w.offset = none) :
    r.Finished start ⟨w.block.endAs kind,w.offset,s⟩ taken := by
  refine ⟨h.offset, h.count, h.follows.later hs.slots,
    fun slot hslot => h.flowing slot ((List.dropLast_subset taken) hslot), ?_, ?_⟩
  · intro last hlast
    have hmem := List.mem_of_getLast? hlast
    refine ⟨fun hstop => ?_, fun _ => ?_, ?_⟩
    · rw [h.flowing last hmem] at hstop
      cases hstop
    · rcases hkind with ⟨rfl, hinside, hleader, -⟩ | ⟨rfl, hunknown⟩
      · exact Or.inl ⟨rfl, hinside, hleader⟩
      · exact Or.inr ⟨rfl, Or.inr hunknown⟩
    · have hflow := h.flowing last hmem
      refine h.targetOffset.trans (branchTarget_of_role ?_).symm
      rw [CfgDecodedSlot.stops] at hflow
      constructor <;> rintro hrole <;> simp [hrole] at hflow
  · rintro rfl
    rcases hkind with ⟨-, -, -, hne⟩ | ⟨-, hunknown⟩
    · exact absurd rfl hne
    · have hat : start = w.offset := h.follows
      rw [hat]
      exact hunknown

/-- One round of the loop over a block's instructions. -/
theorem Building.step (h : r.Building start w taken) (hoffset : w.offset < r.length) :
    ((r.blockStep start w).2 = true → ∃ taken', r.Building start (r.blockStep start w).1 taken' ∧
      w.offset < (r.blockStep start w).1.offset ∧ (r.blockStep start w).1.offset < r.length) ∧
    ((r.blockStep start w).2 = false → ∃ taken', r.Finished start (r.blockStep start w).1 taken') := by
  simp only [blockStep]
  split_ifs with hleader hhalted
  · refine ⟨False.elim, fun _ => ⟨taken, h.endAs .fallthrough (.refl _) (Or.inl ⟨rfl, hoffset,
      of_decide_eq_true hleader.2, ?_⟩)⟩⟩
    rintro rfl
    exact hleader.1 h.follows.symm
  · exact ⟨False.elim, fun _ => ⟨taken, h.endAs .rangeEnd (.refl _) (Or.inr ⟨rfl,
      Option.isNone_iff_eq_none.mp hhalted.1⟩)⟩⟩
  · have hlater := (r.ensureDecoded_runs w.offset w.scanner).later
    cases hslot : (r.ensureDecoded w.offset w.scanner).slots w.offset with
    | none => exact ⟨fun hgoes => Bool.noConfusion hgoes,
        fun _ => ⟨taken, h.endAs .rangeEnd hlater (Or.inr ⟨rfl, hslot⟩)⟩⟩
    | some slot =>
      have hbuilding : r.Building start ⟨w.block,w.offset,r.ensureDecoded w.offset w.scanner⟩ taken :=
        ⟨h.offset, h.count, h.follows.later hlater.slots, h.blockEnd, h.targetOffset, h.flowing⟩
      obtain ⟨hagain, hdone⟩ := hbuilding.takeInstruction hslot
      refine ⟨fun htrue => ?_, fun hfalse => ⟨_, hdone hfalse⟩⟩
      obtain ⟨hgoes, hnext, hrange⟩ := hagain htrue
      simp only [hnext]
      exact ⟨_, hgoes, lt_nextOffset slot hoffset, hrange⟩

/-- The loop ends with a finished block. -/
theorem Building.walkBlock (n : Nat) (hn : r.length-w.offset ≤ n) (hoffset : w.offset < r.length)
    (h : r.Building start w taken) : ∃ taken', r.Finished start (r.walkBlock start n w) taken' := by
  induction n generalizing w taken with
  | zero => omega
  | succ n ih =>
    obtain ⟨hagain, hdone⟩ := h.step hoffset
    rw [CfgRange.walkBlock, if_pos hoffset]
    rcases hround : r.blockStep start w with ⟨t, again⟩
    rw [hround] at hagain hdone
    cases again with
    | false => exact hdone rfl
    | true =>
      obtain ⟨taken', hgoes, hup, hinside⟩ := hagain rfl
      exact ih (by simp only at hup hinside ⊢; omega) hinside hgoes

end CfgRange

end DSigMatcher.Cfg
