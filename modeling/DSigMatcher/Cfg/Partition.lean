import DSigMatcher.Cfg.BlockWalk
import DSigMatcher.Cfg.SameGraph

namespace DSigMatcher.Cfg
open DSigMatcher.Base DSigMatcher.Framework

variable {σ : Type*}

/-- A scan that has not failed has explored what its leaders lead to. -/
def CfgRange.Discovered (r : CfgRange σ) (s : CfgScanner σ) : Prop :=
  s.halted = false → ∃ V, r.Explored s V none ∧ ∀ leader ∈ s.leaders, leader ∈ V

/-- A leader starts a block or lies strictly inside one. -/
def Accounted (blocks : List CfgBlock) (leader : Nat) : Prop :=
  (∃ b ∈ blocks, b.offset = leader) ∨
    ∃ b ∈ blocks, b.offset < leader ∧ leader < b.offset+b.size

/-- The last instruction of a block, and what the block has of it. -/
structure CfgRange.LastOk (r : CfgRange σ) (s : CfgScanner σ) (b : CfgBlock)
    (last : CfgDecodedSlot) : Prop where
  stopped : last.stops = true → b.blockEnd = last.blockEnd
  flowing : last.stops = false →
    b.blockEnd = .fallthrough ∧ b.offset+b.size < r.length ∧ b.offset+b.size ∈ s.leaders ∨
    b.blockEnd = .rangeEnd ∧ (s.halted = false → r.length ≤ b.offset+b.size)
  target : b.targetOffset = last.targetOffset r.length
  marked : s.halted = false → ∀ t ∈ last.branchTarget r.length, t ∈ s.leaders
  conditional : s.halted = false → last.role = .conditionalBranch →
    b.offset+b.size < r.length → b.offset+b.size ∈ s.leaders

/-- A block is a sequence of known instructions. -/
def CfgRange.BlockOk (r : CfgRange σ) (s : CfgScanner σ) (b : CfgBlock) : Prop :=
  b.offset < r.length ∧ ∃ taken last, r.Follows s.slots b.offset (taken ++ [last]) (b.offset+b.size) ∧
    b.instructionCount = taken.length+1 ∧ r.LastOk s b last

/-- The blocks of the leaders so far, which end at `coveredUntil`. -/
structure CfgRange.Partitioned (r : CfgRange σ) (s : CfgScanner σ) (coveredUntil : Nat)
    (done : List Nat) : Prop where
  discovered : r.Discovered s
  slotsInside : s.SlotsAre fun o _ => o < r.length
  blocks : ∀ b ∈ s.out.blocks, r.BlockOk s b
  disjoint : s.out.blocks.Pairwise fun b c => b.offset+b.size ≤ c.offset
  covered : ∀ b ∈ s.out.blocks, b.offset+b.size ≤ coveredUntil
  started : ∀ b ∈ s.out.blocks, b.offset ∈ done
  last : coveredUntil = 0 ∨ ∃ b ∈ s.out.blocks, b.offset+b.size = coveredUntil
  accounted : s.halted = false → ∀ leader ∈ done, Accounted s.out.blocks leader
  overlapping : s.halted = false → s.out.overlappingLeaderCount =
    done.countP fun leader => decide (∀ b ∈ s.out.blocks, b.offset ≠ leader)

namespace CfgRange
variable {r : CfgRange σ} {s t : CfgScanner σ} {V : Set Nat}

theorem Runs.slotsInside (h : r.Runs s t) (hs : s.SlotsAre fun o _ => o < r.length) :
    t.SlotsAre fun o _ => o < r.length :=
  h.slotsAre hs fun offset u hu =>
    r.decodeWindowAt_slotsAre offset u hu (fun _ _ _ hinside _ => hinside) fun hinside _ _ => hinside

theorem Discovered.later (h : r.Discovered s) (hlater : s.Later t) (hleaders : t.leaders = s.leaders) :
    r.Discovered t := by
  intro ht
  obtain ⟨V, hV, hmem⟩ := h (CfgScanner.not_halted_of_later hlater ht)
  exact ⟨V, hV.later hlater, hleaders ▸ hmem⟩

theorem LastOk.later {b : CfgBlock} {last : CfgDecodedSlot} (h : r.LastOk s b last)
    (hlater : s.Later t) : r.LastOk t b last := by
  have hhalted : t.halted = false → s.halted = false := CfgScanner.not_halted_of_later hlater
  have hleader : ∀ l ∈ s.leaders, l ∈ t.leaders := fun l hl => hlater.leaders.subset hl
  refine ⟨h.stopped, fun hflow => ?_, h.target, fun ht o ho => ?_, fun ht hrole hinside => ?_⟩
  · rcases h.flowing hflow with ⟨hend, hinside, hmem⟩ | ⟨hend, hrange⟩
    · exact Or.inl ⟨hend, hinside, hleader _ hmem⟩
    · exact Or.inr ⟨hend, fun ht => hrange (hhalted ht)⟩
  · exact hleader _ (h.marked (hhalted ht) o ho)
  · exact hleader _ (h.conditional (hhalted ht) hrole hinside)

theorem BlockOk.later {b : CfgBlock} (h : r.BlockOk s b) (hlater : s.Later t) : r.BlockOk t b := by
  obtain ⟨hinside, taken, last, hfollows, hcount, hlast⟩ := h
  exact ⟨hinside, taken, last, hfollows.later hlater.slots, hcount, hlast.later hlater⟩

/-- Instructions that flow on stay in what is explored. -/
theorem Explored.follows (h : r.Explored s V none) (hleaders : ∀ leader ∈ s.leaders, leader ∈ V)
    {offset last : Nat} {taken : List CfgDecodedSlot}
    (hfollows : r.Follows s.slots offset taken last) (hflow : ∀ slot ∈ taken, slot.stops = false)
    (hoffset : offset ∈ V) (hlast : last < r.length) : last ∈ V := by
  induction taken generalizing offset with
  | nil =>
    obtain rfl : offset = last := hfollows
    exact hoffset
  | cons slot taken ih =>
    rw [List.forall_mem_cons] at hflow
    have hle := (hfollows.2.le (nextOffset_le r.length offset slot)).1
    refine ih hfollows.2 hflow.2 ?_
    rcases h.onward offset hoffset slot hfollows.1 hflow.1 (by omega) with hV | hleader | hnone
    · exact hV
    · exact hleaders _ hleader
    · cases hnone

theorem blockAt_finished {start : Nat} (hstart : start < r.length) (s : CfgScanner σ) :
    ∃ taken, r.Finished start (r.walkBlock start r.length ⟨{ offset := start },start,s⟩) taken := by
  have hbuilding : r.Building start ⟨{ offset := start },start,s⟩ [] :=
    ⟨rfl, rfl, rfl, rfl, rfl, by simp⟩
  exact hbuilding.walkBlock r.length (Nat.sub_le _ _) hstart

/-- What is built at a leader is a block, unless the scan has failed. -/
theorem blockAt_ok {start : Nat} (hstart : start < r.length) (s : CfgScanner σ)
    (hdiscovered : r.Discovered s) (hleader : start ∈ s.leaders)
    (hslots : s.SlotsAre fun o _ => o < r.length) :
    (r.blockAt start s).1.offset = start ∧
    ((r.blockAt start s).1.instructionCount = 0 → (r.blockAt start s).2.halted = true) ∧
    ((r.blockAt start s).1.instructionCount ≠ 0 →
      r.BlockOk (r.blockAt start s).2 (r.blockAt start s).1) := by
  have hapart := r.blockAt_apart start s
  have hdiscovered' := hdiscovered.later (r.blockAt_runs start s).later hapart.leaders
  have hleader' : start ∈ (r.blockAt start s).2.leaders := hapart.leaders ▸ hleader
  have hslots' := (r.blockAt_runs start s).slotsInside hslots
  obtain ⟨taken, hfinished⟩ := blockAt_finished hstart s
  simp only [blockAt] at hdiscovered' hleader' hslots' ⊢
  generalize r.walkBlock start r.length ⟨{ offset := start },start,s⟩ = w at *
  refine ⟨hfinished.offset, fun hzero => ?_, fun hcount => ?_⟩
  · rw [hfinished.count, List.length_eq_zero_iff] at hzero
    by_contra hhalted
    obtain ⟨V, hV, hmem⟩ := hdiscovered' (Bool.not_eq_true _ ▸ hhalted)
    obtain ⟨slot, hslot⟩ := hV.known start (hmem start hleader')
    rw [hfinished.stuck hzero] at hslot
    cases hslot
  · obtain rfl | ⟨taken, last, rfl⟩ := List.eq_nil_or_concat' taken
    · exact absurd hfinished.count hcount
    have hends := hfinished.last last (by rw [List.getLast?_concat, Option.mem_some_iff])
    have hflowing := hfinished.flowing
    rw [List.dropLast_concat] at hflowing
    obtain ⟨o, hfollows, hslot, hnext⟩ := follows_snoc.mp hfinished.follows
    have ho : o < r.length := hslots' o last hslot
    have hlast : w.scanner.halted = false → ∃ V, r.Explored w.scanner V none ∧
        (∀ leader ∈ w.scanner.leaders, leader ∈ V) ∧ o ∈ V := by
      intro hhalted
      obtain ⟨V, hV, hmem⟩ := hdiscovered' hhalted
      exact ⟨V, hV, hmem, hV.follows hmem hfollows hflowing (hmem start hleader') ho⟩
    have hend : w.block.offset+(w.offset-start) = w.offset := by
      have hle := (hfinished.follows.le (Nat.le_of_lt hstart)).1
      rw [hfinished.offset]
      omega
    refine ⟨hfinished.offset ▸ hstart, taken, last, ?_, ?_, hends.stopped, ?_, hends.target, ?_, ?_⟩
    · rw [hend, hfinished.offset]
      exact hfinished.follows
    · rw [hfinished.count, List.length_append, List.length_singleton]
    · rw [hend]
      intro hflow
      rcases hends.flowing hflow with hcut | ⟨hend, hrange⟩
      · exact Or.inl hcut
      · refine Or.inr ⟨hend, fun hhalted => ?_⟩
        by_contra hinside
        obtain ⟨V, hV, hmem, hoV⟩ := hlast hhalted
        have hin : w.offset ∈ V := by
          rw [← hnext] at hinside ⊢
          rcases hV.onward o hoV last hslot hflow (Nat.lt_of_not_le hinside) with h | h | h
          · exact h
          · exact hmem _ h
          · cases h
        obtain ⟨slot, hknown⟩ := hV.known _ hin
        rw [hrange.resolve_left hinside] at hknown
        cases hknown
    · intro hhalted
      obtain ⟨V, hV, -, hoV⟩ := hlast hhalted
      exact hV.target o hoV last hslot
    · rw [hend, ← hnext]
      intro hhalted
      obtain ⟨V, hV, -, hoV⟩ := hlast hhalted
      exact hV.conditional o hoV last hslot

variable {coveredUntil start : Nat} {done : List Nat}

/-- A leader below the covered offset lies inside the last block. -/
theorem Partitioned.overlapped (h : r.Partitioned s coveredUntil done)
    (hnew : ∀ leader ∈ done, leader < start) (hstart : start < coveredUntil) :
    r.Partitioned s.countOverlap coveredUntil (done ++ [start]) := by
  have hbelow : ∀ b ∈ s.out.blocks, b.offset < start := fun b hb => hnew _ (h.started b hb)
  refine ⟨h.discovered.later s.countOverlap_aside.later rfl, h.slotsInside,
    fun b hb => (h.blocks b hb).later s.countOverlap_aside.later, h.disjoint, h.covered, fun b hb => List.mem_append_left _ (h.started b hb), h.last, ?_, ?_⟩
  · intro hhalted leader hleader
    rcases List.mem_append.mp hleader with hold | hadded
    · exact h.accounted hhalted leader hold
    · rw [List.mem_singleton.mp hadded]
      rcases h.last with hzero | ⟨b, hb, hend⟩
      · omega
      · exact Or.inr ⟨b, hb, hbelow b hb, hend ▸ hstart⟩
  · intro hhalted
    have hcounted : decide (∀ b ∈ s.out.blocks, b.offset ≠ start) = true :=
      decide_eq_true fun b hb => Nat.ne_of_lt (hbelow b hb)
    rw [List.countP_append, List.countP_singleton]
    simp only [CfgScanner.countOverlap, hcounted, if_true, h.overlapping hhalted]

/-- A failure keeps the blocks so far. -/
theorem Partitioned.failed (h : r.Partitioned s coveredUntil done) (hlater : s.Later t)
    (hblocks : t.out.blocks = s.out.blocks) (hleaders : t.leaders = s.leaders)
    (hslots : t.SlotsAre fun o _ => o < r.length) (ht : t.halted = true) (starts : List Nat) :
    r.Partitioned t coveredUntil (done ++ starts) := by
  refine ⟨h.discovered.later hlater hleaders, hslots, ?_, ?_, ?_, ?_, ?_, ?_, ?_⟩
  · exact hblocks ▸ fun b hb => (h.blocks b hb).later hlater
  · exact hblocks ▸ h.disjoint
  · exact hblocks ▸ h.covered
  · exact hblocks ▸ fun b hb => List.mem_append_left _ (h.started b hb)
  · exact hblocks ▸ h.last
  · exact fun hok => absurd ht (by rw [hok]; decide)
  · exact fun hok => absurd ht (by rw [hok]; decide)

/-- A block joins those so far. -/
theorem Partitioned.push {b : CfgBlock} (h : r.Partitioned s coveredUntil done)
    (hnew : ∀ leader ∈ done, leader < start) (hstart : coveredUntil ≤ start) (hlater : s.Later t)
    (hblocks : t.out.blocks = s.out.blocks)
    (hcount : t.out.overlappingLeaderCount = s.out.overlappingLeaderCount)
    (hleaders : t.leaders = s.leaders) (hslots : t.SlotsAre fun o _ => o < r.length)
    (hb : r.BlockOk t b) (hoffset : b.offset = start) :
    r.Partitioned (t.pushBlock b) (b.offset+b.size) (done ++ [start]) := by
  have hpush : t.Later (t.pushBlock b) := (t.pushBlock_aside b).later
  have hmem : (t.pushBlock b).out.blocks = s.out.blocks ++ [b] := by
    rw [CfgScanner.pushBlock, hblocks]
  refine ⟨h.discovered.later (hlater.trans hpush) hleaders, hslots, ?_, ?_, ?_, ?_, ?_, ?_, ?_⟩
  · rw [hmem]
    exact List.forall_mem_append.mpr ⟨fun c hc => (h.blocks c hc).later (hlater.trans hpush),
      List.forall_mem_singleton.mpr (hb.later hpush)⟩
  · rw [hmem, List.pairwise_append]
    refine ⟨h.disjoint, List.pairwise_singleton _ _, fun c hc d hd => ?_⟩
    rw [List.mem_singleton.mp hd, hoffset]
    exact (h.covered c hc).trans hstart
  · rw [hmem]
    refine List.forall_mem_append.mpr ⟨fun c hc => ?_, List.forall_mem_singleton.mpr le_rfl⟩
    have hc' := h.covered c hc
    omega
  · rw [hmem]
    refine List.forall_mem_append.mpr ⟨fun c hc => List.mem_append_left _ (h.started c hc),
      List.forall_mem_singleton.mpr ?_⟩
    rw [hoffset]
    exact List.mem_append_right _ List.mem_cons_self
  · rw [hmem]
    exact Or.inr ⟨b, List.mem_append_right _ List.mem_cons_self, rfl⟩
  · rw [hmem]
    intro hhalted leader hleader
    rcases List.mem_append.mp hleader with hold | hadded
    · have hs := CfgScanner.not_halted_of_later (hlater.trans hpush) hhalted
      rcases h.accounted hs leader hold with ⟨c, hc, hat⟩ | ⟨c, hc, hin⟩
      · exact Or.inl ⟨c, List.mem_append_left _ hc, hat⟩
      · exact Or.inr ⟨c, List.mem_append_left _ hc, hin⟩
    · rw [List.mem_singleton.mp hadded]
      exact Or.inl ⟨b, List.mem_append_right _ List.mem_cons_self, hoffset⟩
  · rw [hmem]
    intro hhalted
    have hs := CfgScanner.not_halted_of_later (hlater.trans hpush) hhalted
    have hself : decide (∀ c ∈ s.out.blocks ++ [b], c.offset ≠ start) = false :=
      decide_eq_false fun hall =>
        hall b (List.mem_append_right _ List.mem_cons_self) hoffset
    rw [List.countP_append, List.countP_singleton, hself, if_neg Bool.false_ne_true, Nat.add_zero]
    refine (hcount.trans (h.overlapping hs)).trans (List.countP_congr fun leader hleader => ?_)
    rw [decide_eq_true_eq, decide_eq_true_eq, List.forall_mem_append, List.forall_mem_singleton,
      hoffset]
    exact (and_iff_left (Nat.ne_of_gt (hnew leader hleader))).symm

/-- The loop over ordered leaders partitions what they lead to. -/
theorem Partitioned.partition {starts : List Nat} (h : r.Partitioned s coveredUntil done)
    (hsorted : (done ++ starts).Pairwise (· < ·))
    (hstarts : ∀ start ∈ starts, start < r.length ∧ start ∈ s.leaders) :
    ∃ coveredUntil', r.Partitioned (r.partition starts coveredUntil s) coveredUntil'
      (done ++ starts) := by
  induction starts generalizing s coveredUntil done with
  | nil =>
    rw [List.append_nil]
    exact ⟨coveredUntil, h⟩
  | cons start starts ih =>
    have hnew : ∀ leader ∈ done, leader < start := fun leader hleader =>
      (List.pairwise_append.mp hsorted).2.2 leader hleader start List.mem_cons_self
    rw [List.append_cons] at hsorted ⊢
    rw [List.forall_mem_cons] at hstarts
    have hapart := r.blockAt_apart start s
    have hlater := (r.blockAt_runs start s).later
    have hslots := (r.blockAt_runs start s).slotsInside h.slotsInside
    obtain ⟨hoffset, hstuck, hblock⟩ := blockAt_ok hstarts.1.1 s h.discovered hstarts.1.2 h.slotsInside
    simp only [CfgRange.partition]
    split_ifs with hcovered hlimit hcount
    · exact ih (h.overlapped hnew hcovered) hsorted hstarts.2
    · refine ⟨coveredUntil, ?_⟩
      rw [← List.append_cons]
      refine h.failed (s.fail_aside (by decide) _).later (s.out.fail_same (by decide) _).blocks rfl
        h.slotsInside (s.fail_halted (by decide) _) _
    · exact ih (h.failed hlater hapart.graph.blocks hapart.leaders hslots (hstuck hcount) [start])
        hsorted (by rw [hapart.leaders]; exact hstarts.2)
    · refine ih (h.push hnew (Nat.le_of_not_lt hcovered) hlater hapart.graph.blocks
        hapart.graph.overlappingLeaderCount hapart.leaders hslots (hblock hcount) hoffset) hsorted ?_
      intro leader hleader
      obtain ⟨hinside, hmem⟩ := hstarts.2 leader hleader
      exact ⟨hinside, hapart.leaders ▸ hmem⟩

end CfgRange

end DSigMatcher.Cfg
