import DSigMatcher.Cfg.Predecessors
import DSigMatcher.Cfg.Partition

namespace DSigMatcher.Cfg
open DSigMatcher.Base DSigMatcher.Framework

variable {σ : Type*}

/-- The instructions a backend decodes stay inside the bytes it is given. -/
def DisassemblerBackend.DecodesInside (backend : DisassemblerBackend σ) : Prop :=
  ∀ st code address, ∀ info ∈ (backend.decodeRange st code address).2.2,
    info.offset+info.length ≤ code.length

theorem forall_of_bodies {P : CfgBlock → Prop} (hP : ∀ b, P b.body ↔ P b) {bs cs : List CfgBlock}
    (h : cs.map CfgBlock.body = bs.map CfgBlock.body) (hbs : ∀ b ∈ bs, P b) : ∀ c ∈ cs, P c := by
  intro c hc
  have hmem : c.body ∈ bs.map CfgBlock.body := h ▸ List.mem_map_of_mem hc
  obtain ⟨b, hb, hbody⟩ := List.mem_map.mp hmem
  exact (hP c).mp (hbody ▸ (hP b).mpr (hbs b hb))

theorem pairwise_of_bodies {P : CfgBlock → CfgBlock → Prop} (hP : ∀ b c, P b.body c.body ↔ P b c)
    {bs cs : List CfgBlock} (h : cs.map CfgBlock.body = bs.map CfgBlock.body)
    (hbs : bs.Pairwise P) : cs.Pairwise P := by
  have hmap (ds : List CfgBlock) : (ds.map CfgBlock.body).Pairwise P ↔ ds.Pairwise P := by
    rw [List.pairwise_map]
    simp only [hP]
  exact (hmap cs).mp (h ▸ (hmap bs).mpr hbs)

/-- The blocks of a graph are a partition of what the leaders lead to. -/
structure CfgRange.IsPartition (r : CfgRange σ) (s : CfgScanner σ) : Prop where
  nodup : s.leaders.Nodup
  blocks : ∀ b ∈ s.out.blocks, r.BlockOk s b
  disjoint : s.out.blocks.Pairwise fun b c => b.offset+b.size ≤ c.offset
  accounted : s.out.status = .ok → ∀ leader ∈ s.leaders, Accounted s.out.blocks leader
  overlapping : s.out.status = .ok → s.out.overlappingLeaderCount =
    s.leaders.countP fun leader => decide (∀ b ∈ s.out.blocks, b.offset ≠ leader)

namespace CfgRange
variable {r : CfgRange σ} {s t : CfgScanner σ}

theorem partition_apart (starts : List Nat) (coveredUntil : Nat) (s : CfgScanner σ) :
    (r.partition starts coveredUntil s).leaders = s.leaders ∧
    (r.partition starts coveredUntil s).out.successorBlocks = s.out.successorBlocks ∧
    (r.partition starts coveredUntil s).out.droppedSuccessorCount = s.out.droppedSuccessorCount := by
  induction starts generalizing coveredUntil s with
  | nil => exact ⟨rfl, rfl, rfl⟩
  | cons start starts ih =>
    have hapart := r.blockAt_apart start s
    have hfail := s.out.fail_same (by decide : CfgStatus.blockLimitReached ≠ .entryUndecodable)
    simp only [CfgRange.partition]
    split_ifs
    · exact ih coveredUntil s.countOverlap
    · exact ⟨rfl, (hfail _).successorBlocks, (hfail _).droppedSuccessorCount⟩
    · obtain ⟨hleaders, hsuccessors, hdropped⟩ := ih coveredUntil (r.blockAt start s).2
      exact ⟨hleaders.trans hapart.leaders, hsuccessors.trans hapart.graph.successorBlocks,
        hdropped.trans hapart.graph.droppedSuccessorCount⟩
    · obtain ⟨hleaders, hsuccessors, hdropped⟩ :=
        ih ((r.blockAt start s).1.offset+(r.blockAt start s).1.size)
          ((r.blockAt start s).2.pushBlock (r.blockAt start s).1)
      exact ⟨hleaders.trans hapart.leaders, hsuccessors.trans hapart.graph.successorBlocks,
        hdropped.trans hapart.graph.droppedSuccessorCount⟩

/-- The ordered leaders go up. -/
theorem ordered_leaders {leaders : List Nat} (h : leaders.Nodup) :
    (leaders.insertionSort (· ≤ ·)).Pairwise (· < ·) := by
  have hperm := List.perm_insertionSort (· ≤ ·) leaders
  refine ((List.pairwise_insertionSort (· ≤ ·) leaders).and (hperm.nodup_iff.mpr h)).imp ?_
  exact fun hle => Nat.lt_of_le_of_ne hle.1 hle.2

theorem checkEntry_cases (g : ControlFlowGraph) :
    checkEntry g = g ∨ (checkEntry g).blocks = [] ∧ (checkEntry g).status ≠ .ok := by
  unfold checkEntry
  split
  · split_ifs
    · refine Or.inr ?_
      unfold ControlFlowGraph.fail
      split_ifs with hok
      · exact ⟨rfl, nofun⟩
      · exact ⟨rfl, hok⟩
    · exact Or.inl rfl
  · exact Or.inl rfl

/-- What is behind the loop over the leaders is partitioned. -/
theorem partition_discovered {st : σ} (h : r.discoverLeaders (r.start st) = some t) :
    ∃ coveredUntil, r.Partitioned (r.partition (t.leaders.insertionSort (· ≤ ·)) 0 t) coveredUntil
      (t.leaders.insertionSort (· ≤ ·)) := by
  obtain ⟨hleaders, hexplored⟩ := discoverLeaders_explored h
  have hsame := r.discoverLeaders_same h
  have hslots := (r.discoverLeaders_runs h).slotsInside (by
    intro o slot hslot
    cases hslot)
  have hblocks : t.out.blocks = [] := hsame.blocks
  have hstart : r.Partitioned t 0 [] := by
    refine ⟨hexplored, hslots, ?_, ?_, ?_, ?_, Or.inl rfl, by simp, fun _ => ?_⟩
    · simp [hblocks]
    · simp [hblocks]
    · simp [hblocks]
    · simp [hblocks]
    · exact hsame.overlappingLeaderCount
  have hsorted : ([] ++ t.leaders.insertionSort (· ≤ ·)).Pairwise (· < ·) :=
    ordered_leaders hleaders.nodup
  refine hstart.partition hsorted fun leader hleader => ?_
  rw [List.mem_insertionSort] at hleader
  exact ⟨hleaders.inside leader hleader, hleader⟩

theorem blockOk_body (b : CfgBlock) : r.BlockOk s b.body ↔ r.BlockOk s b := by
  constructor
  · rintro ⟨hinside, taken, last, hfollows, hcount, hlast⟩
    exact ⟨hinside, taken, last, hfollows, hcount, hlast.stopped, hlast.flowing, hlast.target,
      hlast.marked, hlast.conditional⟩
  · rintro ⟨hinside, taken, last, hfollows, hcount, hlast⟩
    exact ⟨hinside, taken, last, hfollows, hcount, hlast.stopped, hlast.flowing, hlast.target,
      hlast.marked, hlast.conditional⟩

/-- Edges change no partition. -/
theorem IsPartition.of_bodies {h : ControlFlowGraph} (hs : r.IsPartition s)
    (hbodies : s.out.SameBodies h) : r.IsPartition { s with out := h } := by
  have hmem {P : CfgBlock → Prop} (hP : ∀ b, P b.body ↔ P b) :
      (∃ b ∈ s.out.blocks, P b) → ∃ b ∈ h.blocks, P b := by
    contrapose!
    exact forall_of_bodies (fun b => not_congr (hP b)) hbodies.blocks.symm
  have hstatus : h.status = .ok → s.out.status = .ok := fun hok => hbodies.status ▸ hok
  refine ⟨hs.nodup, ?_, ?_, ?_, ?_⟩
  · have hlater := (s.out_aside h hbodies.status).later
    exact forall_of_bodies blockOk_body hbodies.blocks fun b hb => (hs.blocks b hb).later hlater
  · exact pairwise_of_bodies (fun b c => Iff.rfl) hbodies.blocks hs.disjoint
  · intro hok leader hleader
    rcases hs.accounted (hstatus hok) leader hleader with hstart | hin
    · exact Or.inl (hmem (fun b => Iff.rfl) hstart)
    · exact Or.inr (hmem (fun b => Iff.rfl) hin)
  · intro hok
    have hcount := hs.overlapping (hstatus hok)
    refine (hbodies.overlappingLeaderCount.trans hcount).trans (List.countP_congr fun leader _ => ?_)
    rw [decide_eq_true_eq, decide_eq_true_eq]
    exact ⟨forall_of_bodies (P := fun b => b.offset ≠ leader) (fun b => Iff.rfl) hbodies.blocks,
      forall_of_bodies (P := fun b => b.offset ≠ leader) (fun b => Iff.rfl) hbodies.blocks.symm⟩

/-- A graph without blocks that has failed is a partition of nothing. -/
theorem isPartition_failed (hnodup : s.leaders.Nodup) (hblocks : s.out.blocks = [])
    (hstatus : s.out.status ≠ .ok) : r.IsPartition s := by
  refine ⟨hnodup, ?_, ?_, fun hok => absurd hok hstatus, fun hok => absurd hok hstatus⟩
  · rw [hblocks]
    exact fun b hb => absurd hb List.not_mem_nil
  · rw [hblocks]
    exact .nil

theorem buildBlocks_isPartition {st : σ} (h : r.discoverLeaders (r.start st) = some t) :
    r.IsPartition (r.buildBlocks t) := by
  obtain ⟨coveredUntil, hpartition⟩ := partition_discovered h
  have hleaders := (r.partition_apart (t.leaders.insertionSort (· ≤ ·)) 0 t).1
  have hnodup := (discoverLeaders_explored h).1.nodup
  have hperm := List.perm_insertionSort (· ≤ ·) t.leaders
  unfold buildBlocks
  generalize r.partition (t.leaders.insertionSort (· ≤ ·)) 0 t = p at *
  simp only
  rcases checkEntry_cases { p.out with nodeCount := p.out.blocks.length } with hsame | hfailed
  · have hok : p.out.status = .ok → p.halted = false := by
      intro hok
      rw [CfgScanner.halted, hok]
      rfl
    rw [hsame]
    have hlater : p.Later { p with out := { p.out with nodeCount := p.out.blocks.length } } :=
      (p.out_aside { p.out with nodeCount := p.out.blocks.length } rfl).later
    refine ⟨hleaders ▸ hnodup, fun b hb => (hpartition.blocks b hb).later hlater, hpartition.disjoint,
      fun hstatus leader hleader => ?_, fun hstatus => ?_⟩
    · refine hpartition.accounted (hok hstatus) leader (hperm.mem_iff.mpr ?_)
      exact hleaders ▸ hleader
    · refine (hpartition.overlapping (hok hstatus)).trans ?_
      simp only [hleaders]
      exact hperm.countP_eq _
  · exact isPartition_failed (hleaders ▸ hnodup) hfailed.1 hfailed.2

/-- The edges are built on blocks whose edges are not there yet. -/
theorem buildBlocks_edges {st : σ} (h : r.discoverLeaders (r.start st) = some t)
    (hok : (r.buildBlocks t).out.status = .ok) :
    (r.buildBlocks t).out.nodeCount = (r.buildBlocks t).out.blocks.length ∧
    (r.buildBlocks t).out.successorBlocks = [] ∧
    (r.buildBlocks t).out.droppedSuccessorCount = 0 := by
  have hsame := r.discoverLeaders_same h
  obtain ⟨-, hsuccessors, hdropped⟩ := r.partition_apart (t.leaders.insertionSort (· ≤ ·)) 0 t
  unfold buildBlocks at hok ⊢
  generalize r.partition (t.leaders.insertionSort (· ≤ ·)) 0 t = p at *
  simp only at hok ⊢
  rcases checkEntry_cases { p.out with nodeCount := p.out.blocks.length } with hentry | hfailed
  · rw [hentry]
    exact ⟨rfl, hsuccessors.trans hsame.successorBlocks,
      hdropped.trans hsame.droppedSuccessorCount⟩
  · exact absurd hok hfailed.2

/-- A run leaves a partition. -/
theorem run_isPartition {st : σ} (h : r.run st = some s) : r.IsPartition s := by
  obtain ⟨t, ht, rfl⟩ := Option.map_eq_some_iff.mp h
  have hpartition := buildBlocks_isPartition ht
  simp only
  split_ifs
  · exact hpartition
  · exact hpartition.of_bodies
      ((ControlFlowGraph.buildSuccessors_bodies _ _).trans (ControlFlowGraph.buildPredecessors_bodies _))

theorem run_runs {st : σ} (h : r.run st = some s) : r.Runs (r.start st) s := by
  obtain ⟨t, ht, rfl⟩ := Option.map_eq_some_iff.mp h
  have hruns := (r.discoverLeaders_runs ht).trans (r.buildBlocks_runs t)
  simp only
  split_ifs
  · exact hruns
  · refine hruns.aside (CfgScanner.out_aside _ _ ?_)
    exact ((ControlFlowGraph.buildSuccessors_bodies _ _).trans
      (ControlFlowGraph.buildPredecessors_bodies _)).status

/-- The leaders are those of the discovery. -/
theorem run_leaders {st : σ} (h : r.run st = some s) :
    ∃ t, r.discoverLeaders (r.start st) = some t ∧ t.Later s ∧ s.leaders = t.leaders := by
  obtain ⟨t, ht, rfl⟩ := Option.map_eq_some_iff.mp h
  have hblocks := (r.buildBlocks_runs t).later
  have hleaders : (r.buildBlocks t).leaders = t.leaders :=
    (r.partition_apart (t.leaders.insertionSort (· ≤ ·)) 0 t).1
  refine ⟨t, ht, ?_⟩
  simp only
  split_ifs
  · exact ⟨hblocks, hleaders⟩
  · refine ⟨hblocks.trans (CfgScanner.out_aside _ _ ?_).later, hleaders⟩
    exact ((ControlFlowGraph.buildSuccessors_bodies _ _).trans
      (ControlFlowGraph.buildPredecessors_bodies _)).status

/-- The leaders are the start of the range, the targets of branches and what is behind a conditional
branch, for every instruction that is reached from them. -/
theorem run_explored {st : σ} (h : r.run st = some s) (hok : s.out.status = .ok) :
    (0 < r.length → 0 ∈ s.leaders) ∧ ∃ V, (∀ leader ∈ s.leaders, leader ∈ V) ∧ r.Explored s V none := by
  obtain ⟨t, ht, hlater, hleaders⟩ := run_leaders h
  have hhalted : t.halted = false := by
    refine CfgScanner.not_halted_of_later hlater ?_
    rw [CfgScanner.halted, hok]
    rfl
  obtain ⟨V, hexplored, hV⟩ := (discoverLeaders_explored ht).2 hhalted
  rw [hleaders]
  exact ⟨discoverLeaders_entry ht hhalted, V, hV, hexplored.later hlater⟩

/-- Instructions that end in the range are as long as what they cover. -/
theorem Follows.sum {slots : Nat → Option CfgDecodedSlot} {offset last : Nat}
    {taken : List CfgDecodedSlot} (h : r.Follows slots offset taken last)
    (hslots : ∀ o slot, slots o = some slot → 0 < slot.length ∧ o+slot.length ≤ r.length) :
    last = offset+(taken.map (·.length)).sum := by
  induction taken generalizing offset with
  | nil => exact Eq.symm h
  | cons slot taken ih =>
    obtain ⟨hpos, hend⟩ := hslots offset slot h.1
    rw [ih h.2, nextOffset_eq hpos hend, List.map_cons, List.sum_cons, Nat.add_assoc]

/-- A backend that decodes inside its bytes leaves slots that end in the range. -/
theorem Runs.slots_end (hlength : r.length ≤ cfgMaxRangeBytes) (hinside : r.backend.DecodesInside)
    {st : σ} (h : r.Runs (r.start st) s) :
    s.SlotsAre fun o slot => 0 < slot.length ∧ o+slot.length ≤ r.length := by
  refine h.slotsAre nofun fun offset u hu => r.decodeWindowAt_slotsAre offset u hu ?_ ?_
  · intro hoffset info hinfo _ hpos
    have hend := hinside _ _ _ info hinfo
    have hwindow : (r.window offset).length ≤ r.length-offset := by
      rw [window, List.length_take, List.length_drop]
      exact Nat.min_le_right _ _
    rw [makeSlot_length]
    unfold cfgMaxRangeBytes at hlength
    omega
  · intro hoffset _ _
    exact ⟨Nat.one_pos, hoffset⟩

/-- Basic blocks partition the decoded code. -/
theorem run_partitions (r : CfgRange σ) (st : σ) (hlength : r.length ≤ cfgMaxRangeBytes)
    (hinside : r.backend.DecodesInside) :
    ∃ s, r.run st = some s ∧
      (s.out.blocks.Pairwise fun b c => b.offset < c.offset ∧ b.offset+b.size ≤ c.offset) ∧
      (∀ b ∈ s.out.blocks, b.offset+b.size ≤ r.length ∧ 1 ≤ b.instructionCount ∧
        ∃ slots, slots.length = b.instructionCount ∧
          r.Follows s.slots b.offset slots (b.offset+b.size) ∧
          b.size = (slots.map (·.length)).sum) ∧
      (s.out.status = .ok →
        s.leaders.Nodup ∧ (∀ leader ∈ s.leaders, Accounted s.out.blocks leader) ∧
        s.out.overlappingLeaderCount =
          s.leaders.countP (fun leader => decide (∀ b ∈ s.out.blocks, b.offset ≠ leader)) ∧
        (0 < r.length → 0 ∈ s.leaders) ∧
        ∃ V, (∀ leader ∈ s.leaders, leader ∈ V) ∧ r.Explored s V none) := by
  obtain ⟨t, ht⟩ := discoverLeaders_returns r st
  obtain ⟨s, hs⟩ : ∃ s, r.run st = some s := ⟨_, by rw [run, ht]; rfl⟩
  have hpartition := run_isPartition hs
  have hslots := (run_runs hs).slots_end hlength hinside
  refine ⟨s, hs, ?_, ?_, fun hok =>
    ⟨hpartition.nodup, hpartition.accounted hok, hpartition.overlapping hok, run_explored hs hok⟩⟩
  · refine hpartition.disjoint.imp_of_mem fun {b c} hb _ hends => ⟨?_, hends⟩
    obtain ⟨hstart, taken, last, hfollows, -, -⟩ := hpartition.blocks b hb
    have hlt := hfollows.lt hstart (by simp)
    omega
  · intro b hb
    obtain ⟨hstart, taken, last, hfollows, hcount, -⟩ := hpartition.blocks b hb
    refine ⟨(hfollows.le (Nat.le_of_lt hstart)).2, by omega, taken ++ [last], ?_, hfollows, ?_⟩
    · rw [List.length_append, List.length_singleton, hcount]
    · have hsum := hfollows.sum hslots
      omega

/-- A backend of `jz` with a relative byte, and of single bytes else. -/
def jumpBackend : DisassemblerBackend Unit where
  decodeRange _ code _ := ((),.success,match code with
    | 0x74::d::_ => [⟨0,2,1,[⟨.immediate,d.toBitVec.toInt,true⟩]⟩]
    | _::_ => [⟨0,1,0,[]⟩]
    | [] => [])
  mnemonicName _ mnemonic := if mnemonic = 1 then text "jz" else text "nop"

theorem jumpBackend_inside : jumpBackend.DecodesInside := by
  intro st code address info hinfo
  dsimp only [jumpBackend] at hinfo
  split at hinfo
  · obtain rfl := List.mem_singleton.mp hinfo
    simp
  · obtain rfl := List.mem_singleton.mp hinfo
    simp
  · cases hinfo

/-- A branch into the instruction behind it. -/
theorem run_partitions_jump :
    ∃ s, (CfgRange.mk jumpBackend [0x74, 0x01, 0x74, 0x90, 0x90] 0x1000).run () = some s ∧
      s.out.blocks.map (·.offset) = [0,2,4] ∧ s.leaders = [0,3,2,4] ∧ s.out.overlappingLeaderCount = 1 ∧
      (∀ leader ∈ s.leaders, Accounted s.out.blocks leader) ∧
      ∃ V, (∀ leader ∈ s.leaders, leader ∈ V) ∧
        (CfgRange.mk jumpBackend [0x74, 0x01, 0x74, 0x90, 0x90] 0x1000).Explored s V none := by
  obtain ⟨s, hs, -, -, hleaders⟩ :=
    run_partitions (CfgRange.mk jumpBackend [0x74, 0x01, 0x74, 0x90, 0x90] 0x1000) () (by decide)
      jumpBackend_inside
  have hout : ((CfgRange.mk jumpBackend [0x74, 0x01, 0x74, 0x90, 0x90] 0x1000).run ()).map (fun s =>
      (s.out.status,s.out.blocks.map (·.offset),s.leaders,s.out.overlappingLeaderCount)) =
      some (.ok,[0,2,4],[0,3,2,4],1) := rfl
  rw [hs, Option.map_some, Option.some_inj] at hout
  obtain ⟨hok, hrest⟩ := Prod.mk.inj hout
  obtain ⟨hblocks, hrest⟩ := Prod.mk.inj hrest
  obtain ⟨hnoted, hcount⟩ := Prod.mk.inj hrest
  obtain ⟨-, haccounted, -, -, hexplored⟩ := hleaders hok
  exact ⟨s, hs, hblocks, hnoted, hcount, haccounted, hexplored⟩

end CfgRange

end DSigMatcher.Cfg
