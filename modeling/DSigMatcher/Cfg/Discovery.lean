import DSigMatcher.Cfg.Runs
import Mathlib.Data.Set.Insert
import Mathlib.Data.List.Nodup

namespace DSigMatcher.Cfg
open DSigMatcher.Base DSigMatcher.Framework

variable {σ : Type*}

/-- The offset in the range an instruction branches to. -/
def CfgDecodedSlot.branchTarget (slot : CfgDecodedSlot) (length : Nat) : Option Nat :=
  if (slot.role = .directBranch ∨ slot.role = .conditionalBranch) ∧
      targetInsideRange slot.relativeTarget length then some slot.relativeTarget.toNat
  else none

/-- Nothing behind the instruction belongs to its block. -/
def CfgDecodedSlot.stops (slot : CfgDecodedSlot) : Bool :=
  slot.role ≠ .normal ∧ slot.role ≠ .directCall ∧ slot.role ≠ .indirectCall

/-- Leaders are offsets in the range, each noted once. -/
structure CfgScanner.LeadersOk (s : CfgScanner σ) (length : Nat) : Prop where
  nodup : s.leaders.Nodup
  inside : ∀ leader ∈ s.leaders, leader < length
  limit : s.leaders.length ≤ cfgMaxBlocks

/-- `V` is closed under what follows an instruction, up to leaders and a pending offset, and the
instructions in it have marked their leaders. -/
structure CfgRange.Explored (r : CfgRange σ) (s : CfgScanner σ) (V : Set Nat)
    (pending : Option Nat) : Prop where
  inside : ∀ o ∈ V, o < r.length
  known : ∀ o ∈ V, ∃ slot, s.slots o = some slot
  target : ∀ o ∈ V, ∀ slot, s.slots o = some slot → ∀ t ∈ slot.branchTarget r.length,
    t ∈ s.leaders
  conditional : ∀ o ∈ V, ∀ slot, s.slots o = some slot → slot.role = .conditionalBranch →
    nextOffset r.length o slot < r.length → nextOffset r.length o slot ∈ s.leaders
  onward : ∀ o ∈ V, ∀ slot, s.slots o = some slot → slot.stops = false →
    nextOffset r.length o slot < r.length → nextOffset r.length o slot ∈ V ∨
      nextOffset r.length o slot ∈ s.leaders ∨ pending = some (nextOffset r.length o slot)

namespace CfgScanner

theorem not_halted_of_later {s t : CfgScanner σ} (h : s.Later t) (ht : t.halted = false) :
    s.halted = false := by
  rw [← Bool.not_eq_true] at ht ⊢
  exact mt h.halted ht

theorem mem_addLeader {s : CfgScanner σ} {length offset : Nat} (hoffset : offset < length)
    (h : (s.addLeader length offset).halted = false) :
    offset ∈ (s.addLeader length offset).leaders := by
  unfold addLeader at h ⊢
  split_ifs at h ⊢ with hknown hlimit
  · exact of_decide_eq_true (hknown.resolve_left (Nat.not_le.mpr hoffset))
  · rw [fail_halted s (by decide)] at h
    cases h
  · exact List.mem_append_right _ List.mem_cons_self

theorem LeadersOk.addLeader {s : CfgScanner σ} {length : Nat} (h : s.LeadersOk length)
    (offset : Nat) : (s.addLeader length offset).LeadersOk length := by
  unfold CfgScanner.addLeader
  split_ifs with hknown hlimit
  · exact h
  · exact ⟨h.nodup, h.inside, h.limit⟩
  · rw [not_or, Nat.not_le] at hknown
    have hnew : offset ∉ s.leaders := fun hmem => hknown.2 (decide_eq_true hmem)
    refine ⟨?_, ?_, ?_⟩
    · exact h.nodup.append (List.nodup_singleton offset) (List.disjoint_singleton.mpr hnew)
    · intro leader hleader
      rcases List.mem_append.mp hleader with hold | hadded
      · exact h.inside leader hold
      · rw [List.mem_singleton.mp hadded]
        exact hknown.1
    · rw [List.length_append, List.length_singleton]
      omega

theorem LeadersOk.addBranchLeader {s : CfgScanner σ} {length : Nat} (h : s.LeadersOk length)
    (slot : CfgDecodedSlot) : (s.addBranchLeader length slot).LeadersOk length := by
  unfold CfgScanner.addBranchLeader
  split_ifs
  · exact h.addLeader _
  · exact h

theorem LeadersOk.markLeaders {s : CfgScanner σ} {length : Nat} (h : s.LeadersOk length)
    (slot : CfgDecodedSlot) (next : Nat) : (s.markLeaders length slot next).1.LeadersOk length := by
  unfold CfgScanner.markLeaders
  cases slot.role with
  | directBranch => exact h.addBranchLeader slot
  | conditionalBranch => exact (h.addBranchLeader slot).addLeader next
  | normal | indirectBranch | directCall | indirectCall | «return» | noReturn | invalid => exact h

/-- What marking does: the walk stops where the instruction does, and its leaders are there. -/
theorem markLeaders_spec (s : CfgScanner σ) (length : Nat) (slot : CfgDecodedSlot) (next : Nat) :
    (s.markLeaders length slot next).2 = slot.stops ∧
    ((s.markLeaders length slot next).1.halted = false →
      (∀ t ∈ slot.branchTarget length, t ∈ (s.markLeaders length slot next).1.leaders) ∧
      (slot.role = .conditionalBranch → next < length →
        next ∈ (s.markLeaders length slot next).1.leaders)) := by
  have hbranch (u : CfgScanner σ) (hu : (u.addBranchLeader length slot).halted = false) :
      ∀ t ∈ slot.branchTarget length, t ∈ (u.addBranchLeader length slot).leaders := by
    intro t ht
    unfold CfgDecodedSlot.branchTarget at ht
    split_ifs at ht with hinside
    · obtain rfl := Option.some.inj ht
      rw [addBranchLeader, if_pos hinside.2] at hu ⊢
      refine mem_addLeader ?_ hu
      have htarget := of_decide_eq_true hinside.2
      omega
    · cases ht
  unfold markLeaders CfgDecodedSlot.stops
  cases hrole : slot.role with
  | directBranch =>
    refine ⟨rfl, fun h => ⟨hbranch s h, fun hconditional => ?_⟩⟩
    cases hconditional
  | conditionalBranch =>
    refine ⟨rfl, fun h => ⟨fun t ht => ?_, fun _ hnext => mem_addLeader hnext h⟩⟩
    have hlater := addLeader_aside (s.addBranchLeader length slot) length next
    exact hlater.leaders.subset (hbranch s (not_halted_of_later hlater.later h) t ht)
  | normal | indirectBranch | directCall | indirectCall | «return» | noReturn | invalid =>
    refine ⟨rfl, fun h => ⟨fun t ht => ?_, fun hconditional => ?_⟩⟩
    · rw [CfgDecodedSlot.branchTarget, hrole, if_neg (by simp)] at ht
      cases ht
    · cases hconditional

end CfgScanner

namespace CfgRange
variable {r : CfgRange σ} {s t : CfgScanner σ} {V : Set Nat}

/-- What is explored stays so. -/
theorem Explored.later {pending : Option Nat} (h : r.Explored s V pending) (hst : s.Later t) :
    r.Explored t V pending := by
  have hslot : ∀ o ∈ V, ∀ slot, t.slots o = some slot → s.slots o = some slot := by
    intro o ho slot hslot
    obtain ⟨known, hknown⟩ := h.known o ho
    rw [hst.slots o known hknown] at hslot
    rw [hknown, hslot]
  have hleader : ∀ l ∈ s.leaders, l ∈ t.leaders := fun l hl => hst.leaders.subset hl
  refine ⟨h.inside, ?_, ?_, ?_, ?_⟩
  · intro o ho
    obtain ⟨known, hknown⟩ := h.known o ho
    exact ⟨known, hst.slots o known hknown⟩
  · intro o ho slot ht target htarget
    exact hleader _ (h.target o ho slot (hslot o ho slot ht) target htarget)
  · intro o ho slot ht hrole hnext
    exact hleader _ (h.conditional o ho slot (hslot o ho slot ht) hrole hnext)
  · intro o ho slot ht hstops hnext
    exact (h.onward o ho slot (hslot o ho slot ht) hstops hnext).imp_right
      (Or.imp_left (hleader _))

/-- A pending offset that is a leader or not in the range is none. -/
theorem Explored.settle {offset : Nat} (h : r.Explored s V (some offset))
    (hoffset : offset < r.length → offset ∈ s.leaders) : r.Explored s V none := by
  refine ⟨h.inside, h.known, h.target, h.conditional, ?_⟩
  intro o ho slot hslot hstops hnext
  rcases h.onward o ho slot hslot hstops hnext with hV | hleader | hpending
  · exact Or.inl hV
  · exact Or.inr (Or.inl hleader)
  · rw [← Option.some.inj hpending] at hnext ⊢
    exact Or.inr (Or.inl (hoffset hnext))

/-- An offset whose instruction is known and has marked its leaders joins what is explored. -/
theorem Explored.insert {offset : Nat} {slot : CfgDecodedSlot} {pending : Option Nat}
    (h : r.Explored s V (some offset)) (hoffset : offset < r.length)
    (hslot : s.slots offset = some slot)
    (htarget : ∀ t ∈ slot.branchTarget r.length, t ∈ s.leaders)
    (hconditional : slot.role = .conditionalBranch → nextOffset r.length offset slot < r.length →
      nextOffset r.length offset slot ∈ s.leaders)
    (honward : slot.stops = false → pending = some (nextOffset r.length offset slot)) :
    r.Explored s (Insert.insert offset V) pending := by
  refine ⟨?_, ?_, ?_, ?_, ?_⟩
  · rintro o (rfl | ho)
    · exact hoffset
    · exact h.inside o ho
  · rintro o (rfl | ho)
    · exact ⟨slot, hslot⟩
    · exact h.known o ho
  · rintro o (rfl | ho) slot' hslot'
    · rw [Option.some.inj (hslot'.symm.trans hslot)]
      exact htarget
    · exact h.target o ho slot' hslot'
  · rintro o (rfl | ho) slot' hslot'
    · rw [Option.some.inj (hslot'.symm.trans hslot)]
      exact hconditional
    · exact h.conditional o ho slot' hslot'
  · rintro o (rfl | ho) slot' hslot' hstops hnext
    · obtain rfl := Option.some.inj (hslot'.symm.trans hslot)
      exact Or.inr (Or.inr (honward hstops))
    · rcases h.onward o ho slot' hslot' hstops hnext with hV | hleader | hpending
      · exact Or.inl (Set.mem_insert_of_mem _ hV)
      · exact Or.inr (Or.inl hleader)
      · exact Or.inl (Set.mem_insert_iff.mpr (Or.inl (Option.some.inj hpending).symm))

theorem ensureDecoded_known {offset : Nat} (hoffset : offset < r.length) (s : CfgScanner σ)
    (h : (s.slots offset).isNone = true → (r.ensureDecoded offset s).halted = false) :
    ∃ slot, (r.ensureDecoded offset s).slots offset = some slot := by
  unfold ensureDecoded at h ⊢
  split_ifs at h ⊢ with hunknown
  · exact r.decodeWindowAt_known hoffset s (Bool.not_eq_true _ ▸ h hunknown)
  · cases hslot : s.slots offset with
    | none =>
      rw [hslot] at hunknown
      exact absurd rfl hunknown
    | some slot => exact ⟨slot, rfl⟩

/-- A round explores the pending offset, unless the scan fails. -/
theorem walkStep_explored {leader offset : Nat} (hoffset : offset < r.length)
    (h : r.Explored s V (some offset)) (hleader : offset = leader ∨ leader ∈ V)
    (ht : (r.walkStep leader offset s).1.halted = false) :
    ∃ W, V ⊆ W ∧ leader ∈ W ∧
      r.Explored (r.walkStep leader offset s).1 W (r.walkStep leader offset s).2 := by
  unfold walkStep at ht ⊢
  split_ifs at ht ⊢ with hother hfailed
  · refine ⟨V, subset_rfl, hleader.resolve_left hother.1, h.settle fun _ => ?_⟩
    exact of_decide_eq_true hother.2
  · rw [hfailed.2] at ht
    cases ht
  · obtain ⟨slot, hslot⟩ := ensureDecoded_known hoffset s fun hunknown => by
      rw [← Bool.not_eq_true]
      exact fun hfail => hfailed ⟨hunknown, hfail⟩
    have hlater := (r.ensureDecoded_runs offset s).later
    generalize r.ensureDecoded offset s = u at ht hslot hlater ⊢
    have hmark := u.markLeaders_spec r.length slot (nextOffset r.length offset slot)
    have haside := u.markLeaders_aside r.length slot (nextOffset r.length offset slot)
    have hwalk : r.walkSlot offset u =
        if (u.markLeaders r.length slot (nextOffset r.length offset slot)).2 ∨
          (u.markLeaders r.length slot (nextOffset r.length offset slot)).1.halted then
          ((u.markLeaders r.length slot (nextOffset r.length offset slot)).1,none)
        else ((u.markLeaders r.length slot (nextOffset r.length offset slot)).1,
          some (nextOffset r.length offset slot)) := by
      simp only [walkSlot, hslot, Option.getD_some]
    rw [hwalk] at ht ⊢
    generalize u.markLeaders r.length slot (nextOffset r.length offset slot) = marked at *
    have hmarked : marked.1.halted = false := by
      split_ifs at ht <;> exact ht
    obtain ⟨htarget, hconditional⟩ := hmark.2 hmarked
    have hexplored := (h.later hlater).later haside.later
    have hslot' : marked.1.slots offset = some slot := haside.slots ▸ hslot
    refine ⟨insert offset V, Set.subset_insert offset V, ?_, ?_⟩
    · rcases hleader with rfl | hleader
      · exact Set.mem_insert _ _
      · exact Set.mem_insert_of_mem _ hleader
    · split_ifs with hstop
      · refine hexplored.insert hoffset hslot' htarget hconditional fun hstops => ?_
        rw [hmark.1, hstops, hmarked] at hstop
        simp at hstop
      · exact hexplored.insert hoffset hslot' htarget hconditional fun _ => rfl

theorem walkStep_leadersOk (leader offset : Nat) (h : s.LeadersOk r.length) :
    (r.walkStep leader offset s).1.LeadersOk r.length := by
  have hdecoded : (r.ensureDecoded offset s).LeadersOk r.length := by
    unfold ensureDecoded
    split_ifs
    · have hleaders := r.decodeWindowAt_leaders offset s
      exact ⟨hleaders ▸ h.nodup, hleaders ▸ h.inside, hleaders ▸ h.limit⟩
    · exact h
  unfold walkStep
  split_ifs
  · exact h
  · exact hdecoded
  · simp only [walkSlot]
    split_ifs <;> exact hdecoded.markLeaders _ _

/-- Where a round goes on is further up. -/
theorem walkStep_up (leader offset : Nat) (hoffset : offset < r.length) (s : CfgScanner σ) :
    ∀ next ∈ (r.walkStep leader offset s).2, offset < next := by
  intro next hnext
  unfold walkStep at hnext
  split_ifs at hnext
  · cases hnext
  · cases hnext
  · simp only [walkSlot] at hnext
    split_ifs at hnext
    · cases hnext
    · rw [← Option.some.inj hnext]
      exact lt_nextOffset _ hoffset

/-- A walk explores all that follows its leader, unless the scan fails. -/
theorem walk_explored {leader : Nat} (n offset : Nat) (hn : r.length-offset ≤ n)
    (h : r.Explored s V (some offset)) (hleader : leader ∈ V ∨ offset = leader ∧ offset < r.length)
    (ht : (r.walk leader n offset s).halted = false) :
    ∃ W, V ⊆ W ∧ leader ∈ W ∧ r.Explored (r.walk leader n offset s) W none := by
  have hend : ¬ offset < r.length → ∃ W, V ⊆ W ∧ leader ∈ W ∧ r.Explored s W none := fun hnot =>
    ⟨V, subset_rfl, hleader.resolve_right fun hat => hnot hat.2, h.settle fun hin => absurd hin hnot⟩
  induction n generalizing offset s V with
  | zero => exact hend (by omega)
  | succ n ih =>
    rw [walk] at ht ⊢
    split_ifs at ht ⊢ with hoffset
    · have hup := walkStep_up leader offset hoffset s
      have hrun := r.walkStep_runs leader offset s
      have hstep := walkStep_explored hoffset h (hleader.symm.imp_left And.left)
      rcases hround : r.walkStep leader offset s with ⟨u, next⟩
      rw [hround] at ht hup hrun hstep
      cases next with
      | none => exact hstep ht
      | some next =>
        have hu := CfgScanner.not_halted_of_later (r.walk_runs leader n next u).later ht
        obtain ⟨W, hsub, hmem, hexplored⟩ := hstep hu
        have hless := hup next rfl
        have hend' : ¬ next < r.length →
            ∃ W', W ⊆ W' ∧ leader ∈ W' ∧ r.Explored u W' none := fun hnot =>
          ⟨W, subset_rfl, hmem, hexplored.settle fun hin => absurd hin hnot⟩
        obtain ⟨W', hsub', hrest⟩ := ih next (by omega) hexplored (Or.inl hmem) ht hend'
        exact ⟨W', hsub.trans hsub', hrest⟩
    · exact hend hoffset

theorem walk_leadersOk (leader n offset : Nat) (h : s.LeadersOk r.length) :
    (r.walk leader n offset s).LeadersOk r.length := by
  induction n generalizing offset s with
  | zero => exact h
  | succ n ih =>
    have hstep := walkStep_leadersOk leader offset h
    rw [walk]
    split_ifs
    · rcases hround : r.walkStep leader offset s with ⟨u, next⟩
      rw [hround] at hstep
      cases next with
      | none => exact hstep
      | some next => exact ih next hstep
    · exact h

/-- The rounds over the leaders: those before the cursor are explored. -/
structure Discovering (r : CfgRange σ) (c : Nat × CfgScanner σ) : Prop where
  leadersOk : c.2.LeadersOk r.length
  cursor : c.1 ≤ c.2.leaders.length
  explored : c.2.halted = false →
    ∃ V, r.Explored c.2 V none ∧ ∀ leader ∈ c.2.leaders.take c.1, leader ∈ V

theorem discoverRound_spec {c d : Nat × CfgScanner σ} (hround : r.discoverRound c = some d) :
    ∃ leader, c.2.leaders[c.1]? = some leader ∧ c.2.halted = false ∧
      d = (c.1+1,r.walk leader r.length leader c.2) := by
  unfold discoverRound at hround
  split at hround
  · cases hround
  · rename_i leader hleader
    split_ifs at hround with hhalted
    exact ⟨leader, hleader, Bool.not_eq_true _ ▸ hhalted, (Option.some.inj hround).symm⟩

theorem Discovering.round {c d : Nat × CfgScanner σ} (h : r.Discovering c)
    (hround : r.discoverRound c = some d) : r.Discovering d := by
  obtain ⟨leader, hleader, hhalted, rfl⟩ := discoverRound_spec hround
  have hlater := (r.walk_runs leader r.length leader c.2).later
  obtain ⟨hcursor, hget⟩ := List.getElem?_eq_some_iff.mp hleader
  refine ⟨walk_leadersOk leader _ leader h.leadersOk, ?_, fun ht => ?_⟩
  · exact Nat.le_trans hcursor hlater.leaders.length_le
  · obtain ⟨V, hexplored, hV⟩ := h.explored hhalted
    have hinside := h.leadersOk.inside leader (List.mem_of_getElem? hleader)
    have hpending : r.Explored c.2 V (some leader) :=
      ⟨hexplored.inside, hexplored.known, hexplored.target, hexplored.conditional,
        fun o ho slot hslot hstops hnext =>
          (hexplored.onward o ho slot hslot hstops hnext).imp_right fun hor =>
            Or.inl (hor.resolve_right nofun)⟩
    obtain ⟨W, hsub, hmem, hW⟩ := walk_explored r.length leader (Nat.sub_le _ _) hpending
      (Or.inr ⟨rfl, hinside⟩) ht
    refine ⟨W, hW, fun l hl => ?_⟩
    have htake : (r.walk leader r.length leader c.2).leaders.take (c.1+1) =
        c.2.leaders.take c.1 ++ [leader] := by
      obtain ⟨rest, hrest⟩ := hlater.leaders
      rw [← hrest, List.take_append_of_le_length hcursor, List.take_succ_eq_append_getElem hcursor,
        hget]
    rw [htake] at hl
    rcases List.mem_append.mp hl with hold | hnew
    · exact hsub (hV l hold)
    · rw [List.mem_singleton.mp hnew]
      exact hmem

theorem discovering_start (r : CfgRange σ) (st : σ) :
    r.Discovering (0,(r.start st).addLeader r.length 0) := by
  have hstart : (r.start st).LeadersOk r.length :=
    ⟨List.nodup_nil, by simp [start], Nat.zero_le _⟩
  refine ⟨hstart.addLeader 0, Nat.zero_le _, fun _ => ⟨∅, ⟨?_, ?_, ?_, ?_, ?_⟩, by simp⟩⟩
  all_goals exact fun o ho => absurd ho (Set.notMem_empty o)

/-- The work list of leaders runs dry. -/
theorem discoverLeaders_returns (r : CfgRange σ) (st : σ) :
    ∃ t, r.discoverLeaders (r.start st) = some t := by
  obtain ⟨c, hc⟩ := loop_terminates_of r.discoverRound r.Discovering
    (fun c d hround hc => hc.round hround) (fun c => cfgMaxBlocks-c.1)
    (fun c d hc hround => by
      obtain ⟨leader, hleader, -, rfl⟩ := discoverRound_spec hround
      have hcursor := (List.getElem?_eq_some_iff.mp hleader).1
      have hlimit := hc.leadersOk.limit
      simp only
      omega)
    (cfgMaxBlocks+1) _ (r.discovering_start st) (by simp only; omega)
  exact ⟨c.2, by rw [discoverLeaders, hc]; rfl⟩

/-- A scan that has not failed has explored its leaders. -/
theorem discoverLeaders_explored {st : σ} (ht : r.discoverLeaders (r.start st) = some t) :
    t.LeadersOk r.length ∧
      (t.halted = false → ∃ V, r.Explored t V none ∧ ∀ leader ∈ t.leaders, leader ∈ V) := by
  obtain ⟨c, hloop, rfl⟩ := Option.map_eq_some_iff.mp ht
  have hdone := loop_invariant r.discoverRound r.Discovering (fun c d hround hc => hc.round hround)
    _ _ _ hloop (r.discovering_start st)
  have hstable := loop_stable r.discoverRound _ _ _ hloop
  refine ⟨hdone.leadersOk, fun hhalted => ?_⟩
  obtain ⟨V, hV, hmem⟩ := hdone.explored hhalted
  refine ⟨V, hV, fun leader hleader => hmem leader ?_⟩
  have hcursor : c.2.leaders.length ≤ c.1 := by
    unfold discoverRound at hstable
    split at hstable
    · exact List.getElem?_eq_none_iff.mp ‹_›
    · rw [hhalted] at hstable
      cases hstable
  rw [List.take_of_length_le hcursor]
  exact hleader

/-- The start of the range is the first leader. -/
theorem discoverLeaders_entry {st : σ} (ht : r.discoverLeaders (r.start st) = some t)
    (hhalted : t.halted = false) (hlength : 0 < r.length) : 0 ∈ t.leaders := by
  obtain ⟨c, hloop, rfl⟩ := Option.map_eq_some_iff.mp ht
  refine loop_invariant r.discoverRound (fun c => c.2.halted = false → 0 ∈ c.2.leaders) ?_ _ _ _ hloop
    (CfgScanner.mem_addLeader hlength) hhalted
  intro c d hround hc hd
  obtain ⟨leader, -, hbefore, rfl⟩ := discoverRound_spec hround
  exact (r.walk_runs leader r.length leader c.2).later.leaders.subset (hc hbefore)

end CfgRange

end DSigMatcher.Cfg
