import DSigMatcher.Port.Write
import Mathlib.Algebra.Order.Ring.Rat

namespace DSigMatcher.Port
open DSigMatcher.Base DSigMatcher.Framework

/-- The counters a port reports. -/
@[ext] structure PortCounters where
  proposals : Nat
  selected : Nat
  namesApplied : Nat := 0
  namesConfirmed : Nat := 0
  namesSkippedNotPortable : Nat := 0
  namesSkippedConflict : Nat := 0
  namesSkippedHops : Nat := 0
  namesSkippedRatio : Nat := 0
  namesSkippedExisting : Nat := 0
  namesSkippedDuplicate : Nat := 0
  deriving DecidableEq

namespace PortCounters

/-- The counter loop after pass 2. -/
def count (c : PortCounters) : LabelAction → PortCounters
  | .applied => { c with namesApplied := c.namesApplied+1 }
  | .confirmed => { c with namesConfirmed := c.namesConfirmed+1 }
  | .skippedNotPortable => { c with namesSkippedNotPortable := c.namesSkippedNotPortable+1 }
  | .skippedConflict => { c with namesSkippedConflict := c.namesSkippedConflict+1 }
  | .skippedHops => { c with namesSkippedHops := c.namesSkippedHops+1 }
  | .skippedRatio => { c with namesSkippedRatio := c.namesSkippedRatio+1 }
  | .skippedExisting => { c with namesSkippedExisting := c.namesSkippedExisting+1 }
  | .skippedDuplicateName => { c with namesSkippedDuplicate := c.namesSkippedDuplicate+1 }
  | .notSelected => c

/-- Every action but `notSelected`. -/
def decided (c : PortCounters) : Nat :=
  c.namesApplied + c.namesConfirmed + c.namesSkippedNotPortable + c.namesSkippedConflict +
    c.namesSkippedHops + c.namesSkippedRatio + c.namesSkippedExisting + c.namesSkippedDuplicate

@[simp] theorem count_selected (c : PortCounters) (a : LabelAction) :
    (c.count a).selected = c.selected := by
  cases a <;> rfl

theorem count_decided (c : PortCounters) (a : LabelAction) :
    (c.count a).decided = c.decided + if a = .notSelected then 0 else 1 := by
  cases a
  all_goals simp only [count, decided, reduceCtorEq, if_true, if_false]
  all_goals omega

theorem foldl_count (c : PortCounters) (actions : List LabelAction) :
    (actions.foldl count c).selected = c.selected ∧
    (actions.foldl count c).decided =
      c.decided + actions.countP fun a => !decide (a = .notSelected) := by
  induction actions generalizing c with
  | nil => simp
  | cons a actions ih =>
    rw [List.foldl_cons, (ih _).1, (ih _).2, count_selected, count_decided, List.countP_cons]
    refine ⟨rfl, ?_⟩
    by_cases ha : a = .notSelected
    · simp [ha]
    · simp [ha]
      omega

end PortCounters

section
variable {ρ : Type} {reference target : LabelTable}

def portCounters (rs : List (ResolvedProposal ρ reference target))
    (es : List (PlanEntry ρ reference target)) : PortCounters :=
  (es.map (·.decision.action)).foldl PortCounters.count
    { proposals := rs.length, selected := rs.countP (·.proposal.selected) }

end

section
variable {ρ : Type} [Zero ρ] [One ρ] [Mul ρ] [LT ρ] [DecidableLT ρ]
variable {reference target : LabelTable}
variable {options : PlanOptions ρ} {origins : List (NameOrigin ρ)} {appliedAt : Text}
variable {rs : List (ResolvedProposal ρ reference target)}
variable {es : List (PlanEntry ρ reference target)}

theorem decisionPass_notSelected (options : PlanOptions ρ) (origins : List (NameOrigin ρ))
    (appliedAt : Text) (claimed : List (Fin target.rows.length))
    (rs : List (ResolvedProposal ρ reference target)) :
    ∀ e ∈ decisionPass options origins appliedAt claimed rs,
      (e.decision.action = .notSelected ↔ e.resolved.proposal.selected = false) := by
  induction rs generalizing claimed with
  | nil => simp [decisionPass]
  | cons r rs ih =>
    intro e he
    rcases List.mem_cons.mp he with rfl | he
    · rw [planEntry_resolved]
      exact (planEntry_action options origins appliedAt claimed r).2
    · exact ih _ e he

namespace Planned

theorem resolved (h : Planned options origins appliedAt rs es) :
    es.map PlanEntry.resolved = rs := by
  rw [withdrawn_resolved h.withdrawn, decisionPass_resolved]

theorem notSelected (h : Planned options origins appliedAt rs es) :
    ∀ e ∈ es, (e.decision.action = .notSelected ↔ e.resolved.proposal.selected = false) := by
  refine withdrawn_all _ ?_ h.withdrawn
    (decisionPass_notSelected options origins appliedAt [] rs)
  intro e happ he
  rw [happ] at he
  simpa [PlanEntry.withdraw] using he

/-- `Selected` is the sum of the other counters. -/
theorem counters_add_up (h : Planned options origins appliedAt rs es) :
    (portCounters rs es).selected = (portCounters rs es).decided := by
  unfold portCounters
  rw [(PortCounters.foldl_count _ _).1, (PortCounters.foldl_count _ _).2, List.countP_map]
  simp only [PortCounters.decided, Nat.zero_add]
  rw [← h.resolved, List.countP_map]
  refine List.countP_congr fun e he => ?_
  have hs := h.notSelected e he
  cases hsel : e.resolved.proposal.selected <;> simp_all

theorem writable (h : Planned options origins appliedAt rs es) : Writable es where
  address e he := by
    obtain ⟨name, hf⟩ := h.facts e he
    rw [hf.entry_eq, nameEntry_targetAddress, nameEntry_resolved]
  name e he := by
    obtain ⟨name, hf⟩ := h.facts e he
    exact ⟨name, hf.referenceName⟩

/-- The written table: planned rows at the applied targets, all other rows as they were. -/
theorem written (h : Planned options origins appliedAt rs es) :
    ∃ rows, writeNames (target.rows.map LabelRow.stored) es = .ok rows ∧
      (∀ e ∈ appliedEntries es, rows[e.resolved.targetIndex.val]? = some e.writtenRow) ∧
      ∀ i : Fin target.rows.length, (∀ e ∈ appliedEntries es, e.resolved.targetIndex ≠ i) →
        rows[i.val]? = some (target.rows.get i).stored := by
  refine ⟨_, writeNames_spec _ (sameAddresses_stored target) es h.writable, ?_, ?_⟩
  · intro e he
    refine assignAll_hit _ _ ?_ _ _ ?_ (List.mem_map_of_mem he)
    · have hn := h.nodup.map (fun _ _ => Fin.ext)
      rwa [List.map_map] at hn ⊢
    · rw [List.length_map]
      exact e.resolved.targetIndex.isLt
  · intro i hi
    rw [assignAll_frame]
    · simp
    · rw [List.map_map]
      intro hmem
      obtain ⟨e, he, hei⟩ := List.mem_map.mp hmem
      exact hi e he (Fin.ext hei)

end Planned

/-- Port decisions are safe for every input. -/
theorem planLabels_safe (options : PlanOptions ρ) (origins : List (NameOrigin ρ))
    (appliedAt : Text) (rs : List (ResolvedProposal ρ reference target)) :
    ∃ es rows, planLabels options origins appliedAt (rs.length+1) rs = some es ∧
      writeNames (target.rows.map LabelRow.stored) es = .ok rows ∧
      ((appliedEntries es).map (·.resolved.targetIndex)).Nodup ∧
      (∀ i : Fin target.rows.length, (∀ e ∈ appliedEntries es, e.resolved.targetIndex ≠ i) →
        rows[i.val]? = some (target.rows.get i).stored) ∧
      (∀ e ∈ appliedEntries es,
        (∃ name mangled,
          rows[e.resolved.targetIndex.val]? =
            some ⟨some e.resolved.targetRow.address, some name, some mangled⟩ ∧
          isPlaceholderName name = false ∧ isPlaceholderName mangled = false) ∧
        (isPortableName e.resolved.targetRow.name = true →
          options.overwriteExistingNames = true ∧
          (e.resolved.proposal.description = strippedDescription →
            options.overwriteStripped = true)) ∧
        ¬ e.decision.confidence < options.minCumulativeRatio ∧
        (0 ≤ options.maxHops → e.decision.hops ≤ options.maxHops)) ∧
      (portCounters rs es).selected = (portCounters rs es).decided := by
  obtain ⟨es, h, hes⟩ := planLabels_terminates options origins appliedAt rs
  obtain ⟨rows, hrows, hhit, hframe⟩ := h.written
  refine ⟨es, rows, hes 0, hrows, h.nodup, hframe, ?_, h.counters_add_up⟩
  intro e he
  obtain ⟨name, hf⟩ := h.facts e he
  refine ⟨⟨name, e.decision.writtenMangled, ?_, ?_, ?_⟩, hf.overwrite, hf.ratioFloor, hf.hopCap⟩
  · rw [hhit e he, PlanEntry.writtenRow, h.writable.address e he, hf.referenceName]
  · simpa [isPortableSymbol] using hf.portable
  · rw [hf.writtenMangled]
    simpa [isPortableSymbol] using
      writtenMangledOf_portable e.resolved.referenceRow.mangled name hf.portable

end

/-- An export with one function. -/
def singleTable (name : Text) : LabelTable where
  rows := [⟨text "4198400", some name, none⟩]
  eas := [4198400]
  parsed := congrArg (· :: [])
    (show parseDecimalAddress (text "4198400") = some 4198400 by decide)
  distinct := by decide

/-- A `loc_` name is no placeholder of the list, so a port writes it over a `sub_` name. -/
theorem planLabels_writes_loc :
    let reference := singleTable (text "loc_401000")
    let target := singleTable (text "sub_401000")
    let proposal : LabelProposal ℚ := ⟨1, text "best", text "00000", text "Same name",
      text "1.0000000", 1, 4198400, 4198400, some (text "loc_401000"), some (text "sub_401000"),
      true⟩
    let rs : List (ResolvedProposal ℚ reference target) :=
      [⟨proposal, ⟨0, Nat.one_pos⟩, ⟨0, Nat.one_pos⟩⟩]
    (planLabels { minCumulativeRatio := (0 : ℚ) } [] [] 2 rs).map
        (writeNames (target.rows.map LabelRow.stored)) =
      some (.ok [⟨some (text "4198400"), some (text "loc_401000"), some (text "loc_401000")⟩]) ∧
    startsWith (text "loc_401000") (text "loc_") = true := by
  decide +kernel

end DSigMatcher.Port
