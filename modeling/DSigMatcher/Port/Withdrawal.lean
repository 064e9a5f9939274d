import DSigMatcher.Framework.Assign
import DSigMatcher.Framework.Loop
import DSigMatcher.Port.Decision
import Mathlib.Data.List.Forall2

namespace DSigMatcher.Port
open DSigMatcher.Base DSigMatcher.Framework

/-- The two label columns a port writes: name and mangled_function. -/
abbrev Labels := Option Text × Option Text

section
variable {ρ : Type} {reference target : LabelTable}

def appliedEntries (es : List (PlanEntry ρ reference target)) :
    List (PlanEntry ρ reference target) :=
  es.filter fun e => e.decision.action = .applied

def PlanEntry.writtenLabels (e : PlanEntry ρ reference target) : Labels :=
  (e.decision.referenceName, some e.decision.writtenMangled)

/-- `FinalName` and `FinalMangled`: the target's labels under the applied decisions. -/
def finalLabels (es : List (PlanEntry ρ reference target)) : List Labels :=
  assignAll (target.rows.map fun row => (row.name, row.mangled))
    ((appliedEntries es).map fun e => (e.resolved.targetIndex.val, e.writtenLabels))

/-- `NameCount` and `MangledCount`: rows that carry a portable name in one column. -/
def portableCount (column : Labels → Option Text) (labels : List Labels) (name : Text) : Nat :=
  labels.countP fun l => isPortableName (column l) && column l == some name

/-- An application whose name or mangled name would stand on two rows. -/
def clashes (es : List (PlanEntry ρ reference target)) (e : PlanEntry ρ reference target) : Bool :=
  e.decision.action = .applied &&
    (1 < portableCount Prod.fst (finalLabels es) (e.decision.referenceName.getD []) ||
      1 < portableCount Prod.snd (finalLabels es) e.decision.writtenMangled)

def PlanEntry.withdraw (e : PlanEntry ρ reference target) : PlanEntry ρ reference target :=
  { e with decision :=
    { e.decision with action := .skippedDuplicateName, writtenMangled := [] } }

/-- One round of pass 2; `none` when nothing changed. -/
def withdrawRound (es : List (PlanEntry ρ reference target)) :
    Option (List (PlanEntry ρ reference target)) :=
  if es.any (clashes es) then some (es.map fun e => if clashes es e then e.withdraw else e)
  else none

/-- Pass 2 touches an entry at most once, and only an applied one. -/
def Withdrawn (e e' : PlanEntry ρ reference target) : Prop :=
  e' = e ∨ e.decision.action = .applied ∧ e' = e.withdraw

theorem withdrawRound_withdrawn (es es' : List (PlanEntry ρ reference target))
    (h : withdrawRound es = some es') : List.Forall₂ Withdrawn es es' := by
  unfold withdrawRound at h
  split_ifs at h with hany
  obtain rfl := Option.some.inj h
  rw [List.forall₂_map_right_iff, List.forall₂_same]
  intro e _
  split_ifs with hc
  · rw [clashes, Bool.and_eq_true] at hc
    exact .inr ⟨of_decide_eq_true hc.1, rfl⟩
  · exact .inl rfl

theorem Withdrawn.trans {e f g : PlanEntry ρ reference target} (hef : Withdrawn e f)
    (hfg : Withdrawn f g) : Withdrawn e g := by
  rcases hef with rfl | ⟨he, rfl⟩
  · exact hfg
  · rcases hfg with rfl | ⟨hf, -⟩
    · exact .inr ⟨he, rfl⟩
    · cases hf

private theorem forall₂_withdrawn_trans (es fs gs : List (PlanEntry ρ reference target))
    (h : List.Forall₂ Withdrawn es fs) (h' : List.Forall₂ Withdrawn fs gs) :
    List.Forall₂ Withdrawn es gs := by
  induction h generalizing gs with
  | nil => exact h'
  | cons hef _ ih =>
    cases h' with
    | cons hfg h' => exact .cons (hef.trans hfg) (ih _ h')

/-- Withdrawing only ever takes applications away. -/
theorem appliedEntries_sublist (es es' : List (PlanEntry ρ reference target))
    (h : List.Forall₂ Withdrawn es es') : (appliedEntries es').Sublist (appliedEntries es) := by
  induction h with
  | nil => exact List.Sublist.refl _
  | cons hee' _ ih =>
    rcases hee' with rfl | ⟨he, rfl⟩
    · unfold appliedEntries
      rw [List.filter_cons, List.filter_cons]
      split_ifs
      · exact ih.cons_cons _
      · exact ih
    · unfold appliedEntries
      rw [List.filter_cons_of_neg (by simp [PlanEntry.withdraw]),
        List.filter_cons_of_pos (by simpa using he)]
      exact ih.cons _

theorem mem_appliedEntries (es : List (PlanEntry ρ reference target))
    (e : PlanEntry ρ reference target) :
    e ∈ appliedEntries es ↔ e ∈ es ∧ e.decision.action = .applied := by
  simp [appliedEntries]

/-- A round that changes something leaves fewer applications. -/
theorem withdrawRound_decreases (es es' : List (PlanEntry ρ reference target))
    (h : withdrawRound es = some es') :
    (appliedEntries es').length < (appliedEntries es).length := by
  have hsub := appliedEntries_sublist es es' (withdrawRound_withdrawn es es' h)
  refine Nat.lt_of_le_of_ne hsub.length_le fun hlen => ?_
  have heq := hsub.eq_of_length hlen
  unfold withdrawRound at h
  split_ifs at h with hany
  obtain rfl := Option.some.inj h
  obtain ⟨e, he, hc⟩ := List.any_eq_true.mp hany
  have happ : e.decision.action = .applied := by
    rw [clashes, Bool.and_eq_true] at hc
    exact of_decide_eq_true hc.1
  have hmem := (mem_appliedEntries es e).mpr ⟨he, happ⟩
  rw [← heq, mem_appliedEntries] at hmem
  obtain ⟨f, -, hf⟩ := List.mem_map.mp hmem.1
  split_ifs at hf with hcf
  · subst hf
    cases happ
  · subst hf
    exact hcf hc

theorem withdrawn_resolved {ds es : List (PlanEntry ρ reference target)}
    (h : List.Forall₂ Withdrawn ds es) :
    es.map PlanEntry.resolved = ds.map PlanEntry.resolved := by
  induction h with
  | nil => rfl
  | cons hde _ ih =>
    rcases hde with rfl | ⟨-, rfl⟩ <;> rw [List.map_cons, List.map_cons, ih]
    rfl

/-- What holds of every decision of pass 1 and survives a withdrawal holds of the plan. -/
theorem withdrawn_all (P : PlanEntry ρ reference target → Prop)
    (hP : ∀ e, e.decision.action = .applied → P e → P e.withdraw)
    {ds es : List (PlanEntry ρ reference target)} (h : List.Forall₂ Withdrawn ds es)
    (hds : ∀ e ∈ ds, P e) : ∀ e ∈ es, P e := by
  induction h with
  | nil => simp
  | cons hde _ ih =>
    rw [List.forall_mem_cons] at hds ⊢
    refine ⟨?_, ih hds.2⟩
    rcases hde with rfl | ⟨happ, rfl⟩
    · exact hds.1
    · exact hP _ happ hds.1

end

section
variable {ρ : Type} [Zero ρ] [One ρ] [Mul ρ] [LT ρ] [DecidableLT ρ]
variable {reference target : LabelTable}
variable (options : PlanOptions ρ) (origins : List (NameOrigin ρ)) (appliedAt : Text)

theorem decisionPass_applied (claimed : List (Fin target.rows.length))
    (rs : List (ResolvedProposal ρ reference target)) :
    ∀ e ∈ appliedEntries (decisionPass options origins appliedAt claimed rs),
      e.resolved.targetIndex ∉ claimed ∧
      ∃ name, AppliedFacts options origins appliedAt e.resolved e name := by
  induction rs generalizing claimed with
  | nil => simp [decisionPass, appliedEntries]
  | cons r rs ih =>
    intro e he
    obtain ⟨he, happ⟩ := (mem_appliedEntries _ e).mp he
    rcases List.mem_cons.mp he with rfl | he
    · simpa using planEntry_applied options origins appliedAt claimed r happ
    · obtain ⟨hc, hfacts⟩ := ih _ e ((mem_appliedEntries _ e).mpr ⟨he, happ⟩)
      refine ⟨fun hmem => hc ?_, hfacts⟩
      split_ifs
      · exact List.mem_cons_of_mem _ hmem
      · exact hmem

/-- Applied decisions of pass 1 have distinct target rows. -/
theorem decisionPass_nodup (claimed : List (Fin target.rows.length))
    (rs : List (ResolvedProposal ρ reference target)) :
    ((appliedEntries (decisionPass options origins appliedAt claimed rs)).map
      (·.resolved.targetIndex)).Nodup := by
  induction rs generalizing claimed with
  | nil => simp [decisionPass, appliedEntries]
  | cons r rs ih =>
    unfold decisionPass appliedEntries
    by_cases happ : (planEntry options origins appliedAt claimed r).decision.action = .applied
    · rw [List.filter_cons_of_pos (by simpa using happ), List.map_cons, List.nodup_cons]
      refine ⟨?_, ih _⟩
      intro hmem
      obtain ⟨e, he, hei⟩ := List.mem_map.mp hmem
      obtain ⟨-, name, hf⟩ := planEntry_applied options origins appliedAt claimed r happ
      apply (decisionPass_applied options origins appliedAt _ rs e he).1
      rw [if_pos hf.selected, hei, planEntry_resolved]
      exact List.mem_cons_self
    · rw [List.filter_cons_of_neg (by simpa using happ)]
      exact ih _

/-- Both passes, within `rounds` rounds of the second. -/
def planLabels (rounds : Nat) (rs : List (ResolvedProposal ρ reference target)) :
    Option (List (PlanEntry ρ reference target)) :=
  loop withdrawRound rounds (decisionPass options origins appliedAt [] rs)

/-- What the plan is: pass 1 with some applications withdrawn, stable under one more round. -/
structure Planned (rs : List (ResolvedProposal ρ reference target))
    (es : List (PlanEntry ρ reference target)) : Prop where
  withdrawn : List.Forall₂ Withdrawn (decisionPass options origins appliedAt [] rs) es
  stable : withdrawRound es = none

/-- Pass 2 ends within one round more than there are proposals. -/
theorem planLabels_terminates (rs : List (ResolvedProposal ρ reference target)) :
    ∃ es, Planned options origins appliedAt rs es ∧
      ∀ k, planLabels options origins appliedAt (rs.length+1+k) rs = some es := by
  have hlen : (appliedEntries (decisionPass options origins appliedAt [] rs)).length ≤
      rs.length := by
    have h := congrArg List.length (decisionPass_resolved options origins appliedAt [] rs)
    rw [List.length_map] at h
    exact h ▸ List.length_filter_le _ _
  obtain ⟨es, hes⟩ := loop_terminates withdrawRound (fun es => (appliedEntries es).length)
    (fun es es' => withdrawRound_decreases es es') (rs.length+1)
    (decisionPass options origins appliedAt [] rs) (by omega)
  refine ⟨es, ⟨?_, loop_stable _ _ _ _ hes⟩, fun k => loop_mono _ _ _ _ _ (by omega) hes⟩
  refine loop_invariant withdrawRound
    (List.Forall₂ Withdrawn (decisionPass options origins appliedAt [] rs)) ?_ _ _ _ hes ?_
  · intro s t ht hs
    exact forall₂_withdrawn_trans _ s t hs (withdrawRound_withdrawn s t ht)
  · exact List.forall₂_same.mpr fun _ _ => .inl rfl

end

end DSigMatcher.Port
