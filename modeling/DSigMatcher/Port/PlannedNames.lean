import DSigMatcher.Port.Withdrawal

namespace DSigMatcher.Port
open DSigMatcher.Base DSigMatcher.Framework

section
variable {ρ : Type} {reference target : LabelTable}

/-- A column of one row of the planned output. -/
def plannedLabel (column : Labels → Option Text) (es : List (PlanEntry ρ reference target))
    (i : Fin target.rows.length) : Option Text :=
  ((finalLabels es)[i.val]?).bind column

/-- A column of one row of the target. -/
def targetLabel (column : Labels → Option Text) (i : Fin target.rows.length) : Option Text :=
  column ((target.rows.get i).name, (target.rows.get i).mangled)

theorem finalLabels_applied (es : List (PlanEntry ρ reference target))
    (hn : ((appliedEntries es).map (·.resolved.targetIndex)).Nodup)
    (e : PlanEntry ρ reference target) (he : e ∈ appliedEntries es) :
    (finalLabels es)[e.resolved.targetIndex.val]? = some e.writtenLabels := by
  refine assignAll_hit _ _ ?_ _ _ ?_ (List.mem_map_of_mem he)
  · have h := hn.map (fun _ _ => Fin.ext)
    rwa [List.map_map] at h ⊢
  · rw [List.length_map]
    exact e.resolved.targetIndex.isLt

theorem finalLabels_frame (es : List (PlanEntry ρ reference target))
    (i : Fin target.rows.length) (hi : ∀ e ∈ appliedEntries es, e.resolved.targetIndex ≠ i) :
    (finalLabels es)[i.val]? = some ((target.rows.get i).name, (target.rows.get i).mangled) := by
  unfold finalLabels
  rw [assignAll_frame]
  · simp
  · rw [List.map_map]
    intro hmem
    obtain ⟨e, he, hei⟩ := List.mem_map.mp hmem
    exact hi e he (Fin.ext hei)

theorem plannedLabel_applied (column : Labels → Option Text)
    (es : List (PlanEntry ρ reference target))
    (hn : ((appliedEntries es).map (·.resolved.targetIndex)).Nodup)
    (e : PlanEntry ρ reference target) (he : e ∈ appliedEntries es) :
    plannedLabel column es e.resolved.targetIndex = column e.writtenLabels := by
  rw [plannedLabel, finalLabels_applied es hn e he, Option.bind_some]

theorem plannedLabel_frame (column : Labels → Option Text)
    (es : List (PlanEntry ρ reference target))
    (i : Fin target.rows.length) (hi : ∀ e ∈ appliedEntries es, e.resolved.targetIndex ≠ i) :
    plannedLabel column es i = targetLabel column i := by
  rw [plannedLabel, finalLabels_frame es i hi, Option.bind_some, targetLabel]

/-- Two rows with one portable label are counted. -/
theorem portableCount_of_twice (column : Labels → Option Text)
    (es : List (PlanEntry ρ reference target)) (i j : Fin target.rows.length) (hij : i ≠ j)
    (name : Text) (hp : isPortableSymbol name = true)
    (hi : plannedLabel column es i = some name) (hj : plannedLabel column es j = some name) :
    1 < portableCount column (finalLabels es) name := by
  unfold plannedLabel at hi hj
  obtain ⟨a, ha, hca⟩ := Option.bind_eq_some_iff.mp hi
  obtain ⟨b, hb, hcb⟩ := Option.bind_eq_some_iff.mp hj
  refine one_lt_countP _ _ i.val j.val (fun h => hij (Fin.ext h)) a b ha hb ?_ ?_
  · simp [hca, isPortableName, hp]
  · simp [hcb, isPortableName, hp]

end

section
variable {ρ : Type} [Zero ρ] [One ρ] [Mul ρ] [LT ρ] [DecidableLT ρ]
variable {reference target : LabelTable}
variable {options : PlanOptions ρ} {origins : List (NameOrigin ρ)} {appliedAt : Text}
variable {rs : List (ResolvedProposal ρ reference target)}
variable {es : List (PlanEntry ρ reference target)}

namespace Planned

theorem sublist (h : Planned options origins appliedAt rs es) :
    (appliedEntries es).Sublist
      (appliedEntries (decisionPass options origins appliedAt [] rs)) :=
  appliedEntries_sublist _ es h.withdrawn

theorem nodup (h : Planned options origins appliedAt rs es) :
    ((appliedEntries es).map (·.resolved.targetIndex)).Nodup :=
  (decisionPass_nodup options origins appliedAt [] rs).sublist (h.sublist.map _)

theorem facts (h : Planned options origins appliedAt rs es) (e : PlanEntry ρ reference target)
    (he : e ∈ appliedEntries es) :
    ∃ name, AppliedFacts options origins appliedAt e.resolved e name :=
  (decisionPass_applied options origins appliedAt [] rs e (h.sublist.subset he)).2

theorem count_le (h : Planned options origins appliedAt rs es)
    (e : PlanEntry ρ reference target) (he : e ∈ appliedEntries es) :
    portableCount Prod.fst (finalLabels es) (e.decision.referenceName.getD []) ≤ 1 ∧
    portableCount Prod.snd (finalLabels es) e.decision.writtenMangled ≤ 1 := by
  obtain ⟨hmem, happ⟩ := (mem_appliedEntries es e).mp he
  have hs := h.stable
  unfold withdrawRound at hs
  split_ifs at hs with hany
  have hc : clashes es e ≠ true := fun hc => hany (List.any_eq_true.mpr ⟨e, hmem, hc⟩)
  simpa [clashes, happ] using hc

/-- A portable label on two planned rows was on both before the port. -/
theorem twice_unchanged (h : Planned options origins appliedAt rs es)
    (column : Labels → Option Text)
    (hcol : ∀ e ∈ appliedEntries es, ∀ name, column e.writtenLabels = some name →
      portableCount column (finalLabels es) name ≤ 1)
    (i j : Fin target.rows.length) (hij : i ≠ j) (name : Text)
    (hp : isPortableSymbol name = true) (hi : plannedLabel column es i = some name)
    (hj : plannedLabel column es j = some name) : targetLabel column i = some name := by
  have htwo := portableCount_of_twice column es i j hij name hp hi hj
  rw [← plannedLabel_frame column es i, hi]
  rintro e he rfl
  rw [plannedLabel_applied column es h.nodup e he] at hi
  have := hcol e he name hi
  omega

theorem name_count (h : Planned options origins appliedAt rs es)
    (e : PlanEntry ρ reference target) (he : e ∈ appliedEntries es) (name : Text)
    (hn : e.writtenLabels.1 = some name) :
    portableCount Prod.fst (finalLabels es) name ≤ 1 := by
  have hc := (h.count_le e he).1
  rwa [show e.decision.referenceName = some name from hn] at hc

theorem mangled_count (h : Planned options origins appliedAt rs es)
    (e : PlanEntry ρ reference target) (he : e ∈ appliedEntries es) (name : Text)
    (hn : e.writtenLabels.2 = some name) :
    portableCount Prod.snd (finalLabels es) name ≤ 1 := by
  have hc := (h.count_le e he).2
  rwa [show e.decision.writtenMangled = name from Option.some.inj hn] at hc

/-- A label an application writes stands on its own row and on no other. -/
theorem written_once (h : Planned options origins appliedAt rs es)
    (column : Labels → Option Text) (e : PlanEntry ρ reference target)
    (he : e ∈ appliedEntries es) (name : Text) (hp : isPortableSymbol name = true)
    (hn : column e.writtenLabels = some name)
    (hcount : portableCount column (finalLabels es) name ≤ 1) :
    ∃! i, plannedLabel column es i = some name := by
  have hown := plannedLabel_applied column es h.nodup e he
  rw [hn] at hown
  refine ⟨e.resolved.targetIndex, hown, fun j hj => ?_⟩
  by_contra hne
  have := portableCount_of_twice column es j _ hne name hp hj hown
  omega

end Planned

/-- A port never leaves an applied name duplicated, and the withdrawal loop ends: every applied
name and mangled name stands on exactly one planned row, and a portable name on two planned rows
was on both before. -/
theorem planLabels_unique (options : PlanOptions ρ) (origins : List (NameOrigin ρ))
    (appliedAt : Text) (rs : List (ResolvedProposal ρ reference target)) :
    ∃ es, (∀ k, planLabels options origins appliedAt (rs.length+1+k) rs = some es) ∧
      (∀ e ∈ es, e.decision.action = .applied →
        (∃ name, e.decision.referenceName = some name ∧
          ∃! i, plannedLabel Prod.fst es i = some name) ∧
        ∃! i, plannedLabel Prod.snd es i = some e.decision.writtenMangled) ∧
      ∀ i j name, i ≠ j → isPortableSymbol name = true →
        plannedLabel Prod.fst es i = some name → plannedLabel Prod.fst es j = some name →
        (target.rows.get i).name = some name ∧ (target.rows.get j).name = some name := by
  obtain ⟨es, h, hes⟩ := planLabels_terminates options origins appliedAt rs
  refine ⟨es, hes, ?_, ?_⟩
  · intro e hmem happ
    have he := (mem_appliedEntries es e).mpr ⟨hmem, happ⟩
    obtain ⟨name, hf⟩ := h.facts e he
    refine ⟨⟨name, hf.referenceName, ?_⟩, ?_⟩
    · exact h.written_once Prod.fst e he name hf.portable hf.referenceName
        (h.name_count e he name hf.referenceName)
    · refine h.written_once Prod.snd e he _ ?_ rfl (h.mangled_count e he _ rfl)
      rw [hf.writtenMangled]
      exact writtenMangledOf_portable _ name hf.portable
  · intro i j name hij hp hi hj
    exact ⟨h.twice_unchanged Prod.fst h.name_count i j hij name hp hi hj,
      h.twice_unchanged Prod.fst h.name_count j i hij.symm name hp hj hi⟩

end

end DSigMatcher.Port
