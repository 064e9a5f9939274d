import DSigMatcher.Framework.Disk
import Mathlib.Data.Set.Basic

namespace DSigMatcher.Framework.Disk
variable {π κ : Type*}

/-- `d'` comes from `d` by steps that touch no path outside `S`. -/
structure Only (S : Set π) (d d' : Disk π κ) : Prop where
  mono : d.touched ⊆ d'.touched
  within : ∀ p ∈ d'.touched, p ∈ d.touched ∨ p ∈ S
  frame : ∀ p, p ∉ S → d'.files p = d.files p

namespace Only

theorem refl (S : Set π) (d : Disk π κ) : Only S d d :=
  ⟨List.Subset.refl _, fun _ hp => .inl hp, fun _ _ => rfl⟩

theorem trans {S : Set π} {d e f : Disk π κ} (hde : Only S d e) (hef : Only S e f) :
    Only S d f where
  mono _ hp := hef.mono (hde.mono hp)
  within p hp := (hef.within p hp).elim (hde.within p) .inr
  frame p hp := (hef.frame p hp).trans (hde.frame p hp)

theorem weaken {S T : Set π} {d e : Disk π κ} (h : Only S d e) (hST : S ⊆ T) : Only T d e where
  mono := h.mono
  within p hp := (h.within p hp).imp id (@hST p)
  frame p hp := h.frame p fun hs => hp (hST hs)

end Only

variable [DecidableEq π]

theorem remove_only (fails : Bool) (d : Disk π κ) (p : π) {S : Set π} (hp : p ∈ S) :
    Only S d (d.remove fails p) := by
  refine ⟨?_, ?_, fun q hq => remove_frame fails d p q fun h => hq (h ▸ hp)⟩
  · unfold remove
    split_ifs
    · exact List.Subset.refl _
    · exact List.subset_cons_self _ _
  · unfold remove
    split_ifs
    · exact fun q hq => .inl hq
    · intro q hq
      rcases List.mem_cons.mp hq with rfl | hq
      · exact .inr hp
      · exact .inl hq

theorem write_only (d : Disk π κ) (p : π) (content : κ) {S : Set π} (hp : p ∈ S) :
    Only S d (d.write p content) where
  mono := List.subset_cons_self _ _
  within q hq := by
    rcases List.mem_cons.mp hq with rfl | hq
    · exact .inr hp
    · exact .inl hq
  frame q hq := by
    refine Function.update_of_ne ?_ _ _
    rintro rfl
    exact hq hp

theorem rename_only (fails : Bool) (d : Disk π κ) (a b : π) {S : Set π} (ha : a ∈ S)
    (hb : b ∈ S) : Only S d (d.rename fails a b).1 := by
  unfold rename
  cases hc : d.files a with
  | none => exact Only.refl S d
  | some c =>
    dsimp only
    split_ifs
    · exact Only.refl S d
    · refine ⟨fun q hq => List.mem_cons_of_mem _ (List.mem_cons_of_mem _ hq), ?_, ?_⟩
      · intro q hq
        rcases List.mem_cons.mp hq with rfl | hq
        · exact .inr ha
        · rcases List.mem_cons.mp hq with rfl | hq
          · exact .inr hb
          · exact .inl hq
      · intro q hq
        have hqa : q ≠ a := fun h => hq (h.symm ▸ ha)
        have hqb : q ≠ b := fun h => hq (h.symm ▸ hb)
        exact (Function.update_of_ne hqb _ _).trans (Function.update_of_ne hqa _ _)

theorem rename_touches (d : Disk π κ) (fails : Bool) (a b : π)
    (hok : (d.rename fails a b).2 = true) : b ∈ (d.rename fails a b).1.touched := by
  obtain ⟨rfl, hc⟩ := (rename_ok_iff fails d a b).mp hok
  obtain ⟨c, hc⟩ := Option.ne_none_iff_exists'.mp hc
  simp [rename, hc]

theorem remove_touches (d : Disk π κ) (fails : Bool) (p : π) (hp : d.files p ≠ none)
    (hf : fails = false) : p ∈ (d.remove fails p).touched := by
  subst hf
  simp [remove, Option.isNone_iff_eq_none, hp]

theorem remove_idle (fails : Bool) (d : Disk π κ) (p : π)
    (h : ¬ ((d.files p).isSome && !fails) = true) : d.remove fails p = d := by
  unfold remove
  rw [if_pos]
  cases fails <;> cases hp : d.files p <;> simp_all

omit [DecidableEq π] in
/-- Steps that each stay within `S` do so in any number. -/
theorem foldl_only {α : Type*} (step : Disk π κ → α → Disk π κ) (l : List α) (d : Disk π κ)
    {S : Set π} (hstep : ∀ a ∈ l, ∀ e, Only S e (step e a)) : Only S d (l.foldl step d) := by
  induction l generalizing d with
  | nil => exact Only.refl S d
  | cons a l ih =>
    rw [List.forall_mem_cons] at hstep
    exact (hstep.1 d).trans (ih _ hstep.2)

theorem restore_only (moved : List (π × π)) (d : Disk π κ) {S : Set π}
    (hm : ∀ m ∈ moved, m.1 ∈ S ∧ m.2 ∈ S) : Only S d (restore moved d) :=
  foldl_only _ moved d fun m hmem e => rename_only false e m.2 m.1 (hm m hmem).2 (hm m hmem).1

theorem discard_only (faults : Faults π) (moved : List (π × π)) (d : Disk π κ) {S : Set π}
    (hm : ∀ m ∈ moved, m.2 ∈ S) : Only S d (discard faults moved d) :=
  foldl_only _ moved d fun m hmem e => remove_only (faults.remove m.2) e m.2 (hm m hmem)

/-- The aside names a run of `moveAside` deletes or creates. -/
def asidesTouched (faults : Faults π) (files : π → Option κ) : List (π × π) → List π
  | [] => []
  | (original, aside)::rest =>
    if (files original).isNone then asidesTouched faults files rest
    else if faults.rename original aside then
      if (files aside).isSome && !faults.remove aside then [aside] else []
    else aside::asidesTouched faults files rest

omit [DecidableEq π] in
theorem asidesTouched_subset (faults : Faults π) (files : π → Option κ)
    (pairs : List (π × π)) : asidesTouched faults files pairs ⊆ pairs.map Prod.snd := by
  induction pairs with
  | nil => exact List.Subset.refl _
  | cons m rest ih =>
    obtain ⟨o, a⟩ := m
    unfold asidesTouched
    have hrest : asidesTouched faults files rest ⊆ ((o,a)::rest).map Prod.snd :=
      fun p hp => List.mem_cons_of_mem _ (ih hp)
    split_ifs
    · exact hrest
    · simp
    · simp
    · exact List.cons_subset.mpr ⟨List.mem_cons_self, hrest⟩

/-- `moveAside` touches the originals it moves and exactly those aside names. -/
theorem moveAside_touched (faults : Faults π) (files : π → Option κ) (rest : List (π × π))
    (hs : Separate rest) (d : Disk π κ) (moved : List (π × π))
    (hfiles : ∀ m ∈ rest, d.files m.1 = files m.1 ∧ d.files m.2 = files m.2) :
    Only (fun p => p ∈ rest.map Prod.fst ∨ p ∈ asidesTouched faults files rest) d
      (moveAside faults rest d moved).1 ∧
    asidesTouched faults files rest ⊆ (moveAside faults rest d moved).1.touched ∧
    ∀ m ∈ (moveAside faults rest d moved).2.1,
      m ∈ moved ∨ m ∈ rest ∧ m.2 ∈ asidesTouched faults files rest := by
  induction rest generalizing d moved with
  | nil => exact ⟨Only.refl _ d, List.nil_subset _, fun m hm => .inl hm⟩
  | cons m rest ih =>
    obtain ⟨o, a⟩ := m
    have hsub : ([] ++ (o,a)::rest).Sublist ((o,a)::rest) := List.Sublist.refl _
    obtain ⟨⟨-, ho⟩, ⟨-, ha⟩, hmem, hoa, hao⟩ := separate_of_sublist hs hsub
    rw [List.forall_mem_cons] at hfiles
    obtain ⟨⟨hfo, hfa⟩, hrest⟩ := hfiles
    have hsrest : Separate rest := by
      refine List.Nodup.sublist ?_ hs
      exact ((List.sublist_cons_self _ _).map _).append ((List.sublist_cons_self _ _).map _)
    unfold moveAside asidesTouched
    rw [hfo]
    by_cases hnone : (files o).isNone = true
    · rw [if_pos hnone, if_pos hnone]
      obtain ⟨h1, h2, h3⟩ := ih hsrest d moved hrest
      refine ⟨h1.weaken ?_, h2, ?_⟩
      · exact fun p hp => hp.imp (List.mem_cons_of_mem _) id
      · exact fun m hm => (h3 m hm).imp id fun h => ⟨List.mem_cons_of_mem _ h.1, h.2⟩
    rw [if_neg hnone, if_neg hnone]
    have hne : files o ≠ none := by rwa [Option.isNone_iff_eq_none] at hnone
    have hro : (d.remove (faults.remove a) a).files o = files o :=
      (remove_frame _ _ _ _ (hao _ hmem)).trans hfo
    have hiff := rename_ok_iff (faults.rename o a) (d.remove (faults.remove a) a) o a
    cases hfault : faults.rename o a with
    | true =>
      have hbad : ((d.remove (faults.remove a) a).rename true o a).2 = false := by
        rw [← Bool.not_eq_true]
        exact fun hok => absurd ((rename_ok_iff _ _ _ _).mp hok).1 (by simp)
      simp only [hbad, Bool.false_eq_true, if_false, if_true, rename_failed _ _ _ _ hbad]
      rw [← hfa]
      by_cases hc : ((d.files a).isSome && !faults.remove a) = true
      · rw [if_pos hc]
        rw [Bool.and_eq_true, Bool.not_eq_true', Option.isSome_iff_ne_none] at hc
        refine ⟨remove_only _ d a (.inr List.mem_cons_self), ?_, fun m hm => .inl hm⟩
        exact List.cons_subset.mpr ⟨remove_touches d _ a hc.1 hc.2, List.nil_subset _⟩
      · rw [if_neg hc, remove_idle _ d a hc]
        exact ⟨Only.refl _ d, List.nil_subset _, fun m hm => .inl hm⟩
    | false =>
      rw [hfault] at hiff
      have hok := hiff.mpr ⟨rfl, hro ▸ hne⟩
      simp only [hok, Bool.false_eq_true, if_true, if_false]
      have hrest' : ∀ m ∈ rest,
          ((d.remove (faults.remove a) a).rename false o a).1.files m.1 = files m.1 ∧
          ((d.remove (faults.remove a) a).rename false o a).1.files m.2 = files m.2 := by
        intro m hm
        have hm1 : m.1 ≠ a := hao m (List.mem_cons_of_mem _ hm)
        have hm1o : m.1 ≠ o := fun h => ho (h ▸ List.mem_map_of_mem hm)
        have hm2 : m.2 ≠ o := (hoa m (List.mem_cons_of_mem _ hm)).symm
        have hm2a : m.2 ≠ a := fun h => ha (h ▸ List.mem_map_of_mem hm)
        rw [rename_frame _ _ _ _ _ hm1o hm1, rename_frame _ _ _ _ _ hm2 hm2a,
          remove_frame _ _ _ _ hm1, remove_frame _ _ _ _ hm2a]
        exact hrest m hm
      obtain ⟨h1, h2, h3⟩ := ih hsrest _ (moved ++ [(o,a)]) hrest'
      refine ⟨?_, ?_, ?_⟩
      · refine ((remove_only _ d a ?_).trans (rename_only false _ o a ?_ ?_)).trans (h1.weaken ?_)
        · exact .inr List.mem_cons_self
        · exact .inl List.mem_cons_self
        · exact .inr List.mem_cons_self
        · exact fun p hp => hp.imp (List.mem_cons_of_mem _) (List.mem_cons_of_mem _)
      · exact List.cons_subset.mpr ⟨h1.mono (rename_touches _ _ _ _ hok), h2⟩
      · intro m hm
        rcases h3 m hm with hm | ⟨hm, ht⟩
        · rcases List.mem_append.mp hm with hm | hm
          · exact .inl hm
          · obtain rfl := List.mem_singleton.mp hm
            exact .inr ⟨List.mem_cons_self, List.mem_cons_self⟩
        · exact .inr ⟨List.mem_cons_of_mem _ hm, List.mem_cons_of_mem _ ht⟩

end DSigMatcher.Framework.Disk
