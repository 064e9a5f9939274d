import Mathlib.Data.List.Nodup
import Mathlib.Logic.Function.Basic

namespace DSigMatcher.Framework

/-- Files by path, and every path created, renamed or deleted so far. -/
structure Disk (π κ : Type*) where
  files : π → Option κ
  touched : List π := []

namespace Disk
variable {π κ : Type*} [DecidableEq π]

/-- Delete a file; a missing file or a failing call changes nothing. -/
def remove (fails : Bool) (d : Disk π κ) (p : π) : Disk π κ :=
  if fails || (d.files p).isNone then d
  else ⟨Function.update d.files p none, p::d.touched⟩

/-- Create or truncate a file. -/
def write (d : Disk π κ) (p : π) (content : κ) : Disk π κ :=
  ⟨Function.update d.files p (some content), p::d.touched⟩

/-- Rename over; a missing source or a failing call changes nothing. -/
def rename (fails : Bool) (d : Disk π κ) (source destination : π) : Disk π κ × Bool :=
  match d.files source with
  | none => (d, false)
  | some content =>
    if fails then (d, false)
    else (⟨Function.update (Function.update d.files source none) destination (some content),
      source::destination::d.touched⟩, true)

theorem remove_frame (fails : Bool) (d : Disk π κ) (p q : π) (hq : q ≠ p) :
    (d.remove fails p).files q = d.files q := by
  unfold remove
  split_ifs
  · rfl
  · exact Function.update_of_ne hq _ _

theorem rename_failed (fails : Bool) (d : Disk π κ) (a b : π)
    (h : (d.rename fails a b).2 = false) : (d.rename fails a b).1 = d := by
  unfold rename at h ⊢
  cases hc : d.files a with
  | none => rfl
  | some c =>
    simp only [hc] at h ⊢
    split_ifs at h ⊢ with hf
    rfl

theorem rename_ok_iff (fails : Bool) (d : Disk π κ) (a b : π) :
    (d.rename fails a b).2 = true ↔ fails = false ∧ d.files a ≠ none := by
  unfold rename
  cases hc : d.files a with
  | none => simp
  | some c => cases fails <;> simp

/-- A successful rename moves the content and leaves every other path alone. -/
theorem rename_files (fails : Bool) (d : Disk π κ) (a b : π)
    (h : (d.rename fails a b).2 = true) :
    (d.rename fails a b).1.files =
      Function.update (Function.update d.files a none) b (d.files a) := by
  obtain ⟨rfl, hc⟩ := (rename_ok_iff fails d a b).mp h
  obtain ⟨c, hc⟩ := Option.ne_none_iff_exists'.mp hc
  simp [rename, hc]

theorem rename_frame (fails : Bool) (d : Disk π κ) (a b q : π) (ha : q ≠ a) (hb : q ≠ b) :
    (d.rename fails a b).1.files q = d.files q := by
  cases h : (d.rename fails a b).2 with
  | false => rw [rename_failed fails d a b h]
  | true => rw [rename_files fails d a b h, Function.update_of_ne hb, Function.update_of_ne ha]

/-- Calls that fail, by the paths they are made with. -/
structure Faults (π : Type*) where
  rename : π → π → Bool
  remove : π → Bool

/-- Move each existing file of the list aside, in order; stop at the first failure, which is
returned after the files already moved. -/
def moveAside (faults : Faults π) :
    List (π × π) → Disk π κ → List (π × π) → Disk π κ × List (π × π) × Option (π × π)
  | [], d, moved => (d, moved, none)
  | (original, aside)::rest, d, moved =>
    if (d.files original).isNone then moveAside faults rest d moved
    else
      let renamed := (d.remove (faults.remove aside) aside).rename
        (faults.rename original aside) original aside
      if renamed.2 then moveAside faults rest renamed.1 (moved ++ [(original, aside)])
      else (renamed.1, moved, some (original, aside))

/-- Move the files back; these renames succeed. -/
def restore (moved : List (π × π)) (d : Disk π κ) : Disk π κ :=
  moved.foldl (fun d m => (d.rename false m.2 m.1).1) d

/-- Delete what was moved aside. -/
def discard (faults : Faults π) (moved : List (π × π)) (d : Disk π κ) : Disk π κ :=
  moved.foldl (fun d m => d.remove (faults.remove m.2) m.2) d

/-- The moved files are found under their aside names, and nowhere else did anything change. -/
structure MovedAside (pairs : List (π × π)) (files : π → Option κ) (d : Disk π κ)
    (moved : List (π × π)) : Prop where
  present : ∀ m ∈ moved, files m.1 ≠ none
  gone : ∀ m ∈ moved, d.files m.1 = none
  kept : ∀ m ∈ moved, d.files m.2 = files m.1
  frame : ∀ p, p ∉ moved.map Prod.fst → p ∉ pairs.map Prod.snd → d.files p = files p

/-- Originals and aside names are pairwise different. -/
def Separate (pairs : List (π × π)) : Prop :=
  (pairs.map Prod.fst ++ pairs.map Prod.snd).Nodup

omit [DecidableEq π] in
theorem separate_of_sublist {pairs before after : List (π × π)} {o a : π}
    (hs : Separate pairs) (hsub : (before ++ (o,a)::after).Sublist pairs) :
    (o ∉ before.map Prod.fst ∧ o ∉ after.map Prod.fst) ∧
      (a ∉ before.map Prod.snd ∧ a ∉ after.map Prod.snd) ∧ (o,a) ∈ pairs ∧
      (∀ m ∈ pairs, o ≠ m.2) ∧ ∀ m ∈ pairs, m.1 ≠ a := by
  unfold Separate at hs
  rw [List.nodup_append] at hs
  obtain ⟨hfst, hsnd, hne⟩ := hs
  have hmem : (o,a) ∈ pairs := hsub.subset (by simp)
  have hf := hfst.sublist (hsub.map Prod.fst)
  have hsn := hsnd.sublist (hsub.map Prod.snd)
  rw [List.map_append, List.map_cons, List.nodup_append, List.nodup_cons] at hf hsn
  refine ⟨⟨fun h => hf.2.2 o h o List.mem_cons_self rfl, hf.2.1.1⟩,
    ⟨fun h => hsn.2.2 a h a List.mem_cons_self rfl, hsn.2.1.1⟩, hmem, ?_, ?_⟩
  · intro m hm
    exact hne o (List.mem_map_of_mem hmem) m.2 (List.mem_map_of_mem hm)
  · intro m hm
    exact hne m.1 (List.mem_map_of_mem hm) a (List.mem_map_of_mem hmem)

/-- Deleting a stale aside file is invisible to the bookkeeping. -/
private theorem MovedAside.remove {pairs : List (π × π)} {files : π → Option κ} {d : Disk π κ}
    {moved : List (π × π)} (h : MovedAside pairs files d moved) (fails : Bool) (a : π)
    (ha : a ∉ moved.map Prod.snd) (hp : a ∈ pairs.map Prod.snd) (hne : ∀ m ∈ moved, m.1 ≠ a) :
    MovedAside pairs files (d.remove fails a) moved where
  present := h.present
  gone m hm := by rw [remove_frame _ _ _ _ (hne m hm), h.gone m hm]
  kept m hm := by
    rw [remove_frame, h.kept m hm]
    rintro rfl
    exact ha (List.mem_map_of_mem hm)
  frame p hm hpair := by
    rw [remove_frame, h.frame p hm hpair]
    rintro rfl
    exact hpair hp

/-- One more file moved aside. -/
private theorem MovedAside.rename {pairs : List (π × π)} {files : π → Option κ} {d : Disk π κ}
    {moved : List (π × π)} (h : MovedAside pairs files d moved) (fails : Bool) (o a : π)
    (ho : o ∉ moved.map Prod.fst) (ha : a ∉ moved.map Prod.snd) (hmem : (o,a) ∈ pairs)
    (hoa : ∀ m ∈ pairs, o ≠ m.2) (hao : ∀ m ∈ pairs, m.1 ≠ a) (hsub : moved ⊆ pairs)
    (hok : (d.rename fails o a).2 = true) :
    MovedAside pairs files (d.rename fails o a).1 (moved ++ [(o,a)]) := by
  have hfile : d.files o = files o := by
    refine h.frame o ho fun hp => ?_
    obtain ⟨m, hm, hmo⟩ := List.mem_map.mp hp
    exact hoa m hm hmo.symm
  have hfiles := rename_files fails d o a hok
  refine ⟨?_, ?_, ?_, ?_⟩
  · intro m hm
    rcases List.mem_append.mp hm with hold | hnew
    · exact h.present m hold
    · obtain rfl := List.mem_singleton.mp hnew
      exact hfile ▸ ((rename_ok_iff fails d o a).mp hok).2
  · intro m hm
    rcases List.mem_append.mp hm with hold | hnew
    · rw [rename_frame, h.gone m hold]
      · rintro rfl
        exact ho (List.mem_map_of_mem hold)
      · exact hao m (hsub hold)
    · obtain rfl := List.mem_singleton.mp hnew
      rw [hfiles, Function.update_of_ne (hao _ hmem), Function.update_self]
  · intro m hm
    rcases List.mem_append.mp hm with hold | hnew
    · rw [rename_frame, h.kept m hold]
      · exact (hoa m (hsub hold)).symm
      · rintro rfl
        exact ha (List.mem_map_of_mem hold)
    · obtain rfl := List.mem_singleton.mp hnew
      rw [hfiles, Function.update_self, hfile]
  · intro p hm hp
    rw [List.map_append, List.mem_append, not_or] at hm
    rw [rename_frame, h.frame p hm.1 hp]
    · rintro rfl
      exact hm.2 (by simp)
    · rintro rfl
      exact hp (List.mem_map_of_mem hmem)

omit [DecidableEq π] in
theorem MovedAside.original {pairs : List (π × π)} {files : π → Option κ} {d : Disk π κ}
    {moved : List (π × π)} (h : MovedAside pairs files d moved) (o : π)
    (ho : o ∉ moved.map Prod.fst) (hoa : ∀ m ∈ pairs, o ≠ m.2) : d.files o = files o := by
  refine h.frame o ho fun hp => ?_
  obtain ⟨m, hm, hmo⟩ := List.mem_map.mp hp
  exact hoa m hm hmo.symm

/-- The loop keeps its bookkeeping, and succeeds exactly when no move of an existing file fails. -/
theorem moveAside_spec (faults : Faults π) {pairs : List (π × π)} (hs : Separate pairs)
    (files : π → Option κ) (rest : List (π × π)) (d : Disk π κ) (moved : List (π × π))
    (hsub : (moved ++ rest).Sublist pairs) (h : MovedAside pairs files d moved) :
    MovedAside pairs files (moveAside faults rest d moved).1
      (moveAside faults rest d moved).2.1 ∧
    (moveAside faults rest d moved).2.1.Sublist pairs ∧
    ((moveAside faults rest d moved).2.2 = none →
      ∀ m ∈ moved ++ rest, files m.1 ≠ none → m ∈ (moveAside faults rest d moved).2.1) ∧
    ((moveAside faults rest d moved).2.2 = none ↔
      ∀ m ∈ rest, files m.1 ≠ none → faults.rename m.1 m.2 = false) := by
  induction rest generalizing d moved with
  | nil =>
    rw [List.append_nil] at hsub
    simpa [moveAside] using ⟨h, hsub, fun a b hm _ => hm⟩
  | cons m rest ih =>
    obtain ⟨o, a⟩ := m
    obtain ⟨⟨ho, -⟩, ⟨ha, -⟩, hmem, hoa, hao⟩ := separate_of_sublist hs hsub
    have hfile := h.original o ho hoa
    have hold : moved ⊆ pairs := fun m hm => hsub.subset (List.mem_append_left _ hm)
    unfold moveAside
    by_cases hnone : (d.files o).isNone = true
    · rw [if_pos hnone]
      have hskip : (moved ++ rest).Sublist pairs :=
        (List.Sublist.append_left (List.sublist_cons_self _ _) _).trans hsub
      have ho' : files o = none := by rwa [hfile, Option.isNone_iff_eq_none] at hnone
      obtain ⟨h1, h2, h3, h4⟩ := ih d moved hskip h
      refine ⟨h1, h2, ?_, ?_⟩
      · intro hok m hm hne
        refine h3 hok m ?_ hne
        rcases List.mem_append.mp hm with hm | hm
        · exact List.mem_append_left _ hm
        · rcases List.mem_cons.mp hm with rfl | hm
          · exact absurd ho' hne
          · exact List.mem_append_right _ hm
      · rw [h4, List.forall_mem_cons]
        exact ⟨fun hr => ⟨fun hne => absurd ho' hne, hr⟩, And.right⟩
    · rw [if_neg hnone]
      have ho' : files o ≠ none := by
        rwa [hfile, Option.isNone_iff_eq_none] at hnone
      have h' := h.remove (faults.remove a) a ha (List.mem_map_of_mem hmem)
        (fun m hm => hao m (hold hm))
      have hfile' := h'.original o ho hoa
      have hiff := rename_ok_iff (faults.rename o a) (d.remove (faults.remove a) a) o a
      cases hr : ((d.remove (faults.remove a) a).rename (faults.rename o a) o a).2 with
      | false =>
        have hd := rename_failed _ _ _ _ hr
        have hfault : faults.rename o a ≠ false := by
          intro hf
          have := hiff.mpr ⟨hf, hfile' ▸ ho'⟩
          rw [hr] at this
          cases this
        simp only [hr, Bool.false_eq_true, if_false, hd]
        refine ⟨h', (List.sublist_append_left _ _).trans hsub, fun hok => absurd hok (by simp), ?_⟩
        simp only [reduceCtorEq, false_iff]
        exact fun hall => hfault (hall (o,a) List.mem_cons_self ho')
      | true =>
        have hfault := (hiff.mp hr).1
        simp only [hr, if_true]
        have happ : moved ++ (o,a)::rest = (moved ++ [(o,a)]) ++ rest := by simp
        rw [happ] at hsub ⊢
        obtain ⟨h1, h2, h3, h4⟩ := ih _ _ hsub
          (h'.rename (faults.rename o a) o a ho ha hmem hoa hao hold hr)
        refine ⟨h1, h2, h3, ?_⟩
        rw [h4, List.forall_mem_cons]
        exact ⟨fun hall => ⟨fun _ => hfault, hall⟩, And.right⟩

/-- Moving the files back undoes everything outside the aside names. -/
theorem restore_spec {pairs : List (π × π)} (hs : Separate pairs) (files : π → Option κ)
    (moved : List (π × π)) (d : Disk π κ) (hsub : moved.Sublist pairs)
    (h : MovedAside pairs files d moved) (p : π) (hp : p ∉ pairs.map Prod.snd) :
    (restore moved d).files p = files p := by
  induction moved generalizing d with
  | nil => exact h.frame p (by simp) hp
  | cons m moved ih =>
    obtain ⟨o, a⟩ := m
    have hsub' : ([] ++ (o,a)::moved).Sublist pairs := hsub
    obtain ⟨⟨-, ho⟩, ⟨-, ha⟩, hmem, hoa, hao⟩ := separate_of_sublist hs hsub'
    have hmoved : moved ⊆ pairs := fun m hm => hsub.subset (List.mem_cons_of_mem _ hm)
    have hkept := h.kept (o,a) List.mem_cons_self
    have hok : (d.rename false a o).2 = true :=
      (rename_ok_iff false d a o).mpr ⟨rfl, hkept ▸ h.present (o,a) List.mem_cons_self⟩
    refine ih (d.rename false a o).1 ((List.sublist_cons_self _ _).trans hsub) ⟨?_, ?_, ?_, ?_⟩
    · exact fun m hm => h.present m (List.mem_cons_of_mem _ hm)
    · intro m hm
      rw [rename_frame, h.gone m (List.mem_cons_of_mem _ hm)]
      · exact hao m (hmoved hm)
      · rintro rfl
        exact ho (List.mem_map_of_mem hm)
    · intro m hm
      rw [rename_frame, h.kept m (List.mem_cons_of_mem _ hm)]
      · rintro rfl
        exact ha (List.mem_map_of_mem hm)
      · exact (hoa m (hmoved hm)).symm
    · intro q hq hqs
      by_cases hqo : q = o
      · subst hqo
        rw [rename_files false d a q hok, Function.update_self, hkept]
      · rw [rename_frame _ _ _ _ _ _ hqo, h.frame q]
        · rw [List.map_cons, List.mem_cons, not_or]
          exact ⟨hqo, hq⟩
        · exact hqs
        · rintro rfl
          exact hqs (List.mem_map_of_mem hmem)

/-- A rename leaves nothing under the old name. -/
theorem rename_source_gone (d : Disk π κ) (a b : π) (hab : a ≠ b) :
    (d.rename false a b).1.files a = none := by
  cases hr : (d.rename false a b).2 with
  | true => rw [rename_files false d a b hr, Function.update_of_ne hab, Function.update_self]
  | false =>
    rw [rename_failed false d a b hr]
    by_contra hne
    have hok := (rename_ok_iff false d a b).mpr ⟨rfl, hne⟩
    rw [hr] at hok
    cases hok

/-- Nothing is left under an aside name once the files are moved back. -/
theorem restore_gone (moved : List (π × π)) (d : Disk π κ) (a : π)
    (h : a ∈ moved.map Prod.snd ∨ d.files a = none) (hne : ∀ m ∈ moved, a ≠ m.1) :
    (restore moved d).files a = none := by
  induction moved generalizing d with
  | nil => exact h.resolve_left (by simp)
  | cons m moved ih =>
    rw [List.forall_mem_cons] at hne
    refine ih (d.rename false m.2 m.1).1 ?_ hne.2
    by_cases ham : a = m.2
    · right
      rw [ham] at hne ⊢
      exact rename_source_gone d m.2 m.1 hne.1
    · rw [List.map_cons, List.mem_cons] at h
      rcases h with (h | h) | h
      · exact absurd h ham
      · exact Or.inl h
      · right
        rw [rename_frame _ _ _ _ _ ham hne.1, h]

theorem discard_frame (faults : Faults π) (moved : List (π × π)) (d : Disk π κ) (p : π)
    (hp : p ∉ moved.map Prod.snd) : (discard faults moved d).files p = d.files p := by
  induction moved generalizing d with
  | nil => rfl
  | cons m moved ih =>
    rw [List.map_cons, List.mem_cons, not_or] at hp
    exact (ih _ hp.2).trans (remove_frame _ _ _ _ hp.1)

end Disk

end DSigMatcher.Framework
