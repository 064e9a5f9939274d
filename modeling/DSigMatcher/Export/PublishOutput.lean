import DSigMatcher.Base.Text
import DSigMatcher.Framework.Disk

namespace DSigMatcher.Export
open DSigMatcher.Base DSigMatcher.Framework

/-- `EXIT_OUTPUT`. -/
def exitOutput : Nat := 19

/-- What a step raises: the driver's own error, or an OSError that nobody catches. -/
inductive PublishError
  | exportError (code : Nat) (message : Text)
  | osError (message : Text)
  deriving DecidableEq

/-- How `shutil.copyfile` goes: an OSError may leave a cut copy behind. -/
inductive CopyFile (κ : Type)
  | raises (left : Option κ)
  | completes

/-- The calls of one run that raise an OSError, by their arguments, and what the errors say. -/
structure PublishEnvironment (κ : Type) where
  copy : CopyFile κ
  faults : Disk.Faults Text
  osMessage : Text → Text → Text

/-- Files that belong to the database at an output path. -/
def outputSidecars : List Text := [text "-wal", text "-shm", text "-journal", text "-crash"]

def stagingPath (output : Text) (pid : Nat) : Text := output ++ (text ".dsig-tmp-" ++ decimal pid)

def movedPath (path : Text) (pid : Nat) : Text := path ++ (text ".dsig-old-" ++ decimal pid)

/-- Each sidecar with the name it is moved aside under. -/
def asidePairs (output : Text) (pid : Nat) : List (Text × Text) :=
  outputSidecars.map fun suffix => (output ++ suffix,movedPath (output ++ suffix) pid)

section
variable {κ : Type} (env : PublishEnvironment κ)

/-- `shutil.copyfile`; a file is not copied onto itself. -/
def copyfile (source destination : Text) (d : Disk Text κ) : Disk Text κ × Option Text :=
  match d.files source with
  | none => (d, some (env.osMessage source destination))
  | some content =>
    if source = destination then (d, some (env.osMessage source destination))
    else
      match env.copy with
      | .raises left => (left.elim d (d.write destination), some (env.osMessage source destination))
      | .completes => (d.write destination content, none)

/-- `RemoveIfFile`, and whether it raises. -/
def removeIfFile (path : Text) (d : Disk Text κ) : Disk Text κ × Option Text :=
  (d.remove (env.faults.remove path) path,
    if (d.files path).isSome && env.faults.remove path then some (env.osMessage path []) else none)

/-- The loop over `OUTPUT_SIDECARS`: what was moved so far, and the move that raised. -/
def replaceAside : List (Text × Text) → Disk Text κ → List (Text × Text) →
    Disk Text κ × List (Text × Text) × Option (Text × Text)
  | [], d, aside => (d, aside, none)
  | (path,moved)::rest, d, aside =>
    if (d.files path).isNone then replaceAside rest d aside
    else
      let renamed := d.rename (env.faults.rename path moved) path moved
      if renamed.2 then replaceAside rest renamed.1 (aside ++ [(path,moved)])
      else (renamed.1, aside, some (path,moved))

/-- The undo loop, over what was moved in reverse; the names that could not be moved back. -/
def moveBack : List (Text × Text) → Disk Text κ → List Text → Disk Text κ × List Text
  | [], d, kept => (d, kept)
  | (path,moved)::rest, d, kept =>
    let renamed := d.rename (env.faults.rename moved path) moved path
    moveBack rest renamed.1 (if renamed.2 then kept else kept ++ [moved])

/-- The handler of a failed move: undo, remove the staging copy, raise. -/
def undoPublish (output staging : Text) (aside : List (Text × Text)) (failed : Text × Text)
    (d : Disk Text κ) : Disk Text κ × Option PublishError :=
  let (d, kept) := moveBack env aside.reverse d []
  let removed := removeIfFile env staging d
  match removed.2 with
  | some message => (removed.1, some (.osError message))
  | none => (removed.1, some (.exportError exitOutput
      (text "cannot write the output " ++ output ++ text ": " ++ env.osMessage failed.1 failed.2 ++
        if kept.isEmpty then text "; the previous output was left as it was"
        else text " (the previous output's sidecars could not be moved back and are kept as " ++
          List.intercalate (text ", ") kept ++ text ")")))

/-- `PublishOutput`. -/
def publishOutput (source output : Text) (pid : Nat) (d : Disk Text κ) :
    Disk Text κ × Option PublishError :=
  let staging := stagingPath output pid
  let copied := copyfile env source staging d
  match copied.2 with
  | some message =>
    let removed := removeIfFile env staging copied.1
    match removed.2 with
    | some message => (removed.1, some (.osError message))
    | none => (removed.1, some (.exportError exitOutput
        (text "cannot write the output " ++ output ++ text ": " ++ message)))
  | none =>
    let (d, aside, failed) := replaceAside env (asidePairs output pid) copied.1 []
    match failed with
    | some failed => undoPublish env output staging aside failed d
    | none =>
      let renamed := d.rename (env.faults.rename staging output) staging output
      if !renamed.2 then undoPublish env output staging aside (staging,output) renamed.1
      -- a moved file that cannot be removed is only warned about
      else (Disk.discard env.faults aside renamed.1, none)

end

theorem sidecar_plain : ∀ suffix ∈ outputSidecars, (46 : UInt8) ∉ suffix ∧ suffix ≠ [] := by decide

theorem asidePairs_separate (output : Text) (pid : Nat) :
    Disk.Separate (asidePairs output pid) := by
  have hnodup : outputSidecars.Nodup := by decide
  have hfst : (asidePairs output pid).map Prod.fst = outputSidecars.map (output ++ ·) := by
    simp [asidePairs, Function.comp_def]
  have hsnd : (asidePairs output pid).map Prod.snd =
      outputSidecars.map fun suffix => movedPath (output ++ suffix) pid := by
    simp [asidePairs, Function.comp_def]
  rw [Disk.Separate, hfst, hsnd, List.nodup_append]
  refine ⟨hnodup.map (List.append_right_injective output), ?_, ?_⟩
  · refine hnodup.map fun a b hab => ?_
    exact List.append_cancel_left (List.append_cancel_right hab)
  · intro p hp q hq hpq
    obtain ⟨a, ha, rfl⟩ := List.mem_map.mp hp
    obtain ⟨b, hb, rfl⟩ := List.mem_map.mp hq
    rw [movedPath, List.append_assoc] at hpq
    have hab := List.append_cancel_left hpq
    apply (sidecar_plain a ha).1
    rw [hab]
    simp [text]

/-- The staging name is none of the names beside the output. -/
theorem staging_ne (output : Text) (pid : Nat) :
    stagingPath output pid ≠ output ∧ ∀ m ∈ asidePairs output pid,
      stagingPath output pid ≠ m.1 ∧ stagingPath output pid ≠ m.2 := by
  have hhead : ∀ suffix ∈ outputSidecars, suffix.head? = some 45 := by decide
  have hstaging : (text ".dsig-tmp-" ++ decimal pid).head? = some 46 := rfl
  refine ⟨fun h => ?_, fun m hm => ?_⟩
  · have hnil := List.append_right_eq_self.mp h
    rw [hnil] at hstaging
    cases hstaging
  · obtain ⟨suffix, hs, rfl⟩ := List.mem_map.mp hm
    have hdash := hhead suffix hs
    constructor
    · intro h
      rw [List.append_cancel_left h, hdash] at hstaging
      cases hstaging
    · intro h
      dsimp only [movedPath] at h
      rw [List.append_assoc] at h
      rw [List.append_cancel_left h, List.head?_append, hdash] at hstaging
      cases hstaging

theorem output_ne (output : Text) (pid : Nat) :
    ∀ m ∈ asidePairs output pid, output ≠ m.1 ∧ output ≠ m.2 := by
  intro m hm
  obtain ⟨suffix, hs, rfl⟩ := List.mem_map.mp hm
  have hne := (sidecar_plain suffix hs).2
  constructor
  · intro h
    exact hne (List.append_right_eq_self.mp h.symm)
  · intro h
    dsimp only [movedPath] at h
    rw [List.append_assoc] at h
    exact hne (List.append_eq_nil_iff.mp (List.append_right_eq_self.mp h.symm)).1

section
variable {κ : Type} (env : PublishEnvironment κ)

theorem copyfile_frame (source staging : Text) (d : Disk Text κ) (p : Text) (hp : p ≠ staging) :
    (copyfile env source staging d).1.files p = d.files p := by
  unfold copyfile
  split
  · rfl
  · split_ifs
    · rfl
    · split
      · rename_i left _
        cases left with
        | none => rfl
        | some content => exact Function.update_of_ne hp _ _
      · exact Function.update_of_ne hp _ _

theorem copyfile_ok (source staging : Text) (d : Disk Text κ)
    (h : (copyfile env source staging d).2 = none) :
    d.files source ≠ none ∧ (copyfile env source staging d).1.files staging = d.files source := by
  unfold copyfile at h ⊢
  cases hs : d.files source with
  | none => simp [hs] at h
  | some content =>
    simp only [hs] at h ⊢
    split_ifs at h ⊢
    cases hc : env.copy with
    | raises left => simp [hc] at h
    | completes => exact ⟨by simp, Function.update_self _ _ _⟩

/-- The loop is `moveAside` without the deletion before each move. -/
theorem replaceAside_eq (rest : List (Text × Text)) (d : Disk Text κ)
    (aside : List (Text × Text)) :
    replaceAside env rest d aside =
      Disk.moveAside ⟨env.faults.rename, fun _ => true⟩ rest d aside := by
  induction rest generalizing d aside with
  | nil => rfl
  | cons m rest ih =>
    obtain ⟨path, moved⟩ := m
    have hremove : d.remove true moved = d := by simp [Disk.remove]
    simp only [replaceAside, Disk.moveAside, hremove, ih]

theorem moveBack_eq (moved : List (Text × Text)) (d : Disk Text κ) (kept : List Text)
    (hback : ∀ m ∈ moved, env.faults.rename m.2 m.1 = false) :
    (moveBack env moved d kept).1 = Disk.restore moved d := by
  induction moved generalizing d kept with
  | nil => rfl
  | cons m moved ih =>
    obtain ⟨path, aside⟩ := m
    rw [List.forall_mem_cons] at hback
    simp only [moveBack]
    rw [ih _ _ hback.2, hback.1]
    rfl

/-- Names that the loop has nothing to do with, the aside names of files it did not move included. -/
theorem replaceAside_frame (rest : List (Text × Text)) (d : Disk Text κ)
    (aside : List (Text × Text)) (p : Text) (hfst : p ∉ rest.map Prod.fst) :
    aside ⊆ (replaceAside env rest d aside).2.1 ∧
      (p ∉ (replaceAside env rest d aside).2.1.map Prod.snd →
        (replaceAside env rest d aside).1.files p = d.files p) := by
  induction rest generalizing d aside with
  | nil => exact ⟨List.Subset.refl _, fun _ => rfl⟩
  | cons m rest ih =>
    obtain ⟨path, moved⟩ := m
    rw [List.map_cons, List.mem_cons, not_or] at hfst
    unfold replaceAside
    split_ifs with hnone
    · exact ih d aside hfst.2
    · cases hr : (d.rename (env.faults.rename path moved) path moved).2 with
      | false =>
        have hsame := Disk.rename_failed _ _ _ _ hr
        simp only [hr, Bool.false_eq_true, if_false, hsame, implies_true, and_true]
        exact List.Subset.refl _
      | true =>
        simp only [hr, if_true]
        obtain ⟨hsub, hframe⟩ := ih (d.rename (env.faults.rename path moved) path moved).1
          (aside ++ [(path,moved)]) hfst.2
        refine ⟨fun m hm => hsub (List.mem_append_left _ hm), fun hp => ?_⟩
        have hmoved : p ≠ moved := by
          rintro rfl
          exact hp (List.mem_map_of_mem (hsub (List.mem_append_right aside List.mem_cons_self)))
        rw [hframe hp, Disk.rename_frame _ _ _ _ _ hfst.1 hmoved]

end

/-- The previous output and its sidecars as they were, and nothing of the failed run. -/
structure Unpublished {κ : Type} (output : Text) (pid : Nat) (before after : Disk Text κ) :
    Prop where
  same : ∀ suffix ∈ []::outputSidecars,
    after.files (output ++ suffix) = before.files (output ++ suffix)
  noStaging : after.files (stagingPath output pid) = none
  noMoved : ∀ suffix ∈ outputSidecars, after.files (movedPath (output ++ suffix) pid) = none

/-- The output is a copy of the source, with no sidecar beside it. -/
structure Published {κ : Type} (source output : Text) (before after : Disk Text κ) : Prop where
  exported : before.files source ≠ none
  copy : after.files output = before.files source
  alone : ∀ suffix ∈ outputSidecars, after.files (output ++ suffix) = none

section
variable {κ : Type} (env : PublishEnvironment κ) (source output : Text) (pid : Nat)

/-- Sidecars moved aside while everything else stayed as it was. -/
structure Aside (before d : Disk Text κ) (aside : List (Text × Text)) : Prop where
  moved : Disk.MovedAside (asidePairs output pid) before.files d aside
  sublist : aside.Sublist (asidePairs output pid)
  frame : ∀ m ∈ asidePairs output pid, m ∉ aside → d.files m.2 = before.files m.2

theorem not_mem_of_ne (p : Text) (pairs : List (Text × Text))
    (h : ∀ m ∈ pairs, p ≠ m.1 ∧ p ≠ m.2) : p ∉ pairs.map Prod.fst ∧ p ∉ pairs.map Prod.snd := by
  constructor
  · intro hp
    obtain ⟨m, hm, hmp⟩ := List.mem_map.mp hp
    exact (h m hm).1 hmp.symm
  · intro hp
    obtain ⟨m, hm, hmp⟩ := List.mem_map.mp hp
    exact (h m hm).2 hmp.symm

theorem sidecar_ne_aside (suffix : Text) (hs : suffix ∈ outputSidecars) :
    ∀ m ∈ asidePairs output pid, output ++ suffix ≠ m.2 := by
  have hmem : (output ++ suffix,movedPath (output ++ suffix) pid) ∈ asidePairs output pid :=
    List.mem_map_of_mem hs
  have hsub : ([] ++ [(output ++ suffix,movedPath (output ++ suffix) pid)]).Sublist
      (asidePairs output pid) := List.singleton_sublist.mpr hmem
  obtain ⟨-, -, -, hoa, -⟩ := Disk.separate_of_sublist (asidePairs_separate output pid) hsub
  exact hoa

/-- The aside name of a pair is in the list of aside names only with its pair. -/
theorem aside_mem_iff (aside : List (Text × Text)) (hsub : aside ⊆ asidePairs output pid)
    (m : Text × Text) (hm : m ∈ asidePairs output pid) (h : m.2 ∈ aside.map Prod.snd) :
    m ∈ aside := by
  obtain ⟨n, hn, hnm⟩ := List.mem_map.mp h
  obtain ⟨a, ha, rfl⟩ := List.mem_map.mp hm
  obtain ⟨b, hb, rfl⟩ := List.mem_map.mp (hsub hn)
  have hab : b = a := List.append_cancel_left (List.append_cancel_right hnm)
  rwa [hab] at hn

theorem replaceAside_aside (d : Disk Text κ) :
    Aside output pid d (replaceAside env (asidePairs output pid) d []).1
      (replaceAside env (asidePairs output pid) d []).2.1 ∧
    ((replaceAside env (asidePairs output pid) d []).2.2 = none →
      ∀ m ∈ asidePairs output pid, d.files m.1 ≠ none →
        m ∈ (replaceAside env (asidePairs output pid) d []).2.1) := by
  have hs := asidePairs_separate output pid
  obtain ⟨hmoved, hsub, hall, -⟩ := Disk.moveAside_spec ⟨env.faults.rename, fun _ => true⟩ hs
    d.files (asidePairs output pid) d [] (by simp)
    ⟨by simp, by simp, by simp, fun _ _ _ => rfl⟩
  rw [← replaceAside_eq] at hmoved hsub hall
  refine ⟨⟨hmoved, hsub, fun m hm hnot => ?_⟩, by simpa using hall⟩
  have hfst : m.2 ∉ (asidePairs output pid).map Prod.fst := by
    intro hp
    obtain ⟨n, hn, hnm⟩ := List.mem_map.mp hp
    obtain ⟨suffix, hsuffix, rfl⟩ := List.mem_map.mp hn
    exact sidecar_ne_aside output pid suffix hsuffix m hm hnm
  refine (replaceAside_frame env _ d [] m.2 hfst).2 fun hp => ?_
  exact hnot (aside_mem_iff output pid _ hsub.subset m hm hp)

/-- Undoing the moves and removing the staging copy. -/
theorem undoPublish_unpublished {before d : Disk Text κ} {aside : List (Text × Text)}
    (h : Aside output pid before d aside) (failed : Text × Text)
    (hback : ∀ m ∈ asidePairs output pid, env.faults.rename m.2 m.1 = false)
    (hstaging : env.faults.remove (stagingPath output pid) = false)
    (hnone : ∀ m ∈ asidePairs output pid, before.files m.2 = none) :
    (∃ message, (undoPublish env output (stagingPath output pid) aside failed d).2 =
      some (.exportError exitOutput message)) ∧
    Unpublished output pid before
      (undoPublish env output (stagingPath output pid) aside failed d).1 := by
  obtain ⟨hmoved, hsub, hframe⟩ := h
  have hsubset : ∀ m ∈ aside.reverse, m ∈ asidePairs output pid :=
    fun m hm => hsub.subset (List.mem_reverse.mp hm)
  have hrestore := moveBack_eq env aside.reverse d [] fun m hm => hback m (hsubset m hm)
  have hstep : (undoPublish env output (stagingPath output pid) aside failed d).1 =
      (Disk.restore aside.reverse d).remove false (stagingPath output pid) := by
    simp only [undoPublish, removeIfFile, hstaging, Bool.and_false, Bool.false_eq_true, if_false,
      hrestore]
  -- the same loop over the reversed lists
  have hreversed : Disk.MovedAside (asidePairs output pid).reverse before.files d aside.reverse :=
    ⟨fun m hm => hmoved.present m (List.mem_reverse.mp hm),
      fun m hm => hmoved.gone m (List.mem_reverse.mp hm),
      fun m hm => hmoved.kept m (List.mem_reverse.mp hm),
      fun p hp hq => hmoved.frame p (by simpa using hp) (by simpa using hq)⟩
  have hseparate : Disk.Separate (asidePairs output pid).reverse := by
    have hs := asidePairs_separate output pid
    rw [Disk.Separate, List.map_reverse, List.map_reverse]
    exact ((List.reverse_perm _).append (List.reverse_perm _)).nodup_iff.mpr hs
  have hback' := Disk.restore_spec hseparate before.files aside.reverse d hsub.reverse hreversed
  have hne := staging_ne output pid
  refine ⟨?_, ?_⟩
  · simp [undoPublish, removeIfFile, hstaging]
  rw [hstep]
  refine ⟨fun suffix hs => ?_, ?_, fun suffix hs => ?_⟩
  · have hpath : output ++ suffix ≠ stagingPath output pid ∧
        ∀ m ∈ asidePairs output pid, output ++ suffix ≠ m.2 := by
      rcases List.mem_cons.mp hs with rfl | hs
      · rw [List.append_nil]
        exact ⟨hne.1.symm, fun m hm => (output_ne output pid m hm).2⟩
      · have hmem : (output ++ suffix,movedPath (output ++ suffix) pid) ∈ asidePairs output pid :=
          List.mem_map_of_mem hs
        exact ⟨(hne.2 _ hmem).1.symm, sidecar_ne_aside output pid suffix hs⟩
    rw [Disk.remove_frame _ _ _ _ hpath.1]
    refine hback' _ fun hp => ?_
    rw [List.map_reverse, List.mem_reverse] at hp
    obtain ⟨m, hm, hmp⟩ := List.mem_map.mp hp
    exact hpath.2 m hm hmp.symm
  · unfold Disk.remove
    split_ifs with hgone
    · simpa using hgone
    · exact Function.update_self _ _ _
  · have hmem : (output ++ suffix,movedPath (output ++ suffix) pid) ∈ asidePairs output pid :=
      List.mem_map_of_mem hs
    have hoa := fun n hn => sidecar_ne_aside output pid n hn _ hmem
    rw [Disk.remove_frame _ _ _ _ (hne.2 _ hmem).2.symm]
    refine Disk.restore_gone aside.reverse d _ ?_ fun m hm => ?_
    · by_cases hin : (output ++ suffix,movedPath (output ++ suffix) pid) ∈ aside
      · exact Or.inl (List.mem_map_of_mem (List.mem_reverse.mpr hin))
      · exact Or.inr ((hframe _ hmem hin).trans (hnone _ hmem))
    · obtain ⟨n, hn, rfl⟩ := List.mem_map.mp (hsubset m hm)
      exact (hoa n hn).symm

/-- All or nothing: it raises the driver's error and leaves everything as it was, or it returns and
has replaced the output and its sidecars. -/
theorem publishOutput_all_or_nothing (d : Disk Text κ)
    (hback : ∀ m ∈ asidePairs output pid, env.faults.rename m.2 m.1 = false)
    (hstaging : env.faults.remove (stagingPath output pid) = false)
    (hnone : ∀ m ∈ asidePairs output pid, d.files m.2 = none) :
    ((∃ message, (publishOutput env source output pid d).2 =
        some (.exportError exitOutput message)) ∧
      Unpublished output pid d (publishOutput env source output pid d).1) ∨
    ((publishOutput env source output pid d).2 = none ∧
      Published source output d (publishOutput env source output pid d).1) := by
  have hne := staging_ne output pid
  have hframe := copyfile_frame env source (stagingPath output pid) d
  have hstart : ∀ suffix ∈ []::outputSidecars,
      (copyfile env source (stagingPath output pid) d).1.files (output ++ suffix) =
        d.files (output ++ suffix) := by
    intro suffix hs
    refine hframe _ ?_
    rcases List.mem_cons.mp hs with rfl | hs
    · rw [List.append_nil]
      exact hne.1.symm
    · have hmem : (output ++ suffix,movedPath (output ++ suffix) pid) ∈ asidePairs output pid :=
        List.mem_map_of_mem hs
      exact (hne.2 _ hmem).1.symm
  have hmoved : ∀ m ∈ asidePairs output pid,
      (copyfile env source (stagingPath output pid) d).1.files m.2 = none :=
    fun m hm => (hframe _ (hne.2 m hm).2.symm).trans (hnone m hm)
  -- what holds after the copy carries over to the state before it
  have hunpublished (after : Disk Text κ)
      (h : Unpublished output pid (copyfile env source (stagingPath output pid) d).1 after) :
      Unpublished output pid d after :=
    ⟨fun suffix hs => (h.same suffix hs).trans (hstart suffix hs), h.noStaging, h.noMoved⟩
  have hok := copyfile_ok env source (stagingPath output pid) d
  obtain ⟨haside, hall⟩ :=
    replaceAside_aside env output pid (copyfile env source (stagingPath output pid) d).1
  unfold publishOutput
  rcases hc : copyfile env source (stagingPath output pid) d with ⟨copied, error⟩
  rw [hc] at hstart hmoved hunpublished haside hall hok
  cases error with
  | some message =>
    left
    have hnot : (copied.remove false (stagingPath output pid)).files (stagingPath output pid) =
        none := by
      unfold Disk.remove
      split_ifs with hgone
      · simpa using hgone
      · exact Function.update_self _ _ _
    have hremoved : Unpublished output pid copied
        (copied.remove false (stagingPath output pid)) := by
      refine ⟨fun suffix hs => ?_, hnot, fun suffix hs => ?_⟩
      · refine Disk.remove_frame _ _ _ _ ?_
        rcases List.mem_cons.mp hs with rfl | hs
        · rw [List.append_nil]
          exact hne.1.symm
        · exact (hne.2 (output ++ suffix,_) (List.mem_map_of_mem hs)).1.symm
      · have hmem : (output ++ suffix,movedPath (output ++ suffix) pid) ∈ asidePairs output pid :=
          List.mem_map_of_mem hs
        rw [Disk.remove_frame _ _ _ _ (hne.2 _ hmem).2.symm]
        exact hmoved _ hmem
    simp only [hc, removeIfFile, hstaging, Bool.and_false, Bool.false_eq_true, if_false]
    exact ⟨⟨_, rfl⟩, hunpublished _ hremoved⟩
  | none =>
    obtain ⟨hsource, hstaged⟩ := hok rfl
    rcases hr : replaceAside env (asidePairs output pid) copied [] with ⟨d', aside, failed⟩
    rw [hr] at haside hall
    dsimp only at haside hall hstaged
    simp only [hc, hr]
    cases failed with
    | some failed =>
      left
      have h := undoPublish_unpublished env output pid haside failed hback hstaging hmoved
      exact ⟨h.1, hunpublished _ h.2⟩
    | none =>
      dsimp only
      cases hfinal : (d'.rename (env.faults.rename (stagingPath output pid) output)
          (stagingPath output pid) output).2 with
      | false =>
        left
        have hsame := Disk.rename_failed _ _ _ _ hfinal
        have h := undoPublish_unpublished env output pid haside (stagingPath output pid,output)
          hback hstaging hmoved
        simp only [Bool.not_false, if_true, hsame]
        exact ⟨h.1, hunpublished _ h.2⟩
      | true =>
        right
        have hfiles := Disk.rename_files _ _ _ _ hfinal
        have hstay : d'.files (stagingPath output pid) = d.files source := by
          have hnot := not_mem_of_ne _ _ hne.2
          have hnot' : stagingPath output pid ∉ aside.map Prod.fst :=
            fun hp => hnot.1 ((haside.sublist.map Prod.fst).subset hp)
          rw [haside.moved.frame _ hnot' hnot.2, hstaged]
        have hdiscard (p : Text) (hp : ∀ m ∈ asidePairs output pid, p ≠ m.2) :
            p ∉ aside.map Prod.snd := by
          intro hmem
          obtain ⟨m, hm, hmp⟩ := List.mem_map.mp hmem
          exact hp m (haside.sublist.subset hm) hmp.symm
        simp only [Bool.not_true, Bool.false_eq_true, if_false]
        refine ⟨trivial, hsource, ?_, fun suffix hs => ?_⟩
        · rw [Disk.discard_frame _ _ _ _ (hdiscard output fun m hm => (output_ne output pid m hm).2),
            hfiles, Function.update_self, hstay]
        · have hmem : (output ++ suffix,movedPath (output ++ suffix) pid) ∈
              asidePairs output pid := List.mem_map_of_mem hs
          have hgone : d'.files (output ++ suffix) = none := by
            by_cases hexists : copied.files (output ++ suffix) = none
            · have hnot : output ++ suffix ∉ aside.map Prod.fst := by
                intro hp
                obtain ⟨m, hm, hmp⟩ := List.mem_map.mp hp
                exact haside.moved.present m hm (hmp ▸ hexists)
              have hnot' : output ++ suffix ∉ (asidePairs output pid).map Prod.snd := by
                intro hp
                obtain ⟨m, hm, hmp⟩ := List.mem_map.mp hp
                exact sidecar_ne_aside output pid suffix hs m hm hmp.symm
              rw [haside.moved.frame _ hnot hnot', hexists]
            · exact haside.moved.gone _ (hall rfl _ hmem hexists)
          rw [Disk.discard_frame _ _ _ _ (hdiscard _ (sidecar_ne_aside output pid suffix hs)),
            Disk.rename_frame _ _ _ _ _ (hne.2 _ hmem).1.symm
              (output_ne output pid _ hmem).1.symm, hgone]

end

/-- A directory with a previous output and its log, where the final replace raises. -/
def busyOutput : PublishEnvironment Nat where
  copy := .completes
  faults := ⟨fun _ p => p = text "out", fun _ => false⟩
  osMessage := fun _ _ => text "access denied"

theorem publishOutput_all_or_nothing_busy :
    let d : Disk Text Nat := ⟨fun p => if p = text "new" then some 1 else if p = text "out" then
      some 2 else if p = text "out-wal" then some 3 else none, []⟩
    ((∃ message, (publishOutput busyOutput (text "new") (text "out") 7 d).2 =
        some (.exportError exitOutput message)) ∧
      Unpublished (text "out") 7 d (publishOutput busyOutput (text "new") (text "out") 7 d).1) ∨
    ((publishOutput busyOutput (text "new") (text "out") 7 d).2 = none ∧
      Published (text "new") (text "out") d
        (publishOutput busyOutput (text "new") (text "out") 7 d).1) :=
  publishOutput_all_or_nothing busyOutput (text "new") (text "out") 7 _ (by decide) rfl (by decide)

end DSigMatcher.Export
