import DSigMatcher.Base.Text
import DSigMatcher.Framework.Disk

namespace DSigMatcher.Port
open DSigMatcher.Base DSigMatcher.Framework

/-- The sidecars SQLite may keep beside a database. -/
def sidecarSuffixes : List Text := [text "-wal", text "-shm", text "-journal"]

/-- Where a port builds its output before the final rename. -/
def temporaryOutputPath (outputPath : Text) : Text := outputPath ++ text ".dsig-tmp"

def asidePath (sidecar : Text) : Text := sidecar ++ text ".dsig-old"

/-- Each sidecar of a database with the name it is moved aside under. -/
def asidePairs (output : Text) : List (Text × Text) :=
  sidecarSuffixes.map fun suffix => (output ++ suffix, asidePath (output ++ suffix))

def fileSizeOrZero (d : Disk Text Text) (path : Text) : Nat := (d.files path).elim 0 List.length

/-- The last step: a leftover log with committed frames belongs to the output now. -/
def moveLeftoverWal (faults : Disk.Faults Text) (osMessage : Text → Text → Text)
    (temporary output : Text) (moved : List (Text × Text)) (d : Disk Text Text) :
    Disk Text Text × Option Text :=
  if 0 < fileSizeOrZero d (temporary ++ text "-wal") then
    let renamed := d.rename (faults.rename (temporary ++ text "-wal") (output ++ text "-wal"))
      (temporary ++ text "-wal") (output ++ text "-wal")
    if !renamed.2 then
      (renamed.1, some (text "cannot move '" ++ temporary ++ text "-wal' beside the output: " ++
        osMessage (temporary ++ text "-wal") (output ++ text "-wal")))
    else (Disk.discard faults moved renamed.1, none)
  else (Disk.discard faults moved d, none)

/-- Put the finished temporary in place of the output; the error when it fails. -/
def publishOutput (faults : Disk.Faults Text) (osMessage : Text → Text → Text)
    (temporary output : Text) (d : Disk Text Text) : Disk Text Text × Option Text :=
  let (d, moved, failed) := Disk.moveAside faults (asidePairs output) d []
  match failed with
  | some (sidecar, aside) =>
    (Disk.restore moved d,
      some (text "cannot move the previous output's sidecar '" ++ sidecar ++ text "' aside: " ++
        osMessage sidecar aside ++ text "; the previous output was left as it was"))
  | none =>
    let renamed := d.rename (faults.rename temporary output) temporary output
    if !renamed.2 then
      (Disk.restore moved renamed.1,
        some (text "cannot move the new output into place as '" ++ output ++ text "': " ++
          osMessage temporary output ++ text "; the previous output was left as it was"))
    else moveLeftoverWal faults osMessage temporary output moved renamed.1

theorem asidePairs_separate (output : Text) : Disk.Separate (asidePairs output) := by
  have hsuffix : (sidecarSuffixes ++ sidecarSuffixes.map asidePath).Nodup := by decide
  have hmap := hsuffix.map (List.append_right_injective output)
  simpa [Disk.Separate, asidePairs, asidePath, List.map_map, Function.comp_def,
    List.append_assoc] using hmap

/-- A path beside the output is an aside name only with an aside suffix. -/
theorem not_mem_asides (output suffix : Text) (h : suffix ∉ sidecarSuffixes.map asidePath) :
    output ++ suffix ∉ (asidePairs output).map Prod.snd := by
  intro hmem
  apply h
  simpa [asidePairs, asidePath, List.append_assoc] using hmem

theorem not_mem_originals (output suffix : Text) (h : suffix ∉ sidecarSuffixes) :
    output ++ suffix ∉ (asidePairs output).map Prod.fst := by
  intro hmem
  apply h
  simpa [asidePairs] using hmem

private theorem beside_not_aside :
    ∀ suffix ∈ []::sidecarSuffixes, suffix ∉ sidecarSuffixes.map asidePath := by
  decide

/-- All or nothing: on failure the output and its sidecars are what they were, on success the
output is the finished database beside nothing but that database's own log. -/
def AllOrNothing (temporary output : Text) (before : Disk Text Text)
    (result : Disk Text Text × Option Text) : Prop :=
  (result.2 ≠ none → ∀ suffix ∈ []::sidecarSuffixes,
    result.1.files (output ++ suffix) = before.files (output ++ suffix)) ∧
  (result.2 = none → before.files temporary ≠ none ∧
    result.1.files output = before.files temporary ∧
    ∀ suffix ∈ sidecarSuffixes, result.1.files (output ++ suffix) =
      if suffix = text "-wal" ∧ 0 < fileSizeOrZero before (temporary ++ suffix) then
        before.files (temporary ++ suffix)
      else none)

/-- Everything up to the final rename works, and the move of a non-empty leftover log fails. -/
def WalRenameFails (faults : Disk.Faults Text) (temporary output : Text)
    (before : Disk Text Text) : Prop :=
  (∀ m ∈ asidePairs output, before.files m.1 ≠ none → faults.rename m.1 m.2 = false) ∧
  before.files temporary ≠ none ∧ faults.rename temporary output = false ∧
  0 < fileSizeOrZero before (temporary ++ text "-wal") ∧
  faults.rename (temporary ++ text "-wal") (output ++ text "-wal") = true

/-- The previous output already was the finished database, and had no sidecar to lose. -/
def NothingToLose (temporary output : Text) (before : Disk Text Text) : Prop :=
  before.files output = before.files temporary ∧
  ∀ suffix ∈ sidecarSuffixes, before.files (output ++ suffix) = none

section
variable {faults : Disk.Faults Text} {output : Text} {before d : Disk Text Text}
variable {moved : List (Text × Text)}

private theorem beside_frame (h : Disk.MovedAside (asidePairs output) before.files d moved)
    (hsub : moved.Sublist (asidePairs output)) (suffix : Text) (hs : suffix ∉ sidecarSuffixes)
    (ha : suffix ∉ sidecarSuffixes.map asidePath) :
    d.files (output ++ suffix) = before.files (output ++ suffix) :=
  h.frame _ (fun hm => not_mem_originals output suffix hs ((hsub.map Prod.fst).subset hm))
    (not_mem_asides output suffix ha)

private theorem temporary_eq (output suffix : Text) :
    temporaryOutputPath output ++ suffix = output ++ (text ".dsig-tmp" ++ suffix) := by
  simp [temporaryOutputPath]

private theorem beside_ne (output a b : Text) (h : a ≠ b) : output ++ a ≠ output ++ b :=
  fun hab => h (List.append_cancel_left hab)

/-- Files moved aside and put back: the output and its sidecars are what they were. -/
private theorem restored_allOrNothing
    (h : Disk.MovedAside (asidePairs output) before.files d moved)
    (hsub : moved.Sublist (asidePairs output)) (temporary error : Text) :
    AllOrNothing temporary output before (Disk.restore moved d, some error) := by
  refine ⟨fun _ suffix hs => ?_, fun h => by cases h⟩
  refine Disk.restore_spec (asidePairs_separate output) before.files moved d hsub h _ ?_
  exact not_mem_asides output suffix (beside_not_aside suffix hs)

private theorem sidecars_gone (h : Disk.MovedAside (asidePairs output) before.files d moved)
    (hall : ∀ m ∈ asidePairs output, before.files m.1 ≠ none → m ∈ moved) (suffix : Text)
    (hs : suffix ∈ sidecarSuffixes) : d.files (output ++ suffix) = none := by
  have hpair : (output ++ suffix, asidePath (output ++ suffix)) ∈ asidePairs output :=
    List.mem_map_of_mem hs
  by_cases hb : before.files (output ++ suffix) = none
  · rw [h.frame, hb]
    · intro hm
      obtain ⟨m, hm, hmo⟩ := List.mem_map.mp hm
      exact h.present m hm (hmo ▸ hb)
    · exact not_mem_asides output suffix (beside_not_aside suffix (List.mem_cons_of_mem _ hs))
  · exact h.gone _ (hall _ hpair hb)

/-- The state after the final rename: the new output alone, its leftover log still aside. -/
private structure Renamed (output : Text) (before d : Disk Text Text) : Prop where
  finished : before.files (temporaryOutputPath output) ≠ none
  output_eq : d.files output = before.files (temporaryOutputPath output)
  wal_eq : d.files (temporaryOutputPath output ++ text "-wal") =
    before.files (temporaryOutputPath output ++ text "-wal")
  alone : ∀ suffix ∈ sidecarSuffixes, d.files (output ++ suffix) = none

private theorem renamed_of_ok (h : Disk.MovedAside (asidePairs output) before.files d moved)
    (hsub : moved.Sublist (asidePairs output))
    (hall : ∀ m ∈ asidePairs output, before.files m.1 ≠ none → m ∈ moved) (fails : Bool)
    (hok : (d.rename fails (temporaryOutputPath output) output).2 = true) :
    Renamed output before (d.rename fails (temporaryOutputPath output) output).1 := by
  have htmp : d.files (temporaryOutputPath output) = before.files (temporaryOutputPath output) :=
    beside_frame h hsub _ (by decide) (by decide)
  have hself : output ++ [] = output := List.append_nil output
  refine ⟨htmp ▸ ((Disk.rename_ok_iff _ _ _ _).mp hok).2, ?_, ?_, ?_⟩
  · rw [Disk.rename_files _ _ _ _ hok, Function.update_self, htmp]
  · rw [Disk.rename_frame, temporary_eq]
    · exact beside_frame h hsub _ (by decide) (by decide)
    · rw [temporary_eq]
      exact beside_ne output _ _ (by decide)
    · rw [temporary_eq]
      nth_rewrite 2 [← hself]
      exact beside_ne output _ _ (by decide)
  · intro suffix hs
    rw [Disk.rename_frame, sidecars_gone h hall suffix hs]
    · refine beside_ne output _ _ ?_
      rintro rfl
      revert hs
      decide
    · nth_rewrite 2 [← hself]
      refine beside_ne output _ _ ?_
      rintro rfl
      revert hs
      decide

/-- Deleting the files moved aside leaves the output and its sidecars alone. -/
private theorem discard_beside (hsub : moved.Sublist (asidePairs output)) (suffix : Text)
    (ha : suffix ∉ sidecarSuffixes.map asidePath) :
    (Disk.discard faults moved d).files (output ++ suffix) = d.files (output ++ suffix) :=
  Disk.discard_frame faults moved d _
    fun hm => not_mem_asides output suffix ha ((hsub.map Prod.snd).subset hm)

private theorem moved_wal (faults : Disk.Faults Text) (hsub : moved.Sublist (asidePairs output))
    (h : Renamed output before d) (fails : Bool)
    (hok : (d.rename fails (temporaryOutputPath output ++ text "-wal")
      (output ++ text "-wal")).2 = true) (suffix : Text) (hs : suffix ∈ []::sidecarSuffixes) :
    (Disk.discard faults moved (d.rename fails (temporaryOutputPath output ++ text "-wal")
      (output ++ text "-wal")).1).files (output ++ suffix) =
    if suffix = text "-wal" then before.files (temporaryOutputPath output ++ text "-wal")
    else d.files (output ++ suffix) := by
  rw [discard_beside hsub suffix (beside_not_aside suffix hs)]
  split_ifs with hw
  · subst hw
    rw [Disk.rename_files _ _ _ _ hok, Function.update_self, h.wal_eq]
  · rw [Disk.rename_frame]
    · rw [temporary_eq]
      refine beside_ne output _ _ ?_
      rintro rfl
      revert hs
      decide
    · exact beside_ne output _ _ hw

/-- The last step is all or nothing unless it must move a log and cannot. -/
private theorem moveLeftoverWal_iff (osMessage : Text → Text → Text)
    (hsub : moved.Sublist (asidePairs output)) (h : Renamed output before d) :
    AllOrNothing (temporaryOutputPath output) output before
        (moveLeftoverWal faults osMessage (temporaryOutputPath output) output moved d) ↔
      ¬ (0 < fileSizeOrZero before (temporaryOutputPath output ++ text "-wal") ∧
          faults.rename (temporaryOutputPath output ++ text "-wal") (output ++ text "-wal") =
            true) ∨
        NothingToLose (temporaryOutputPath output) output before := by
  have hsize : fileSizeOrZero d (temporaryOutputPath output ++ text "-wal") =
      fileSizeOrZero before (temporaryOutputPath output ++ text "-wal") := by
    rw [fileSizeOrZero, fileSizeOrZero, h.wal_eq]
  have hself : output ++ [] = output := List.append_nil output
  unfold moveLeftoverWal
  rw [hsize]
  by_cases hlog : 0 < fileSizeOrZero before (temporaryOutputPath output ++ text "-wal")
  · rw [if_pos hlog]
    have hexists : d.files (temporaryOutputPath output ++ text "-wal") ≠ none := by
      rintro hnone
      rw [← hsize, fileSizeOrZero, hnone] at hlog
      exact absurd hlog (Nat.lt_irrefl 0)
    have hiff := Disk.rename_ok_iff
      (faults.rename (temporaryOutputPath output ++ text "-wal") (output ++ text "-wal")) d
      (temporaryOutputPath output ++ text "-wal") (output ++ text "-wal")
    cases hf : faults.rename (temporaryOutputPath output ++ text "-wal") (output ++ text "-wal")
      with
    | false =>
      rw [hf] at hiff
      have hok := hiff.mpr ⟨rfl, hexists⟩
      simp only [hok, Bool.not_true, Bool.false_eq_true, if_false]
      refine iff_of_true ⟨fun hne => absurd rfl hne, fun _ => ⟨h.finished, ?_, ?_⟩⟩
        (.inl fun hw => absurd hw.2 (by simp))
      · have hmain := moved_wal faults hsub h false hok [] List.mem_cons_self
        rw [hself] at hmain
        rw [hmain, if_neg (by decide), h.output_eq]
      · intro suffix hs
        rw [moved_wal faults hsub h false hok suffix (List.mem_cons_of_mem _ hs), h.alone suffix hs]
        by_cases hw : suffix = text "-wal"
        · subst hw
          rw [if_pos rfl, if_pos ⟨rfl, hlog⟩]
        · rw [if_neg hw, if_neg fun hc => hw hc.1]
    | true =>
      rw [hf] at hiff
      have hbad : (d.rename true (temporaryOutputPath output ++ text "-wal")
          (output ++ text "-wal")).2 = false := by
        rw [← Bool.not_eq_true]
        exact fun hok => absurd (hiff.mp hok).1 (by simp)
      simp only [hbad, Bool.not_false, if_true, Disk.rename_failed _ _ _ _ hbad]
      constructor
      · rintro ⟨hrestored, -⟩
        have hall := hrestored (by simp)
        refine .inr ⟨?_, fun suffix hs => ?_⟩
        · have := hall [] List.mem_cons_self
          rw [hself, h.output_eq] at this
          exact this.symm
        · rw [← hall suffix (List.mem_cons_of_mem _ hs), h.alone suffix hs]
      · rintro (hw | ⟨hout, hnone⟩)
        · exact absurd ⟨hlog, trivial⟩ hw
        · refine ⟨fun _ suffix hs => ?_, fun hc => by cases hc⟩
          rcases List.mem_cons.mp hs with rfl | hs
          · rw [hself, h.output_eq, hout]
          · rw [h.alone suffix hs, hnone suffix hs]
  · rw [if_neg hlog]
    have hbeside (suffix : Text) (hs : suffix ∈ []::sidecarSuffixes) :
        (Disk.discard faults moved d).files (output ++ suffix) = d.files (output ++ suffix) :=
      discard_beside hsub suffix (beside_not_aside suffix hs)
    refine iff_of_true ⟨fun hne => absurd rfl hne, fun _ => ⟨h.finished, ?_, ?_⟩⟩
      (.inl fun hw => hlog hw.1)
    · have := hbeside [] List.mem_cons_self
      rw [hself] at this
      rw [this, h.output_eq]
    · intro suffix hs
      rw [hbeside suffix (List.mem_cons_of_mem _ hs), h.alone suffix hs, if_neg]
      rintro ⟨rfl, hpos⟩
      exact hlog hpos

end

/-- Publishing is all or nothing exactly when no leftover log is refused its new place, or when
the refusal costs nothing. -/
theorem publishOutput_allOrNothing_iff (faults : Disk.Faults Text) (osMessage : Text → Text → Text)
    (output : Text) (before : Disk Text Text) :
    AllOrNothing (temporaryOutputPath output) output before
        (publishOutput faults osMessage (temporaryOutputPath output) output before) ↔
      ¬ WalRenameFails faults (temporaryOutputPath output) output before ∨
        NothingToLose (temporaryOutputPath output) output before := by
  have hspec := Disk.moveAside_spec faults (asidePairs_separate output) before.files
    (asidePairs output) before [] (List.Sublist.refl _)
    ⟨by simp, by simp, by simp, fun _ _ _ => rfl⟩
  unfold publishOutput
  rcases hm : Disk.moveAside faults (asidePairs output) before [] with ⟨d, moved, failed⟩
  rw [hm] at hspec
  obtain ⟨haside, hsub, hall, hiff⟩ := hspec
  dsimp only at haside hsub hall hiff ⊢
  cases failed with
  | some m =>
    have hno : ¬ WalRenameFails faults (temporaryOutputPath output) output before :=
      fun hw => by simpa using hiff.mpr hw.1
    exact iff_of_true (restored_allOrNothing haside hsub _ _) (.inl hno)
  | none =>
    dsimp only
    cases hr : (d.rename (faults.rename (temporaryOutputPath output) output)
        (temporaryOutputPath output) output).2 with
    | false =>
      have hno : ¬ WalRenameFails faults (temporaryOutputPath output) output before := by
        intro hw
        have htmp : d.files (temporaryOutputPath output) =
            before.files (temporaryOutputPath output) :=
          beside_frame haside hsub _ (by decide) (by decide)
        have := (Disk.rename_ok_iff (faults.rename (temporaryOutputPath output) output) d
          (temporaryOutputPath output) output).mpr ⟨hw.2.2.1, htmp ▸ hw.2.1⟩
        rw [hr] at this
        cases this
      rw [Disk.rename_failed _ _ _ _ hr]
      exact iff_of_true (restored_allOrNothing haside hsub _ _) (.inl hno)
    | true =>
      have hren := renamed_of_ok haside hsub (by simpa using hall rfl) _ hr
      simp only [Bool.not_true, Bool.false_eq_true, if_false]
      rw [moveLeftoverWal_iff osMessage hsub hren, WalRenameFails,
        and_iff_right (hiff.mp rfl), and_iff_right hren.finished,
        and_iff_right ((Disk.rename_ok_iff _ _ _ _).mp hr).1]

/-- The previous output, its log, and a finished temporary with a leftover log. -/
def leftoverWalDisk (path : Text) : Option Text :=
  if path = text "o.db" then some (text "old")
  else if path = text "o.db-wal" then some (text "old log")
  else if path = text "o.db.dsig-tmp" then some (text "new")
  else if path = text "o.db.dsig-tmp-wal" then some (text "new log")
  else none

/-- Only the move of the leftover log fails. -/
def leftoverWalFaults : Disk.Faults Text where
  rename source _ := source = text "o.db.dsig-tmp-wal"
  remove _ := false

/-- The call fails, yet the output has been replaced and its log is left aside. -/
theorem publishOutput_loses_output :
    ¬ AllOrNothing (temporaryOutputPath (text "o.db")) (text "o.db") ⟨leftoverWalDisk, []⟩
      (publishOutput leftoverWalFaults (fun _ _ => text "sharing violation")
        (temporaryOutputPath (text "o.db")) (text "o.db") ⟨leftoverWalDisk, []⟩) := by
  intro h
  have hold := h.1 (by decide +kernel) [] List.mem_cons_self
  revert hold
  decide +kernel

end DSigMatcher.Port
