import DSigMatcher.Framework.DiskTouched
import DSigMatcher.Port.Proposal
import DSigMatcher.Port.Publish

namespace DSigMatcher.Port
open DSigMatcher.Base DSigMatcher.Framework

/-- A file and what it is, for messages. -/
structure NamedPath where
  role : Text
  path : Text
  deriving DecidableEq

/-- The database itself and its sidecars; nothing for an empty path. -/
def databaseFileSet (role path : Text) : List NamedPath :=
  if path.isEmpty then []
  else ⟨role, path⟩ :: sidecarSuffixes.map fun suffix =>
    ⟨role ++ text "'s " ++ suffix ++ text " file", path ++ suffix⟩

/-- The first written file that is an input, as a refusal. -/
def findPathAlias (sameFilePath : Text → Text → Bool) (written inputs : List NamedPath) :
    Option Text :=
  written.findSome? fun output => inputs.findSome? fun input =>
    if !output.path.isEmpty && !input.path.isEmpty && sameFilePath output.path input.path then
      some (output.role ++ text " '" ++ output.path ++ text "' is " ++ input.role ++ text " '" ++
        input.path ++ text "'; refusing to overwrite an input (nothing was changed)")
    else none

/-- The paths of one port. -/
structure PortPaths where
  referencePath : Text
  targetPath : Text
  outputPath : Text
  otherInputs : List Text

def writtenFiles (o : PortPaths) : List NamedPath :=
  databaseFileSet (text "the output") o.outputPath ++
    databaseFileSet (text "the temporary output") (temporaryOutputPath o.outputPath)

def inputFiles (o : PortPaths) : List NamedPath :=
  databaseFileSet (text "the reference database") o.referencePath ++
    databaseFileSet (text "the target database") o.targetPath ++
    o.otherInputs.flatMap (databaseFileSet (text "the input"))

inductive CopyOutcome
  | cannotCreate
  | broken (written message : Text)
  | copied

/-- What the port finds around it: the file system's notion of one file, what the reading and
planning steps refuse, how each copy goes, what SQLite leaves of the temporary, and the failing
calls. -/
structure PortEnvironment where
  sameFilePath : Text → Text → Bool
  refusal : (Text → Option Text) → Option PortError
  copy : Text → Text → CopyOutcome
  sqliteFiles : (Text → Option Text) → Text → Option Text
  sqliteError : (Text → Option Text) → Option Text
  faults : Disk.Faults Text
  osMessage : Text → Text → Text

variable (env : PortEnvironment) (o : PortPaths)

def removeDatabaseFiles (path : Text) (d : Disk Text Text) : Disk Text Text :=
  ([]::sidecarSuffixes).foldl
    (fun d suffix => d.remove (env.faults.remove (path ++ suffix)) (path ++ suffix)) d

def copyFileBinary (source destination : Text) (d : Disk Text Text) :
    Disk Text Text × Option Text :=
  if env.sameFilePath source destination then
    (d, some (text "'" ++ source ++ text "' and '" ++ destination ++ text "' are the same file"))
  else
    match d.files source with
    | none => (d, some (text "cannot read '" ++ source ++ text "'"))
    | some content =>
      match env.copy source destination with
      | .cannotCreate => (d, some (text "cannot create '" ++ destination ++ text "'"))
      | .broken written message => (d.write destination written, some message)
      | .copied => (d.write destination content, none)

/-- A copy of a possibly WAL-mode export: the main file, and its log when that holds frames. -/
def copyDatabase (source destination : Text) (d : Disk Text Text) :
    Disk Text Text × Option Text :=
  let copied := copyFileBinary env source destination (removeDatabaseFiles env destination d)
  if copied.2.isSome then copied
  else if 0 < fileSizeOrZero copied.1 (source ++ text "-wal") then
    copyFileBinary env (source ++ text "-wal") (destination ++ text "-wal") copied.1
  else copied

/-- SQLite's work on the temporary touches that database and its sidecars. -/
def sqliteWrite (path : Text) (d : Disk Text Text) : Disk Text Text :=
  ([]::sidecarSuffixes).foldl (fun e suffix =>
    match env.sqliteFiles d.files suffix with
    | none => e.remove false (path ++ suffix)
    | some content => e.write (path ++ suffix) content) d

/-- The temporary copy with the port written into it; removed again on failure. -/
def buildTemporary (d : Disk Text Text) : Disk Text Text × Option PortError :=
  let temporary := temporaryOutputPath o.outputPath
  let copied := copyDatabase env o.targetPath temporary d
  match copied.2 with
  | some error => (removeDatabaseFiles env temporary copied.1,
      some ⟨.io, text "cannot write the output '" ++ o.outputPath ++ text "': " ++ error⟩)
  | none =>
    match env.sqliteError copied.1.files with
    | some error => (removeDatabaseFiles env temporary (sqliteWrite env temporary copied.1),
        some ⟨.io, text "output '" ++ o.outputPath ++ text "': " ++ error⟩)
    | none => (sqliteWrite env temporary copied.1, none)

/-- The file steps of `PortLabels`. -/
def portFiles (d : Disk Text Text) : Disk Text Text × Option PortError :=
  if o.outputPath.isEmpty then (d, some ⟨.usage, text "no output path"⟩)
  else
    match findPathAlias env.sameFilePath (writtenFiles o) (inputFiles o) with
    | some message => (d, some ⟨.usage, message⟩)
    | none =>
      match env.refusal d.files with
      | some error => (d, some error)
      | none =>
        let built := buildTemporary env o d
        if built.2.isSome then built
        else
          let temporary := temporaryOutputPath o.outputPath
          let published := publishOutput env.faults env.osMessage temporary o.outputPath built.1
          (removeDatabaseFiles env temporary published.1,
            published.2.map fun error => ⟨.io, error⟩)

/-- The paths the refusal check compares with the inputs. -/
def writtenPaths : Set Text := fun p => p ∈ (writtenFiles o).map NamedPath.path

/-- The aside names a port creates or deletes: none unless it gets as far as publishing. -/
def portAsides (files : Text → Option Text) : List Text :=
  if env.refusal files = none ∧ (buildTemporary env o ⟨files, []⟩).2 = none then
    Disk.asidesTouched env.faults files (asidePairs o.outputPath)
  else []

section
variable {o : PortPaths} (ho : o.outputPath ≠ [])

theorem mem_databaseFileSet (role path suffix : Text) (hp : path ≠ [])
    (hs : suffix ∈ []::sidecarSuffixes) :
    path ++ suffix ∈ (databaseFileSet role path).map NamedPath.path := by
  have he : ¬ path.isEmpty = true := by simpa using hp
  unfold databaseFileSet
  rw [if_neg he]
  rcases List.mem_cons.mp hs with rfl | hs
  · simp
  · simpa using Or.inr hs

include ho in
theorem output_written (suffix : Text) (hs : suffix ∈ []::sidecarSuffixes) :
    o.outputPath ++ suffix ∈ writtenPaths o := by
  have h := mem_databaseFileSet (text "the output") o.outputPath suffix ho hs
  change _ ∈ (writtenFiles o).map NamedPath.path
  rw [writtenFiles, List.map_append]
  exact List.mem_append_left _ h

theorem temporary_written (suffix : Text) (hs : suffix ∈ []::sidecarSuffixes) :
    temporaryOutputPath o.outputPath ++ suffix ∈ writtenPaths o := by
  have hne : temporaryOutputPath o.outputPath ≠ [] := by
    intro h
    exact absurd (List.append_eq_nil_iff.mp h).2 (by decide)
  have h := mem_databaseFileSet (text "the temporary output") _ suffix hne hs
  change _ ∈ (writtenFiles o).map NamedPath.path
  rw [writtenFiles, List.map_append]
  exact List.mem_append_right _ h

theorem removeDatabaseFiles_only (path : Text) (d : Disk Text Text) {S : Set Text}
    (hS : ∀ suffix ∈ []::sidecarSuffixes, path ++ suffix ∈ S) :
    Disk.Only S d (removeDatabaseFiles env path d) := by
  exact Disk.foldl_only _ _ d fun suffix hs e => Disk.remove_only _ e _ (hS suffix hs)

theorem copyFileBinary_only (source destination : Text) (d : Disk Text Text) {S : Set Text}
    (hS : destination ∈ S) : Disk.Only S d (copyFileBinary env source destination d).1 := by
  unfold copyFileBinary
  split_ifs
  · exact Disk.Only.refl S d
  · split
    · exact Disk.Only.refl S d
    · split
      · exact Disk.Only.refl S d
      · exact Disk.write_only d _ _ hS
      · exact Disk.write_only d _ _ hS

theorem copyDatabase_only (source destination : Text) (d : Disk Text Text) {S : Set Text}
    (hS : ∀ suffix ∈ []::sidecarSuffixes, destination ++ suffix ∈ S) :
    Disk.Only S d (copyDatabase env source destination d).1 := by
  have hmain : destination ∈ S := by simpa using hS [] List.mem_cons_self
  have hcopy := (removeDatabaseFiles_only env destination d hS).trans
    (copyFileBinary_only env source destination _ hmain)
  unfold copyDatabase
  dsimp only
  split_ifs
  · exact hcopy
  · exact hcopy.trans (copyFileBinary_only env _ _ _ (hS _ (by decide)))
  · exact hcopy

theorem sqliteWrite_only (path : Text) (d : Disk Text Text) {S : Set Text}
    (hS : ∀ suffix ∈ []::sidecarSuffixes, path ++ suffix ∈ S) :
    Disk.Only S d (sqliteWrite env path d) := by
  refine Disk.foldl_only _ _ d fun suffix hs e => ?_
  split
  · exact Disk.remove_only _ e _ (hS suffix hs)
  · exact Disk.write_only e _ _ (hS suffix hs)

/-- Building the temporary touches the temporary and its sidecars. -/
theorem buildTemporary_only (d : Disk Text Text) {S : Set Text}
    (hS : ∀ suffix ∈ []::sidecarSuffixes, temporaryOutputPath o.outputPath ++ suffix ∈ S) :
    Disk.Only S d (buildTemporary env o d).1 := by
  have hcopy := copyDatabase_only env o.targetPath (temporaryOutputPath o.outputPath) d hS
  have hwrite := hcopy.trans (sqliteWrite_only env (temporaryOutputPath o.outputPath) _ hS)
  unfold buildTemporary
  dsimp only
  split
  · exact hcopy.trans (removeDatabaseFiles_only env _ _ hS)
  · split
    · exact hwrite.trans (removeDatabaseFiles_only env _ _ hS)
    · exact hwrite

/-- Publishing touches written paths and exactly the aside names of the sidecars it moves. -/
theorem publishOutput_touched (files : Text → Option Text) (d : Disk Text Text)
    (hfiles : ∀ m ∈ asidePairs o.outputPath,
      d.files m.1 = files m.1 ∧ d.files m.2 = files m.2) {S : Set Text}
    (hout : ∀ suffix ∈ []::sidecarSuffixes, o.outputPath ++ suffix ∈ S)
    (htmp : ∀ suffix ∈ []::sidecarSuffixes, temporaryOutputPath o.outputPath ++ suffix ∈ S)
    (haside : ∀ a ∈ Disk.asidesTouched env.faults files (asidePairs o.outputPath), a ∈ S) :
    Disk.Only S d (publishOutput env.faults env.osMessage
      (temporaryOutputPath o.outputPath) o.outputPath d).1 ∧
    Disk.asidesTouched env.faults files (asidePairs o.outputPath) ⊆
      (publishOutput env.faults env.osMessage
        (temporaryOutputPath o.outputPath) o.outputPath d).1.touched := by
  have hmain : o.outputPath ∈ S := by simpa using hout [] List.mem_cons_self
  have htemp : temporaryOutputPath o.outputPath ∈ S := by simpa using htmp [] List.mem_cons_self
  have hwal := hout (text "-wal") (by decide)
  have htwal := htmp (text "-wal") (by decide)
  obtain ⟨honly, hsub, hmoved⟩ := Disk.moveAside_touched env.faults files
    (asidePairs o.outputPath) (asidePairs_separate _) d [] hfiles
  have hfst : ∀ m ∈ asidePairs o.outputPath, m.1 ∈ S := by
    intro m hm
    obtain ⟨suffix, hs, rfl⟩ := List.mem_map.mp hm
    exact hout suffix (List.mem_cons_of_mem _ hs)
  unfold publishOutput
  rcases hm : Disk.moveAside env.faults (asidePairs o.outputPath) d [] with ⟨e, moved, failed⟩
  rw [hm] at honly hsub hmoved
  dsimp only at honly hsub hmoved ⊢
  have hpairs : ∀ m ∈ moved, m.1 ∈ S ∧ m.2 ∈ S := by
    intro m hm
    obtain ⟨hm, ha⟩ := (hmoved m hm).resolve_left List.not_mem_nil
    exact ⟨hfst m hm, haside _ ha⟩
  have hde : Disk.Only S d e := honly.weaken fun p hp => by
    rcases hp with hp | hp
    · obtain ⟨m, hm, rfl⟩ := List.mem_map.mp hp
      exact hfst m hm
    · exact haside p hp
  -- every continuation keeps what was touched so far
  suffices h : ∀ f, Disk.Only S e f → Disk.Only S d f ∧
      Disk.asidesTouched env.faults files (asidePairs o.outputPath) ⊆ f.touched by
    cases failed with
    | some m => exact h _ (Disk.restore_only moved e hpairs)
    | none =>
      have hren := Disk.rename_only (env.faults.rename (temporaryOutputPath o.outputPath)
        o.outputPath) e _ _ htemp hmain
      dsimp only
      split_ifs
      · exact h _ (hren.trans (Disk.restore_only moved _ hpairs))
      · unfold moveLeftoverWal
        dsimp only
        split_ifs
        · exact h _ (hren.trans (Disk.rename_only _ _ _ _ htwal hwal))
        · exact h _ ((hren.trans (Disk.rename_only _ _ _ _ htwal hwal)).trans
            (Disk.discard_only _ moved _ fun m hm => (hpairs m hm).2))
        · exact h _ (hren.trans (Disk.discard_only _ moved _ fun m hm => (hpairs m hm).2))
  exact fun f hef => ⟨hde.trans hef, fun a ha => hef.mono (hsub ha)⟩

/-- A path that the check passed is no input. -/
theorem written_ne_input (hok : findPathAlias env.sameFilePath (writtenFiles o) (inputFiles o) = none)
    (p : Text) (hp : p ∈ writtenPaths o) (i : NamedPath) (hi : i ∈ inputFiles o)
    (hne : p ≠ [] ∧ i.path ≠ []) : env.sameFilePath p i.path = false := by
  obtain ⟨w, hw, rfl⟩ := List.mem_map.mp hp
  have h := List.findSome?_eq_none_iff.mp (List.findSome?_eq_none_iff.mp hok w hw) i hi
  by_contra hsame
  simp [hne.1, hne.2, hsame] at h

theorem asidePairs_frame (d e : Disk Text Text)
    (h : Disk.Only (fun p => ∃ suffix ∈ []::sidecarSuffixes,
      p = temporaryOutputPath o.outputPath ++ suffix) d e) :
    ∀ m ∈ asidePairs o.outputPath,
      e.files m.1 = d.files m.1 ∧ e.files m.2 = d.files m.2 := by
  have hdis : ∀ s ∈ sidecarSuffixes, ∀ t ∈ []::sidecarSuffixes,
      s ≠ text ".dsig-tmp" ++ t ∧ asidePath s ≠ text ".dsig-tmp" ++ t := by decide
  intro m hm
  obtain ⟨s, hs, rfl⟩ := List.mem_map.mp hm
  refine ⟨h.frame _ ?_, h.frame _ ?_⟩
  · rintro ⟨t, ht, he⟩
    rw [temporaryOutputPath, List.append_assoc] at he
    exact (hdis s hs t ht).1 (List.append_cancel_left he)
  · rintro ⟨t, ht, he⟩
    rw [temporaryOutputPath, List.append_assoc] at he
    dsimp only [asidePath] at he
    rw [List.append_assoc] at he
    exact (hdis s hs t ht).2 (List.append_cancel_left he)

include ho in
/-- A port touches written paths and exactly the aside names of the sidecars it moves. -/
theorem portFiles_touched (files : Text → Option Text)
    (hok : findPathAlias env.sameFilePath (writtenFiles o) (inputFiles o) = none) :
    (∀ p ∈ (portFiles env o ⟨files, []⟩).1.touched,
      p ∈ writtenPaths o ∨ p ∈ portAsides env o files) ∧
    portAsides env o files ⊆ (portFiles env o ⟨files, []⟩).1.touched := by
  have he : ¬ o.outputPath.isEmpty = true := by simpa using ho
  unfold portFiles portAsides
  rw [if_neg he, hok]
  dsimp only
  cases hr : env.refusal files with
  | some error => simp
  | none =>
    dsimp only
    have hbuilt : Disk.Only (fun p => ∃ suffix ∈ []::sidecarSuffixes,
        p = temporaryOutputPath o.outputPath ++ suffix) ⟨files, []⟩
        (buildTemporary env o ⟨files, []⟩).1 :=
      buildTemporary_only env _ fun suffix hs => ⟨suffix, hs, rfl⟩
    have hwritten : Disk.Only (writtenPaths o) ⟨files, []⟩ (buildTemporary env o ⟨files, []⟩).1 :=
      buildTemporary_only env _ fun suffix hs => temporary_written suffix hs
    cases hb : (buildTemporary env o ⟨files, []⟩).2 with
    | some error =>
      simp only [Option.isSome_some, if_true]
      refine ⟨fun p hp => ?_, by simp⟩
      rcases hwritten.within p hp with hp | hp
      · cases hp
      · exact .inl hp
    | none =>
      simp only [Option.isSome_none, Bool.false_eq_true, if_false]
      have hT (suffix : Text) (hs : suffix ∈ []::sidecarSuffixes) :
          temporaryOutputPath o.outputPath ++ suffix ∈ writtenPaths o :=
        temporary_written suffix hs
      let S := writtenPaths o ∪ {a | a ∈ Disk.asidesTouched env.faults files
        (asidePairs o.outputPath)}
      have hout : ∀ suffix ∈ []::sidecarSuffixes, o.outputPath ++ suffix ∈ S :=
        fun suffix hs => .inl (output_written ho suffix hs)
      have htmp : ∀ suffix ∈ []::sidecarSuffixes,
          temporaryOutputPath o.outputPath ++ suffix ∈ S := fun suffix hs => .inl (hT suffix hs)
      obtain ⟨honly, hsub⟩ := publishOutput_touched env files
        (buildTemporary env o ⟨files, []⟩).1
        (asidePairs_frame ⟨files, []⟩ (buildTemporary env o ⟨files, []⟩).1 hbuilt)
        hout htmp fun a ha => .inr ha
      have hall := ((hwritten.weaken Set.subset_union_left).trans honly).trans
        (removeDatabaseFiles_only env (temporaryOutputPath o.outputPath) _ htmp)
      refine ⟨fun p hp => ?_, ?_⟩
      · rcases hall.within p hp with hp | hp
        · cases hp
        · simpa [S] using hp
      · simp only [and_self, if_true]
        exact fun a ha => (removeDatabaseFiles_only env (temporaryOutputPath o.outputPath) _
          fun suffix hs => hT suffix hs).mono (hsub ha)

theorem databaseFileSet_ne (role path : Text) : ∀ f ∈ databaseFileSet role path, f.path ≠ [] := by
  intro f hf
  unfold databaseFileSet at hf
  split_ifs at hf with he
  · cases hf
  have hp : path ≠ [] := by simpa using he
  rcases List.mem_cons.mp hf with rfl | hf
  · exact hp
  · obtain ⟨suffix, -, rfl⟩ := List.mem_map.mp hf
    exact fun h => hp (List.append_eq_nil_iff.mp h).1

theorem inputFiles_ne : ∀ i ∈ inputFiles o, i.path ≠ [] := by
  intro i hi
  simp only [inputFiles, List.mem_append, List.mem_flatMap] at hi
  rcases hi with (hi | hi) | ⟨path, -, hi⟩ <;> exact databaseFileSet_ne _ _ i hi

theorem writtenPaths_ne : ∀ p ∈ writtenPaths o, p ≠ [] := by
  intro p hp
  obtain ⟨f, hf, rfl⟩ := List.mem_map.mp hp
  rcases List.mem_append.mp hf with hf | hf <;> exact databaseFileSet_ne _ _ f hf

/-- The check knows no aside name. -/
theorem aside_not_written (env : PortEnvironment) (files : Text → Option Text) :
    ∀ a ∈ portAsides env o files, a ∉ writtenPaths o := by
  intro a ha hw
  unfold portAsides at ha
  split_ifs at ha
  · have hpair := Disk.asidesTouched_subset env.faults files (asidePairs o.outputPath) ha
    obtain ⟨m, hm, rfl⟩ := List.mem_map.mp hpair
    obtain ⟨s, hs, rfl⟩ := List.mem_map.mp hm
    have hdis : ∀ s ∈ sidecarSuffixes, ∀ t ∈ []::sidecarSuffixes,
        asidePath s ≠ t ∧ asidePath s ≠ text ".dsig-tmp" ++ t := by decide
    obtain ⟨f, hf, hfa⟩ := List.mem_map.mp hw
    have hset : ∀ role path, f ∈ databaseFileSet role path →
        ∃ t ∈ []::sidecarSuffixes, f.path = path ++ t := by
      intro role path hf
      unfold databaseFileSet at hf
      split_ifs at hf
      · cases hf
      · rcases List.mem_cons.mp hf with rfl | hf
        · exact ⟨[], List.mem_cons_self, (List.append_nil path).symm⟩
        · obtain ⟨t, ht, rfl⟩ := List.mem_map.mp hf
          exact ⟨t, List.mem_cons_of_mem _ ht, rfl⟩
    rcases List.mem_append.mp hf with hf | hf
    · obtain ⟨t, ht, hft⟩ := hset _ _ hf
      rw [hft] at hfa
      dsimp only [asidePath] at hfa
      rw [List.append_assoc] at hfa
      exact (hdis s hs t ht).1 (List.append_cancel_left hfa).symm
    · obtain ⟨t, ht, hft⟩ := hset _ _ hf
      rw [hft, temporaryOutputPath] at hfa
      dsimp only [asidePath] at hfa
      rw [List.append_assoc, List.append_assoc] at hfa
      exact (hdis s hs t ht).2 (List.append_cancel_left hfa).symm
  · cases ha

end

/-- A port that is not refused spares the inputs exactly when no aside name of a sidecar it moves
is an input's, and stays within the checked paths exactly when it moves no sidecar aside. -/
theorem portFiles_spares_inputs_iff (env : PortEnvironment) (o : PortPaths)
    (files : Text → Option Text) (ho : o.outputPath ≠ [])
    (hok : findPathAlias env.sameFilePath (writtenFiles o) (inputFiles o) = none) :
    ((∀ p ∈ (portFiles env o ⟨files, []⟩).1.touched, ∀ i ∈ inputFiles o,
        env.sameFilePath p i.path = false) ↔
      ∀ a ∈ portAsides env o files, ∀ i ∈ inputFiles o, env.sameFilePath a i.path = false) ∧
    ((∀ p ∈ (portFiles env o ⟨files, []⟩).1.touched, p ∈ writtenPaths o) ↔
      portAsides env o files = []) := by
  obtain ⟨hwithin, hsub⟩ := portFiles_touched env ho files hok
  refine ⟨⟨fun h a ha => h a (hsub ha), fun h p hp i hi => ?_⟩, fun h => ?_, fun h p hp => ?_⟩
  · rcases hwithin p hp with hw | ha
    · exact written_ne_input env hok p hw i hi ⟨writtenPaths_ne p hw, inputFiles_ne i hi⟩
    · exact h p ha i hi
  · rw [List.eq_nil_iff_forall_not_mem]
    exact fun a ha => aside_not_written env files a ha (h a (hsub ha))
  · exact (hwithin p hp).resolve_right (by simp [h])

/-- An output with a stale log, and a results file named like that log moved aside. -/
def asideInputPaths : PortPaths where
  referencePath := text "/tmp/r.db"
  targetPath := text "/tmp/t.db"
  outputPath := text "/tmp/o.db"
  otherInputs := [text "/tmp/o.db-wal.dsig-old"]

def asideInputFiles (path : Text) : Option Text :=
  if path = text "/tmp/r.db" ∨ path = text "/tmp/t.db" ∨ path = text "/tmp/o.db-wal" ∨
    path = text "/tmp/o.db-wal.dsig-old" then some path else none

/-- A run in which every call succeeds. -/
def quietEnvironment : PortEnvironment where
  sameFilePath a b := a == b
  refusal _ := none
  copy _ _ := .copied
  sqliteFiles _ suffix := if suffix = [] then some (text "ported") else none
  sqliteError _ := none
  faults := ⟨fun _ _ => false, fun _ => false⟩
  osMessage _ _ := []

theorem portFiles_spares_inputs_iff_at :
    ((∀ p ∈ (portFiles quietEnvironment asideInputPaths ⟨asideInputFiles, []⟩).1.touched,
        ∀ i ∈ inputFiles asideInputPaths, quietEnvironment.sameFilePath p i.path = false) ↔
      ∀ a ∈ portAsides quietEnvironment asideInputPaths asideInputFiles,
        ∀ i ∈ inputFiles asideInputPaths, quietEnvironment.sameFilePath a i.path = false) ∧
    ((∀ p ∈ (portFiles quietEnvironment asideInputPaths ⟨asideInputFiles, []⟩).1.touched,
        p ∈ writtenPaths asideInputPaths) ↔
      portAsides quietEnvironment asideInputPaths asideInputFiles = []) :=
  portFiles_spares_inputs_iff quietEnvironment asideInputPaths asideInputFiles (by decide)
    (by decide +kernel)

/-- The port is not refused, and the results file is gone. -/
theorem portFiles_deletes_input :
    findPathAlias quietEnvironment.sameFilePath (writtenFiles asideInputPaths)
      (inputFiles asideInputPaths) = none ∧
    (portFiles quietEnvironment asideInputPaths ⟨asideInputFiles, []⟩).2 = none ∧
    (portFiles quietEnvironment asideInputPaths ⟨asideInputFiles, []⟩).1.files
      (text "/tmp/o.db-wal.dsig-old") = none ∧
    ¬ ∀ p ∈ (portFiles quietEnvironment asideInputPaths ⟨asideInputFiles, []⟩).1.touched,
      ∀ i ∈ inputFiles asideInputPaths, quietEnvironment.sameFilePath p i.path = false := by
  decide +kernel

end DSigMatcher.Port
