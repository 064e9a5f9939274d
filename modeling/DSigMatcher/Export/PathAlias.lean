import DSigMatcher.Export.PublishOutput
import DSigMatcher.Framework.DiskTouched
import DSigMatcher.Json.Read

namespace DSigMatcher.Export
open DSigMatcher.Base DSigMatcher.Framework

/-- The directory of a normalised path, up to its last separator. -/
def dirname (path : Text) : Text := (path.reverse.dropWhile (· ≠ 47)).reverse

/-- The name behind the last separator. -/
def basename (path : Text) : Text := (path.reverse.takeWhile (· ≠ 47)).reverse

example : dirname (text "/data/out.sqlite") = text "/data/" := by decide
example : basename (text "/data/out.sqlite") = text "out.sqlite" := by decide

def temporarySidecar (sidecar : Text) (pid : Nat) : Text := sidecar ++ (text ".tmp-" ++ decimal pid)

/-- How `WriteJsonAtomic` is interrupted: while it writes the temporary file, or not at all. -/
inductive JsonWrite (κ : Type)
  | raises (left : Option κ)
  | completes (content : κ)

/-- `WriteJsonAtomic`, and whether it raises. -/
def writeJsonAtomic {κ : Type} (write : JsonWrite κ) (faults : Disk.Faults Text) (path : Text)
    (pid : Nat) (d : Disk Text κ) : Disk Text κ × Bool :=
  match write with
  | .raises left => (left.elim d (d.write (temporarySidecar path pid)), true)
  | .completes content =>
    let renamed := (d.write (temporarySidecar path pid) content).rename
      (faults.rename (temporarySidecar path pid) path) (temporarySidecar path pid) path
    (renamed.1, !renamed.2)

/-- The names `PublishOutput` creates, replaces, renames or deletes. -/
def publishedNames (output : Text) (pid : Nat) : List Text :=
  output::stagingPath output pid::
    ((asidePairs output pid).map Prod.fst ++ (asidePairs output pid).map Prod.snd)

/-- Those of `WriteJsonAtomic`. -/
def sidecarNames (sidecar : Text) (pid : Nat) : List Text := [sidecar, temporarySidecar sidecar pid]

def refusal : Text := text "; refusing to overwrite an input (nothing was changed)"

/-- The written files with their roles, without those that carry the process id. -/
def writtenFiles (output sidecar : Text) : List (Text × Text) :=
  (text "the output",output)::(outputSidecars.map fun suffix =>
    (text "the output's " ++ suffix ++ text " file",output ++ suffix)) ++
  [(text "the sidecar",sidecar)]

/-- The starts of the names that carry it. -/
def writtenStarts (output sidecar : Text) : List (Text × Text) :=
  (text "the output's staging copy",basename output ++ text ".dsig-tmp-")::
    (outputSidecars.map fun suffix =>
      (text "the previous output's " ++ suffix ++ text " file moved aside",
        basename output ++ suffix ++ text ".dsig-old-")) ++
  [(text "the sidecar's temporary file",basename sidecar ++ text ".tmp-")]

/-- The check of both tools, with the comparison of two paths and the paths it passes over. -/
def pathAlias (same : Text → Text → Bool) (skip : Text → Bool) (output sidecar : Text)
    (inputs : List (Text × Text)) : Option Text :=
  let exact := (writtenFiles output sidecar).findSome? fun w => inputs.findSome? fun i =>
    if same w.2 i.2 then
      some (w.1 ++ text " '" ++ w.2 ++ text "' is " ++ i.1 ++ text " '" ++ i.2 ++ text "'" ++
        refusal)
    else none
  exact.or (inputs.findSome? fun i =>
    if skip i.2 || !same (dirname i.2) (dirname output) then none
    else (writtenStarts output sidecar).findSome? fun w =>
      if startsWith (basename i.2) w.2 then
        some (i.1 ++ text " '" ++ i.2 ++ text "' has the name of " ++ w.1 ++ text " ('" ++ w.2 ++
          text "<pid>')" ++ refusal)
      else none)

/-- `SamePath` of dsig_export.py on normalised paths without links. -/
def samePath (a b : Text) : Bool := a = b

/-- `WrittenPathAlias` of dsig_export.py. -/
def writtenPathAlias (output sidecar : Text) (inputs : List (Text × Text)) : Option Text :=
  pathAlias samePath (fun _ => false) output sidecar inputs

/-- `SameFile` of ExportBridge.cpp on normalised paths without links. -/
def sameFile (a b : Text) : Bool := !a.isEmpty && !b.isEmpty && a = b

/-- `WrittenPathAlias` of ExportBridge.cpp. -/
def nativeWrittenPathAlias (output sidecar : Text) (inputs : List (Text × Text)) : Option Text :=
  pathAlias sameFile List.isEmpty output sidecar inputs

section
variable {κ : Type}

variable (env : PublishEnvironment κ) {S : Set Text}

theorem copyfile_only (source destination : Text) (d : Disk Text κ) (h : destination ∈ S) :
    Disk.Only S d (copyfile env source destination d).1 := by
  unfold copyfile
  split
  · exact Disk.Only.refl S d
  · split_ifs
    · exact Disk.Only.refl S d
    · split
      · rename_i left _
        cases left with
        | none => exact Disk.Only.refl S d
        | some content => exact Disk.write_only d _ content h
      · exact Disk.write_only d _ _ h

theorem replaceAside_only (rest : List (Text × Text)) (d : Disk Text κ)
    (aside : List (Text × Text)) (h : ∀ m ∈ rest, m.1 ∈ S ∧ m.2 ∈ S) :
    Disk.Only S d (replaceAside env rest d aside).1 ∧
      (replaceAside env rest d aside).2.1 ⊆ aside ++ rest := by
  induction rest generalizing d aside with
  | nil => exact ⟨Disk.Only.refl S d, by simp [replaceAside]⟩
  | cons m rest ih =>
    obtain ⟨path, moved⟩ := m
    rw [List.forall_mem_cons] at h
    have hskip : aside ++ rest ⊆ aside ++ (path,moved)::rest := by
      intro m hm
      rcases List.mem_append.mp hm with hm | hm
      · exact List.mem_append_left _ hm
      · exact List.mem_append_right _ (List.mem_cons_of_mem _ hm)
    unfold replaceAside
    split_ifs with hnone
    · have hrest := ih d aside h.2
      exact ⟨hrest.1, List.Subset.trans hrest.2 hskip⟩
    · have hrename := Disk.rename_only (env.faults.rename path moved) d path moved h.1.1 h.1.2
      dsimp only
      split_ifs
      · obtain ⟨honly, hsub⟩ := ih (d.rename (env.faults.rename path moved) path moved).1
          (aside ++ [(path,moved)]) h.2
        rw [List.append_assoc] at hsub
        exact ⟨hrename.trans honly, hsub⟩
      · exact ⟨hrename, List.subset_append_left _ _⟩

theorem moveBack_only (moved : List (Text × Text)) (d : Disk Text κ) (kept : List Text)
    (h : ∀ m ∈ moved, m.1 ∈ S ∧ m.2 ∈ S) : Disk.Only S d (moveBack env moved d kept).1 := by
  induction moved generalizing d kept with
  | nil => exact Disk.Only.refl S d
  | cons m moved ih =>
    rw [List.forall_mem_cons] at h
    exact (Disk.rename_only _ d _ _ h.1.2 h.1.1).trans (ih _ _ h.2)

theorem undoPublish_only (output staging : Text) (aside : List (Text × Text))
    (failed : Text × Text) (d : Disk Text κ) (hstaging : staging ∈ S)
    (h : ∀ m ∈ aside, m.1 ∈ S ∧ m.2 ∈ S) :
    Disk.Only S d (undoPublish env output staging aside failed d).1 := by
  have hback := moveBack_only env aside.reverse d [] fun m hm => h m (List.mem_reverse.mp hm)
  have hremove := hback.trans (Disk.remove_only (env.faults.remove staging) _ staging hstaging)
  unfold undoPublish
  dsimp only
  split
  · exact hremove
  · exact hremove

/-- Publishing touches the listed names only. -/
theorem publishOutput_only (source output : Text) (pid : Nat) (d : Disk Text κ) :
    Disk.Only (fun p => p ∈ publishedNames output pid) d
      (publishOutput env source output pid d).1 := by
  have hstaging : stagingPath output pid ∈ publishedNames output pid := by simp [publishedNames]
  have hpairs : ∀ m ∈ asidePairs output pid,
      m.1 ∈ publishedNames output pid ∧ m.2 ∈ publishedNames output pid := by
    intro m hm
    have hfst := List.mem_map_of_mem (f := Prod.fst) hm
    have hsnd := List.mem_map_of_mem (f := Prod.snd) hm
    constructor
    · exact List.mem_cons_of_mem _ (List.mem_cons_of_mem _ (List.mem_append_left _ hfst))
    · exact List.mem_cons_of_mem _ (List.mem_cons_of_mem _ (List.mem_append_right _ hsnd))
  have hcopy := copyfile_only (S := fun p => p ∈ publishedNames output pid) env source
    (stagingPath output pid) d hstaging
  unfold publishOutput
  dsimp only
  split
  · have hremove := hcopy.trans
      (Disk.remove_only (env.faults.remove (stagingPath output pid)) _ _ hstaging)
    split
    · exact hremove
    · exact hremove
  · obtain ⟨haside, hsub⟩ := replaceAside_only
      (S := fun p => p ∈ publishedNames output pid) env (asidePairs output pid)
      (copyfile env source (stagingPath output pid) d).1 [] hpairs
    have hmoved := fun m hm => hpairs m (hsub hm)
    have hsofar := hcopy.trans haside
    split
    · exact hsofar.trans (undoPublish_only env _ _ _ _ _ hstaging hmoved)
    · have hrename := hsofar.trans (Disk.rename_only
        (env.faults.rename (stagingPath output pid) output) _ _ _ hstaging List.mem_cons_self)
      split_ifs
      · exact hrename.trans (undoPublish_only env _ _ _ _ _ hstaging hmoved)
      · exact hrename.trans (Disk.discard_only _ _ _ fun m hm => (hmoved m hm).2)

omit env in
theorem writeJsonAtomic_only (write : JsonWrite κ) (faults : Disk.Faults Text) (sidecar : Text)
    (pid : Nat) (d : Disk Text κ) :
    Disk.Only (fun p => p ∈ sidecarNames sidecar pid) d
      (writeJsonAtomic write faults sidecar pid d).1 := by
  have htemporary : temporarySidecar sidecar pid ∈ sidecarNames sidecar pid := by
    simp [sidecarNames]
  cases write with
  | raises left =>
    cases left with
    | none => exact Disk.Only.refl _ d
    | some content => exact Disk.write_only d _ content htemporary
  | completes content =>
    exact (Disk.write_only d _ content htemporary).trans
      (Disk.rename_only _ _ _ _ htemporary List.mem_cons_self)

end

theorem decimal_plain (n : Nat) : (47 : UInt8) ∉ decimal n := by
  intro h
  have hdigit := (Json.digitsValue_decimal n).2.1 47 h
  exact absurd hdigit (by decide)

/-- Appending to a name keeps the directory. -/
theorem dirname_append (path suffix : Text) (h : (47 : UInt8) ∉ suffix) :
    dirname (path ++ suffix) = dirname path ∧ basename (path ++ suffix) = basename path ++ suffix := by
  have hall : ∀ c ∈ suffix.reverse, (decide (c ≠ (47 : UInt8))) = true := by
    intro c hc
    rw [decide_eq_true_eq]
    rintro rfl
    exact h (List.mem_reverse.mp hc)
  unfold dirname basename
  rw [List.reverse_append, List.dropWhile_append_of_pos hall, List.takeWhile_append_of_pos hall,
    List.reverse_append, List.reverse_reverse]
  exact ⟨rfl, rfl⟩

/-- What an accepted call has checked: no written file is an input, and no input in the output's
directory has a name that could be written. -/
theorem pathAlias_none (same : Text → Text → Bool) (skip : Text → Bool) (output sidecar : Text)
    (inputs : List (Text × Text)) (h : pathAlias same skip output sidecar inputs = none) :
    (∀ w ∈ writtenFiles output sidecar, ∀ i ∈ inputs, same w.2 i.2 = false) ∧
    ∀ i ∈ inputs, skip i.2 = false → same (dirname i.2) (dirname output) = true →
      ∀ w ∈ writtenStarts output sidecar, startsWith (basename i.2) w.2 = false := by
  rw [pathAlias, Option.or_eq_none_iff] at h
  obtain ⟨hexact, hstarts⟩ := h
  refine ⟨fun w hw i hi => ?_, fun i hi hskip hsame w hw => ?_⟩
  · have hnone := List.findSome?_eq_none_iff.mp (List.findSome?_eq_none_iff.mp hexact w hw) i hi
    by_contra hne
    simp [hne] at hnone
  · have hnone := List.findSome?_eq_none_iff.mp hstarts i hi
    simp only [hskip, hsame, Bool.not_true, Bool.or_self, Bool.false_eq_true, if_false] at hnone
    have hnot := List.findSome?_eq_none_iff.mp hnone w hw
    by_contra hne
    simp [hne] at hnot

/-- No file an export run touches beside its output and its sidecar is an input. -/
def InputsSafe (output sidecar : Text) (pid : Nat) (inputs : List (Text × Text)) : Prop :=
  ∀ p ∈ publishedNames output pid ++ sidecarNames sidecar pid, p ∉ inputs.map Prod.snd

theorem suffix_plain : ∀ suffix ∈ outputSidecars, (47 : UInt8) ∉ suffix := by decide

/-- A name made of a path, a plain tail and the process id lies in the path's directory, and starts
with the path's name and the tail. -/
theorem pidName_starts (path tail : Text) (pid : Nat) (h : (47 : UInt8) ∉ tail) :
    dirname (path ++ (tail ++ decimal pid)) = dirname path ∧
      startsWith (basename (path ++ (tail ++ decimal pid))) (basename path ++ tail) = true := by
  have hplain : (47 : UInt8) ∉ tail ++ decimal pid := by
    rw [List.mem_append, not_or]
    exact ⟨h, decimal_plain pid⟩
  obtain ⟨hdir, hbase⟩ := dirname_append path (tail ++ decimal pid) hplain
  refine ⟨hdir, ?_⟩
  rw [hbase, startsWith_iff, ← List.append_assoc]
  exact List.prefix_append _ _

/-- An accepted run is safe exactly if its sidecar lies in the output's directory, or no input is
the sidecar's temporary file. -/
theorem inputsSafe_iff (same : Text → Text → Bool) (skip : Text → Bool) (output sidecar : Text)
    (pid : Nat) (inputs : List (Text × Text))
    (hrefl : ∀ p ∈ publishedNames output pid ++ sidecarNames sidecar pid,
      same p p = true ∧ skip p = false)
    (hdirectory : same (dirname output) (dirname output) = true)
    (h : pathAlias same skip output sidecar inputs = none) :
    InputsSafe output sidecar pid inputs ↔
      (dirname sidecar = dirname output ∨ temporarySidecar sidecar pid ∉ inputs.map Prod.snd) := by
  obtain ⟨hexact, hstarts⟩ := pathAlias_none same skip output sidecar inputs h
  constructor
  · intro hsafe
    exact Or.inr (hsafe _ (by simp [sidecarNames]))
  · intro hcondition p hp hinput
    obtain ⟨hsame, hskip⟩ := hrefl p hp
    obtain ⟨i, hi, rfl⟩ := List.mem_map.mp hinput
    have hnot (role : Text) : (role,i.2) ∉ writtenFiles output sidecar := by
      intro hw
      have := hexact _ hw i hi
      rw [hsame] at this
      cases this
    have hname (role start : Text) (hw : (role,start) ∈ writtenStarts output sidecar)
        (hdir : dirname i.2 = dirname output) : startsWith (basename i.2) start ≠ true := by
      rw [hstarts i hi hskip (hdir ▸ hdirectory) _ hw]
      exact Bool.false_ne_true
    rcases List.mem_append.mp hp with hp | hp
    · rcases List.mem_cons.mp hp with hp | hp
      · exact hnot (text "the output") (by simp [hp, writtenFiles])
      rcases List.mem_cons.mp hp with hp | hp
      · obtain ⟨hdir, hstart⟩ := pidName_starts output (text ".dsig-tmp-") pid (by decide)
        rw [← stagingPath, ← hp] at hdir hstart
        exact hname (text "the output's staging copy") _ List.mem_cons_self hdir hstart
      rcases List.mem_append.mp hp with hp | hp
      · obtain ⟨m, hm, hmp⟩ := List.mem_map.mp hp
        obtain ⟨suffix, hs, rfl⟩ := List.mem_map.mp hm
        refine hnot (text "the output's " ++ suffix ++ text " file") ?_
        rw [← hmp]
        refine List.mem_append_left _ (List.mem_cons_of_mem _ ?_)
        exact List.mem_map_of_mem (f := fun suffix =>
          (text "the output's " ++ suffix ++ text " file",output ++ suffix)) hs
      · obtain ⟨m, hm, hmp⟩ := List.mem_map.mp hp
        obtain ⟨suffix, hs, rfl⟩ := List.mem_map.mp hm
        obtain ⟨hdir, hstart⟩ := pidName_starts (output ++ suffix) (text ".dsig-old-") pid
          (by decide)
        obtain ⟨hdir', hbase⟩ := dirname_append output suffix (suffix_plain suffix hs)
        rw [← movedPath] at hdir hstart
        dsimp only at hmp
        rw [hmp] at hdir hstart
        rw [hbase] at hstart
        refine hname (text "the previous output's " ++ suffix ++ text " file moved aside") _ ?_
          (hdir.trans hdir') hstart
        refine List.mem_append_left _ (List.mem_cons_of_mem _ ?_)
        exact List.mem_map_of_mem (f := fun suffix =>
          (text "the previous output's " ++ suffix ++ text " file moved aside",
            basename output ++ suffix ++ text ".dsig-old-")) hs
    · rcases List.mem_cons.mp hp with hp | hp
      · exact hnot (text "the sidecar") (by simp [hp, writtenFiles])
      · have hp := List.mem_singleton.mp hp
        rcases hcondition with hdirs | htemporary
        · obtain ⟨hdir, hstart⟩ := pidName_starts sidecar (text ".tmp-") pid (by decide)
          rw [← temporarySidecar, ← hp] at hdir hstart
          refine hname (text "the sidecar's temporary file") _ ?_ (hdir.trans hdirs) hstart
          exact List.mem_append_right _ (List.mem_singleton.mpr rfl)
        · exact htemporary (hp ▸ hinput)

/-- A safe run leaves every input as it was. -/
theorem InputsSafe.files {κ : Type} {output sidecar : Text} {pid : Nat}
    {inputs : List (Text × Text)} (h : InputsSafe output sidecar pid inputs)
    (env : PublishEnvironment κ) (write : JsonWrite κ) (source : Text) (d : Disk Text κ)
    (i : Text × Text) (hi : i ∈ inputs) :
    (writeJsonAtomic write env.faults sidecar pid (publishOutput env source output pid d).1).1.files
      i.2 = d.files i.2 := by
  have hnot : i.2 ∉ publishedNames output pid ++ sidecarNames sidecar pid :=
    fun hp => h _ hp (List.mem_map_of_mem hi)
  rw [List.mem_append, not_or] at hnot
  calc
    _ = (publishOutput env source output pid d).1.files i.2 :=
      (writeJsonAtomic_only write env.faults sidecar pid _).frame i.2 hnot.2
    _ = d.files i.2 := (publishOutput_only env source output pid d).frame i.2 hnot.1

/-- When a check lets a run pass, its writes are safe exactly if the sidecar lies in the output's
directory or no input is the sidecar's temporary file; the native tool passes absolute paths. -/
theorem writtenPathAlias_safe_iff (output sidecar : Text) (pid : Nat)
    (inputs : List (Text × Text)) :
    (writtenPathAlias output sidecar inputs = none →
      (InputsSafe output sidecar pid inputs ↔ dirname sidecar = dirname output ∨
        temporarySidecar sidecar pid ∉ inputs.map Prod.snd)) ∧
    (dirname output ≠ [] → sidecar ≠ [] → nativeWrittenPathAlias output sidecar inputs = none →
      (InputsSafe output sidecar pid inputs ↔ dirname sidecar = dirname output ∨
        temporarySidecar sidecar pid ∉ inputs.map Prod.snd)) := by
  constructor
  · intro h
    exact inputsSafe_iff samePath (fun _ => false) output sidecar pid inputs
      (fun p _ => by simp [samePath]) (by simp [samePath]) h
  · intro houtput hsidecar h
    have hne : output ≠ [] := by
      rintro rfl
      exact houtput rfl
    have hnames : ∀ p ∈ publishedNames output pid ++ sidecarNames sidecar pid, p ≠ [] := by
      intro p hp hnil
      subst hnil
      simp [publishedNames, sidecarNames, asidePairs, stagingPath, movedPath, temporarySidecar,
        hne, hsidecar, Ne.symm hne, Ne.symm hsidecar] at hp
    refine inputsSafe_iff sameFile List.isEmpty output sidecar pid inputs (fun p hp => ?_) ?_ h
    · simp [sameFile, hnames p hp]
    · simp [sameFile, houtput]

/-- An input in the sidecar's own directory. -/
def besideSidecar : List (Text × Text) := [(text "the input",text "/logs/run.json.tmp-7")]

/-- Both checks accept it, and the run would write it. -/
theorem writtenPathAlias_misses :
    writtenPathAlias (text "/data/out.sqlite") (text "/logs/run.json") besideSidecar = none ∧
    nativeWrittenPathAlias (text "/data/out.sqlite") (text "/logs/run.json") besideSidecar = none ∧
    ¬ InputsSafe (text "/data/out.sqlite") (text "/logs/run.json") 7 besideSidecar := by
  refine ⟨by decide, by decide, fun h => ?_⟩
  exact h (text "/logs/run.json.tmp-7") (by decide) (by decide)

theorem writtenPathAlias_safe_iff_beside :
    InputsSafe (text "/data/out.sqlite") (text "/logs/run.json") 7 besideSidecar ↔
      dirname (text "/logs/run.json") = dirname (text "/data/out.sqlite") ∨
        temporarySidecar (text "/logs/run.json") 7 ∉ besideSidecar.map Prod.snd :=
  (writtenPathAlias_safe_iff (text "/data/out.sqlite") (text "/logs/run.json") 7 besideSidecar).1
    (by decide)

end DSigMatcher.Export
