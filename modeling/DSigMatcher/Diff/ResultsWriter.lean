import DSigMatcher.Diff.PyInt
import DSigMatcher.Framework.DiskTouched

namespace DSigMatcher.Diff
open DSigMatcher.Base DSigMatcher.Framework

/-- The companions of a SQLite database, in the order the writer removes them. -/
def databaseSidecars : List Text := [text "-journal", text "-wal", text "-shm"]

def sidecarPaths (path : Text) : List Text := databaseSidecars.map (path ++ ·)

/-- `TemporaryResultsPath`. -/
def temporaryResultsPath (out : Text) (pid : Nat) : Text := out ++ (text ".tmp-" ++ decimal pid)

/-- The work of SQLite on the temporary database, in order. -/
inductive WriterStep
  | opening | config | results | unmatched | commit | close
  deriving DecidableEq

def writerSteps : List WriterStep := [.opening, .config, .results, .unmatched, .commit, .close]

inductive WriterError
  | diff (e : DiffError)
  | ioFailure (message : Text)
  | sqlite (message : Text)
  deriving DecidableEq

/-- What one write meets: an error of formatting the rows, whether the output is a directory, what
SQLite leaves of the temporary database after each step, and what fails. -/
structure WriterEnvironment (κ : Type) where
  formatting : Option DiffError
  isDirectory : Bool
  sqliteFiles : WriterStep → Text → Option κ
  fails : WriterStep → Option Text
  faults : Disk.Faults Text
  osMessage : Text → Text → Text

section
variable {κ : Type} (env : WriterEnvironment κ)

/-- `RemoveIfPresent`. -/
def removeIfPresent (path : Text) (d : Disk Text κ) : Disk Text κ × Option WriterError :=
  if (d.files path).isNone then (d, none)
  else if env.faults.remove path then
    (d, some (.ioFailure (text "cannot remove '" ++ path ++ text "': " ++ env.osMessage path [])))
  else (d.remove false path, none)

def removeAll : List Text → Disk Text κ → Disk Text κ × Option WriterError
  | [], d => (d, none)
  | path::rest, d =>
    match removeIfPresent env path d with
    | (d,none) => removeAll rest d
    | (d,some error) => (d, some error)

def removeDatabaseSidecars (path : Text) (d : Disk Text κ) : Disk Text κ × Option WriterError :=
  removeAll env (sidecarPaths path) d

def removeDatabaseFiles (path : Text) (d : Disk Text κ) : Disk Text κ × Option WriterError :=
  removeAll env (path::sidecarPaths path) d

/-- One step of SQLite's: the database and its companions become what it leaves of them. -/
def sqliteStep (path : Text) (step : WriterStep) (d : Disk Text κ) : Disk Text κ :=
  ([]::databaseSidecars).foldl (fun d suffix =>
    match env.sqliteFiles step suffix with
    | none => d.remove false (path ++ suffix)
    | some content => d.write (path ++ suffix) content) d

/-- The steps up to the first that throws. -/
def fillDatabase (path : Text) : List WriterStep → Disk Text κ → Disk Text κ × Option WriterError
  | [], d => (d, none)
  | step::rest, d =>
    match env.fails step with
    | some message => (sqliteStep env path step d, some (.sqlite message))
    | none => fillDatabase path rest (sqliteStep env path step d)

/-- `RenameReplacing`. -/
def renameReplacing (source destination : Text) (d : Disk Text κ) :
    Disk Text κ × Option WriterError :=
  let renamed := d.rename (env.faults.rename source destination) source destination
  (renamed.1, if renamed.2 then none else some (.ioFailure (text "cannot replace '" ++
    destination ++ text "' with '" ++ source ++ text "': " ++ env.osMessage source destination)))

/-- The block under `try`. -/
def writeAndReplace (target out : Text) (d : Disk Text κ) : Disk Text κ × Option WriterError :=
  match fillDatabase env target writerSteps d with
  | (d,some error) => (d, some error)
  | (d,none) =>
    match removeDatabaseSidecars env out d with
    | (d,some error) => (d, some error)
    | (d,none) => renameReplacing env target out d

/-- `WriteDiaphoraResults` on disk; in memory it leaves the disk alone. -/
def writeDiaphoraResults (out : Text) (pid : Nat) (d : Disk Text κ) :
    Disk Text κ × Option WriterError :=
  match env.formatting with
  | some error => (d, some (.diff error))
  | none =>
    if out = text ":memory:" then (d, (writerSteps.findSome? env.fails).map .sqlite)
    else if env.isDirectory then
      (d, some (.ioFailure (text "cannot remove '" ++ out ++ text "': it is a directory")))
    else
      let target := temporaryResultsPath out pid
      match removeDatabaseFiles env target d with
      | (d,some error) => (d, some error)
      | (d,none) =>
        match writeAndReplace env target out d with
        | (d,none) => (d, none)
        -- what the clean-up throws is not reported
        | (d,some error) => ((removeDatabaseFiles env target d).1, some error)

theorem removeIfPresent_cases (p : Text) (d : Disk Text κ) :
    (d.files p = none ∧ removeIfPresent env p d = (d,none)) ∨
    (d.files p ≠ none ∧ env.faults.remove p = true ∧
      ∃ error, removeIfPresent env p d = (d,some error)) ∨
    (d.files p ≠ none ∧ env.faults.remove p = false ∧
      removeIfPresent env p d = (d.remove false p,none)) := by
  unfold removeIfPresent
  cases hp : d.files p with
  | none => simp
  | some content => cases hf : env.faults.remove p <;> simp

theorem removeIfPresent_gone (p q : Text) (d : Disk Text κ) (hq : d.files q = none) :
    (removeIfPresent env p d).1.files q = none := by
  have hremove : (d.remove false p).files q = none := by
    by_cases hqp : q = p
    · simp [Disk.remove, ← hqp, hq]
    · rw [Disk.remove_frame _ _ _ _ hqp, hq]
  rcases removeIfPresent_cases env p d with ⟨-, h⟩ | ⟨-, -, error, h⟩ | ⟨-, -, h⟩
  · rw [h, hq]
  · rw [h, hq]
  · rw [h, hremove]

theorem removeAll_gone (paths : List Text) (q : Text) (d : Disk Text κ) (hq : d.files q = none) :
    (removeAll env paths d).1.files q = none := by
  induction paths generalizing d with
  | nil => exact hq
  | cons p rest ih =>
    have hstep := removeIfPresent_gone env p q d hq
    rw [removeAll]
    rcases hr : removeIfPresent env p d with ⟨d', error⟩
    rw [hr] at hstep
    cases error with
    | none => exact ih d' hstep
    | some error => exact hstep

theorem removeAll_frame (paths : List Text) (q : Text) (d : Disk Text κ) (hq : q ∉ paths) :
    (removeAll env paths d).1.files q = d.files q := by
  induction paths generalizing d with
  | nil => rfl
  | cons p rest ih =>
    rw [List.mem_cons, not_or] at hq
    rw [removeAll]
    rcases removeIfPresent_cases env p d with ⟨-, h⟩ | ⟨-, -, error, h⟩ | ⟨-, -, h⟩
    · rw [h]
      exact ih d hq.2
    · rw [h]
    · rw [h]
      exact (ih _ hq.2).trans (Disk.remove_frame _ _ _ _ hq.1)

/-- It succeeds if no call on a file that exists fails. -/
theorem removeAll_ok_iff (paths : List Text) (d : Disk Text κ) :
    (removeAll env paths d).2 = none ↔
      ∀ p ∈ paths, d.files p ≠ none → env.faults.remove p = false := by
  induction paths generalizing d with
  | nil => simp [removeAll]
  | cons p rest ih =>
    rw [removeAll, List.forall_mem_cons]
    rcases removeIfPresent_cases env p d with ⟨hp, h⟩ | ⟨hp, hf, error, h⟩ | ⟨hp, hf, h⟩
    · rw [h]
      simp [ih, hp]
    · rw [h]
      simp [hp, hf]
    · rw [h]
      simp only [ih, hf, implies_true, true_and]
      have hother (q : Text) (hq : q ≠ p) := Disk.remove_frame false d p q hq
      constructor
      · intro hall q hq hne
        by_cases hqp : q = p
        · rw [hqp, hf]
        · exact hall q hq (by rwa [hother q hqp])
      · intro hall q hq hne
        by_cases hqp : q = p
        · rw [hqp, hf]
        · exact hall q hq (by rwa [hother q hqp] at hne)

/-- The first of the files that exists, in the order of the calls. -/
def firstPresent (paths : List Text) (d : Disk Text κ) : Option Text :=
  paths.find? fun p => (d.files p).isSome

/-- What becomes of the first file: the call on it fails and nothing happens, or it is gone. -/
theorem removeAll_first (paths : List Text) (d : Disk Text κ) :
    match firstPresent paths d with
    | none => removeAll env paths d = (d,none)
    | some p => if env.faults.remove p then (removeAll env paths d).1 = d
      else (removeAll env paths d).1.files p = none ∧ d.files p ≠ none := by
  induction paths with
  | nil => rfl
  | cons p rest ih =>
    rw [firstPresent, List.find?_cons, removeAll]
    rcases removeIfPresent_cases env p d with ⟨hp, h⟩ | ⟨hp, hf, error, h⟩ | ⟨hp, hf, h⟩
    · rw [h]
      simpa [hp, firstPresent] using ih
    · rw [h, Option.isSome_iff_ne_none.mpr hp]
      simp [hf]
    · have hgone : (d.remove false p).files p = none := by
        simp [Disk.remove, Option.isNone_iff_eq_none, hp]
      rw [h, Option.isSome_iff_ne_none.mpr hp]
      simp only [hf, Bool.false_eq_true, if_false]
      exact ⟨removeAll_gone env rest p _ hgone, hp⟩

/-- SQLite touches the database it writes, and its companions. -/
theorem fillDatabase_frame (path : Text) (steps : List WriterStep) (d : Disk Text κ) (q : Text)
    (hq : q ∉ path::sidecarPaths path) : (fillDatabase env path steps d).1.files q = d.files q := by
  have hne : ∀ suffix ∈ []::databaseSidecars, path ++ suffix ∈ path::sidecarPaths path := by
    intro suffix hs
    rcases List.mem_cons.mp hs with rfl | hs
    · simp
    · exact List.mem_cons_of_mem _ (List.mem_map_of_mem hs)
  have hstep (step : WriterStep) (d : Disk Text κ) :
      Disk.Only (fun p => p ∈ path::sidecarPaths path) d (sqliteStep env path step d) := by
    refine Disk.foldl_only _ _ d fun suffix hs e => ?_
    split
    · exact Disk.remove_only _ e _ (hne suffix hs)
    · exact Disk.write_only e _ _ (hne suffix hs)
  induction steps generalizing d with
  | nil => rfl
  | cons step rest ih =>
    have hfiles := (hstep step d).frame q hq
    rw [fillDatabase]
    cases env.fails step with
    | some message => exact hfiles
    | none => exact (ih _).trans hfiles

theorem fillDatabase_ok_iff (path : Text) (steps : List WriterStep) (d : Disk Text κ) :
    (fillDatabase env path steps d).2 = none ↔ ∀ step ∈ steps, env.fails step = none := by
  induction steps generalizing d with
  | nil => simp [fillDatabase]
  | cons step rest ih =>
    rw [fillDatabase, List.forall_mem_cons]
    cases hf : env.fails step with
    | some message => simp
    | none => simp [ih]

end

/-- The temporary database and its companions are other files than the output and its own. -/
theorem temporary_ne (out : Text) (pid : Nat) : ∀ suffix ∈ []::databaseSidecars,
    out ++ suffix ∉ temporaryResultsPath out pid::sidecarPaths (temporaryResultsPath out pid) := by
  have hhead : ∀ suffix ∈ []::databaseSidecars, suffix.head? ≠ some 46 := by decide
  have htext : (text ".tmp-" ++ decimal pid).head? = some 46 := rfl
  intro suffix hs hmem
  have hsame : ∃ tail, out ++ suffix = out ++ (text ".tmp-" ++ decimal pid ++ tail) := by
    rcases List.mem_cons.mp hmem with h | h
    · exact ⟨[], by rw [h, temporaryResultsPath, List.append_nil]⟩
    · obtain ⟨tail, -, h⟩ := List.mem_map.mp h
      exact ⟨tail, by rw [← h, temporaryResultsPath, List.append_assoc]⟩
  obtain ⟨tail, hsame⟩ := hsame
  apply hhead suffix hs
  rw [List.append_cancel_left hsame, List.head?_append, htext]
  rfl

section
variable {κ : Type} (env : WriterEnvironment κ) (out : Text) (pid : Nat)

/-- The write gets as far as removing the old companions. -/
structure ReachesRemovals (d : Disk Text κ) : Prop where
  formatted : env.formatting = none
  onDisk : out ≠ text ":memory:"
  file : env.isDirectory = false
  cleared : ∀ p ∈ temporaryResultsPath out pid::sidecarPaths (temporaryResultsPath out pid),
    d.files p ≠ none → env.faults.remove p = false
  filled : ∀ step ∈ writerSteps, env.fails step = none

/-- The output and its companions are what they were. -/
def Untouched (before after : Disk Text κ) : Prop :=
  ∀ suffix ∈ []::databaseSidecars, after.files (out ++ suffix) = before.files (out ++ suffix)

theorem Untouched.refl (d : Disk Text κ) : Untouched out d d := fun _ _ => rfl

theorem Untouched.trans {d e f : Disk Text κ} (hde : Untouched out d e)
    (hef : Untouched out e f) : Untouched out d f :=
  fun suffix hs => (hef suffix hs).trans (hde suffix hs)

/-- Clearing the temporary database. -/
theorem removeDatabaseFiles_untouched (d : Disk Text κ) :
    Untouched out d (removeDatabaseFiles env (temporaryResultsPath out pid) d).1 :=
  fun suffix hs => removeAll_frame env _ _ d (temporary_ne out pid suffix hs)

theorem fillDatabase_untouched (steps : List WriterStep) (d : Disk Text κ) :
    Untouched out d (fillDatabase env (temporaryResultsPath out pid) steps d).1 :=
  fun suffix hs => fillDatabase_frame env _ steps d _ (temporary_ne out pid suffix hs)

omit env in
theorem firstPresent_mem {paths : List Text} {d : Disk Text κ} {p : Text}
    (h : firstPresent paths d = some p) : p ∈ paths ∧ d.files p ≠ none :=
  ⟨List.mem_of_find?_eq_some h, Option.isSome_iff_ne_none.mp (by simpa using List.find?_some h)⟩

omit env in
theorem firstPresent_congr {d e : Disk Text κ} (h : Untouched out d e) :
    firstPresent (sidecarPaths out) e = firstPresent (sidecarPaths out) d := by
  have hjournal := h (text "-journal") (by decide)
  have hwal := h (text "-wal") (by decide)
  have hshm := h (text "-shm") (by decide)
  simp only [firstPresent, sidecarPaths, databaseSidecars, List.map_cons, List.map_nil,
    List.find?_cons, List.find?_nil, hjournal, hwal, hshm]

/-- The last two steps, when they fail: either nothing beside the output changed, or the first
companion is gone. -/
theorem removeAndReplace_failed (d : Disk Text κ)
    (hfail : (match removeDatabaseSidecars env out d with
      | (d,some error) => (d, some error)
      | (d,none) => renameReplacing env (temporaryResultsPath out pid) out d).2 ≠ none) :
    let after := (match removeDatabaseSidecars env out d with
      | (d,some error) => (d, some error)
      | (d,none) => renameReplacing env (temporaryResultsPath out pid) out d).1
    match firstPresent (sidecarPaths out) d with
    | none => after = d
    | some p => if env.faults.remove p then after = d else after.files p = none := by
  have hfirst := removeAll_first env (sidecarPaths out) d
  have hok := removeAll_ok_iff env (sidecarPaths out) d
  unfold removeDatabaseSidecars at hfail ⊢
  rcases hr : removeAll env (sidecarPaths out) d with ⟨d', error⟩
  rw [hr] at hfirst hfail hok
  -- a failed rename leaves everything as it was
  have hafter : (match (d',error) with
      | (d,some error) => (d, some error)
      | (d,none) => renameReplacing env (temporaryResultsPath out pid) out d).1 = d' := by
    cases error with
    | some error => rfl
    | none =>
      refine Disk.rename_failed _ _ _ _ ?_
      rw [← Bool.not_eq_true]
      intro hrename
      exact hfail (by simp [renameReplacing, hrename])
  dsimp only at hafter ⊢
  rw [hafter]
  cases hp : firstPresent (sidecarPaths out) d with
  | none =>
    rw [hp] at hfirst
    exact (Prod.mk.inj hfirst).1
  | some p =>
    rw [hp] at hfirst
    dsimp only at hfirst ⊢
    split_ifs at hfirst ⊢
    · exact hfirst
    · exact hfirst.1

/-- A failed write leaves the output and its companions alone exactly if it fails before it comes
to the old companions, or there are none, or the first call to remove one is what fails. -/
theorem writeDiaphoraResults_untouched_iff (d : Disk Text κ)
    (hfail : (writeDiaphoraResults env out pid d).2 ≠ none) :
    Untouched out d (writeDiaphoraResults env out pid d).1 ↔
      (ReachesRemovals env out pid d → ∀ p, firstPresent (sidecarPaths out) d = some p →
        env.faults.remove p = true) := by
  have hearly (after : Disk Text κ) (hsame : Untouched out d after)
      (hnot : ¬ ReachesRemovals env out pid d) : Untouched out d after ↔
      (ReachesRemovals env out pid d → ∀ p, firstPresent (sidecarPaths out) d = some p →
        env.faults.remove p = true) :=
    iff_of_true hsame fun h => absurd h hnot
  have hcleared := removeAll_ok_iff env
    (temporaryResultsPath out pid::sidecarPaths (temporaryResultsPath out pid)) d
  have hclear := removeDatabaseFiles_untouched env out pid d
  unfold writeDiaphoraResults at hfail ⊢
  cases hformat : env.formatting with
  | some error =>
    refine hearly _ (Untouched.refl out d) fun h => ?_
    have := h.formatted
    rw [hformat] at this
    cases this
  | none =>
    simp only [hformat] at hfail
    dsimp only
    by_cases hmemory : out = text ":memory:"
    · rw [if_pos hmemory]
      exact hearly _ (Untouched.refl out d) fun h => h.onDisk hmemory
    rw [if_neg hmemory] at hfail ⊢
    by_cases hdirectory : env.isDirectory = true
    · rw [if_pos hdirectory]
      refine hearly _ (Untouched.refl out d) fun h => ?_
      have := h.file
      rw [hdirectory] at this
      cases this
    rw [if_neg hdirectory] at hfail ⊢
    rw [← removeDatabaseFiles] at hcleared
    rcases hr : removeDatabaseFiles env (temporaryResultsPath out pid) d with ⟨d', error⟩
    simp only [hr] at hcleared hclear hfail ⊢
    cases error with
    | some error =>
      refine hearly _ hclear fun h => ?_
      have := hcleared.mpr h.cleared
      cases this
    | none =>
      have hfilled := fillDatabase_ok_iff env (temporaryResultsPath out pid) writerSteps d'
      have hfill := hclear.trans out (fillDatabase_untouched env out pid writerSteps d')
      rcases hw : fillDatabase env (temporaryResultsPath out pid) writerSteps d' with ⟨e, error⟩
      simp only [hw] at hfilled hfill
      simp only [writeAndReplace, hw] at hfail ⊢
      cases error with
      | some error =>
        refine hearly _ (hfill.trans out (removeDatabaseFiles_untouched env out pid e)) fun h => ?_
        have := hfilled.mpr h.filled
        cases this
      | none =>
        have hreaches : ReachesRemovals env out pid d :=
          ⟨hformat, hmemory, by simpa using hdirectory, hcleared.mp rfl, hfilled.mp rfl⟩
        have hlast := removeAndReplace_failed env out pid e
        rw [firstPresent_congr out hfill] at hlast
        rcases hm : (match removeDatabaseSidecars env out e with
          | (d,some error) => (d, some error)
          | (d,none) => renameReplacing env (temporaryResultsPath out pid) out d)
          with ⟨f, error⟩
        simp only [hm] at hfail hlast ⊢
        cases error with
        | none => exact absurd rfl hfail
        | some error =>
          have hend := removeDatabaseFiles_untouched env out pid f
          replace hlast := hlast (by simp)
          cases hp : firstPresent (sidecarPaths out) d with
          | none =>
            rw [hp] at hlast
            obtain rfl : f = e := hlast
            exact iff_of_true (hfill.trans out hend) (by simp)
          | some p =>
            rw [hp] at hlast
            dsimp only at hlast
            obtain ⟨hmem, hpresent⟩ := firstPresent_mem hp
            obtain ⟨suffix, hs, rfl⟩ := List.mem_map.mp hmem
            split_ifs at hlast with hfault
            · subst hlast
              refine iff_of_true (hfill.trans out hend) fun _ q hq => ?_
              obtain rfl := Option.some.inj hq
              exact hfault
            · refine iff_of_false (fun huntouched => ?_) fun h => hfault (h hreaches _ rfl)
              have hgone := hend suffix (List.mem_cons_of_mem _ hs)
              rw [hlast] at hgone
              exact hpresent ((huntouched suffix (List.mem_cons_of_mem _ hs)).symm.trans hgone)

end

/-- Everything works but the final rename. -/
def lockedOutput : WriterEnvironment Nat where
  formatting := none
  isDirectory := false
  sqliteFiles := fun _ suffix => if suffix = [] then some 9 else none
  fails := fun _ => none
  faults := ⟨fun _ p => p = text "out", fun _ => false⟩
  osMessage := fun _ _ => text "access denied"

/-- An output with a log beside it. -/
def outputWithLog : Disk Text Nat :=
  ⟨fun p => if p = text "out" then some 1 else if p = text "out-wal" then some 2 else none, []⟩

theorem writeDiaphoraResults_untouched_iff_locked :
    Untouched (text "out") outputWithLog
        (writeDiaphoraResults lockedOutput (text "out") 7 outputWithLog).1 ↔
      (ReachesRemovals lockedOutput (text "out") 7 outputWithLog →
        ∀ p, firstPresent (sidecarPaths (text "out")) outputWithLog = some p →
          lockedOutput.faults.remove p = true) :=
  writeDiaphoraResults_untouched_iff lockedOutput (text "out") 7 outputWithLog (by decide)

/-- The rename fails after the log is gone. -/
theorem writeDiaphoraResults_loses_log :
    (writeDiaphoraResults lockedOutput (text "out") 7 outputWithLog).2 ≠ none ∧
    outputWithLog.files (text "out-wal") = some 2 ∧
    (writeDiaphoraResults lockedOutput (text "out") 7 outputWithLog).1.files (text "out-wal") =
      none := by
  decide

end DSigMatcher.Diff
