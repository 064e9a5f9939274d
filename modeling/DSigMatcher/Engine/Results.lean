import DSigMatcher.Diff.FinalPassResolved
import DSigMatcher.Engine.LocalAffinity

namespace DSigMatcher.Engine
open DSigMatcher.Base DSigMatcher.Framework DSigMatcher.Diff DSigMatcher.Pipeline

/-- The rows of the final pass behind those that the results have already. -/
def resolveMatchesInto (final : FinalChoosers) (st : MatchState) : Except DiffError FinalChoosers := do
  let scan := findUnresolvedMultimatches st
  let main ← addMultimatchesToChooser ⟨[],[],final.multimatch⟩ scan.multiMain.entries
  let diff ← addMultimatchesToChooser ⟨[],main.dones,main.rows⟩ scan.multiDiff.entries
  addFinalChooserItems st scan main.ignore diff.ignore { final with multimatch := diff.rows } choosers

/-- Into empty results, it is the final pass of a state. -/
theorem resolveMatchesInto_empty (st : MatchState) : resolveMatchesInto {} st = resolveMatches st := by
  unfold resolveMatchesInto resolveMatches
  dsimp only
  cases addMultimatchesToChooser ⟨[],[],[]⟩ (findUnresolvedMultimatches st).multiMain.entries with
  | error e => rfl
  | ok main =>
    dsimp only [ok_bind]
    cases addMultimatchesToChooser ⟨[],main.dones,main.rows⟩
      (findUnresolvedMultimatches st).multiDiff.entries with
    | error e => rfl
    | ok diff => rfl

/-- What holds of every row of the results. -/
structure RowsOver (P : Item → Prop) (final : FinalChoosers) : Prop where
  items : ∀ c, ∀ it ∈ final.items c, P it
  multimatch : ∀ it ∈ final.multimatch, P it

section
variable {P : Item → Prop}

theorem addMultimatchItems_over {ea : Option Text} {s s' : MultimatchAdd} {ms : List Item}
    (h : addMultimatchItems ea s ms = .ok s') (hrows : ∀ it ∈ s.rows, P it) (hms : ∀ it ∈ ms, P it) :
    ∀ it ∈ s'.rows, P it := by
  induction ms generalizing s with
  | nil => exact Except.ok.inj h ▸ hrows
  | cons m ms ih =>
    rw [List.forall_mem_cons] at hms
    unfold addMultimatchItems at h
    split_ifs at h
    · exact ih h hrows hms.2
    · split at h
      · cases h
      · rename_i rows hadd
        refine ih h ?_ hms.2
        rw [addChooserItem_ok hadd, List.forall_mem_append, List.forall_mem_singleton]
        exact ⟨hrows, hms.1⟩

theorem addMultimatchesToChooser_over {s s' : MultimatchAdd} {es : List (Option Text × List Item)}
    (h : addMultimatchesToChooser s es = .ok s') (hrows : ∀ it ∈ s.rows, P it)
    (hes : ∀ e ∈ es, ∀ it ∈ e.2, P it) : ∀ it ∈ s'.rows, P it := by
  induction es generalizing s with
  | nil => exact Except.ok.inj h ▸ hrows
  | cons e es ih =>
    rw [List.forall_mem_cons] at hes
    unfold addMultimatchesToChooser at h
    split_ifs at h
    · split at h
      · cases h
      · rename_i added hadd
        exact ih h (addMultimatchItems_over hadd hrows hes.1) hes.2
    · exact ih h hrows hes.2

/-- The scan puts together what it visits. -/
theorem scan_over {ms : List Item} (hms : ∀ it ∈ ms, P it) {s : MultimatchScan}
    (hmain : s.multiMain.Over P) (hdiff : s.multiDiff.Over P) :
    (ms.foldl scanItem s).multiMain.Over P ∧ (ms.foldl scanItem s).multiDiff.Over P := by
  induction ms generalizing s with
  | nil => exact ⟨hmain, hdiff⟩
  | cons m ms ih =>
    rw [List.forall_mem_cons] at hms
    refine ih hms.2 ?_ ?_
    · unfold scanItem
      split_ifs
      · exact hmain
      · dsimp only
        split_ifs
        · exact keepTop_over _ _ hmain hms.1
        · exact keepTop_over _ _ hmain hms.1
    · unfold scanItem
      split_ifs
      · exact hdiff
      · dsimp only
        split_ifs
        · exact keepTop_over _ _ hdiff hms.1
        · exact hdiff

/-- Every row of the results was there before or is a match. -/
theorem resolveMatchesInto_over {final rows : FinalChoosers} {st : MatchState}
    (h : resolveMatchesInto final st = .ok rows) (hfinal : RowsOver P final)
    (hst : ∀ c, ∀ it ∈ st.items c, P it) : RowsOver P rows := by
  simp only [resolveMatchesInto, bind_eq_ok] at h
  obtain ⟨main, hmain, diff, hdiff, h⟩ := h
  have hvisited : ∀ it ∈ visitOrder st, P it := by
    intro it hit
    obtain ⟨c, hc⟩ := (mem_listed st it).mp ((mem_visitOrder st it).mp hit)
    exact hst c it hc
  obtain ⟨hscanMain, hscanDiff⟩ := scan_over (P := P) hvisited (s := {}) (GroupDict.over_empty P)
    (GroupDict.over_empty P)
  have hrows := addMultimatchesToChooser_over hmain hfinal.multimatch hscanMain
  have hrows' := addMultimatchesToChooser_over hdiff hrows hscanDiff
  obtain ⟨hmulti, hitems⟩ := addFinalChooserItems_ok st _ _ _ (by decide) h
  have hmultimatch : rows.multimatch = diff.rows := hmulti
  refine ⟨fun c it hit => ?_, fun it hit => hrows' it (hmultimatch ▸ hit)⟩
  have hc : c ∈ choosers := by cases c <;> decide
  rw [hitems, if_pos hc, List.mem_append, List.mem_filter, MatchState.sortedResults,
    mem_sortDescending] at hit
  rcases hit with hit | ⟨hit, -⟩
  · exact hfinal.items c it (by cases c <;> exact hit)
  · exact hst c it hit

end

/-- `StageFinalPass`. -/
def finalPass : Program Unit := do
  Program.cleanup .l2945
  let st ← Program.matchState
  let final ← Program.final
  let rows ← Program.pureDiff (resolveMatchesInto final.choosers st)
  Program.setFinal fun final => { final with choosers := rows }

theorem finalPass_ok {s t : State} (h : finalPass.stage s = .ok t) :
    ∃ rows, resolveMatchesInto s.final.choosers (Diff.cleanup s.matchState) = .ok rows ∧
      t = { s.cleanup .l2945 with final := { s.final with choosers := rows } } := by
  have hrun : finalPass.run s = Uniform.andThen
      (fun rows => Program.setFinal fun final => { final with choosers := rows })
      ((Program.pureDiff (resolveMatchesInto s.final.choosers (Diff.cleanup s.matchState))).run
        (s.cleanup .l2945)) := rfl
  unfold Program.stage at h
  rw [hrun] at h
  cases hrows : resolveMatchesInto s.final.choosers (Diff.cleanup s.matchState) with
  | error e =>
    rw [hrows] at h
    cases h
  | ok rows =>
    rw [hrows] at h
    exact ⟨rows, rfl, (Except.ok.inj h).symm⟩

def unmatchedSql : Side → Text
  | .main => text "select name, address from functions"
  | .diff => text "select name, address from diff.functions"

/-- A text or None of a query. -/
def unmatchedCell (s : Statement) (which : Side) (column : Nat) : Except FetchError (Option Text) :=
  if s.badText column then
    .error (Statement.wouldRaise (text "fetch")
      (text "OperationalError: Could not decode to UTF-8 column '" ++ s.columnNames.getD column [] ++
        text "' (" ++ unmatchedSql which ++ text ")"))
  else textOrNone (s.cell (some column)) (text "find_unmatched: non-TEXT value in column '" ++
    s.columnNames.getD column [] ++ text "' of `" ++ unmatchedSql which ++ text "`")

def readUnmatchedRow (which : Side) (s : Statement) : Except FetchError UnmatchedRow := do
  let name' ← unmatchedCell s which 0
  let ea ← unmatchedCell s which 1
  return ⟨ea,name'⟩

/-- The functions of an export without a match. -/
def unmatchedOf (st : MatchState) (which : Side) (rows : List UnmatchedRow) (site : Text) :
    Except DiffError (List UnmatchedRow) := do
  let left := rows.filter fun row => !isMatched st which row.name
  left.forM fun row => requirePyInt row.ea site
  return left

namespace Environment
variable (env : Environment)

/-- One export of `find_unmatched`; where it has no functions, nothing is written. -/
def unmatchedSide (which : Side) (site : Text)
    (write : Option (List UnmatchedRow) → FinalResults → FinalResults) : Program Unit := do
  let stmt ← Program.lift (env.db (.unmatched which))
  let rows ← Program.lift (readRows stmt (readUnmatchedRow which))
  let st ← Program.matchState
  if rows.isEmpty then pure ()
  else
    let left ← Program.pureDiff (unmatchedOf st which rows site)
    Program.setFinal (write (some left))

/-- The functions of the main export are the secondary ones. -/
def findUnmatched : Program Unit := do
  env.unmatchedSide .main (text "D:280 (main)") fun left final =>
    { final with unmatchedSecondary := left }
  env.unmatchedSide .diff (text "D:280 (diff)") fun left final =>
    { final with unmatchedPrimary := left }

end Environment

/-- What is left of the functions of an export that a query has found: those without a match. -/
structure Leftover (env : Environment) (st : MatchState) (which : Side) (left : List UnmatchedRow) :
    Prop where
  found : ∃ stmt rows, env.db (.unmatched which) = .ok stmt ∧
    readRows stmt (readUnmatchedRow which) = .ok rows ∧
      left = rows.filter fun row => !isMatched st which row.name

theorem unmatchedOf_ok {st : MatchState} {which : Side} {rows left : List UnmatchedRow} {site : Text}
    (h : unmatchedOf st which rows site = .ok left) :
    left = rows.filter fun row => !isMatched st which row.name := by
  simp only [unmatchedOf, bind_eq_ok] at h
  obtain ⟨-, -, h⟩ := h
  exact (Except.ok.inj h).symm

/-- Where nothing is written, there was nothing to find. -/
theorem unmatchedSide_ok {env : Environment} {which : Side} {site : Text}
    {write : Option (List UnmatchedRow) → FinalResults → FinalResults} {s t : State}
    (h : (env.unmatchedSide which site write).run s = (.ok (),t)) :
    (t = s ∧ Leftover env s.matchState which []) ∨ ∃ left, Leftover env s.matchState which left ∧
      t = { s with final := write (some left) s.final } := by
  simp only [Environment.unmatchedSide, Program.lift, Program.matchState, Uniform.run_bind_eq_ok,
    Uniform.run_lift_eq_ok, Uniform.run_gets_eq_ok] at h
  obtain ⟨stmt, _, ⟨hstmt, rfl⟩, rows, _, ⟨hrows, rfl⟩, _, _, ⟨rfl, rfl⟩, h⟩ := h
  split_ifs at h with hempty
  · have hnil : rows = [] := List.isEmpty_iff.mp hempty
    rw [hnil] at hrows
    exact .inl ⟨(Prod.mk_inj.mp h).2.symm, ⟨stmt, [], hstmt, hrows, rfl⟩⟩
  · simp only [Program.pureDiff, Uniform.run_bind_eq_ok, Uniform.run_lift_eq_ok] at h
    obtain ⟨left, _, ⟨hleft, rfl⟩, h⟩ := h
    refine .inr ⟨left, ⟨stmt, rows, hstmt, hrows, @unmatchedOf_ok _ _ _ _ site ?_⟩,
      (Prod.mk_inj.mp h).2.symm⟩
    cases hunmatched : unmatchedOf s.matchState which rows site with
    | error e =>
      rw [hunmatched] at hleft
      cases hleft
    | ok found =>
      rw [hunmatched] at hleft
      exact congrArg Except.ok (Except.ok.inj hleft)

theorem findUnmatched_ok {env : Environment} {s t : State} (h : env.findUnmatched.stage s = .ok t) :
    ∃ u, ((u = s ∧ Leftover env s.matchState .main []) ∨ ∃ left, Leftover env s.matchState .main left ∧
        u = { s with final := { s.final with unmatchedSecondary := some left } }) ∧
      ((t = u ∧ Leftover env u.matchState .diff []) ∨ ∃ left, Leftover env u.matchState .diff left ∧
        t = { u with final := { u.final with unmatchedPrimary := some left } }) := by
  have hrun : env.findUnmatched.run s = (.ok (),t) := by
    unfold Program.stage at h
    split at h
    · rename_i u heq
      rw [heq, Except.ok.inj h]
    · cases h
  obtain ⟨_, u, hmain, hdiff⟩ := Uniform.run_bind_eq_ok.mp hrun
  exact ⟨u, unmatchedSide_ok hmain, unmatchedSide_ok hdiff⟩

end DSigMatcher.Engine
