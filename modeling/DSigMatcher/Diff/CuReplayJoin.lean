import DSigMatcher.Diff.CuReplay
import DSigMatcher.Framework.Reading

namespace DSigMatcher.Diff
open DSigMatcher.Base DSigMatcher.Framework

/-- The pairs of two nested loops. -/
def loopPairs (rows1 rows2 : List Nat) : List (Nat × Nat) :=
  rows1.flatMap fun r1 => rows2.map fun r2 => (r1,r2)

namespace CuReplaySource

/-- The pairs that are left: those of the inner loop, then those of the rows behind. -/
def remaining (s : CuReplaySource) : List (Nat × Nat) :=
  match s.rows1.drop s.outer with
  | [] => []
  | r1::rows1 => (s.rows2.drop s.inner).map (fun r2 => (r1,r2)) ++ loopPairs rows1 s.rows2

/-- The inner cursor is on a row, where there is one. -/
def Inside (s : CuReplaySource) : Prop := s.rows2 = [] ∨ s.inner < s.rows2.length

theorem loopPairs_nil (rows1 : List Nat) : loopPairs rows1 [] = [] :=
  List.flatMap_eq_nil_iff.mpr fun _ _ => rfl

theorem remaining_inner_zero (s : CuReplaySource) (h : s.inner = 0) :
    s.remaining = loopPairs (s.rows1.drop s.outer) s.rows2 := by
  rw [remaining, h, List.drop_zero]
  cases s.rows1.drop s.outer with
  | nil => rfl
  | cons r1 rows1 => simp only [loopPairs, List.flatMap_cons]

theorem remaining_eq_nil {s : CuReplaySource} (hinside : s.Inside) (h : s.remaining = []) :
    s.rows2 = [] ∨ s.rows1.length ≤ s.outer := by
  rcases hinside with hempty | hinner
  · exact .inl hempty
  · refine .inr (List.drop_eq_nil_iff.mp ?_)
    rw [remaining] at h
    cases hrows : s.rows1.drop s.outer with
    | nil => rfl
    | cons r1 rows1 =>
      simp only [hrows, List.append_eq_nil_iff, List.map_eq_nil_iff, List.drop_eq_nil_iff] at h
      omega

/-- Where pairs are left the cursors are on the first of them, and one step leaves the others. -/
theorem remaining_eq_cons {s : CuReplaySource} (hinside : s.Inside) {p : Nat × Nat}
    {ps : List (Nat × Nat)} (h : s.remaining = p::ps) :
    ¬ (s.rows2 = [] ∨ s.rows1.length ≤ s.outer) ∧
      p = (s.rows1.getD s.outer 0,s.rows2.getD s.inner 0) ∧
      s.advance.remaining = ps ∧ s.advance.Inside := by
  rw [remaining] at h
  cases hrows : s.rows1.drop s.outer with
  | nil =>
    rw [hrows] at h
    cases h
  | cons r1 rows1 =>
    simp only [hrows] at h
    have houter : s.outer < s.rows1.length := by
      by_contra hle
      rw [List.drop_eq_nil_iff.mpr (Nat.le_of_not_lt hle)] at hrows
      cases hrows
    have hinner : s.inner < s.rows2.length := by
      rcases hinside with hempty | hinner
      · rw [hempty, List.drop_nil, loopPairs_nil] at h
        cases h
      · exact hinner
    rw [List.drop_eq_getElem_cons houter] at hrows
    obtain ⟨rfl, rfl⟩ := List.cons.inj hrows
    rw [List.drop_eq_getElem_cons hinner, List.map_cons, List.cons_append] at h
    obtain ⟨rfl, rfl⟩ := List.cons.inj h
    refine ⟨?_, ?_, ?_⟩
    · rintro (hempty | hle)
      · rw [hempty] at hinner
        exact absurd hinner (Nat.not_lt_zero _)
      · omega
    · rw [List.getD_eq_getElem _ _ houter, List.getD_eq_getElem _ _ hinner]
    · unfold advance
      split_ifs with hlast
      · refine ⟨?_, .inr (Nat.lt_of_le_of_lt (Nat.zero_le _) hinner)⟩
        rw [remaining_inner_zero _ rfl, hlast, List.drop_length]
        rfl
      · refine ⟨?_, .inr (by simp only; omega)⟩
        rw [remaining]
        simp only
        rw [List.drop_eq_getElem_cons houter]

/-- The source gives the pairs that are left, one a call. -/
theorem gives_remaining (ps : List (Nat × Nat)) (s : CuReplaySource) (hinside : s.Inside)
    (h : s.remaining = ps) : Gives next (ps.map fun p => s.fill p.1 p.2) s := by
  induction ps generalizing s with
  | nil =>
    rw [List.map_nil, Gives, next, if_pos (remaining_eq_nil hinside h)]
  | cons p ps ih =>
    obtain ⟨hmore, rfl, hrest, hinside'⟩ := remaining_eq_cons hinside h
    have hkept : s.advance.fill = s.fill := by
      unfold advance
      split_ifs <;> rfl
    have hnext := ih s.advance hinside' hrest
    rw [hkept] at hnext
    rw [List.map_cons]
    cases hfill : s.fill (s.rows1.getD s.outer 0) (s.rows2.getD s.inner 0) with
    | error e => rw [Gives, next, if_neg hmore, hfill]
    | ok row =>
      rw [Gives, next, if_neg hmore, hfill]
      exact ⟨rfl, hnext⟩

theorem gives_new (main diff : FunctionTable) (lo1 hi1 lo2 hi2 : Binary64) :
    Gives next ((loopPairs (main.rowsInRange lo1 hi1) (diff.rowsInRange lo2 hi2)).map fun p =>
      fillRow (main.row p.1) (diff.row p.2) p.1 p.2 cuHeuristic) (new main diff lo1 hi1 lo2 hi2) := by
  refine gives_remaining _ (new main diff lo1 hi1 lo2 hi2) ?_ (remaining_inner_zero _ rfl)
  exact (Nat.eq_zero_or_pos (diff.rowsInRange lo2 hi2).length).imp_left List.eq_nil_of_length_eq_zero

end CuReplaySource

namespace SqlRowSource

/-- The row that a statement converts when it is on these cells. -/
def convertCells (stmt : Statement) (main diff : FunctionRows) (columns : RowColumns)
    (cells : List SqlValue) : Except FetchError HeuristicRow :=
  { stmt with current := cells, steps := [] }.convertRow main diff columns

/-- A statement that has started gives its rows, one a call. -/
theorem gives_started (rows : List (List SqlValue)) (s : SqlRowSource) (hstarted : s.started = true)
    (hdone : s.done = false) (hsteps : s.stmt.steps = rows.map .row) :
    Gives next (rows.map (convertCells s.stmt s.main s.diff s.columns)) s := by
  induction rows generalizing s with
  | nil =>
    rw [List.map_nil, Gives, next, if_pos hstarted, fetchRow, if_neg (hdone ▸ Bool.false_ne_true),
      Statement.step, hsteps]
    rfl
  | cons cells rows ih =>
    have hstep : s.stmt.step = (.ok true,{ s.stmt with current := cells, steps := rows.map .row }) := by
      rw [Statement.step, hsteps]
      rfl
    have hnext : s.next = ((convertCells s.stmt s.main s.diff s.columns cells).map some,
        { s with
          stmt := { s.stmt with current := cells, steps := rows.map .row }
          fetched := s.fetched+1 }) := by
      rw [next, if_pos hstarted, fetchRow, if_neg (hdone ▸ Bool.false_ne_true), hstep]
      rfl
    rw [List.map_cons]
    cases hrow : convertCells s.stmt s.main s.diff s.columns cells with
    | error e =>
      rw [Gives, hnext, hrow]
      rfl
    | ok row =>
      rw [Gives, hnext, hrow]
      exact ⟨rfl, ih { s with
        stmt := { s.stmt with current := cells, steps := rows.map .row }
        fetched := s.fetched+1 } hstarted hdone rfl⟩

/-- A source that is not started yet gives the rows of the statement it prepares. -/
theorem gives_prepared (rows : List (List SqlValue)) (main diff : FunctionRows) (stmt : Statement)
    (hcomplete : stmt.rowColumns.complete = true) (hsteps : stmt.steps = rows.map .row) :
    Gives next (rows.map (convertCells stmt main diff stmt.rowColumns))
      { main, diff, prepared := .ok stmt } := by
  let started : SqlRowSource :=
    { main, diff, prepared := .ok stmt, started := true, stmt, columns := stmt.rowColumns }
  have hfirst : next { main, diff, prepared := .ok stmt } = started.next := by
    rw [next, if_neg Bool.false_ne_true, start]
    simp only
    rw [if_pos hcomplete]
    rfl
  have hgives := gives_started rows started rfl rfl hsteps
  cases rows with
  | nil =>
    rw [List.map_nil, Gives] at hgives ⊢
    rw [hfirst, hgives]
  | cons cells rows =>
    rw [List.map_cons] at hgives ⊢
    cases hrow : convertCells stmt main diff stmt.rowColumns cells with
    | error e =>
      simp only [started, hrow, Gives] at hgives ⊢
      rw [hfirst, hgives]
    | ok row =>
      simp only [started, hrow, Gives] at hgives ⊢
      rw [hfirst]
      exact hgives

end SqlRowSource

end DSigMatcher.Diff
