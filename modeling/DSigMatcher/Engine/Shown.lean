import DSigMatcher.Engine.Provenance

namespace DSigMatcher.Engine
open DSigMatcher.Base DSigMatcher.Framework DSigMatcher.Diff DSigMatcher.Pipeline

/-- The functions of both exports, by address and name, and their numbers. -/
structure Functions where
  side : Side → Option Text → Option Text → Prop
  total : Side → Int

/-- An item of two functions of the exports. -/
structure Functions.Match (fns : Functions) (it : Item) : Prop where
  main : fns.side .main it.ea1 it.name1
  diff : fns.side .diff it.ea2 it.name2

/-- The databases are those of the exports: what a query finds are their functions. -/
structure Environment.Shows (env : Environment) (fns : Functions) : Prop where
  rows : ∀ q row, Except.ok row ∈ env.rows q →
    fns.side .main (some row.ea1) row.name1 ∧ fns.side .diff (some row.ea2) row.name2
  equalMatches : ∀ stmt, env.db .equalMatches = .ok stmt → ∀ row, Except.ok row ∈ rowsOf stmt → ∀ which,
    fns.side which (textOf (row.cell (stmt.findColumn (text "ea"))))
      (textOf (row.cell (stmt.findColumn (text "mangled_function"))))
  callees : ∀ name1 name2 r1 r2,
    env.fetchFunctionRows (.functionsExists name1 name2) .main none =
      .ok [⟨.main,some r1⟩,⟨.diff,some r2⟩] →
    fns.side .main (env.tables.main.row r1).addrIdOf (some name1) ∧
      fns.side .diff (env.tables.diff.row r2).addrIdOf (some name2)
  tables : ∀ which r, r < (env.tables.table which).count →
    ((env.tables.table which).row r).addrIdOf.isSome = true ∧
      fns.side which ((env.tables.table which).row r).addrIdOf ((env.tables.table which).row r).nameIdOf
  totals : ∀ total1 total2, env.totals = .ok [total1,total2] →
    total1 = fns.total .main ∧ total2 = fns.total .diff
  unmatched : ∀ which stmt rows, env.db (.unmatched which) = .ok stmt →
    readRows stmt (readUnmatchedRow which) = .ok rows → ∀ row ∈ rows, fns.side which row.ea row.name

namespace Environment.Shows
variable {env : Environment} {fns : Functions} (h : env.Shows fns)
include h

/-- A row of a table stands for its function. -/
theorem table (which : Side) {r : Nat} (hr : r < (env.tables.table which).count) :
    fns.side which (some (((env.tables.table which).row r).addrIdOf.getD []))
      ((env.tables.table which).row r).nameIdOf := by
  obtain ⟨hsome, hside⟩ := h.tables which r hr
  obtain ⟨a, ha⟩ := Option.isSome_iff_exists.mp hsome
  rw [ha] at hside ⊢
  exact hside

/-- A fetched row has functions of the exports. -/
theorem fetched {row : HeuristicRow} (hrow : env.Fetches row) :
    fns.side .main (some row.ea1) row.name1 ∧ fns.side .diff (some row.ea2) row.name2 := by
  cases hrow with
  | query q hq => exact h.rows q row hq
  | replayed lo1 hi1 lo2 hi2 hreplay =>
    obtain ⟨r1, r2, ⟨hr1, -⟩, ⟨hr2, -⟩, hfill⟩ := Environment.replayRows_fill hreplay
    obtain ⟨nodes1, nodes2, rfl⟩ := fillRow_ok hfill
    exact ⟨h.table .main hr1, h.table .diff hr2⟩

end Environment.Shows

/-- The sample's databases are those of two exports that have its functions. -/
theorem sampleEnvironment_shows {fns : Functions}
    (hside : ∀ which, ∀ row ∈ (sampleTables.table which).rows, fns.side which row.addrIdOf row.nameIdOf)
    (htotal : fns.total .main = 6 ∧ fns.total .diff = 7) : sampleEnvironment.Shows fns := by
  have hpair {row : HeuristicRow} (hrow : row ∈ samplePaired.map samplePair) :
      fns.side .main (some row.ea1) row.name1 ∧ fns.side .diff (some row.ea2) row.name2 := by
    obtain ⟨f, hf, df, hdf, hmain, hdiff⟩ : ∃ f ∈ sampleTables.main.rows, ∃ df ∈ sampleTables.diff.rows,
        (some row.ea1,row.name1) = (f.addrIdOf,f.nameIdOf) ∧
          (some row.ea2,row.name2) = (df.addrIdOf,df.nameIdOf) := by
      revert row
      decide +kernel
    obtain ⟨hea1, hname1⟩ := Prod.mk.inj hmain
    obtain ⟨hea2, hname2⟩ := Prod.mk.inj hdiff
    rw [hea1, hname1, hea2, hname2]
    exact ⟨hside .main f hf, hside .diff df hdf⟩
  constructor
  · exact fun q row hrow => hpair (sampleEnvironment_rows hrow)
  · intro stmt hstmt row hrow which
    obtain rfl := Except.ok.inj hstmt
    obtain rfl := Except.ok.inj (List.mem_singleton.mp hrow)
    cases which
    · exact hside .main _ List.mem_cons_self
    · exact hside .diff _ List.mem_cons_self
  · intro name1 name2 r1 r2 hfetch
    have hempty :
        sampleEnvironment.fetchFunctionRows (.functionsExists name1 name2) .main none = .ok [] := rfl
    rw [hempty] at hfetch
    cases Except.ok.inj hfetch
  · intro which r hr
    have hsome : ∀ row ∈ (sampleTables.table which).rows, row.addrIdOf.isSome = true := by
      cases which <;> decide +kernel
    exact ⟨hsome _ (ExportTable.row_mem hr), hside which _ (ExportTable.row_mem hr)⟩
  · intro total1 total2 htotals
    have hcounts : sampleEnvironment.totals = .ok [6,7] := rfl
    rw [hcounts] at htotals
    obtain ⟨rfl, hrest⟩ := List.cons.inj (Except.ok.inj htotals)
    obtain ⟨rfl, -⟩ := List.cons.inj hrest
    exact ⟨htotal.1.symm, htotal.2.symm⟩
  · intro which stmt rows hstmt hrows row hrow
    have hread : (readRows stmt (readUnmatchedRow which)).toOption =
        some ((sampleTables.table which).rows.map fun row => ⟨row.addrIdOf,row.nameIdOf⟩) := by
      obtain rfl := Except.ok.inj hstmt
      cases which <;> decide +kernel
    rw [hrows] at hread
    obtain ⟨f, hf, rfl⟩ := List.mem_map.mp (Option.some.inj hread ▸ hrow)
    exact hside which f hf

/-- What is known where the databases are those of the exports. -/
def Environment.Shows.facts {env : Environment} {fns : Functions} (h : env.Shows fns)
    {Rated : Bool → Option Text → Option Text → Binary64 → Prop} (hrates : env.Rates Rated) :
    Facts env where
  Rated := Rated
  Paired ea1 name1 ea2 name2 := fns.side .main ea1 name1 ∧ fns.side .diff ea2 name2
  Counted total1 total2 := total1 = fns.total .main ∧ total2 = fns.total .diff
  rates := hrates
  totals := h.totals
  rows _ hrow := h.fetched hrow
  equalMatches stmt hstmt row hrow ea name' hea hname := by
    rw [← hea, ← hname]
    exact ⟨h.equalMatches stmt hstmt row hrow .main, h.equalMatches stmt hstmt row hrow .diff⟩
  callees := h.callees
  tables r1 r2 hr1 hr2 := ⟨(h.tables .main r1 hr1).2, (h.tables .diff r2 hr2).2⟩

/-- A session whose matches and results are of the exports. -/
structure Settled (fns : Functions) (s : State) : Prop where
  items : ∀ c, ∀ it ∈ s.matchState.items c, fns.Match it
  choosers : RowsOver (fun it => fns.Match it ∧ ItemStored it) s.final.choosers
  unmatchedPrimary : ∀ row ∈ s.final.unmatchedPrimary.getD [], fns.side .diff row.ea row.name
  unmatchedSecondary : ∀ row ∈ s.final.unmatchedSecondary.getD [], fns.side .main row.ea row.name
  total1 : s.matchState.total1 = 0 ∨ s.matchState.total1 = fns.total .main
  total2 : s.matchState.total2 = 0 ∨ s.matchState.total2 = fns.total .diff

/-- A session that has not begun. -/
structure Unstarted (s : State) : Prop where
  items : ∀ c, s.matchState.items c = []
  total1 : s.matchState.total1 = 0
  total2 : s.matchState.total2 = 0
  iteration : s.iteration = none
  ratiosCache : s.ratiosCache = .empty
  final : s.final = {}

theorem unstarted_ok : Unstarted unstarted := ⟨fun c => by cases c <;> rfl, rfl, rfl, rfl, rfl, rfl⟩

/-- Its cache is empty, so that a run may start from it whatever is known of the ratios. -/
theorem Unstarted.startable {env : Environment} {facts : Facts env} {s : State} (h : Unstarted s)
    (huniform : facts.Uniform) : Startable facts none s := by
  refine .of_uniform huniform (fun e he => ?_) fun _ => h.ratiosCache
  rw [h.ratiosCache] at he
  cases he

theorem Unstarted.settled {s : State} (h : Unstarted s) (fns : Functions) : Settled fns s where
  items c it hit := absurd (h.items c ▸ hit) List.not_mem_nil
  choosers := by
    rw [h.final]
    constructor
    · exact fun c it hit => by cases c <;> cases hit
    · exact fun _ hit => absurd hit List.not_mem_nil
  unmatchedPrimary row hrow := by
    rw [h.final] at hrow
    cases hrow
  unmatchedSecondary row hrow := by
    rw [h.final] at hrow
    cases hrow
  total1 := .inl h.total1
  total2 := .inl h.total2

theorem addMatch_totals {st st' : MatchState} {n1 n2 : Option Text} {ratio : Binary64} {it : Item}
    {c : Option Chooser} (h : st.addMatch n1 n2 ratio it c = .ok st') :
    st'.total1 = st.total1 ∧ st'.total2 = st.total2 := by
  rcases addMatch_cases h with rfl | ⟨r, rfl⟩
  · exact ⟨rfl, rfl⟩
  · have happended :
        (st.appendItem it c).total1 = st.total1 ∧ (st.appendItem it c).total2 = st.total2 := by
      cases c with
      | none => exact ⟨rfl, rfl⟩
      | some c =>
        rw [MatchState.appendItem_some]
        split_ifs
        · exact ⟨rfl, rfl⟩
        · obtain ⟨htotal1, htotal2, -⟩ := MatchState.setItems_rest st c (st.items c ++ [it])
          exact ⟨htotal1, htotal2⟩
    exact happended

section
variable {env : Environment} {fns : Functions} (h : env.Shows fns)
    {Rated : Bool → Option Text → Option Text → Binary64 → Prop} {hrates : env.Rates Rated}
include h

theorem Leftover.side {st : MatchState} {which : Side} {left : List UnmatchedRow}
    (hleft : Leftover env st which left) : ∀ row ∈ left, fns.side which row.ea row.name := by
  obtain ⟨stmt, rows, hstmt, hrows, rfl⟩ := hleft.found
  intro row hrow
  exact h.unmatched which stmt rows hstmt hrows row (List.mem_filter.mp hrow).1

omit h in
theorem Settled.move {h : env.Shows fns} {s t : State} (hmove : Move (h.facts hrates) s t)
    (hs : Settled fns s) : Settled fns t := by
  cases hmove with
  | add it c st hst hmade hadd =>
    obtain ⟨htotal1, htotal2⟩ := addMatch_totals hadd
    refine { hs with items := fun c' x hx => ?_, total1 := ?_, total2 := ?_ }
    · rcases addMatch_listed hadd hx with hx | ⟨rfl, -⟩
      · exact hs.items c' x hx
      · exact ⟨hmade.paired.1, hmade.paired.2⟩
    · exact htotal1.symm ▸ hs.total1
    · exact htotal2.symm ▸ hs.total2
  | totals total1 total2 hst hcounted =>
    refine { hs with items := fun c x hx => ?_, total1 := .inr hcounted.1, total2 := .inr hcounted.2 }
    exact hs.items c x (by cases c <;> exact hx)
  | cleanup site =>
    obtain ⟨htotal1, htotal2⟩ := MatchState.cleanup_totals s.matchState
    refine { hs with items := fun c x hx => ?_, total1 := ?_, total2 := ?_ }
    · exact hs.items c x (cleanup_subset s.matchState c hx)
    · exact htotal1.symm ▸ hs.total1
    · exact htotal2.symm ▸ hs.total2
  | point => exact { hs with }
  | store e hrated => exact { hs with }
  | flags f hf => exact { hs with }
  | hook dones => exact { hs with }
  | truncated entry => exact { hs with }

theorem Settled.change {s t : State} (hchange : Change (h.facts hrates) s t)
    (hs : Settled fns s) : Settled fns t := by
  cases hchange with
  | move t hmove => exact hs.move hmove
  | iteration k => exact { hs with }
  | processor same hcache hmade => exact { hs with }
  | resolved rows hrows =>
    refine { hs with choosers := resolveMatchesInto_over hrows hs.choosers fun c it hit => ?_ }
    exact ⟨hs.items c it hit, s.stored.items c it hit⟩
  | unmatchedMain left hleft => exact { hs with unmatchedSecondary := hleft.side h }
  | unmatchedDiff left hleft => exact { hs with unmatchedPrimary := hleft.side h }

end

end DSigMatcher.Engine
