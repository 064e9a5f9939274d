import DSigMatcher.Engine.PatchDiffHook
import DSigMatcher.Engine.RatioRange

namespace DSigMatcher.Engine
open DSigMatcher.Base DSigMatcher.Framework DSigMatcher.Diff DSigMatcher.Pipeline

def kDefaultPartialRatio : Binary64 := literal 1 2

/-- `int(row["nodes"])`. -/
def intOfNodes (nodes : Option Int) (site : Text) : Except DiffError Int :=
  match nodes with
  | some n => .ok n
  | none => .error (.wouldRaise site (text "TypeError: " ++ intOfNone))

def HeuristicRow.hookRow (row : HeuristicRow) : HookRow where
  ea1 := some row.ea1
  ea2 := some row.ea2
  row1 := row.row1
  row2 := row.row2
  name1 := row.name1
  name2 := row.name2
  nodes1 := row.nodes1
  nodes2 := row.nodes2

namespace Environment
variable (env : Environment)

/-- `CheckRatio` of a pair: what the cache has, or what is computed now and stored. -/
def checkRatio (ea1 ea2 : Option Text) (row1 row2 : Option Nat) (src : MdSource)
    (md1 md2 : Option Binary64) : Program Binary64 := do
  let found ← Program.cached ea1 ea2
  match found with
  | some ratio => pure ratio
  | none =>
    if row1.any (· < env.tables.main.count) && row2.any (· < env.tables.diff.count) then
      let flags ← Program.flags
      let ratio ← Program.pureDiff (compute env.tables flags.isSameProcessor ea1 ea2 (row1.getD 0)
        (row2.getD 0) src md1 md2)
      Program.store ⟨ea1,ea2,ratio⟩
      return ratio
    else Program.pureDiff (.error noFunctionRow)

def compareFunctionRows (row1 row2 : Nat) : Program Binary64 :=
  let main := env.tables.main
  let diff := env.tables.diff
  if main.count ≤ row1 || diff.count ≤ row2 then
    Program.refuse (text "compare_function_rows: row out of range")
  else if (main.row row1).address.isBlob || (diff.row row2).address.isBlob then
    Program.refuse (text "compare_function_rows: a BLOB address (bytes in the cache key) is not ported")
  else env.checkRatio (main.row row1).addrIdOf (diff.row row2).addrIdOf (some row1) (some row2) .python
    none none

/-- Whether one of the names starts so; the second is looked at where the first does not. -/
def eitherStartsWith (name1 name2 : Option Text) (start site : Text) : Except DiffError Bool := do
  let first ← MatchState.nameStartsWith name1 start site
  if first then return true else MatchState.nameStartsWith name2 start site

/-- The hook, where one is loaded. -/
def onMatch (row : HookRow) (ratio : Binary64) : Program Unit := do
  let flags ← Program.flags
  if flags.hooksLoaded then patchDiffHookOnMatch env.tables row ratio else pure ()

/-- `CheckMatch`: no ratio where the row is rejected. -/
def checkMatch (row : HeuristicRow) : Program (Option Binary64) := do
  let nullsub ← Program.pureDiff
    (eitherStartsWith row.name1 row.name2 (text "nullsub_") (text "D:1846"))
  let st ← Program.matchState
  if nullsub || st.hasBestMatch row.name1 row.name2 then return none
  else
    let ratio ← env.checkRatio (some row.ea1) (some row.ea2) row.row1 row.row2 .sql row.md1 row.md2
    let better ← Program.pureDiff (st.hasBetterMatch row.name1 row.name2 ratio)
    if better then return none
    else
      env.onMatch (HeuristicRow.hookRow row) ratio
      return some ratio

/-- Where a ratio of the internal loop goes, if anywhere. -/
def target (toBest : Chooser) (toPartials : Option Chooser) (val ratio : Binary64) : Option Chooser :=
  if ratio.eq .one then some toBest else if val ≤ ratio then toPartials else none

/-- The item of a fetched row. -/
def itemOf (row : HeuristicRow) (ratio : Binary64) (nodes1 nodes2 : Int) : Item :=
  ⟨some row.ea1,row.name1,some row.ea2,row.name2,row.desc,ratio,nodes1,nodes2⟩

/-- One round of `add_matches_internal`. -/
def addInternal (toBest : Chooser) (toPartials : Option Chooser) (val : Option Binary64)
    (unreliableGiven : Bool) (fetched : Except FetchError HeuristicRow) : Program Unit := do
  let row ← Program.lift fetched
  let checked ← env.checkMatch row
  match checked with
  | none => pure ()
  | some ratio =>
    let nodes1 ← Program.pureDiff (intOfNodes row.nodes1 (text "D:1915"))
    let nodes2 ← Program.pureDiff (intOfNodes row.nodes2 (text "D:1916"))
    let v := val.getD kDefaultPartialRatio
    let it := itemOf row ratio nodes1 nodes2
    match target toBest toPartials v ratio with
    | some c => do
      Program.pureDiff (requirePyInt it.ea1 (text "D:1935"))
      Program.addMatch it c
    | none =>
      if ratio < kDefaultPartialRatio && decide (v < ratio) && unreliableGiven then do
        Program.pureDiff (requirePyInt it.ea1 (text "D:1943"))
        Program.addMatch it .unreliable
      else pure ()

/-- `AddMatchesInternal`; the cap counts every fetched row. -/
def addMatchesInternal (rows : List (Except FetchError HeuristicRow)) (toBest : Chooser)
    (toPartials : Option Chooser) (val : Option Binary64) (unreliableGiven : Bool) : Program Unit :=
  (rows.take env.config.maxProcessedRows.toNat).forM
    (env.addInternal toBest toPartials val unreliableGiven)

/-- One round of `add_matches_from_query`. -/
def addForced (category : Chooser) (fetched : Except FetchError HeuristicRow) : Program Unit := do
  let row ← Program.lift fetched
  let checked ← env.checkMatch row
  match checked with
  | none => pure ()
  | some _ =>
    let nodes1 ← Program.pureDiff (intOfNodes row.nodes1 (text "D:2071"))
    let nodes2 ← Program.pureDiff (intOfNodes row.nodes2 (text "D:2072"))
    Program.addMatch (itemOf row .one nodes1 nodes2) category

/-- A step of a diff, unless all functions of an export have a match. -/
def unlessAllMatched (m : Program Unit) : Program Unit := do
  let st ← Program.matchState
  if st.allFunctionsMatched then pure () else m

/-- No cap, a forced one, and what Python raises ends the heuristic without a word. -/
def addMatchesFromQuery (rows : List (Except FetchError HeuristicRow)) (category : Chooser) :
    Program Unit :=
  unlessAllMatched ((rows.forM (env.addForced category)).catchRaise fun _ _ => pure ())

def addMatchesFromQueryRatio (rows : List (Except FetchError HeuristicRow))
    (toBest toPartials : Chooser) : Program Unit :=
  unlessAllMatched (env.addMatchesInternal rows toBest (some toPartials) none false)

def addMatchesFromQueryRatioMax (rows : List (Except FetchError HeuristicRow))
    (toBest toPartials : Chooser) (v : Binary64) : Program Unit :=
  unlessAllMatched (env.addMatchesInternal rows toBest (some toPartials) (some v) true)

/-- The choosers are fixed here. -/
def addMatchesFromQueryRatioMaxTrusted (rows : List (Except FetchError HeuristicRow)) (v : Binary64) :
    Program Unit :=
  unlessAllMatched (env.addMatchesInternal rows .best (some .partials) (some v) true)

end Environment

/-- The rows of a source are rows that the engine fetches. -/
def Environment.AllFetched (env : Environment) (rows : List (Except FetchError HeuristicRow)) : Prop :=
  ∀ row, Except.ok row ∈ rows → env.Fetches row

theorem Environment.rows_fetched (env : Environment) (q : SqlQuery) : env.AllFetched (env.rows q) :=
  fun _ h => .query q h

section
variable {env : Environment} {facts : Facts env} {start : State}

theorem some_of_any {row : Option Nat} {n : Nat} (h : row.any (· < n) = true) :
    ∃ r, row = some r ∧ r < n := by
  cases row with
  | none => cases h
  | some r => exact ⟨r, rfl, of_decide_eq_true h⟩

theorem keeps_checkRatio {ea1 ea2 : Option Text} {row1 row2 : Option Nat} {src : MdSource}
    {md1 md2 : Option Binary64} (hrates : ∀ sameCpu r1 r2 r, row1 = some r1 → row2 = some r2 →
      r1 < env.tables.main.count → r2 < env.tables.diff.count →
      compute env.tables sameCpu ea1 ea2 r1 r2 src md1 md2 = .ok r → facts.Rated sameCpu ea1 ea2 r) :
    (env.checkRatio ea1 ea2 row1 row2 src md1 md2).Keeps (Within facts start) fun r =>
      facts.Found start.flags.isSameProcessor (eaPairKey ea1 ea2) r := by
  refine (keeps_cached ea1 ea2).bind fun found hfound => ?_
  cases found with
  | some ratio => exact .pure (hfound ratio rfl)
  | none =>
    refine .ite (fun hrows => ?_) fun _ => .lift fun r hr => ?_
    · obtain ⟨hrow1, hrow2⟩ := Bool.and_eq_true_iff.mp hrows
      obtain ⟨r1, rfl, hr1⟩ := some_of_any hrow1
      obtain ⟨r2, rfl, hr2⟩ := some_of_any hrow2
      refine keeps_flags.bind fun flags hflags => (keeps_pureDiff _).bind fun ratio hratio => ?_
      have hrated := hrates _ r1 r2 ratio rfl rfl hr1 hr2 hratio
      rw [hflags] at hrated
      exact (keeps_store hrated).bind fun _ _ => .pure ⟨ea1, ea2, rfl, hrated⟩
    · cases hr

theorem keeps_compareFunctionRows (row1 row2 : Nat) :
    (env.compareFunctionRows row1 row2).Keeps (Within facts start) fun r =>
      facts.Found start.flags.isSameProcessor (eaPairKey (env.tables.main.row row1).addrIdOf
        (env.tables.diff.row row2).addrIdOf) r ∧
        row1 < env.tables.main.count ∧ row2 < env.tables.diff.count := by
  unfold Environment.compareFunctionRows
  dsimp only
  refine .ite (fun _ => .raise _) fun hinside => .ite (fun _ => .raise _) fun _ => ?_
  refine (keeps_checkRatio fun sameCpu r1 r2 r hrow1 hrow2 hr1 hr2 hr => ?_).mono fun r hr => ⟨hr, ?_⟩
  · obtain rfl := Option.some.inj hrow1
    obtain rfl := Option.some.inj hrow2
    exact facts.rates.compared sameCpu _ _ r hr1 hr2 hr
  · simpa using hinside

theorem keeps_onMatch (row : HookRow) (ratio : Binary64) :
    (env.onMatch row ratio).Keeps (Within facts start) fun _ => True :=
  keeps_flags.bind fun _ _ => .ite (fun _ => keeps_patchDiffHook _ _ _) fun _ => keeps_pure ()

theorem keeps_checkMatch {row : HeuristicRow} (hrow : env.Fetches row) :
    (env.checkMatch row).Keeps (Within facts start) fun found => ∀ r, found = some r →
      facts.Found start.flags.isSameProcessor (eaPairKey (some row.ea1) (some row.ea2)) r := by
  have hrejected : (pure none : Program (Option Binary64)).Keeps (Within facts start) fun found =>
      ∀ r, found = some r →
        facts.Found start.flags.isSameProcessor (eaPairKey (some row.ea1) (some row.ea2)) r := by
    refine .pure fun r hr => ?_
    cases hr
  refine (keeps_pureDiff _).bind fun nullsub _ => keeps_matchState.bind fun st _ => ?_
  refine .ite (fun _ => hrejected) fun _ => ?_
  refine (keeps_checkRatio fun sameCpu r1 r2 r => facts.rates.fetched sameCpu row r1 r2 r hrow).bind ?_
  refine fun ratio hratio => (keeps_pureDiff _).bind fun better _ => .ite (fun _ => hrejected) fun _ => ?_
  refine (keeps_onMatch _ _).bind fun _ _ => .pure fun r hr => ?_
  exact Option.some.inj hr ▸ hratio

/-- Where a ratio goes, its item belongs. -/
theorem target_made {sameCpu : Bool} {it : Item} {v : Binary64} {c : Chooser}
    (hpair : facts.PairedItem it) (hrated : facts.Found sameCpu it.pairKey it.ratio)
    (h : Environment.target .best (some .partials) v it.ratio = some c) : Made facts sameCpu it c := by
  unfold Environment.target at h
  split_ifs at h with hone hv
  · obtain rfl := Option.some.inj h
    exact .best hpair (Binary64.eq_one_iff.mp hone)
  · obtain rfl := Option.some.inj h
    exact .rated hpair hrated (Bool.eq_false_iff.mpr hone)

/-- No ratio lies above a bound and is not at least the bound. -/
theorem target_none {v ratio : Binary64} {c : Chooser}
    (h : Environment.target .best (some c) v ratio = none) : ¬ v < ratio := by
  unfold Environment.target at h
  split_ifs at h with hone hv
  intro hlt
  exact hv ⟨hlt.1, hlt.2.1, Int.le_of_lt hlt.2.2⟩

theorem keeps_addInternal {val : Option Binary64} {unreliableGiven : Bool}
    {fetched : Except FetchError HeuristicRow} (hfetches : ∀ row, fetched = .ok row → env.Fetches row) :
    (env.addInternal .best (some .partials) val unreliableGiven fetched).Keeps (Within facts start)
      fun _ => True := by
  refine (keeps_lift fetched).bind fun row hrow => ?_
  refine (keeps_checkMatch (hfetches row hrow)).bind fun checked hchecked => ?_
  cases checked with
  | none => exact keeps_pure _
  | some ratio =>
    refine (keeps_pureDiff _).bind fun nodes1 _ => (keeps_pureDiff _).bind fun nodes2 _ => ?_
    dsimp only
    cases htarget : Environment.target .best (some .partials) (val.getD kDefaultPartialRatio) ratio with
    | some c =>
      exact (keeps_pureDiff _).bind fun _ _ =>
        keeps_addMatch (target_made (facts.rows row (hfetches row hrow)) (hchecked ratio rfl) htarget)
    | none =>
      refine .ite (fun hunreliable => ?_) fun _ => keeps_pure _
      simp only [Bool.and_eq_true, decide_eq_true_eq] at hunreliable
      exact absurd hunreliable.1.2 (target_none htarget)

theorem keeps_addMatchesInternal {rows : List (Except FetchError HeuristicRow)}
    (val : Option Binary64) (unreliableGiven : Bool) (hrows : env.AllFetched rows) :
    (env.addMatchesInternal rows .best (some .partials) val unreliableGiven).Keeps (Within facts start)
      fun _ => True := by
  refine keeps_forM fun fetched hfetched => keeps_addInternal fun row hrow => ?_
  exact hrows row (hrow ▸ List.mem_of_mem_take hfetched)

theorem keeps_addForced {fetched : Except FetchError HeuristicRow}
    (hfetches : ∀ row, fetched = .ok row → env.Fetches row) :
    (env.addForced .best fetched).Keeps (Within facts start) fun _ => True := by
  refine (keeps_lift fetched).bind fun row hrow => ?_
  refine (keeps_checkMatch (hfetches row hrow)).bind fun checked _ => ?_
  cases checked with
  | none => exact keeps_pure _
  | some ratio =>
    refine (keeps_pureDiff _).bind fun nodes1 _ => (keeps_pureDiff _).bind fun nodes2 _ => ?_
    exact keeps_addMatch (.best (facts.rows row (hfetches row hrow)) rfl)

theorem keeps_unlessAllMatched {m : Program Unit} (h : m.Keeps (Within facts start) fun _ => True) :
    (Environment.unlessAllMatched m).Keeps (Within facts start) fun _ => True :=
  keeps_matchState.bind fun _ _ => .ite (fun _ => keeps_pure ()) fun _ => h

theorem keeps_catchRaise {α : Type} {m : Program α} {handle : Text → Text → Program α} {Q : α → Prop}
    (hm : m.Keeps (Within facts start) Q)
    (hhandle : ∀ site what, (handle site what).Keeps (Within facts start) Q) :
    (m.catchRaise handle).Keeps (Within facts start) Q := by
  refine hm.catching fun e f hf => ?_
  cases e with
  | ioFailure what => cases hf
  | diff e =>
    cases e with
    | unsupportedInput what => cases hf
    | wouldRaise site what => exact Option.some.inj hf ▸ hhandle site what

theorem keeps_addMatchesFromQuery {rows : List (Except FetchError HeuristicRow)}
    (hrows : env.AllFetched rows) :
    (env.addMatchesFromQuery rows .best).Keeps (Within facts start) fun _ => True := by
  refine keeps_unlessAllMatched (keeps_catchRaise (keeps_forM fun fetched hfetched => ?_) ?_)
  · exact keeps_addForced fun row hrow => hrows row (hrow ▸ hfetched)
  · exact fun _ _ => keeps_pure ()

end

end DSigMatcher.Engine
