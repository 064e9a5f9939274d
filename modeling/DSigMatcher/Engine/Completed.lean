import DSigMatcher.Diff.FinalPassMapping
import DSigMatcher.Engine.Resuming
import DSigMatcher.Port.PortResults

namespace DSigMatcher.Engine
open DSigMatcher.Base DSigMatcher.Framework DSigMatcher.Diff DSigMatcher.Pipeline DSigMatcher.Checkpoint
open DSigMatcher.Port
open Binary64 (InUnit)

variable {env : Environment} {s : State} {rounds : Nat}

/-- The name of the function of a side. -/
def nameIn (it : Item) : Side → Option Text
  | .main => it.name1
  | .diff => it.name2

/-- The unmatched functions of a side; those of the main export are the secondary ones. -/
def FinalResults.unmatched (final : FinalResults) : Side → List UnmatchedRow
  | .main => final.unmatchedSecondary.getD []
  | .diff => final.unmatchedPrimary.getD []

/-- A diff that has come to its end: the matches are cleaned, the results are resolved from them, and
what is unmatched is left over by them. -/
structure Ended (env : Environment) (t : State) : Prop where
  cleaned : ∃ st, t.matchState = cleanup st
  resolved : resolveMatches t.matchState = .ok t.final.choosers
  unmatched : ∀ which, Leftover env t.matchState which (FinalResults.unmatched t.final which)

theorem Ended.agree {t u : State} (h : Ended env t) (hagree : Agree u t) : Ended env u where
  cleaned := hagree.matchState ▸ h.cleaned
  resolved := by
    rw [hagree.matchState, hagree.final]
    exact h.resolved
  unmatched which := by
    rw [hagree.matchState, hagree.final]
    exact h.unmatched which

/-- The two passes behind the loop, over a session without results. -/
theorem ended_of_passes {t u : State} (hfinal : s.final = {}) (hpass : finalPass.stage s = .ok t)
    (hunmatched : env.findUnmatched.stage t.point = .ok u) : Ended env u := by
  obtain ⟨rows, hrows, rfl⟩ := finalPass_ok hpass
  rw [hfinal, resolveMatchesInto_empty] at hrows
  obtain ⟨v, hmain, hdiff⟩ := findUnmatched_ok hunmatched
  -- what the first half leaves, the second one only adds to
  have hv : v.matchState = cleanup s.matchState ∧ v.final.choosers = rows ∧
      Leftover env (cleanup s.matchState) .main (v.final.unmatchedSecondary.getD []) ∧
      v.final.unmatchedPrimary = none := by
    rcases hmain with ⟨rfl, hleft⟩ | ⟨left, hleft, rfl⟩
    · refine ⟨rfl, rfl, ?_, congrArg FinalResults.unmatchedPrimary hfinal⟩
      have hnone : s.final.unmatchedSecondary.getD [] = [] := by rw [hfinal]; rfl
      exact hnone.symm ▸ hleft
    · exact ⟨rfl, rfl, hleft, congrArg FinalResults.unmatchedPrimary hfinal⟩
  obtain ⟨hst, hchoosers, hleft, hnone⟩ := hv
  have hu : u.matchState = v.matchState ∧ u.final.choosers = v.final.choosers ∧
      u.final.unmatchedSecondary = v.final.unmatchedSecondary ∧
      Leftover env v.matchState .diff (u.final.unmatchedPrimary.getD []) := by
    rcases hdiff with ⟨rfl, hleft'⟩ | ⟨left', hleft', rfl⟩
    · exact ⟨rfl, rfl, rfl, by rwa [hnone]⟩
    · exact ⟨rfl, rfl, rfl, hleft'⟩
  obtain ⟨hst', hchoosers', hsecondary, hleft'⟩ := hu
  refine ⟨⟨s.matchState, hst'.trans hst⟩, ?_, fun which => ?_⟩
  · rw [hst', hst, hchoosers', hchoosers]
    exact hrows
  · cases which with
    | main =>
      rw [FinalResults.unmatched, hsecondary, hst', hst]
      exact hleft
    | diff =>
      rw [FinalResults.unmatched, hst']
      exact hleft'

/-- A fresh run that has come to its end has ended so. -/
theorem ended_of_returned (hfinal : s.final = {})
    (h : (env.stages.runPipeline rounds none s).outcome = .returned true) :
    Ended env (env.stages.runPipeline rounds none s).session := by
  have hbefore := ((stages_confined env).beforeClosing_final rounds s).trans hfinal
  obtain ⟨t, u, hpass, hunmatched, hsession⟩ := Stages.runPipeline_returned h
  rw [hsession]
  generalize (env.stages.beforeClosing rounds none s).session = q at hbefore hpass
  have hresults : ({ q with iteration := none } : State).point.final = {} := hbefore
  obtain ⟨hcleaned, hresolved, hleft⟩ := ended_of_passes hresults hpass hunmatched
  exact ⟨hcleaned, hresolved, hleft⟩

section
variable {exports : Exports} {r : Run Rest}

/-- However often a diff has been interrupted, once it has come to its end it has ended so. -/
theorem ended_of_interrupted (hfinal : s.final = {})
    (hend : (env.stages.runPipeline rounds none s).outcome ≠ .running)
    (hr : Interrupted env.stages rounds exports s r) (houtcome : r.outcome = .returned true) :
    Ended env r.session := by
  have hsim := hr.sim env.stages_determined (stages_confined env) hfinal hend
  exact (ended_of_returned hfinal (hsim.outcome ▸ houtcome)).agree hsim.session

end

/-- The results have nothing but matches. -/
theorem Ended.rows {t : State} (h : Ended env t) :
    RowsOver (fun it => it ∈ t.matchState.shown) t.final.choosers := by
  have hresolved := h.resolved
  rw [← resolveMatchesInto_empty] at hresolved
  refine resolveMatchesInto_over hresolved ⟨?_, fun _ hit => absurd hit List.not_mem_nil⟩ ?_
  · intro c it hit
    cases c <;> cases hit
  · intro c it hit
    cases c <;> simp only [MatchState.shown, List.mem_append]
    · exact .inl hit
    · exact .inr (.inl hit)
    · exact .inr (.inr hit)

/-- What has a match is what a match names. -/
theorem Ended.isMatched {t : State} (h : Ended env t) (which : Side) (name' : Option Text) :
    isMatched t.matchState which name' = true ↔ ∃ it ∈ t.matchState.shown, nameIn it which = name' := by
  obtain ⟨st, hst⟩ := h.cleaned
  obtain ⟨hprimary, hsecondary⟩ := st.mem_keys_cleanup name'
  rw [← hst] at hprimary hsecondary
  cases which with
  | main => exact (InsertionDict.mem_keys_iff _ _).symm.trans hprimary
  | diff => exact (InsertionDict.mem_keys_iff _ _).symm.trans hsecondary

/-- However often a diff has been interrupted, once it has come to its end it lists as unmatched, in their
order, exactly the functions that no match names, and none that stands in a row of the results. -/
theorem interrupted_unmatched (env : Environment) (exports : Exports) (rounds : Nat) (s : State)
    (hfinal : s.final = {}) (hend : (env.stages.runPipeline rounds none s).outcome ≠ .running)
    (r : Run Rest) (hr : Interrupted env.stages rounds exports s r)
    (houtcome : r.outcome = .returned true)
    (which : Side) :
    let t := r.session
    (∃ stmt rows, env.db (.unmatched which) = .ok stmt ∧
      readRows stmt (readUnmatchedRow which) = .ok rows ∧
      FinalResults.unmatched t.final which =
        rows.filter fun row => ∀ it ∈ t.matchState.shown, nameIn it which ≠ row.name) ∧
    RowsOver (fun it => ∀ row ∈ FinalResults.unmatched t.final which, nameIn it which ≠ row.name)
      t.final.choosers := by
  have hended := ended_of_interrupted hfinal hend hr houtcome
  obtain ⟨stmt, rows, hstmt, hrows, hleft⟩ := hended.unmatched which
  have hfilter : FinalResults.unmatched r.session.final which =
      rows.filter fun row => ∀ it ∈ r.session.matchState.shown, nameIn it which ≠ row.name := by
    rw [hleft]
    refine List.filter_congr fun row _ => ?_
    rw [Bool.eq_iff_iff, Bool.not_eq_true', Bool.eq_false_iff, Ne, hended.isMatched, decide_eq_true_iff]
    exact ⟨fun h it hit heq => h ⟨it, hit, heq⟩, fun h ⟨it, hit, heq⟩ => h it hit heq⟩
  have hshown : ∀ it ∈ r.session.matchState.shown,
      ∀ row ∈ FinalResults.unmatched r.session.final which, nameIn it which ≠ row.name := by
    intro it hit row hrow
    rw [hfilter, List.mem_filter, decide_eq_true_iff] at hrow
    exact hrow.2 it hit
  refine ⟨⟨stmt, rows, hstmt, hrows, hfilter⟩, fun c it hit => ?_, fun it hit => ?_⟩
  · exact hshown it (hended.rows.items c it hit)
  · exact hshown it (hended.rows.multimatch it hit)

/-- A run of the sample that was interrupted in its loop and resumed. -/
def SampleResumed (r : Run Rest) : Prop :=
  Interrupted sampleEnvironment.stages 3 sampleExports unstarted r ∧
    ∃ y ∈ sampleRun.saves, y.1.done = .matchesDiffing ∧
      ∃ t, r = sampleEnvironment.stages.runPipeline 3 (some y.1) t

theorem SampleResumed.sim {r : Run Rest} (h : SampleResumed r) : Sim r sampleRun :=
  h.1.sim sampleEnvironment.stages_determined (stages_confined _) rfl sampleRun_ended

theorem SampleResumed.returned {r : Run Rest} (h : SampleResumed r) : r.outcome = .returned true :=
  h.sim.outcome.trans sampleRun_ends.1.1

theorem sample_resumed : ∃ r, SampleResumed r := by
  obtain ⟨-, y, hy, hdone, -⟩ := sampleRun_saves
  have hfresh : Interrupted sampleEnvironment.stages 3 sampleExports unstarted sampleRun := .fresh
  obtain ⟨hsettled, hnone⟩ :=
    sampleExports_shown.saved (by decide) unstarted_ok sampleRun_ended hfresh hy
  have hcomplete := (hfresh.sim sampleEnvironment.stages_determined (stages_confined _) rfl
    sampleRun_ended).complete sampleEnvironment.stages_determined (stages_confined _) rfl hy
  obtain ⟨t, ht, -⟩ := restore_capture sampleExports (emptyCheckpoint y.1).binding List.reverse
    List.reverse_perm hnone hcomplete.1 unstarted rfl
  rw [check_capture _ _ hsettled.belongs, ok_bind] at ht
  exact ⟨_, .resumed _ hfresh y hy hnone _ List.reverse List.reverse_perm unstarted rfl t ht, y, hy, hdone,
    t, rfl⟩

/-- The results of the sample: six rows, and one unmatched function of either export. -/
theorem sampleRun_results :
    (FinalResults.unmatched sampleRun.session.final .main).map (·.name) = [some (text "gone")] ∧
    (FinalResults.unmatched sampleRun.session.final .diff).map (·.name) = [some (text "fresh")] ∧
    (writtenTables sampleRun.session.final).toOption.map
      (fun written => (written.1.length,written.2.length)) = some (6,2) := by
  decide +kernel

theorem interrupted_unmatched_sample :
    ∃ r, SampleResumed r ∧ ∀ which,
      (FinalResults.unmatched r.session.final which).map (·.name) =
        [some (match which with | .main => text "gone" | .diff => text "fresh")] ∧
      RowsOver (fun it => ∀ row ∈ FinalResults.unmatched r.session.final which,
        nameIn it which ≠ row.name) r.session.final.choosers := by
  obtain ⟨r, hr⟩ := sample_resumed
  obtain ⟨hmain, hdiff, -⟩ := sampleRun_results
  refine ⟨r, hr, fun which => ⟨?_, ?_⟩⟩
  · rw [hr.sim.session.final]
    cases which with
    | main => exact hmain
    | diff => exact hdiff
  · exact (interrupted_unmatched sampleEnvironment sampleExports 3 unstarted rfl sampleRun_ended r hr.1
      hr.returned which).2

theorem Categorised.split {st : MatchState} (h : Categorised st) : CategorySplit st where
  best it hit := Binary64.eq_one_iff.mpr (h.best it hit)
  partials it hit := (h.partials it hit).2
  unreliable := h.unreliable

/-- Over the databases of two exports, every match has a ratio of its category. -/
theorem Environment.Shows.categorised {fns : Functions} (hfits : env.tables.Fits)
    (hshows : env.Shows fns) {t : State} (hs : Unstarted s)
    (ht : Passes (env.stages.runPipeline rounds none s) t) : Categorised t.matchState := by
  let facts := hshows.facts hfits.rates
  have hstart : Startable facts none s := hs.startable fun _ _ _ _ _ h => h
  have hmade : AllMade facts s := fun c it hit => by
    rw [hs.items c] at hit
    cases hit
  exact ((hstart.later ht).allMade hmade).categorised fun _ _ _ _ h => h

/-- What the final pass makes of the matches of two exports, however often the diff was interrupted. -/
theorem resolved_of_interrupted {fns : Functions} {exports : Exports} {r : Run Rest}
    (hfits : env.tables.Fits) (hshows : env.Shows fns)
    (haddresses : ∀ which ea name', fns.side which ea name' → IsPyInt ea) (hs : Unstarted s)
    (hend : (env.stages.runPipeline rounds none s).outcome ≠ .running)
    (hr : Interrupted env.stages rounds exports s r) (houtcome : r.outcome = .returned true) :
    Settled fns r.session ∧ Categorised r.session.matchState ∧
      Unambiguous r.session.matchState r.session.final.choosers ∧
      LosesNothing r.session.matchState r.session.final.choosers := by
  have hended := ended_of_interrupted hs.final hend hr houtcome
  have hsim := hr.sim env.stages_determined (stages_confined env) hs.final hend
  have hcategorised : Categorised r.session.matchState := by
    rw [hsim.session.matchState]
    exact hshows.categorised hfits hs (.inl rfl)
  have hsplit := hcategorised.split
  have hsettled := (hshows.settled hs (.inl rfl)).agree hsim.session
  have hkeys : DistinctPairKeys r.session.matchState := by
    refine distinctPairKeys_of_addressed _ fun it hit => ?_
    obtain ⟨c, hc⟩ := (mem_listed _ it).mp hit
    have hmatch := hsettled.items c it hc
    exact ⟨haddresses _ _ _ hmatch.main, haddresses _ _ _ hmatch.diff⟩
  obtain ⟨q, hscan⟩ := hsplit.scan_invariant
  have hresolved := resolveMatches_resolved hscan hkeys hsplit hended.resolved
  exact ⟨hsettled, hcategorised, hresolved.unambiguous hscan hkeys hsplit,
    hresolved.losesNothing hscan hkeys hsplit⟩

/-- However often a diff of two exports has been interrupted, once it has come to its end its results map
functions one to one, the tied pairs are multimatches, and no match is lost on the way. -/
theorem interrupted_resolved (env : Environment) (hfits : env.tables.Fits) (exports : Exports)
    (hshows : env.Shows (functionsOf exports))
    (haddresses : ∀ which, ∀ a ∈ (sideOf exports which).addresses, IsPyInt (some a)) (rounds : Nat)
    (s : State) (hs : Unstarted s) (hend : (env.stages.runPipeline rounds none s).outcome ≠ .running)
    (r : Run Rest) (hr : Interrupted env.stages rounds exports s r)
    (houtcome : r.outcome = .returned true) :
    Unambiguous r.session.matchState r.session.final.choosers ∧
      LosesNothing r.session.matchState r.session.final.choosers := by
  have hside : ∀ which ea name', (functionsOf exports).side which ea name' → IsPyInt ea := by
    rintro which ea name' ⟨a, ha, rfl⟩
    exact haddresses which a ha
  exact (resolved_of_interrupted hfits hshows hside hs hend hr houtcome).2.2

/-- The sample has two functions that are tied for one. -/
theorem interrupted_resolved_sample :
    ∃ r, SampleResumed r ∧ r.session.final.choosers.multimatch.length = 2 ∧
      Unambiguous r.session.matchState r.session.final.choosers ∧
      LosesNothing r.session.matchState r.session.final.choosers := by
  obtain ⟨r, hr⟩ := sample_resumed
  refine ⟨r, hr, hr.sim.session.final ▸ sampleRun_ends.2.2, ?_⟩
  refine interrupted_resolved sampleEnvironment sampleTables_fits sampleExports sampleExports_shown ?_ 3
    unstarted unstarted_ok sampleRun_ended r hr.1 hr.returned
  intro which a ha
  have hall : ∀ a ∈ (sideOf sampleExports which).addresses,
      isAscii a = true ∧ pyIntAsciiAccepts a = true := by
    cases which <;> decide +kernel
  exact ⟨a, rfl, hall a ha⟩

def tableOf (reference target : LabelTable) : Side → LabelTable
  | .main => reference
  | .diff => target

/-- The functions of two databases, under either of their names. -/
def labelled (reference target : LabelTable) : Functions where
  side which ea name' := ∃ row ∈ (tableOf reference target which).rows,
    ea = some row.address ∧ nameMatchesRow name' row = true
  total which := (tableOf reference target which).rows.length

section
variable {reference target : LabelTable}

/-- A function of a database has an address of its table. -/
theorem labelled_address {which : Side} {ea name' : Option Text}
    (h : (labelled reference target).side which ea name') :
    ∃ a n, ea = some a ∧ parseDecimalAddress a = some n := by
  obtain ⟨row, hrow, hea, -⟩ := h
  obtain ⟨n, -, hn, -⟩ := (tableOf reference target which).byEa_of_mem hrow
  exact ⟨row.address, n, hea, hn⟩

/-- Its number decides the text of the address. -/
theorem labelled_injective {which : Side} {ea ea' name1 name2 : Option Text} {n : Nat}
    (h : (labelled reference target).side which ea name1)
    (h' : (labelled reference target).side which ea' name2) (hn : ea.bind parseDecimalAddress = some n)
    (hn' : ea'.bind parseDecimalAddress = some n) : ea = ea' := by
  obtain ⟨row, hrow, rfl, -⟩ := h
  obtain ⟨row', hrow', rfl, -⟩ := h'
  obtain ⟨m, i, hm, hi, hget⟩ := (tableOf reference target which).byEa_of_mem hrow
  obtain ⟨m', i', hm', hi', hget'⟩ := (tableOf reference target which).byEa_of_mem hrow'
  obtain rfl : m = n := Option.some.inj (hm.symm.trans hn)
  obtain rfl : m' = m := Option.some.inj (hm'.symm.trans hn')
  obtain rfl : i = i' := Option.some.inj (hi.symm.trans hi')
  rw [← hget, ← hget']

theorem labelled_described {which : Side} {ea name' : Option Text} {n : Nat}
    (h : (labelled reference target).side which ea name') (hn : ea.bind parseDecimalAddress = some n) :
    ∃ row ∈ (tableOf reference target which).rows, parseDecimalAddress row.address = some n ∧
      nameMatchesRow name' row = true := by
  obtain ⟨row, hrow, rfl, hname⟩ := h
  exact ⟨row, hrow, hn, hname⟩

/-- Every row of the results is a match of the two exports, and has a ratio of the unit interval. -/
theorem Ended.matched {fns : Functions} {t : State} (h : Ended env t) (hsettled : Settled fns t)
    (hcategorised : Categorised t.matchState) :
    ∀ c ∈ categoryItems t.final.choosers, ∀ it ∈ c.2, fns.Match it ∧ InUnit it.ratio := by
  intro c hc it hit
  have hshown : it ∈ t.matchState.shown := by
    rcases mem_categoryItems hc with ⟨chooser, hitems⟩ | rfl
    · exact h.rows.items chooser it (hitems ▸ hit)
    · exact h.rows.multimatch it hit
  simp only [MatchState.shown, List.mem_append] at hshown
  rcases hshown with hbest | hpartial | hunreliable
  · exact ⟨hsettled.items .best it hbest, hcategorised.best it hbest ▸ .one⟩
  · exact ⟨hsettled.items .partials it hpartial, (hcategorised.partials it hpartial).1⟩
  · rw [hcategorised.unreliable] at hunreliable
    cases hunreliable

section
variable {final : FinalChoosers} {ps : List (LabelProposal Binary64)} (htrip : RoundTrip final ps)
  (hmatch : ∀ c ∈ categoryItems final, ∀ it ∈ c.2, (labelled reference target).Match it)
include htrip hmatch

/-- What is read back describes the two databases, whatever is selected of it. -/
theorem roundTrip_describes (args : PortFromResultsArgs) :
    ∀ p ∈ ps.map (selectRow args), DescribesTables reference target p := by
  intro p hp
  obtain ⟨q, hq, rfl⟩ := List.mem_map.mp hp
  obtain ⟨c, hc, it, hit, hback⟩ := htrip.rows q hq
  obtain ⟨hmain, hdiff⟩ := hmatch c hc it hit
  constructor
  · exact hback.referenceName ▸ labelled_described hmain hback.referenceEa
  · exact hback.targetName ▸ labelled_described hdiff hback.targetEa

/-- Without multimatches, the target of a selected row decides its reference function. -/
theorem roundTrip_one {st : MatchState} (hunambiguous : Unambiguous st final)
    {args : PortFromResultsArgs} (hargs : args.includeMultimatch = false) :
    ∀ p ∈ ps.map (selectRow args), ∀ p' ∈ ps.map (selectRow args), p.selected = true →
      p'.selected = true → p.targetEa = p'.targetEa → p.referenceEa = p'.referenceEa := by
  intro p hp p' hp' hselected hselected' htarget
  obtain ⟨q, hq, rfl⟩ := List.mem_map.mp hp
  obtain ⟨q', hq', rfl⟩ := List.mem_map.mp hp'
  obtain ⟨c, hc, it, hit, hback⟩ := htrip.rows q hq
  obtain ⟨c', hc', it', hit', hback'⟩ := htrip.rows q' hq'
  have hplaced := (FinalChoosers.mem_placed _ it).mpr (hback.chosen hc hit hargs hselected)
  have hplaced' := (FinalChoosers.mem_placed _ it').mpr (hback'.chosen hc' hit' hargs hselected')
  have hread' : it'.ea2.bind parseDecimalAddress = some q.targetEa :=
    hback'.targetEa.trans (congrArg some htarget.symm)
  have hea2 : it.ea2 = it'.ea2 := labelled_injective (hmatch c hc it hit).diff
    (hmatch c' hc' it' hit').diff hback.targetEa hread'
  have hea1 := hunambiguous.diff it hplaced it' hplaced' hea2
  have hback1 := hback'.referenceEa
  rw [← hea1] at hback1
  exact Option.some.inj (hback.referenceEa.symm.trans hback1)

end

end

/-- However often a diff of two databases has been interrupted, once it has come to its end its results are
written, and a port can take them: every row is read back as it was written, none is refused as another
pair's, and as long as multimatches are not selected none is passed over for an earlier one's target. -/
theorem interrupted_portable (env : Environment) (hfits : env.tables.Fits) (exports : Exports)
    (reference target : LabelTable) (hshows : env.Shows (labelled reference target)) (rounds : Nat)
    (s : State) (hs : Unstarted s) (hend : (env.stages.runPipeline rounds none s).outcome ≠ .running)
    (r : Run Rest) (hr : Interrupted env.stages rounds exports s r)
    (houtcome : r.outcome = .returned true) :
    ∃ table unmatched ps, writtenTables r.session.final = .ok (table,unmatched) ∧
      unmatched.map (·.name) = (FinalResults.unmatched r.session.final .diff ++
        FinalResults.unmatched r.session.final .main).map (·.name) ∧
      readResultsFile (rowids table) = .ok ps ∧ RoundTrip r.session.final.choosers ps ∧
      ∀ args, ∃ rs, resolveProposals reference target (ps.map (selectRow args)) = .ok rs ∧
        (args.includeMultimatch = false → ∀ options origins appliedAt,
          ∀ e ∈ decisionPass options origins appliedAt [] rs,
            e.decision.action ≠ .skippedConflict) := by
  have hended := ended_of_interrupted hs.final hend hr houtcome
  obtain ⟨hsettled, hcategorised, hunambiguous, -⟩ := resolved_of_interrupted hfits hshows
    (fun which ea name' hside => by
      obtain ⟨a, n, rfl, hn⟩ := labelled_address hside
      exact isPyInt_of_parsed hn) hs hend hr houtcome
  have hmatched := hended.matched hsettled hcategorised
  have hmatch : ∀ c ∈ categoryItems r.session.final.choosers, ∀ it ∈ c.2,
      (labelled reference target).Match it := fun c hc it hit => (hmatched c hc it hit).1
  obtain ⟨table, ps, htable, hread, htrip⟩ := @readResultsFile_written
    r.session.final.choosers fun c hc it hit =>
      ⟨labelled_address (hmatch c hc it hit).main, labelled_address (hmatch c hc it hit).diff,
        (hmatched c hc it hit).2⟩
  obtain ⟨primary, hprimary, hdiffNames⟩ := @formatUnmatched_formattable (text "primary") _
    fun row hrow => labelled_address (hsettled.unmatchedPrimary row hrow)
  obtain ⟨secondary, hsecondary, hmainNames⟩ := @formatUnmatched_formattable (text "secondary") _
    fun row hrow => labelled_address (hsettled.unmatchedSecondary row hrow)
  have htables : writtenTables r.session.final = .ok (table,primary ++ secondary) := by
    rw [writtenTables, htable, hprimary, hsecondary]
    rfl
  refine ⟨table, primary ++ secondary, ps, htables, ?_, hread, htrip, fun args => ?_⟩
  · rw [List.map_append, List.map_append, hdiffNames, hmainNames]
    rfl
  -- the rows are resolved whatever is selected, and claim different targets without multimatches
  obtain ⟨rs, hrs⟩ := resolveProposals_described (roundTrip_describes htrip hmatch args)
  refine ⟨rs, hrs, fun hargs options origins appliedAt => ?_⟩
  have hdistinct : ((ps.map (selectRow args)).map eaPair).Nodup := by
    rw [List.map_map]
    exact htrip.distinct
  have htargets := selectedTargets_nodup hrs hdistinct (roundTrip_one htrip hmatch hunambiguous hargs)
  exact decisionPass_unclaimed options origins appliedAt [] rs htargets fun _ _ => List.not_mem_nil

/-- The labels of an export of the sample. -/
def sampleLabels (which : Side) : LabelTable where
  rows := (sampleTables.table which).rows.map fun row => ⟨row.addrIdOf.getD [],row.nameIdOf,none⟩
  eas := match which with
    | .main => [4096,8192,12288,16384,20480,9216]
    | .diff => [4096,8208,12304,12320,16400,20496,9232]
  parsed := by cases which <;> decide +kernel
  distinct := by cases which <;> decide

/-- The six rows of the sample's results can be ported. -/
theorem interrupted_portable_sample :
    ∃ r, SampleResumed r ∧ ∃ table unmatched ps,
      writtenTables r.session.final = .ok (table,unmatched) ∧ table.length = 6 ∧ unmatched.length = 2 ∧
      readResultsFile (rowids table) = .ok ps ∧ RoundTrip r.session.final.choosers ps ∧
      ∃ rs, resolveProposals (sampleLabels .main) (sampleLabels .diff) (ps.map (selectRow {})) = .ok rs ∧
        ∀ options, ∀ e ∈ decisionPass options [] (text "now") [] rs,
          e.decision.action ≠ .skippedConflict := by
  obtain ⟨r, hr⟩ := sample_resumed
  refine ⟨r, hr, ?_⟩
  have hshows : sampleEnvironment.Shows (labelled (sampleLabels .main) (sampleLabels .diff)) := by
    refine sampleEnvironment_shows (fun which row hrow => ?_) ⟨by decide +kernel, by decide +kernel⟩
    have hall : ∀ row ∈ (sampleTables.table which).rows,
        ∃ labels ∈ (tableOf (sampleLabels .main) (sampleLabels .diff) which).rows,
          row.addrIdOf = some labels.address ∧ nameMatchesRow row.nameIdOf labels = true := by
      cases which <;> decide +kernel
    exact hall row hrow
  obtain ⟨table, unmatched, ps, htables, -, hread, htrip, hported⟩ := interrupted_portable
    sampleEnvironment sampleTables_fits sampleExports (sampleLabels .main) (sampleLabels .diff) hshows 3
    unstarted unstarted_ok sampleRun_ended r hr.1 hr.returned
  obtain ⟨rs, hrs, hunclaimed⟩ := hported {}
  obtain ⟨-, -, hlengths⟩ := sampleRun_results
  rw [← hr.sim.session.final, htables] at hlengths
  obtain ⟨hrows, hleft⟩ := Prod.mk.inj (Option.some.inj hlengths)
  exact ⟨table, unmatched, ps, htables, hrows, hleft, hread, htrip, rs, hrs,
    fun options => hunclaimed rfl options _ _⟩

end DSigMatcher.Engine
