import DSigMatcher.Engine.Shown
import DSigMatcher.Pipeline.Converge

namespace DSigMatcher.Pipeline
open DSigMatcher.Base DSigMatcher.Framework DSigMatcher.Diff DSigMatcher.Checkpoint
open scoped Classical

variable {ε : Type}

/-- A stage where something holds of its session, and a refusal elsewhere. -/
noncomputable def guardStage (I : Session ε → Prop) (f : Stage ε) : Stage ε := fun s =>
  if I s then f s else .error (.unsupportedInput [])

/-- The stages of the loop, guarded. -/
noncomputable def Stages.guarded (p : Stages ε) (I : Session ε → Prop) : Stages ε :=
  { p with
    findMatchesDiffing := fun k => guardStage I (p.findMatchesDiffing k)
    findRelatedMatches := fun k => guardStage I (p.findRelatedMatches k)
    findRelatedCompilationUnit := fun k => guardStage I (p.findRelatedCompilationUnit k)
    findLocallyAffineFunctions := fun k => guardStage I (p.findLocallyAffineFunctions k) }

theorem guardStage_ok {I : Session ε → Prop} {f : Stage ε} {s t : Session ε}
    (h : guardStage I f s = .ok t) : I s ∧ f s = .ok t := by
  unfold guardStage at h
  split_ifs at h with hs
  exact ⟨hs, h⟩

/-- An iteration over its four stages. -/
def iterationOf (l : LoopRun ε) (slow : Bool) (diffing related unit affine : Stage ε) : Run ε :=
  ((((((l.run.enter l.iteration).unlessDone (!l.pending .loopCleanupTop) Run.cleanupTop).unlessDone
    (!l.pending .matchesDiffing) fun r => (r.pointed diffing).save .matchesDiffing).unlessDone
    (!(slow && l.pending .relatedMatches)) fun r => (r.pointed related).save .relatedMatches).unlessDone
    (!l.pending .relatedCompilationUnit)
    fun r => (r.pointed unit).save .relatedCompilationUnit).unlessDone
    (!l.pending .locallyAffine) fun r => (r.pointed affine).save .locallyAffine).unlessDone
    (!l.pending .loopCleanupBottom) Run.cleanupBottom

namespace Stages.Follows
variable {p : Stages ε} {n : Nat} {R : Session ε → Session ε → Prop} (h : p.Follows n R)
  {I : Session ε → Prop} (hI : ∀ s t, R s t → I s → I t) {s : Session ε} (hs : I s)
include h hI hs

/-- Where the guard holds, it changes nothing. -/
theorem pointedSave_guard {r : Run ε} (hr : r.Trail R s) (done : Bool) (f : Stage ε)
    (step : PipelineStep) :
    (r.unlessDone done fun r => (r.pointed (guardStage I f)).save step) =
      r.unlessDone done fun r => (r.pointed f).save step := by
  cases done with
  | true => rfl
  | false =>
    have hpoint := h.update hr h.point
    have hstage :
        guardStage I f (r.update Session.point).session = f (r.update Session.point).session :=
      if_pos (hI _ _ hpoint.session hs)
    have hperform : (r.update Session.point).perform (guardStage I f) =
        (r.update Session.point).perform f := by
      unfold Run.perform Run.onRunning
      dsimp only
      rw [hstage]
    show (((r.update Session.point).perform (guardStage I f)).update Session.point).save step = _
    rw [hperform]
    rfl

/-- The stages of an iteration do the same on the way of a run. -/
theorem iterationOf_guarded {l : LoopRun ε} (hl : l.run.Trail R s) (hn : l.iteration < n) :
    iterationOf l p.slowHeuristics (guardStage I (p.findMatchesDiffing l.iteration))
        (guardStage I (p.findRelatedMatches l.iteration))
        (guardStage I (p.findRelatedCompilationUnit l.iteration))
        (guardStage I (p.findLocallyAffineFunctions l.iteration)) =
      iterationOf l p.slowHeuristics (p.findMatchesDiffing l.iteration)
        (p.findRelatedMatches l.iteration) (p.findRelatedCompilationUnit l.iteration)
        (p.findLocallyAffineFunctions l.iteration) := by
  have htop := h.iterationTop hl hn
  have hdiffing := h.pointedSave htop (!l.pending .matchesDiffing) .matchesDiffing
    (h.findMatchesDiffing l.iteration)
  have hrelated := h.pointedSave hdiffing (!(p.slowHeuristics && l.pending .relatedMatches))
    .relatedMatches (h.findRelatedMatches l.iteration)
  have hunits := h.pointedSave hrelated (!l.pending .relatedCompilationUnit) .relatedCompilationUnit
    (h.findRelatedCompilationUnit l.iteration)
  unfold iterationOf
  rw [h.pointedSave_guard hI hs htop, h.pointedSave_guard hI hs hdiffing,
    h.pointedSave_guard hI hs hrelated, h.pointedSave_guard hI hs hunits]

theorem iterationSteps_guarded {l : LoopRun ε} (hl : l.run.Trail R s) (hn : l.iteration < n) :
    (p.guarded I).iterationSteps l = p.iterationSteps l := h.iterationOf_guarded hI hs hl hn

theorem round_guarded {l : LoopRun ε} (hl : l.run.Trail R s) (hn : l.iteration < n) :
    (p.guarded I).round l = p.round l := by
  unfold Stages.round
  rw [h.iterationSteps_guarded hI hs hl hn]

/-- A run whose sessions all pass the guard does not see it. -/
theorem convergenceLoop_guarded {r : Run ε} (hr : r.Trail R s) (rounds : Nat)
    (resume : Option PipelineCursor) (hn : (resume.getD {}).iteration+rounds ≤ n) :
    (p.guarded I).convergenceLoop rounds resume r = p.convergenceLoop rounds resume r := by
  induction rounds with
  | zero =>
    unfold Stages.convergenceLoop
    rw [Function.iterate_zero, Function.iterate_zero]
  | succ rounds ih =>
    have hloop := h.convergenceLoop hr rounds resume (by omega)
    have hsucc (p : Stages ε) : p.convergenceLoop (rounds+1) resume r =
        p.round (p.convergenceLoop rounds resume r) := Function.iterate_succ_apply' ..
    rw [hsucc, hsucc, ih (by omega)]
    exact h.round_guarded hI hs hloop.1 (by omega)

end Stages.Follows

end DSigMatcher.Pipeline

namespace DSigMatcher.Engine
open DSigMatcher.Base DSigMatcher.Framework DSigMatcher.Diff DSigMatcher.Pipeline DSigMatcher.Checkpoint
open Binary64 (InUnit)

variable {env : Environment}

/-- What is known of the names of an environment: a made item names one function of each export, and its
ratio is a number. -/
def MadeNamed (facts : Facts env) (names1 names2 : Finset (Option Text)) : Prop :=
  ∀ sameCpu it c, Made facts sameCpu it c → Names names1 names2 it

section
variable {facts : Facts env} {names1 names2 : Finset (Option Text)}
    (hmade : MadeNamed facts names1 names2)
include hmade

/-- A move lists items that are named, or none. -/
theorem MadeNamed.move {s t : State} (h : Move facts s t) (c : Chooser) (it : Item)
    (hit : it ∈ t.matchState.items c) : it ∈ s.matchState.items c ∨ Names names1 names2 it := by
  cases h with
  | add x c' st hst hx hadd =>
    rcases addMatch_listed hadd hit with hit | ⟨rfl, -⟩
    · exact .inl hit
    · exact .inr (hmade _ _ c' hx)
  | totals total1 total2 hst hcounted => exact .inl (by cases c <;> exact hit)
  | cleanup site => exact .inl (cleanup_subset s.matchState c hit)
  | point => exact .inl hit
  | store e hrated => exact .inl hit
  | flags f hf => exact .inl hit
  | hook dones => exact .inl hit
  | truncated entry => exact .inl hit

/-- So does a stage, in a session whose cache has the ratios of its pairs. -/
theorem MadeNamed.stage {m : Program Unit} (hm : ∀ start, m.Keeps (Within facts start) fun _ => True) :
    AddsNamed names1 names2 (guardStage (CacheRated facts) m.stage) := by
  intro s t hst
  obtain ⟨hs, hst⟩ := guardStage_ok hst
  have hwithin := Program.stage_keeps (hm s) (Within.refl hs) hst
  refine hwithin.invariant (P := fun t => ∀ c, ∀ it ∈ t.matchState.items c,
    it ∈ s.matchState.items c ∨ Names names1 names2 it) (fun _ _ hit => .inl hit) ?_
  intro u v huv hu c it hit
  rcases hmade.move huv c it hit with hit | hnamed
  · exact hu c it hit
  · exact .inr hnamed

theorem MadeNamed.loop : (env.stages.guarded (CacheRated facts)).LoopAddsNamed names1 names2 where
  matchesDiffing _ := hmade.stage fun _ => keeps_findMatchesDiffing
  relatedMatches _ := hmade.stage fun _ => keeps_findRelatedMatches
  relatedCompilationUnit _ := hmade.stage fun _ => keeps_findRelatedCompilationUnit
  locallyAffine _ := hmade.stage fun _ => keeps_findLocallyAffineFunctions

theorem MadeNamed.later {s t : State} (h : Later facts s t) (hs : AllNamed names1 names2 s.matchState) :
    AllNamed names1 names2 t.matchState := by
  refine h.invariant (P := fun t => AllNamed names1 names2 t.matchState) hs fun u v hchange hu => ?_
  cases hchange with
  | move v hmove =>
    intro c it hit
    rcases hmade.move hmove c it hit with hit | hnamed
    · exact hu c it hit
    · exact hnamed
  | iteration k => exact hu
  | processor same hcache hmade => exact hu
  | resolved rows hrows => exact hu
  | unmatchedMain left hleft => exact hu
  | unmatchedDiff left hleft => exact hu

end

/-- A diff ends, fresh or resumed: over the functions that the databases show, the total that the loop's
first cleanup leaves grows with every iteration that goes on, up to the number of pairs of names. -/
theorem stages_converge (env : Environment) (hfits : env.tables.Fits) (fns : Functions)
    (hshows : env.Shows fns) (names1 names2 : Finset (Option Text))
    (hmain : ∀ ea name', fns.side .main ea name' → name' ∈ names1)
    (hdiff : ∀ ea name', fns.side .diff ea name' → name' ∈ names2) (resume : Option PipelineCursor)
    (s : State) (hs : AllNamed names1 names2 s.matchState)
    (hcache : ∀ e ∈ s.ratiosCache.entries, InUnit e.ratio)
    (hfresh : resume.isNone = true → s.ratiosCache = .empty) :
    (∃ rounds ≤ (names1 ×ˢ names2).card+2,
      (env.stages.runPipeline rounds resume s).outcome ≠ .running) ∧
    ∀ n, n ≠ 0 ∨ (env.stages.loopOf 0 resume s).loopDone = .none →
      (env.stages.loopOf (n+1) resume s).live = true →
      (env.stages.loopOf (n+1) resume s).run.cursor.oldTotal <
          (env.stages.loopOf (n+2) resume s).run.cursor.oldTotal ∧
        (env.stages.loopOf (n+2) resume s).run.cursor.oldTotal.toInt ≤ (names1 ×ˢ names2).card := by
  let facts := hshows.facts hfits.rates
  have hmade : MadeNamed facts names1 names2 := by
    intro sameCpu it c hit
    refine ⟨hmain _ _ hit.paired.1, hdiff _ _ hit.paired.2, ?_⟩
    cases c with
    | best =>
      cases hit with
      | best hpair hratio => exact hratio ▸ rfl
    | partials => exact (hit.ratio fun _ _ _ _ h => h).1.not_nan
    | unreliable => cases hit
  have hstart : Startable facts resume s := .of_uniform (fun _ _ _ _ _ h => h) hcache hfresh
  have hopened (n : Nat) : (env.stages.categories resume
      (env.stages.opening resume (Run.start resume s))).Trail (Leads facts) s := by
    have hfollows := (stages_follow facts n).toFollows
    exact hfollows.categories (hfollows.opening hstart.enters) resume
  have hnamed := hmade.later ((hopened 0).session hcache) hs
  have hloop (rounds : Nat) : (env.stages.guarded (CacheRated facts)).convergenceLoop rounds resume
      (env.stages.categories resume (env.stages.opening resume (Run.start resume s))) =
      env.stages.loopOf rounds resume s :=
    (stages_follow facts _).toFollows.convergenceLoop_guarded (fun _ _ h hs => (h hs).cache) hcache
      (hopened 0) rounds resume le_rfl
  have hends := Stages.convergenceLoop_ends _ hmade.loop resume _ hnamed
  simp only [hloop] at hends
  refine ⟨?_, hends.2⟩
  obtain ⟨rounds, hrounds, hend⟩ := hends.1
  refine ⟨rounds, hrounds, ?_⟩
  unfold Stages.runPipeline
  dsimp only
  split_ifs with hskip hdone hlive
  · exact Run.finish_ended _
  · exact Run.finish_ended _
  · exact absurd hlive (hend.symm ▸ Bool.false_ne_true)
  · exact Run.finish_ended _

/-- The sample goes round once more for the pair that the gap has: the total grows from five to six. -/
theorem stages_converge_sample :
    (∃ rounds ≤ 44, (sampleEnvironment.stages.runPipeline rounds none unstarted).outcome ≠ .running) ∧
      (sampleEnvironment.stages.loopOf 1 none unstarted).run.cursor.oldTotal <
        (sampleEnvironment.stages.loopOf 2 none unstarted).run.cursor.oldTotal := by
  let named (which : Side) : Finset (Option Text) :=
    ((sampleTables.table which).rows.map fun row => row.nameIdOf).toFinset
  have hside (which : Side) (row : ExportRow) (hrow : row ∈ (sampleTables.table which).rows) :
      row.nameIdOf ∈ named which := List.mem_toFinset.mpr (List.mem_map_of_mem hrow)
  have hshows : sampleEnvironment.Shows
      ⟨fun which _ name' => name' ∈ named which, fun which => (sampleTables.table which).count⟩ :=
    sampleEnvironment_shows hside ⟨rfl, rfl⟩
  obtain ⟨⟨rounds, hrounds, hend⟩, hgrowing⟩ := stages_converge sampleEnvironment sampleTables_fits _
    hshows (named .main) (named .diff) (fun _ _ hname => hname) (fun _ _ hname => hname) none unstarted
    (fun c it hit => by cases c <;> cases hit) (fun _ he => absurd he List.not_mem_nil) fun _ => rfl
  have hcard : (named .main ×ˢ named .diff).card+2 = 44 := by decide +kernel
  have hlive : (sampleEnvironment.stages.loopOf 1 none unstarted).live = true := by decide +kernel
  exact ⟨⟨rounds, hcard ▸ hrounds, hend⟩, (hgrowing 0 (.inr rfl) hlive).1⟩

end DSigMatcher.Engine
