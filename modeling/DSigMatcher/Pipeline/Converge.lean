import DSigMatcher.Pipeline.Run

namespace DSigMatcher.Pipeline
open DSigMatcher.Base DSigMatcher.Framework DSigMatcher.Diff DSigMatcher.Checkpoint

variable {ε : Type}

/-- An item that names one function of each export. Its ratio is a number: every producer of a
ratio divides by a value that is not zero. -/
structure Names (primary secondary : Finset (Option Text)) (it : Item) : Prop where
  name1 : it.name1 ∈ primary
  name2 : it.name2 ∈ secondary
  real : it.ratio.isNaN = false

section
variable (primary secondary : Finset (Option Text))

def AllNamed (st : MatchState) : Prop := ∀ c, ∀ it ∈ st.items c, Names primary secondary it

/-- Each item the stage adds names one function of each export. -/
def AddsNamed (f : Stage ε) : Prop :=
  ∀ s t, f s = .ok t → ∀ c, ∀ it ∈ t.matchState.items c,
    it ∈ s.matchState.items c ∨ Names primary secondary it

/-- A query as the stage that drops its answer. -/
def Query.stage (f : Query ε) : Stage ε := fun s => Prod.fst <$> f s

/-- The stages of the loop add such items only. -/
structure Stages.LoopAddsNamed (p : Stages ε) : Prop where
  matchesDiffing : ∀ k, AddsNamed primary secondary (p.findMatchesDiffing k)
  relatedMatches : ∀ k, AddsNamed primary secondary (p.findRelatedMatches k)
  relatedCompilationUnit : ∀ k, AddsNamed primary secondary (p.findRelatedCompilationUnit k)
  locallyAffine : ∀ k, AddsNamed primary secondary (p.findLocallyAffineFunctions k)

/-- So do all the stages up to the end of the loop. -/
structure Stages.AllAddNamed (p : Stages ε) : Prop where
  checkVersion : AddsNamed primary secondary p.checkVersion.stage
  equalDb : AddsNamed primary secondary p.equalDb
  checkCallgraph : AddsNamed primary secondary p.checkCallgraph
  findEqualMatches : AddsNamed primary secondary p.findEqualMatches
  sameProcessor : AddsNamed primary secondary p.sameProcessor.stage
  applyDirtyHeuristics : AddsNamed primary secondary p.applyDirtyHeuristics.stage
  findSameName : AddsNamed primary secondary p.findSameName
  bestCategory : AddsNamed primary secondary p.bestCategory
  partialCategory : AddsNamed primary secondary p.partialCategory
  smallDifferences : AddsNamed primary secondary p.smallDifferences
  loop : p.LoopAddsNamed primary secondary

variable {primary secondary}

theorem AllNamed.cleanup {st : MatchState} (h : AllNamed primary secondary st) :
    AllNamed primary secondary (Diff.cleanup st) :=
  fun c it hit => h c it (cleanup_subset st c hit)

theorem AllNamed.cleanup_cleanup {st : MatchState} (h : AllNamed primary secondary st) :
    Diff.cleanup (Diff.cleanup st) = Diff.cleanup st :=
  st.cleanup_cleanup fun c it hit => (h c it hit).real

theorem AllNamed.total_le {st : MatchState} (h : AllNamed primary secondary st) :
    (Diff.cleanup st).totalMatchedFunctions ≤ (primary ×ˢ secondary).card :=
  st.cleanup_total_le primary secondary fun c it hit => ⟨(h c it hit).name1, (h c it hit).name2⟩

namespace Run

theorem update_named (r : Run ε) (g : Session ε → Session ε)
    (hg : ∀ s, AllNamed primary secondary s.matchState →
      AllNamed primary secondary (g s).matchState)
    (hr : AllNamed primary secondary r.session.matchState) :
    AllNamed primary secondary (r.update g).session.matchState :=
  onRunning_of (fun r => AllNamed primary secondary r.session.matchState) _ r hr fun _ => hg _ hr

theorem perform_named (r : Run ε) (f : Stage ε) (hf : AddsNamed primary secondary f)
    (hr : AllNamed primary secondary r.session.matchState) :
    AllNamed primary secondary (r.perform f).session.matchState := by
  refine onRunning_of (fun r => AllNamed primary secondary r.session.matchState) _ r hr fun _ => ?_
  cases hs : f r.session with
  | error e => exact hr
  | ok s =>
    intro c it hit
    rcases hf r.session s hs c it hit with h | h
    · exact hr c it h
    · exact h

theorem ask_named (r : Run ε) (f : Query ε) (next : Bool → Run ε → Run ε)
    (hf : AddsNamed primary secondary f.stage)
    (hnext : ∀ b r, AllNamed primary secondary r.session.matchState →
      AllNamed primary secondary (next b r).session.matchState)
    (hr : AllNamed primary secondary r.session.matchState) :
    AllNamed primary secondary (r.ask f next).session.matchState := by
  refine onRunning_of (fun r => AllNamed primary secondary r.session.matchState) _ r hr fun _ => ?_
  cases hs : f r.session with
  | error e => exact hr
  | ok sb =>
    obtain ⟨s, b⟩ := sb
    refine hnext b _ fun c it hit => ?_
    rcases hf r.session s (by rw [Query.stage, hs]; rfl) c it hit with h | h
    · exact hr c it h
    · exact h

theorem pointed_named (r : Run ε) (f : Stage ε) (hf : AddsNamed primary secondary f)
    (hr : AllNamed primary secondary r.session.matchState) :
    AllNamed primary secondary (r.pointed f).session.matchState := by
  have hpoint : AllNamed primary secondary (r.update Session.point).session.matchState :=
    r.update_named Session.point (fun _ h => h) hr
  exact update_named _ Session.point (fun _ h => h) (perform_named _ f hf hpoint)

theorem unlessDone_named (r : Run ε) (done : Bool) (step : Run ε → Run ε)
    (hr : AllNamed primary secondary r.session.matchState)
    (hstep : AllNamed primary secondary (step r).session.matchState) :
    AllNamed primary secondary (r.unlessDone done step).session.matchState :=
  unlessDone_of (fun r => AllNamed primary secondary r.session.matchState) done step r hr hstep

/-- A stage with its points and its checkpoint. -/
theorem stage_named (r : Run ε) (done : Bool) (f : Stage ε) (step : PipelineStep)
    (hf : AddsNamed primary secondary f) (hr : AllNamed primary secondary r.session.matchState) :
    AllNamed primary secondary
      (r.unlessDone done fun r => (r.pointed f).save step).session.matchState := by
  refine unlessDone_named r done _ hr ?_
  rw [save_session]
  exact r.pointed_named f hf hr

theorem stage_oldTotal (r : Run ε) (done : Bool) (f : Stage ε) (step : PipelineStep) :
    (r.unlessDone done fun r => (r.pointed f).save step).cursor.oldTotal = r.cursor.oldTotal := by
  refine unlessDone_of (fun t => t.cursor.oldTotal = r.cursor.oldTotal) done _ r rfl ?_
  rw [save_oldTotal, pointed_cursor]

/-- The top cleanup of a running run, with the total it records. -/
theorem cleanupTop_eq (r : Run ε) (hr : r.outcome = .running) :
    r.cleanupTop =
      let s := r.session.cleanup .l3655
      let cursor := { r.cursor with done := .loopCleanupTop, oldTotal := s.total }
      ⟨s, cursor, r.saves ++ [(cursor,s)], r.outcome⟩ := by
  obtain ⟨session, cursor, saves, outcome⟩ := r
  obtain rfl : outcome = .running := hr
  rfl

theorem cleanupBottom_eq (r : Run ε) (hr : r.outcome = .running) :
    r.cleanupBottom =
      let s := r.session.cleanup .l3671
      let cursor := { r.cursor with done := .loopCleanupBottom }
      ⟨s, cursor, r.saves ++ [(cursor,s)], r.outcome⟩ := by
  obtain ⟨session, cursor, saves, outcome⟩ := r
  obtain rfl : outcome = .running := hr
  rfl

@[simp] theorem cleanupBottom_outcome (r : Run ε) : r.cleanupBottom.outcome = r.outcome := by
  rw [cleanupBottom, save_outcome, update_outcome]

@[simp] theorem cleanupBottom_oldTotal (r : Run ε) :
    r.cleanupBottom.cursor.oldTotal = r.cursor.oldTotal := by
  rw [cleanupBottom, save_oldTotal, update_cursor]

end Run

namespace Stages
variable (p : Stages ε) (l : LoopRun ε)

/-- The head of the iteration with the first cleanup. -/
def iterationTop : Run ε :=
  (l.run.enter l.iteration).unlessDone (!l.pending .loopCleanupTop) Run.cleanupTop

/-- The stages between the two cleanups. -/
def loopStages : Run ε :=
  let r := (iterationTop l).unlessDone (!l.pending .matchesDiffing)
    fun r => (r.pointed (p.findMatchesDiffing l.iteration)).save .matchesDiffing
  let r := r.unlessDone (!(p.slowHeuristics && l.pending .relatedMatches))
    fun r => (r.pointed (p.findRelatedMatches l.iteration)).save .relatedMatches
  let r := r.unlessDone (!l.pending .relatedCompilationUnit)
    fun r => (r.pointed (p.findRelatedCompilationUnit l.iteration)).save .relatedCompilationUnit
  r.unlessDone (!l.pending .locallyAffine)
    fun r => (r.pointed (p.findLocallyAffineFunctions l.iteration)).save .locallyAffine

theorem iterationSteps_eq :
    p.iterationSteps l =
      (p.loopStages l).unlessDone (!l.pending .loopCleanupBottom) Run.cleanupBottom := rfl

theorem loopStages_oldTotal :
    (p.loopStages l).cursor.oldTotal = (iterationTop l).cursor.oldTotal := by
  simp only [loopStages, Run.stage_oldTotal]

theorem iterationTop_named (hlive : l.run.outcome = .running)
    (hl : AllNamed primary secondary l.run.session.matchState) :
    AllNamed primary secondary (iterationTop l).session.matchState := by
  have hrunning : (l.run.enter l.iteration).outcome = .running := by
    rw [Run.enter_outcome, hlive]
  have henter : AllNamed primary secondary (l.run.enter l.iteration).session.matchState := by
    rw [Run.enter_matchState]
    exact hl
  refine Run.unlessDone_named _ _ _ henter ?_
  rw [Run.cleanupTop_eq _ hrunning]
  exact henter.cleanup

theorem loopStages_named (hp : p.LoopAddsNamed primary secondary)
    (hlive : l.run.outcome = .running)
    (hl : AllNamed primary secondary l.run.session.matchState) :
    AllNamed primary secondary (p.loopStages l).session.matchState := by
  refine Run.stage_named _ _ _ _ (hp.locallyAffine _) ?_
  refine Run.stage_named _ _ _ _ (hp.relatedCompilationUnit _) ?_
  refine Run.stage_named _ _ _ _ (hp.relatedMatches _) ?_
  exact Run.stage_named _ _ _ _ (hp.matchesDiffing _) (iterationTop_named l hlive hl)

/-- Whatever a resumed iteration leaves out, the items go on naming functions. -/
theorem iterationSteps_named (hp : p.LoopAddsNamed primary secondary)
    (hlive : l.run.outcome = .running)
    (hl : AllNamed primary secondary l.run.session.matchState) :
    AllNamed primary secondary (p.iterationSteps l).session.matchState := by
  have hstages := p.loopStages_named l hp hlive hl
  refine Run.unlessDone_named _ _ _ hstages ?_
  rw [Run.cleanupBottom, Run.save_session]
  exact Run.update_named _ _ (fun s hs => hs.cleanup) hstages

/-- A whole iteration records the total of its first cleanup, and ends in a cleaned state. -/
theorem iterationSteps_whole (hp : p.LoopAddsNamed primary secondary)
    (hlive : l.run.outcome = .running) (hhead : l.loopDone = .none)
    (hl : AllNamed primary secondary l.run.session.matchState) :
    (p.iterationSteps l).cursor.oldTotal.toInt =
        (Diff.cleanup l.run.session.matchState).totalMatchedFunctions ∧
      ((p.iterationSteps l).outcome = .running →
        Diff.cleanup (p.iterationSteps l).session.matchState =
          (p.iterationSteps l).session.matchState) := by
  have hpending (step : PipelineStep) (h : 0 < step.rank) : l.pending step = true := by
    rw [LoopRun.pending, hhead]
    exact decide_eq_true h
  have hrunning : (l.run.enter l.iteration).outcome = .running := by
    rw [Run.enter_outcome, hlive]
  have htop : iterationTop l = (l.run.enter l.iteration).cleanupTop := by
    rw [iterationTop, hpending .loopCleanupTop (by decide)]
    rfl
  have hsteps : p.iterationSteps l = (p.loopStages l).cleanupBottom := by
    rw [iterationSteps_eq, hpending .loopCleanupBottom (by decide)]
    rfl
  refine ⟨?_, fun hend => ?_⟩
  · rw [hsteps, Run.cleanupBottom_oldTotal, loopStages_oldTotal, htop,
      Run.cleanupTop_eq _ hrunning]
    dsimp only
    rw [Session.total_toInt, Session.cleanup_matchState, Run.enter_matchState]
  · have hstages : (p.loopStages l).outcome = .running := by
      rwa [hsteps, Run.cleanupBottom_outcome] at hend
    rw [hsteps, Run.cleanupBottom_eq _ hstages]
    dsimp only
    rw [Session.cleanup_matchState]
    exact (p.loopStages_named l hp hlive hl).cleanup_cleanup

end Stages

namespace LoopRun

/-- The number of matches the next cleanup leaves. -/
def cleanedTotal (l : LoopRun ε) : Nat :=
  (Diff.cleanup l.run.session.matchState).totalMatchedFunctions

end LoopRun

namespace Stages
variable (p : Stages ε) (l : LoopRun ε)

/-- After any iteration the next one is a whole one. -/
theorem round_head (hp : p.LoopAddsNamed primary secondary) (hlive : l.live = true)
    (hl : AllNamed primary secondary l.run.session.matchState) :
    (p.round l).loopDone = .none ∧
      AllNamed primary secondary (p.round l).run.session.matchState := by
  have hnamed := p.iterationSteps_named l hp (l.live_iff.mp hlive).2 hl
  rw [round_live p l hlive, LoopRun.test]
  split_ifs
  · exact ⟨rfl, hnamed⟩
  · exact ⟨rfl, hnamed⟩

/-- An iteration leaves the total of its first cleanup in the cursor. -/
theorem round_oldTotal (hp : p.LoopAddsNamed primary secondary) (hlive : l.live = true)
    (hhead : l.loopDone = .none) (hl : AllNamed primary secondary l.run.session.matchState) :
    (p.round l).run.cursor.oldTotal.toInt = l.cleanedTotal := by
  have hold := (p.iterationSteps_whole l hp (l.live_iff.mp hlive).2 hhead hl).1
  rw [round_live p l hlive, LoopRun.test]
  split_ifs
  · exact hold
  · exact hold

/-- The loop goes on only when there are more matches than at the iteration's first cleanup; the
next iteration's first cleanup then takes none of them away. -/
theorem round_increases (hp : p.LoopAddsNamed primary secondary) (hlive : l.live = true)
    (hhead : l.loopDone = .none) (hl : AllNamed primary secondary l.run.session.matchState)
    (hnext : (p.round l).live = true) : l.cleanedTotal < (p.round l).cleanedTotal := by
  obtain ⟨hold, hcleaned⟩ := p.iterationSteps_whole l hp (l.live_iff.mp hlive).2 hhead hl
  obtain ⟨hconverged, hrunning⟩ := (LoopRun.live_iff _).mp hnext
  rw [round_live p l hlive] at hconverged hrunning ⊢
  unfold LoopRun.test at hconverged hrunning ⊢
  split_ifs at hconverged hrunning ⊢ with htest
  rw [Int64.le_iff_toInt_le, Session.total_toInt, hold] at htest
  rw [LoopRun.cleanedTotal, LoopRun.cleanedTotal, hcleaned hrunning]
  omega

/-- From the head of an iteration, as many iterations as there are matches to come. -/
theorem round_ends (hp : p.LoopAddsNamed primary secondary) (k : Nat)
    (hhead : l.loopDone = .none) (hl : AllNamed primary secondary l.run.session.matchState)
    (hk : (primary ×ˢ secondary).card ≤ l.cleanedTotal + k) :
    ∃ n ≤ k+1, (p.round^[n] l).live = false := by
  induction k generalizing l with
  | zero =>
    cases hlive : l.live with
    | false => exact ⟨0, Nat.zero_le _, hlive⟩
    | true =>
      refine ⟨1, le_rfl, ?_⟩
      by_contra hnext
      have hnext : (p.round l).live = true := by simpa using hnext
      have hup := p.round_increases l hp hlive hhead hl hnext
      have hle := (p.round_head l hp hlive hl).2.total_le
      rw [LoopRun.cleanedTotal] at hup
      unfold LoopRun.cleanedTotal at hup hk
      omega
  | succ k ih =>
    cases hlive : l.live with
    | false => exact ⟨0, Nat.zero_le _, hlive⟩
    | true =>
      cases hnext : (p.round l).live with
      | false => exact ⟨1, by omega, hnext⟩
      | true =>
        have hup := p.round_increases l hp hlive hhead hl hnext
        obtain ⟨hhead', hl'⟩ := p.round_head l hp hlive hl
        obtain ⟨n, hn, hend⟩ := ih (p.round l) hhead' hl' (by omega)
        exact ⟨n+1, by omega, by rwa [Function.iterate_succ_apply]⟩

/-- At every head but the one a run starts from the loop is at a whole iteration, with items that
name functions. -/
theorem iterate_head (hp : p.LoopAddsNamed primary secondary) (n : Nat)
    (hl : AllNamed primary secondary l.run.session.matchState)
    (hlive : (p.round^[n+1] l).live = true) :
    (p.round^[n+1] l).loopDone = .none ∧
      AllNamed primary secondary (p.round^[n+1] l).run.session.matchState := by
  induction n with
  | zero => exact p.round_head l hp (p.live_of_round l hlive) hl
  | succ n ih =>
    rw [Function.iterate_succ_apply'] at hlive ⊢
    have hbefore := p.live_of_round _ hlive
    exact p.round_head _ hp hbefore (ih hbefore).2

end Stages

/-- The loop stops in any run whose items name functions. The total its first cleanup leaves grows
with every iteration that goes on, up to the number of pairs of names. -/
theorem Stages.convergenceLoop_ends (p : Stages ε) (hp : p.LoopAddsNamed primary secondary)
    (resume : Option PipelineCursor) (r : Run ε)
    (hr : AllNamed primary secondary r.session.matchState) :
    (∃ rounds ≤ (primary ×ˢ secondary).card + 2,
      (p.convergenceLoop rounds resume r).live = false) ∧
    ∀ n, n ≠ 0 ∨ (Stages.loopStart resume r).loopDone = .none →
      (p.convergenceLoop (n+1) resume r).live = true →
      (p.convergenceLoop (n+1) resume r).run.cursor.oldTotal <
          (p.convergenceLoop (n+2) resume r).run.cursor.oldTotal ∧
        (p.convergenceLoop (n+2) resume r).run.cursor.oldTotal.toInt ≤
          (primary ×ˢ secondary).card := by
  let l := Stages.loopStart resume r
  have hl : AllNamed primary secondary l.run.session.matchState := by
    have hrun : l.run = r := by
      change (Stages.loopStart resume r).run = r
      unfold Stages.loopStart
      split
      · split_ifs <;> rfl
      · rfl
    rw [hrun]
    exact hr
  refine ⟨?_, fun n hn hlive => ?_⟩
  · cases hlive : l.live with
    | false => exact ⟨0, Nat.zero_le _, hlive⟩
    | true =>
      -- a resumed run may begin inside an iteration; the next one is whole
      obtain ⟨hhead, hnamed⟩ := p.round_head l hp hlive hl
      obtain ⟨n, hn, hend⟩ := p.round_ends (p.round l) hp (primary ×ˢ secondary).card hhead hnamed
        (Nat.le_add_left ..)
      exact ⟨n+1, by omega, by rwa [Stages.convergenceLoop, Function.iterate_succ_apply]⟩
  · have hlast : p.convergenceLoop (n+1) resume r = p.round (p.round^[n] l) :=
      Function.iterate_succ_apply' ..
    have hnext : p.convergenceLoop (n+2) resume r = p.round (p.convergenceLoop (n+1) resume r) :=
      Function.iterate_succ_apply' ..
    obtain ⟨hhead', hnamed'⟩ := p.iterate_head l hp n hl hlive
    have hbefore : (p.round^[n] l).live = true := p.live_of_round _ (hlast ▸ hlive)
    have hwhole : (p.round^[n] l).loopDone = .none ∧
        AllNamed primary secondary (p.round^[n] l).run.session.matchState := by
      cases n with
      | zero => exact ⟨hn.resolve_left (by simp), hl⟩
      | succ n => exact p.iterate_head l hp n hl hbefore
    have hold := p.round_oldTotal _ hp hbefore hwhole.1 hwhole.2
    have hup := p.round_increases _ hp hbefore hwhole.1 hwhole.2 (hlast ▸ hlive)
    have hnew := p.round_oldTotal (p.convergenceLoop (n+1) resume r) hp hlive hhead' hnamed'
    rw [← hlast] at hold hup
    rw [Int64.lt_iff_toInt_lt, hnext, hold, hnew]
    refine ⟨by omega, ?_⟩
    have hle := hnamed'.total_le
    rw [LoopRun.cleanedTotal]
    exact_mod_cast hle

namespace Stages
variable (p : Stages ε) (hp : p.AllAddNamed primary secondary) (resume : Option PipelineCursor)
  (r : Run ε) (hr : AllNamed primary secondary r.session.matchState)
include hp hr

omit hp hr in
theorem requireIngest_named : AddsNamed primary secondary p.requireIngest := by
  intro s t hst c it hit
  unfold requireIngest at hst
  dsimp only at hst
  split_ifs at hst
  obtain rfl := Except.ok.inj hst
  exact .inl hit

theorem fresh_named : AllNamed primary secondary (p.fresh r).session.matchState := by
  refine Run.ask_named _ _ _ hp.checkVersion (fun version r hr => ?_)
    (Run.update_named _ _ (fun s hs => hs) hr)
  cases version with
  | false =>
    rw [if_neg Bool.false_ne_true]
    exact Run.onRunning_of (fun r => AllNamed primary secondary r.session.matchState) _ r hr
      fun _ => hr
  | true =>
    rw [if_pos rfl, Run.save_session]
    refine Run.update_named _ _ (fun s hs => hs) ?_
    refine Run.perform_named _ _ hp.findEqualMatches ?_
    refine Run.perform_named _ _ hp.checkCallgraph ?_
    refine Run.perform_named _ _ hp.equalDb ?_
    exact Run.perform_named _ _ p.requireIngest_named hr

theorem dirtyHeuristics_named :
    AllNamed primary secondary (p.dirtyHeuristics r).session.matchState := by
  have hprepared : AllNamed primary secondary
      ((r.ask p.sameProcessor fun same r => r.update fun s =>
        { s with flags := { s.flags with isSameProcessor := same } }).update
        p.prepared).session.matchState := by
    refine Run.update_named _ _ (fun s hs => hs) ?_
    exact Run.ask_named _ _ _ hp.sameProcessor
      (fun same r hr => Run.update_named _ _ (fun s hs => hs) hr) hr
  rw [dirtyHeuristics, Run.save_session]
  split_ifs
  · refine Run.update_named _ _ (fun s hs => hs) ?_
    refine Run.ask_named _ _ _ hp.applyDirtyHeuristics (fun skip r hr => ?_) hprepared
    exact Run.onRunning_of (fun r => AllNamed primary secondary r.session.matchState) _ r hr
      fun _ => hr
  · exact hprepared

theorem opening_named : AllNamed primary secondary (p.opening resume r).session.matchState := by
  have hentry : AllNamed primary secondary (p.entry resume r).session.matchState := by
    unfold entry
    split_ifs
    · exact p.fresh_named hp r hr
    · exact Run.perform_named _ _ p.requireIngest_named hr
  have hheuristics : AllNamed primary secondary
      (p.heuristics resume (p.entry resume r)).session.matchState := by
    unfold heuristics
    split_ifs
    · exact Run.update_named _ _ (fun s hs => hs) hentry
    · exact p.dirtyHeuristics_named hp _ hentry
  exact Run.stage_named _ _ _ _ hp.findSameName hheuristics

theorem categories_named :
    AllNamed primary secondary (p.categories resume r).session.matchState := by
  have hstage (r : Run ε) (done : Bool) (f : Stage ε) (step : PipelineStep)
      (hf : AddsNamed primary secondary f) (hr : AllNamed primary secondary r.session.matchState) :
      AllNamed primary secondary
        (r.unlessDone done fun r => (r.perform f).save step).session.matchState := by
    refine Run.unlessDone_named r done _ hr ?_
    rw [Run.save_session]
    exact r.perform_named f hf hr
  refine hstage _ _ _ _ hp.smallDifferences ?_
  refine hstage _ _ _ _ hp.partialCategory ?_
  exact hstage _ _ _ _ hp.bestCategory hr

end Stages

/-- The loop of a run, after at most `rounds` iterations. -/
def Stages.loopOf (p : Stages ε) (rounds : Nat) (resume : Option PipelineCursor) (s : Session ε) :
    LoopRun ε :=
  p.convergenceLoop rounds resume (p.categories resume (p.opening resume (Run.start resume s)))

/-- `RunPipeline` ends, fresh or resumed, whatever its stages do with items that name functions:
the total that the loop's first cleanup leaves grows with every iteration that goes on, and is at
most the number of pairs of names. -/
theorem runPipeline_ends (p : Stages ε) (hp : p.AllAddNamed primary secondary)
    (resume : Option PipelineCursor) (s : Session ε)
    (hs : AllNamed primary secondary s.matchState) :
    (∃ rounds ≤ (primary ×ˢ secondary).card + 2,
      (p.loopOf rounds resume s).live = false ∧
        (p.runPipeline rounds resume s).outcome ≠ .running) ∧
    ∀ n, n ≠ 0 ∨ (p.loopOf 0 resume s).loopDone = .none →
      (p.loopOf (n+1) resume s).live = true →
      (p.loopOf (n+1) resume s).run.cursor.oldTotal <
          (p.loopOf (n+2) resume s).run.cursor.oldTotal ∧
        (p.loopOf (n+2) resume s).run.cursor.oldTotal.toInt ≤ (primary ×ˢ secondary).card := by
  have hopening := p.opening_named hp resume (Run.start resume s) hs
  have hloop := p.convergenceLoop_ends hp.loop resume _ (p.categories_named hp resume _ hopening)
  refine ⟨?_, hloop.2⟩
  obtain ⟨rounds, hrounds, hend⟩ := hloop.1
  refine ⟨rounds, hrounds, hend, ?_⟩
  unfold Stages.runPipeline
  dsimp only
  split_ifs with hskip hdone hlive
  · exact Run.finish_ended _
  · exact Run.finish_ended _
  · rw [hend] at hlive
    cases hlive
  · exact Run.finish_ended _

end

/-- A match of `main` with `main`, and stages that find it in every iteration. -/
def sampleMatch : Item :=
  ⟨some (text "4096"), some (text "main"), some (text "8192"), some (text "main"),
    text "Call graph", Binary64.one, 1, 1⟩

def sampleStages : Stages Unit :=
  { Stages.idle with
    findMatchesDiffing := fun _ s =>
      .ok (s.appendBest sampleMatch ⟨⟨by decide, by decide⟩, ⟨by decide, by decide⟩⟩) }

def sampleNames : Finset (Option Text) := {some (text "main")}

theorem runPipeline_ends_sample :
    (∃ rounds ≤ 3, (sampleStages.loopOf rounds none
        (Session.initial 1 1 ⟨by decide, by decide⟩ ⟨by decide, by decide⟩ ())).live = false ∧
      (sampleStages.runPipeline rounds none
        (Session.initial 1 1 ⟨by decide, by decide⟩ ⟨by decide, by decide⟩ ())).outcome ≠
          .running) := by
  have hidle : AddsNamed sampleNames sampleNames (Except.ok : Stage Unit) := by
    intro s t hst c it hit
    obtain rfl := Except.ok.inj hst
    exact .inl hit
  have hfind (k : Nat) : AddsNamed sampleNames sampleNames (sampleStages.findMatchesDiffing k) := by
    intro s t hst c it hit
    obtain rfl := Except.ok.inj hst
    rcases s.appendBest_items sampleMatch _ c it hit with h | h
    · exact .inl h
    · rw [h]
      exact .inr ⟨by decide, by decide, by decide⟩
  have hloop : sampleStages.LoopAddsNamed sampleNames sampleNames :=
    ⟨hfind, fun _ => hidle, fun _ => hidle, fun _ => hidle⟩
  have hp : sampleStages.AllAddNamed sampleNames sampleNames :=
    ⟨hidle, hidle, hidle, hidle, hidle, hidle, hidle, hidle, hidle, hidle, hloop⟩
  exact (runPipeline_ends sampleStages hp none _ fun c it hit => by cases c <;> cases hit).1

end DSigMatcher.Pipeline
