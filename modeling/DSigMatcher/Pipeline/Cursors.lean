import DSigMatcher.Checkpoint.StateFile
import DSigMatcher.Pipeline.Run

namespace DSigMatcher.Pipeline
open DSigMatcher.Base DSigMatcher.Json DSigMatcher.Framework DSigMatcher.Diff DSigMatcher.Checkpoint

variable {ε : Type}

/-- A cursor of a stage that `diff()` reaches. -/
def Reached (c : PipelineCursor) : Prop := c.done ≠ .none ∧ c.consistent = true

/-- All cursors saved so far are reached ones, and the cursor of a running run satisfies `Q`,
which says nothing about the step done last. -/
structure Sound (Q : PipelineCursor → Prop) (r : Run ε) : Prop where
  saves : ∀ x ∈ r.saves, Reached x.1
  cursor : r.outcome = .running → Q r.cursor

/-- The iteration is 0, unless the run was resumed inside the loop. -/
structure Before (resume : Option PipelineCursor) (c : PipelineCursor) : Prop where
  total : 0 ≤ c.oldTotal
  iteration : c.iteration = 0 ∨
    ∃ start, resume = some start ∧ start.done.isLoopStep = true ∧ c.skipOthers = false

/-- Outside the loop. -/
structure Outside (c : PipelineCursor) : Prop where
  total : 0 ≤ c.oldTotal
  iteration : c.iteration = 0

/-- Inside the loop. -/
structure Inside (c : PipelineCursor) : Prop where
  total : 0 ≤ c.oldTotal
  skipOthers : c.skipOthers = false

namespace Sound
variable {Q Q' : PipelineCursor → Prop} {r : Run ε}

theorem mono (h : Sound Q r) (hq : ∀ c, Q c → Q' c) : Sound Q' r :=
  ⟨h.saves, fun hr => hq r.cursor (h.cursor hr)⟩

theorem perform (h : Sound Q r) (f : Stage ε) : Sound Q (r.perform f) := by
  refine ⟨by rw [Run.perform_saves]; exact h.saves, fun hr => ?_⟩
  rw [Run.perform_cursor]
  exact h.cursor (r.perform_running f hr).1

theorem update (h : Sound Q r) (g : Session ε → Session ε) : Sound Q (r.update g) := by
  refine ⟨by rw [Run.update_saves]; exact h.saves, fun hr => ?_⟩
  rw [Run.update_outcome] at hr
  rw [Run.update_cursor]
  exact h.cursor hr

theorem pointed (h : Sound Q r) (f : Stage ε) : Sound Q (r.pointed f) :=
  ((h.update Session.point).perform f).update Session.point

theorem ended (h : Sound Q r) (hr : r.outcome ≠ .running) : Sound Q' r :=
  ⟨h.saves, fun hrunning => absurd hrunning hr⟩

theorem ask (h : Sound Q r) (f : Query ε) (next : Bool → Run ε → Run ε)
    (hnext : ∀ b r, Sound Q r → Sound Q' (next b r)) : Sound Q' (r.ask f next) := by
  by_cases hr : r.outcome = .running
  · rw [Run.ask, Run.onRunning_running _ r hr]
    cases f r.session with
    | error e => exact ⟨h.saves, fun hr => by cases hr⟩
    | ok sb => exact hnext sb.2 _ ⟨h.saves, fun _ => h.cursor hr⟩
  · rw [Run.ask, Run.onRunning_ended _ r hr]
    exact h.ended hr

/-- A guarded change of the cursor. -/
theorem onRunning (h : Sound Q r) (f : Run ε → Run ε) (hsaves : (f r).saves = r.saves)
    (hq : Q r.cursor → Q' (f r).cursor) : Sound Q' (r.onRunning f) := by
  by_cases hr : r.outcome = .running
  · rw [Run.onRunning_running f r hr]
    exact ⟨by rw [hsaves]; exact h.saves, fun _ => hq (h.cursor hr)⟩
  · rw [Run.onRunning_ended f r hr]
    exact h.ended hr

/-- A checkpoint of a step that is consistent with what the cursor says. -/
theorem save (h : Sound Q r) (step : PipelineStep)
    (hstep : ∀ c, Q c → Reached { c with done := step })
    (hq : ∀ c, Q c → Q { c with done := step }) : Sound Q (r.save step) := by
  by_cases hr : r.outcome = .running
  · rw [Run.save, Run.onRunning_running _ r hr]
    refine ⟨?_, fun _ => hq _ (h.cursor hr)⟩
    intro x hx
    rcases List.mem_append.mp hx with hx | hx
    · exact h.saves x hx
    · rw [List.mem_singleton.mp hx]
      exact hstep r.cursor (h.cursor hr)
  · rw [Run.save, Run.onRunning_ended _ r hr]
    exact h

theorem unlessDone (h : Sound Q r) (done : Bool) (step : Run ε → Run ε)
    (hstep : done = false → Sound Q (step r)) : Sound Q (r.unlessDone done step) := by
  cases done with
  | true => exact h
  | false => exact hstep rfl

end Sound

/-- What a consistent cursor of a step says about the two flags, the total apart. -/
def stepAllows (step : PipelineStep) (skipOthers atZero : Bool) : Bool :=
  let categories := PipelineStep.bestCategory.rank ≤ step.rank &&
    step.rank ≤ PipelineStep.loopCleanupBottom.rank
  step ≠ .none && !(skipOthers && (step.rank < PipelineStep.dirtyHeuristics.rank || categories)) &&
    !(!skipOthers && step = .remainingFunctions) && (step.isLoopStep || atZero)

theorem reached_iff (c : PipelineCursor) (step : PipelineStep) :
    Reached { c with done := step } ↔
      stepAllows step c.skipOthers (c.iteration = 0) = true ∧ 0 ≤ c.oldTotal := by
  simp [Reached, PipelineCursor.consistent, stepAllows, and_assoc]

theorem reached_outside (c : PipelineCursor) (hc : Outside c) (step : PipelineStep)
    (hstep : stepAllows step c.skipOthers true = true) : Reached { c with done := step } := by
  rw [reached_iff, hc.iteration]
  exact ⟨hstep, hc.total⟩

/-- Only the loop has iterations, and only a run that skips nothing has a loop. -/
theorem stepAllows_iteration (step : PipelineStep) (skip : Bool)
    (h : stepAllows step skip false = true) : step.isLoopStep = true ∧ skip = false := by
  revert h
  cases step <;> cases skip <;> decide

theorem reached_inside (c : PipelineCursor) (hc : Inside c) (step : PipelineStep)
    (hstep : step.isLoopStep = true) : Reached { c with done := step } := by
  have hallows : ∀ atZero, stepAllows step false atZero = true := by
    cases step with
    | loopCleanupTop => decide
    | matchesDiffing => decide
    | relatedMatches => decide
    | relatedCompilationUnit => decide
    | locallyAffine => decide
    | loopCleanupBottom => decide
    | _ => cases hstep
  rw [reached_iff, hc.skipOthers]
  exact ⟨hallows _, hc.total⟩

/-- A step before the loop that is still to do is outside the loop. -/
theorem Before.outside {resume : Option PipelineCursor} {c : PipelineCursor}
    (h : Before resume c) (step : PipelineStep)
    (hstep : step.rank < PipelineStep.loopCleanupTop.rank)
    (hdone : Stages.isDone resume step = false) : Outside c := by
  refine ⟨h.total, ?_⟩
  rcases h.iteration with hzero | ⟨start, rfl, hloop, -⟩
  · exact hzero
  · have htop : PipelineStep.loopCleanupTop.rank ≤ start.done.rank := by
      rw [PipelineStep.isLoopStep, Bool.and_eq_true, decide_eq_true_eq] at hloop
      exact hloop.1
    have hlater : ¬ step.rank ≤ start.done.rank := of_decide_eq_false hdone
    omega

theorem Outside.before {resume : Option PipelineCursor} {c : PipelineCursor} (h : Outside c) :
    Before resume c :=
  ⟨h.total, .inl h.iteration⟩

namespace Stages
variable (p : Stages ε) (resume : Option PipelineCursor)

theorem start_sound (s : Session ε) (hresume : ∀ c ∈ resume, c.Readable) :
    Sound (Before resume) (Run.start resume s) := by
  refine ⟨fun x hx => (List.not_mem_nil hx).elim, fun _ => ?_⟩
  cases resume with
  | none => exact ⟨Int64.le_refl 0, .inl rfl⟩
  | some c =>
    have hc := (reached_iff c c.done).mp ⟨(hresume c rfl).step, (hresume c rfl).consistent⟩
    refine ⟨hc.2, ?_⟩
    by_cases hzero : c.iteration = 0
    · exact .inl hzero
    · have hallows : stepAllows c.done c.skipOthers false = true := by
        have h := hc.1
        rwa [decide_eq_false hzero] at h
      obtain ⟨hloop, hskip⟩ := stepAllows_iteration c.done c.skipOthers hallows
      exact .inr ⟨c, rfl, hloop, hskip⟩

variable {resume} {r : Run ε}

theorem fresh_sound (h : Sound (fun c => Outside c ∧ c.skipOthers = false) r) :
    Sound (fun c => Outside c ∧ c.skipOthers = false) (p.fresh r) := by
  unfold fresh
  refine Sound.ask (h.update _) p.checkVersion _ fun version r h => ?_
  cases version with
  | false => exact h.onRunning (fun r => { r with outcome := .returned false }) rfl fun hq => hq
  | true =>
    have hstages := ((((h.perform p.requireIngest).perform p.equalDb).perform
      p.checkCallgraph).perform p.findEqualMatches).update Session.point
    refine hstages.save .equalMatches (fun c hc => reached_outside c hc.1 _ ?_)
      fun c hc => ⟨⟨hc.1.total, hc.1.iteration⟩, hc.2⟩
    rw [hc.2]
    decide

theorem entry_sound (s : Session ε) (hresume : ∀ c ∈ resume, c.Readable) :
    Sound (Before resume) (p.entry resume (Run.start resume s)) := by
  have hstart := start_sound resume s hresume
  unfold entry
  cases resume with
  | none =>
    have hfresh : Sound (fun c => Outside c ∧ c.skipOthers = false) (Run.start none s) :=
      ⟨hstart.saves, fun _ => ⟨⟨Int64.le_refl 0, rfl⟩, rfl⟩⟩
    exact (p.fresh_sound hfresh).mono fun c hc => hc.1.before
  | some c => exact hstart.perform p.requireIngest

theorem heuristics_sound (h : Sound (Before resume) r) :
    Sound (Before resume) (p.heuristics resume r) := by
  unfold heuristics
  cases hdone : isDone resume .dirtyHeuristics with
  | true => exact h.update p.prepared
  | false =>
    have houtside : Sound Outside r :=
      h.mono fun c hc => hc.outside .dirtyHeuristics (by decide) hdone
    have hprepared := (houtside.ask p.sameProcessor (fun same r =>
      r.update fun s => { s with flags := { s.flags with isSameProcessor := same } })
      fun same r h => h.update _).update p.prepared
    have hexperimental : Sound Outside (if p.experimental then
        (((r.ask p.sameProcessor fun same r => r.update fun s =>
            { s with flags := { s.flags with isSameProcessor := same } }).update p.prepared).ask
          p.applyDirtyHeuristics Run.setSkipOthers).update Session.point
      else (r.ask p.sameProcessor fun same r => r.update fun s =>
        { s with flags := { s.flags with isSameProcessor := same } }).update p.prepared) := by
      split_ifs
      · refine (hprepared.ask p.applyDirtyHeuristics Run.setSkipOthers fun skip r h => ?_).update _
        exact h.onRunning _ rfl fun hq => ⟨hq.total, hq.iteration⟩
      · exact hprepared
    have hallows : ∀ skip, stepAllows .dirtyHeuristics skip true = true := by decide
    have hsaved := hexperimental.save .dirtyHeuristics
      (fun c hc => reached_outside c hc _ (hallows c.skipOthers))
      fun c hc => ⟨hc.total, hc.iteration⟩
    exact hsaved.mono fun c hc => hc.before

/-- A step before the loop with its checkpoint; `K` is what is known of `skip_others`. -/
theorem step_sound (K : Bool → Prop) (step : PipelineStep) (done : Bool) (f : Run ε → Run ε)
    (hf : ∀ (Q : PipelineCursor → Prop) (r : Run ε), Sound Q r → Sound Q (f r))
    (hlt : step.rank < PipelineStep.loopCleanupTop.rank)
    (hdone : done = false → isDone resume step = false)
    (hstep : ∀ skip, K skip → stepAllows step skip true = true)
    (h : Sound (fun c => Before resume c ∧ K c.skipOthers) r) :
    Sound (fun c => Before resume c ∧ K c.skipOthers)
      (r.unlessDone done fun r => (f r).save step) := by
  refine h.unlessDone done _ fun hfalse => ?_
  have houtside : Sound (fun c => Outside c ∧ K c.skipOthers) r :=
    h.mono fun c hc => ⟨hc.1.outside step hlt (hdone hfalse), hc.2⟩
  have hsaved := (hf _ r houtside).save step
    (fun c hc => reached_outside c hc.1 step (hstep _ hc.2))
    fun c hc => ⟨⟨hc.1.total, hc.1.iteration⟩, hc.2⟩
  exact hsaved.mono fun c hc => ⟨hc.1.before, hc.2⟩

theorem opening_sound (s : Session ε) (hresume : ∀ c ∈ resume, c.Readable) :
    Sound (Before resume) (p.opening resume (Run.start resume s)) := by
  have hheuristics := p.heuristics_sound (p.entry_sound s hresume)
  have hnames := step_sound (fun _ => True) .sameName (p.ignoreAllNames || isDone resume .sameName)
    (Run.pointed p.findSameName) (fun Q r h => h.pointed _) (by decide)
    (fun h => (Bool.or_eq_false_iff.mp h).2) (by decide)
    (hheuristics.mono fun c hc => ⟨hc, trivial⟩)
  exact hnames.mono fun c hc => hc.1

theorem remainingFunctions_sound (h : Sound (Before resume) r) (hskip : r.cursor.skipOthers = true) :
    Sound (Before resume) (p.remainingFunctions resume r) := by
  have hremaining := step_sound (fun skip => skip = true) .remainingFunctions
    (isDone resume .remainingFunctions) (Run.pointed p.findRemainingFunctions)
    (fun Q r h => h.pointed _) (by decide) (fun h => h) (by decide)
    ⟨h.saves, fun hr => ⟨h.cursor hr, hskip⟩⟩
  exact hremaining.mono fun c hc => hc.1

theorem categories_sound (h : Sound (Before resume) r) (hskip : r.cursor.skipOthers = false) :
    Sound (fun c => Before resume c ∧ c.skipOthers = false) (p.categories resume r) := by
  refine step_sound (fun skip => skip = false) .smallDifferences _ (Run.perform p.smallDifferences)
    (fun Q r h => h.perform _) (by decide) (fun h => h) (by decide) ?_
  refine step_sound (fun skip => skip = false) .partialCategory _ (Run.perform p.partialCategory)
    (fun Q r h => h.perform _) (by decide) (fun h => h) (by decide) ?_
  refine step_sound (fun skip => skip = false) .bestCategory _ (Run.perform p.bestCategory)
    (fun Q r h => h.perform _) (by decide) (fun h => h) (by decide) ?_
  exact ⟨h.saves, fun hr => ⟨h.cursor hr, hskip⟩⟩

/-- A step of the loop with its checkpoint. -/
theorem loopStep_sound (step : PipelineStep) (hstep : step.isLoopStep = true)
    (h : Sound Inside r) : Sound Inside (r.save step) :=
  h.save step (fun c hc => reached_inside c hc step hstep) fun _ hc => ⟨hc.total, hc.skipOthers⟩

theorem iterationSteps_sound (l : LoopRun ε) (h : Sound Inside l.run) :
    Sound Inside (p.iterationSteps l) := by
  have henter : Sound Inside (l.run.enter l.iteration) :=
    h.onRunning _ rfl fun hq => ⟨hq.total, hq.skipOthers⟩
  have htop (r : Run ε) (h : Sound Inside r) : Sound Inside r.cleanupTop := by
    refine loopStep_sound .loopCleanupTop rfl ?_
    exact (h.update _).onRunning _ rfl fun hq => ⟨Session.total_nonneg _, hq.skipOthers⟩
  have hstage (r : Run ε) (done : Bool) (f : Stage ε) (step : PipelineStep)
      (hstep : step.isLoopStep = true) (h : Sound Inside r) :
      Sound Inside (r.unlessDone done fun r => (r.pointed f).save step) :=
    h.unlessDone done _ fun _ => loopStep_sound step hstep (h.pointed f)
  have hlast := hstage _ (!l.pending .locallyAffine) (p.findLocallyAffineFunctions l.iteration)
    .locallyAffine rfl
    (hstage _ (!l.pending .relatedCompilationUnit) (p.findRelatedCompilationUnit l.iteration)
      .relatedCompilationUnit rfl
    (hstage _ (!(p.slowHeuristics && l.pending .relatedMatches))
      (p.findRelatedMatches l.iteration) .relatedMatches rfl
    (hstage _ (!l.pending .matchesDiffing) (p.findMatchesDiffing l.iteration) .matchesDiffing rfl
    (henter.unlessDone (!l.pending .loopCleanupTop) Run.cleanupTop fun _ => htop _ henter))))
  exact hlast.unlessDone _ _ fun _ => loopStep_sound .loopCleanupBottom rfl (hlast.update _)

theorem round_sound (l : LoopRun ε) (h : Sound Inside l.run) : Sound Inside (p.round l).run := by
  have hsteps := p.iterationSteps_sound l h
  unfold round LoopRun.test
  split_ifs
  · exact hsteps
  · exact hsteps
  · exact h

theorem convergenceLoop_sound (rounds : Nat) (h : Sound Inside r) :
    Sound Inside (p.convergenceLoop rounds resume r).run := by
  unfold convergenceLoop
  induction rounds with
  | zero =>
    have hrun : (loopStart resume r).run = r := by
      unfold loopStart
      split
      · split_ifs <;> rfl
      · rfl
    rw [Function.iterate_zero, id_eq, hrun]
    exact h
  | succ rounds ih =>
    rw [Function.iterate_succ_apply']
    exact p.round_sound _ ih

theorem closing_sound (h : Sound (fun c => 0 ≤ c.oldTotal) r) :
    ∀ x ∈ (p.closing resume r).saves, Reached x.1 := by
  have houtside : Sound Outside r.leaveLoop := h.onRunning _ rfl fun hq => ⟨hq, rfl⟩
  have hsave (r : Run ε) (step : PipelineStep) (hstep : ∀ skip, stepAllows step skip true = true)
      (h : Sound Outside r) : Sound Outside (r.save step) :=
    h.save step (fun c hc => reached_outside c hc step (hstep _)) fun c hc => ⟨hc.total, hc.iteration⟩
  have hfinal := houtside.unlessDone (isDone resume .finalPass)
    (fun r => (r.pointed p.finalPass).save .finalPass) fun _ =>
      hsave _ .finalPass (by decide) (houtside.pointed p.finalPass)
  have hunmatched := hfinal.unlessDone (isDone resume .findUnmatched)
    (fun r => ((r.perform p.findUnmatched).update Session.point).save .findUnmatched) fun _ =>
      hsave _ .findUnmatched (by decide) ((hfinal.perform p.findUnmatched).update Session.point)
  have hreturned : Sound Outside (p.closing resume r) :=
    (hunmatched.perform logFinalResults).onRunning (fun r => { r with outcome := .returned true }) rfl
      fun hq => hq
  exact hreturned.saves

/-- Every cursor a run saves is one that `diff()` reaches, whether it is fresh or resumed. -/
theorem runPipeline_saves (rounds : Nat) (s : Session ε) (hresume : ∀ c ∈ resume, c.Readable) :
    ∀ x ∈ (p.runPipeline rounds resume s).saves, Reached x.1 := by
  have hopening := p.opening_sound s hresume
  unfold runPipeline
  dsimp only
  cases hskip : (p.opening resume (Run.start resume s)).cursor.skipOthers with
  | true =>
    rw [if_pos rfl]
    exact p.closing_sound ((p.remainingFunctions_sound hopening hskip).mono fun c hc => hc.total)
  | false =>
    rw [if_neg Bool.false_ne_true]
    have hcategories := p.categories_sound hopening hskip
    have hloop : Sound Inside (p.convergenceLoop rounds resume
        (p.categories resume (p.opening resume (Run.start resume s)))).run :=
      p.convergenceLoop_sound rounds (hcategories.mono fun c hc => ⟨hc.1.total, hc.2⟩)
    split_ifs
    · exact p.closing_sound (hcategories.mono fun c hc => hc.1.total)
    · exact hloop.saves
    · exact p.closing_sound (hloop.mono fun c hc => hc.total)

end Stages

end DSigMatcher.Pipeline
