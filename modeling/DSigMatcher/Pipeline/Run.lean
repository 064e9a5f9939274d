import DSigMatcher.Pipeline.Session

namespace DSigMatcher.Pipeline
open DSigMatcher.Base DSigMatcher.Framework DSigMatcher.Diff DSigMatcher.Checkpoint

variable {ε : Type}

/-- A step over the session that may raise. -/
abbrev Stage (ε : Type) := Session ε → Except DiffError (Session ε)

/-- A step that also answers a question. -/
abbrev Query (ε : Type) := Session ε → Except DiffError (Session ε × Bool)

/-- What `diff()` is run with: the options, what ingest found wrong, and the stages. -/
structure Stages (ε : Type) where
  experimental : Bool
  ignoreAllNames : Bool
  slowHeuristics : Bool
  problems : List Text
  checkVersion : Query ε
  equalDb : Stage ε
  checkCallgraph : Stage ε
  findEqualMatches : Stage ε
  sameProcessor : Query ε
  prepare : Session ε → ε
  applyDirtyHeuristics : Query ε
  findSameName : Stage ε
  findRemainingFunctions : Stage ε
  bestCategory : Stage ε
  partialCategory : Stage ε
  smallDifferences : Stage ε
  findMatchesDiffing : Nat → Stage ε
  findRelatedMatches : Nat → Stage ε
  findRelatedCompilationUnit : Nat → Stage ε
  findLocallyAffineFunctions : Nat → Stage ε
  finalPass : Stage ε
  findUnmatched : Stage ε

/-- Stages that leave the session as it is. -/
def Stages.idle : Stages ε where
  experimental := true
  ignoreAllNames := false
  slowHeuristics := true
  problems := []
  checkVersion := fun s => .ok (s,true)
  equalDb := .ok
  checkCallgraph := .ok
  findEqualMatches := .ok
  sameProcessor := fun s => .ok (s,true)
  prepare := Session.rest
  applyDirtyHeuristics := fun s => .ok (s,false)
  findSameName := .ok
  findRemainingFunctions := .ok
  bestCategory := .ok
  partialCategory := .ok
  smallDifferences := .ok
  findMatchesDiffing := fun _ => .ok
  findRelatedMatches := fun _ => .ok
  findRelatedCompilationUnit := fun _ => .ok
  findLocallyAffineFunctions := fun _ => .ok
  finalPass := .ok
  findUnmatched := .ok

/-- `LogFinalResults`: Python's division is by the count of the main functions. -/
def logFinalResults : Stage ε := fun s =>
  if s.matchState.total1 = 0 then
    .error (.wouldRaise (text "D:3689 ZeroDivisionError") (text "total_functions1 == 0"))
  else .ok s

inductive Outcome
  | running
  | returned (value : Bool)
  | raised (e : DiffError)
  deriving DecidableEq

/-- `diff()` on its way: the session, the cursor, and what `Save` was called with so far. -/
structure Run (ε : Type) where
  session : Session ε
  cursor : PipelineCursor
  saves : List (PipelineCursor × Session ε)
  outcome : Outcome

namespace Run

/-- A run before its first step. -/
def start (resume : Option PipelineCursor) (s : Session ε) : Run ε :=
  ⟨s, resume.getD {}, [], .running⟩

/-- A run that has ended takes no further step. -/
def onRunning (f : Run ε → Run ε) (r : Run ε) : Run ε :=
  match r.outcome with
  | .running => f r
  | _ => r

def perform (f : Stage ε) : Run ε → Run ε :=
  onRunning fun r =>
    match f r.session with
    | .ok s => { r with session := s }
    | .error e => { r with outcome := .raised e }

def ask (f : Query ε) (next : Bool → Run ε → Run ε) : Run ε → Run ε :=
  onRunning fun r =>
    match f r.session with
    | .ok (s,answer) => next answer { r with session := s }
    | .error e => { r with outcome := .raised e }

def update (f : Session ε → Session ε) : Run ε → Run ε :=
  onRunning fun r => { r with session := f r.session }

/-- The lambda `Save`. -/
def save (step : PipelineStep) : Run ε → Run ε :=
  onRunning fun r =>
    let cursor := { r.cursor with done := step }
    { r with cursor := cursor, saves := r.saves ++ [(cursor,r.session)] }

def return_ (value : Bool) : Run ε → Run ε := onRunning fun r => { r with outcome := .returned value }

def setSkipOthers (skip : Bool) : Run ε → Run ε :=
  onRunning fun r => { r with cursor := { r.cursor with skipOthers := skip } }

/-- A step of the pipeline, unless a resumed run has it behind it. -/
def unlessDone (done : Bool) (step : Run ε → Run ε) (r : Run ε) : Run ε :=
  if done then r else step r

/-- A stage between its two points. -/
def pointed (f : Stage ε) (r : Run ε) : Run ε :=
  ((r.update Session.point).perform f).update Session.point

/-- The run behind the loop, or past it. -/
def leaveLoop : Run ε → Run ε :=
  onRunning fun r =>
    { r with
      cursor := { r.cursor with iteration := 0 }
      session := { r.session with iteration := none } }

/-- The end of `diff()`. -/
def finish (r : Run ε) : Run ε := (r.perform logFinalResults).return_ true

end Run

namespace Stages
variable (p : Stages ε)

/-- The problems of both exports in one line. -/
def joinedProblems (problems : List Text) : Text :=
  problems.foldl (fun joined t => joined ++ (if joined.isEmpty then [] else text "; ") ++ t) []

def requireIngest : Stage ε := fun s =>
  let problems := joinedProblems p.problems
  if problems.isEmpty then .ok s
  else .error (.unsupportedInput (text "export not supported: " ++ problems))

/-- `Engine().Prepare()` fills data that only the engine reads. -/
def prepared (s : Session ε) : Session ε := { s with rest := p.prepare s }

/-- A fresh run up to the first checkpoint. -/
def fresh (r : Run ε) : Run ε :=
  let r := r.update fun s => { s with ratiosCache := .empty, iteration := none }
  r.ask p.checkVersion fun version r =>
    if version then
      let r := ((r.perform p.requireIngest).perform p.equalDb).perform p.checkCallgraph
      ((r.perform p.findEqualMatches).update Session.point).save .equalMatches
    else r.return_ false

/-- The lambda `Done`. -/
def isDone (resume : Option PipelineCursor) (step : PipelineStep) : Bool :=
  match resume with
  | some c => step.rank ≤ c.done.rank
  | none => false

def dirtyHeuristics (r : Run ε) : Run ε :=
  let r := r.ask p.sameProcessor fun same r =>
    r.update fun s => { s with flags := { s.flags with isSameProcessor := same } }
  let r := r.update p.prepared
  let r :=
    if p.experimental then
      (r.ask p.applyDirtyHeuristics Run.setSkipOthers).update Session.point
    else r
  r.save .dirtyHeuristics

/-- The way into a run: everything up to the first checkpoint, or the ingest check alone. -/
def entry (resume : Option PipelineCursor) (r : Run ε) : Run ε :=
  if resume.isNone then p.fresh r else r.perform p.requireIngest

def heuristics (resume : Option PipelineCursor) (r : Run ε) : Run ε :=
  if isDone resume .dirtyHeuristics then r.update p.prepared else p.dirtyHeuristics r

def sameNames (resume : Option PipelineCursor) : Run ε → Run ε :=
  Run.unlessDone (p.ignoreAllNames || isDone resume .sameName)
    fun r => (r.pointed p.findSameName).save .sameName

/-- Everything before the choice between the remaining functions and the categories. -/
def opening (resume : Option PipelineCursor) (r : Run ε) : Run ε :=
  p.sameNames resume (p.heuristics resume (p.entry resume r))

def remainingFunctions (resume : Option PipelineCursor) : Run ε → Run ε :=
  Run.unlessDone (isDone resume .remainingFunctions)
    fun r => (r.pointed p.findRemainingFunctions).save .remainingFunctions

def categories (resume : Option PipelineCursor) (r : Run ε) : Run ε :=
  let r := r.unlessDone (isDone resume .bestCategory)
    fun r => (r.perform p.bestCategory).save .bestCategory
  let r := r.unlessDone (isDone resume .partialCategory)
    fun r => (r.perform p.partialCategory).save .partialCategory
  r.unlessDone (isDone resume .smallDifferences)
    fun r => (r.perform p.smallDifferences).save .smallDifferences

end Stages

/-- The convergence loop at the head of an iteration; `loopDone` is the step of this iteration
that a resumed run has behind it. -/
structure LoopRun (ε : Type) where
  run : Run ε
  iteration : Nat
  loopDone : PipelineStep
  converged : Bool

namespace LoopRun

/-- The loop goes on: it has neither converged nor raised. -/
def live (l : LoopRun ε) : Bool := !l.converged && l.run.outcome = .running

/-- The lambda `Pending`. -/
def pending (l : LoopRun ε) (step : PipelineStep) : Bool := l.loopDone.rank < step.rank

/-- The convergence test at the end of an iteration. -/
def test (l : LoopRun ε) (r : Run ε) : LoopRun ε :=
  if r.session.total ≤ r.cursor.oldTotal then ⟨r, l.iteration, .none, true⟩
  else ⟨r, l.iteration+1, .none, false⟩

end LoopRun

namespace Run

/-- The head of an iteration. -/
def enter (iteration : Nat) : Run ε → Run ε :=
  onRunning fun r =>
    { r with
      cursor := { r.cursor with iteration := iteration }
      session := { r.session with iteration := some iteration } }

def cleanupTop (r : Run ε) : Run ε :=
  let r := r.update fun s => s.cleanup .l3655
  let r := r.onRunning fun r => { r with cursor := { r.cursor with oldTotal := r.session.total } }
  r.save .loopCleanupTop

def cleanupBottom (r : Run ε) : Run ε := (r.update fun s => s.cleanup .l3671).save .loopCleanupBottom

end Run

namespace Stages
variable (p : Stages ε)

/-- One iteration's steps; a resumed one leaves out those it has behind it. -/
def iterationSteps (l : LoopRun ε) : Run ε :=
  let r := l.run.enter l.iteration
  let r := r.unlessDone (!l.pending .loopCleanupTop) Run.cleanupTop
  let r := r.unlessDone (!l.pending .matchesDiffing)
    fun r => (r.pointed (p.findMatchesDiffing l.iteration)).save .matchesDiffing
  let r := r.unlessDone (!(p.slowHeuristics && l.pending .relatedMatches))
    fun r => (r.pointed (p.findRelatedMatches l.iteration)).save .relatedMatches
  let r := r.unlessDone (!l.pending .relatedCompilationUnit)
    fun r => (r.pointed (p.findRelatedCompilationUnit l.iteration)).save .relatedCompilationUnit
  let r := r.unlessDone (!l.pending .locallyAffine)
    fun r => (r.pointed (p.findLocallyAffineFunctions l.iteration)).save .locallyAffine
  r.unlessDone (!l.pending .loopCleanupBottom) Run.cleanupBottom

/-- One turn of `while (true)`. -/
def round (l : LoopRun ε) : LoopRun ε := if l.live then l.test (p.iterationSteps l) else l

/-- Where the loop starts: in the middle of an iteration when the checkpoint was written there. -/
def loopStart (resume : Option PipelineCursor) (r : Run ε) : LoopRun ε :=
  match resume with
  | some c => if c.done.isLoopStep then ⟨r, c.iteration, c.done, false⟩ else ⟨r, 0, .none, false⟩
  | none => ⟨r, 0, .none, false⟩

/-- The run after at most `rounds` iterations of the loop; it ends when the loop does. -/
def convergenceLoop (rounds : Nat) (resume : Option PipelineCursor) (r : Run ε) : LoopRun ε :=
  p.round^[rounds] (loopStart resume r)

/-- The steps behind the loop, up to the last checkpoint. -/
def closed (resume : Option PipelineCursor) (r : Run ε) : Run ε :=
  let r := r.leaveLoop.unlessDone (isDone resume .finalPass)
    fun r => (r.pointed p.finalPass).save .finalPass
  r.unlessDone (isDone resume .findUnmatched)
    fun r => ((r.perform p.findUnmatched).update Session.point).save .findUnmatched

def closing (resume : Option PipelineCursor) (r : Run ε) : Run ε := (p.closed resume r).finish

/-- `RunPipeline` with at most `rounds` iterations of its loop. A run that needs more is still
running in the end. -/
def runPipeline (rounds : Nat) (resume : Option PipelineCursor) (s : Session ε) : Run ε :=
  let r := p.opening resume (Run.start resume s)
  if r.cursor.skipOthers then p.closing resume (p.remainingFunctions resume r)
  else
    let r := p.categories resume r
    if isDone resume .finalPass then p.closing resume r
    else
      let l := p.convergenceLoop rounds resume r
      if l.live then l.run else p.closing resume l.run

end Stages

namespace Run

theorem onRunning_running (f : Run ε → Run ε) (r : Run ε) (h : r.outcome = .running) :
    r.onRunning f = f r := by
  rw [onRunning, h]

theorem onRunning_ended (f : Run ε → Run ε) (r : Run ε) (h : r.outcome ≠ .running) :
    r.onRunning f = r := by
  unfold onRunning
  cases hr : r.outcome with
  | running => exact absurd hr h
  | returned => rfl
  | raised => rfl

/-- What holds before a step and after it holds after the guarded step. -/
theorem onRunning_of (P : Run ε → Prop) (f : Run ε → Run ε) (r : Run ε) (hr : P r)
    (hf : r.outcome = .running → P (f r)) : P (r.onRunning f) := by
  by_cases h : r.outcome = .running
  · rw [onRunning_running f r h]
    exact hf h
  · rwa [onRunning_ended f r h]

/-- A part of the run no step changes is not changed by the guarded step. -/
theorem onRunning_keeps {α : Type} (get : Run ε → α) (f : Run ε → Run ε) (r : Run ε)
    (hf : ∀ r, get (f r) = get r) : get (r.onRunning f) = get r :=
  onRunning_of (fun t => get t = get r) f r rfl fun _ => hf r

theorem unlessDone_of (P : Run ε → Prop) (done : Bool) (step : Run ε → Run ε) (r : Run ε)
    (hr : P r) (hstep : P (step r)) : P (r.unlessDone done step) := by
  cases done with
  | false => exact hstep
  | true => exact hr

theorem perform_keeps {α : Type} (get : Run ε → α) (f : Stage ε) (r : Run ε)
    (hget : ∀ r s o, get { r with session := s, outcome := o } = get r) :
    get (r.perform f) = get r := by
  refine onRunning_keeps get _ r fun r => ?_
  cases f r.session with
  | ok s => exact hget r s r.outcome
  | error e => exact hget r r.session (.raised e)

theorem return_ended (r : Run ε) (value : Bool) : (r.return_ value).outcome ≠ .running := by
  intro h
  by_cases hr : r.outcome = .running
  · rw [return_, onRunning_running _ r hr] at h
    cases h
  · rw [return_, onRunning_ended _ r hr] at h
    exact hr h

theorem return_session (r : Run ε) (value : Bool) : (r.return_ value).session = r.session :=
  onRunning_keeps Run.session _ r fun _ => rfl

theorem return_saves (r : Run ε) (value : Bool) : (r.return_ value).saves = r.saves :=
  onRunning_keeps Run.saves _ r fun _ => rfl

theorem finish_session (r : Run ε) : r.finish.session = r.session := by
  have hperform : (r.perform logFinalResults).session = r.session := by
    refine onRunning_of (fun t => t.session = r.session) _ r rfl fun _ => ?_
    unfold logFinalResults
    split_ifs <;> rfl
  rw [finish, return_session, hperform]

theorem finish_self {r : Run ε} (h : r.outcome ≠ .running) : r.finish = r := by
  have hperform : r.perform logFinalResults = r := onRunning_ended _ r h
  rw [finish, hperform]
  exact onRunning_ended _ r h

theorem finish_ended (r : Run ε) : r.finish.outcome ≠ .running := return_ended _ true

section
variable (r : Run ε) (f : Stage ε) (g : Session ε → Session ε) (step : PipelineStep)

@[simp] theorem perform_cursor : (r.perform f).cursor = r.cursor :=
  perform_keeps Run.cursor f r fun _ _ _ => rfl

@[simp] theorem perform_saves : (r.perform f).saves = r.saves :=
  perform_keeps Run.saves f r fun _ _ _ => rfl

@[simp] theorem finish_saves : r.finish.saves = r.saves := by
  rw [finish, return_saves, perform_saves]

@[simp] theorem update_cursor : (r.update g).cursor = r.cursor :=
  onRunning_keeps Run.cursor _ r fun _ => rfl

@[simp] theorem update_saves : (r.update g).saves = r.saves :=
  onRunning_keeps Run.saves _ r fun _ => rfl

@[simp] theorem update_outcome : (r.update g).outcome = r.outcome :=
  onRunning_keeps Run.outcome _ r fun _ => rfl

@[simp] theorem save_session : (r.save step).session = r.session :=
  onRunning_keeps Run.session _ r fun _ => rfl

@[simp] theorem save_outcome : (r.save step).outcome = r.outcome :=
  onRunning_keeps Run.outcome _ r fun _ => rfl

@[simp] theorem save_oldTotal : (r.save step).cursor.oldTotal = r.cursor.oldTotal :=
  onRunning_keeps (fun r => r.cursor.oldTotal) _ r fun _ => rfl

@[simp] theorem pointed_cursor : (r.pointed f).cursor = r.cursor := by simp [pointed]

@[simp] theorem pointed_saves : (r.pointed f).saves = r.saves := by simp [pointed]

@[simp] theorem enter_outcome (iteration : Nat) : (r.enter iteration).outcome = r.outcome :=
  onRunning_keeps Run.outcome _ r fun _ => rfl

@[simp] theorem enter_matchState (iteration : Nat) :
    (r.enter iteration).session.matchState = r.session.matchState :=
  onRunning_keeps (fun r => r.session.matchState) _ r fun _ => rfl

end

/-- A stage that a running run is left running by has replaced the session. -/
theorem perform_running (r : Run ε) (f : Stage ε) (h : (r.perform f).outcome = .running) :
    r.outcome = .running ∧ f r.session = .ok (r.perform f).session := by
  by_cases hr : r.outcome = .running
  · have hperform := onRunning_running (fun r => match f r.session with
      | .ok s => { r with session := s }
      | .error e => { r with outcome := .raised e }) r hr
    refine ⟨hr, ?_⟩
    cases hf : f r.session with
    | ok s =>
      rw [hf] at hperform
      exact congrArg (fun t : Run ε => Except.ok t.session) hperform.symm
    | error e =>
      rw [hf] at hperform
      have hraised : (r.perform f).outcome = .raised e := congrArg Run.outcome hperform
      rw [hraised] at h
      cases h
  · rw [show r.perform f = r from onRunning_ended _ r hr] at h
    exact absurd h hr

end Run

theorem LoopRun.live_iff (l : LoopRun ε) :
    l.live = true ↔ l.converged = false ∧ l.run.outcome = .running := by
  simp [live]

namespace Stages
variable (p : Stages ε) (l : LoopRun ε)

theorem round_live (hlive : l.live = true) : p.round l = l.test (p.iterationSteps l) := by
  rw [round, if_pos hlive]

theorem round_ended (h : l.live = false) : p.round l = l := by
  rw [round, if_neg (by simp [h])]

/-- A loop that has ended stays where it is; one that goes on was live before. -/
theorem live_of_round (h : (p.round l).live = true) : l.live = true := by
  cases hlive : l.live with
  | true => rfl
  | false =>
    rw [p.round_ended l hlive, hlive] at h
    exact h

end Stages

end DSigMatcher.Pipeline
