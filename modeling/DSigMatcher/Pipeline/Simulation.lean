import DSigMatcher.Pipeline.Run

namespace DSigMatcher.Pipeline
open DSigMatcher.Base DSigMatcher.Framework DSigMatcher.Diff DSigMatcher.Checkpoint

variable {ε : Type}

/-- Two sessions that differ in nothing a checkpoint carries; the hook's pairs are a set. -/
structure Agree (s t : Session ε) : Prop where
  matchState : s.matchState = t.matchState
  flags : s.flags = t.flags
  iteration : s.iteration = t.iteration
  ratiosCache : s.ratiosCache = t.ratiosCache
  hookDones : ∀ p, p ∈ s.hookDones.pairs ↔ p ∈ t.hookDones.pairs
  final : s.final = t.final
  pointSeq : s.pointSeq = t.pointSeq
  cleanupCounters : s.cleanupCounters = t.cleanupCounters

namespace Agree
variable {s t u : Session ε}

theorem refl (s : Session ε) : Agree s s := ⟨rfl, rfl, rfl, rfl, fun _ => Iff.rfl, rfl, rfl, rfl⟩

theorem symm (h : Agree s t) : Agree t s :=
  ⟨h.matchState.symm, h.flags.symm, h.iteration.symm, h.ratiosCache.symm,
    fun p => (h.hookDones p).symm, h.final.symm, h.pointSeq.symm, h.cleanupCounters.symm⟩

theorem trans (h : Agree s t) (h' : Agree t u) : Agree s u :=
  ⟨h.matchState.trans h'.matchState, h.flags.trans h'.flags, h.iteration.trans h'.iteration,
    h.ratiosCache.trans h'.ratiosCache, fun p => (h.hookDones p).trans (h'.hookDones p),
    h.final.trans h'.final, h.pointSeq.trans h'.pointSeq, h.cleanupCounters.trans h'.cleanupCounters⟩

theorem point (h : Agree s t) : Agree s.point t.point :=
  { h with pointSeq := congrArg (· + 1) h.pointSeq }

theorem setIteration (h : Agree s t) (k : Option Nat) :
    Agree { s with iteration := k } { t with iteration := k } :=
  { h with iteration := rfl }

/-- What only the engine reads is no part of a checkpoint. -/
theorem rest (h : Agree s t) (rest : ε) : Agree s { t with rest := rest } := { h with }

theorem cleanup (h : Agree s t) (site : CleanupSite) : Agree (s.cleanup site) (t.cleanup site) := by
  refine ⟨congrArg Diff.cleanup h.matchState, h.flags, h.iteration, h.ratiosCache, h.hookDones,
    h.final, congrArg (· + 1 + 1) h.pointSeq, ?_⟩
  have hcounters := h.cleanupCounters
  change s.cleanupCounters.set site.line (s.cleanupCounters.get site.line + 1) =
    t.cleanupCounters.set site.line (t.cleanupCounters.get site.line + 1)
  rw [hcounters]

theorem total (h : Agree s t) : s.total = t.total := by
  rw [Session.total, Session.total, h.matchState]

end Agree

/-- A function of what a checkpoint carries, with an answer of the same kind. -/
def Determined {α : Type} (same : α → α → Prop) (f : Session ε → Except DiffError α) : Prop :=
  ∀ s t, Agree s t → (∃ a b, f s = .ok a ∧ f t = .ok b ∧ same a b) ∨ ∃ e, f s = .error e ∧ f t = .error e

def DeterminedStage (f : Stage ε) : Prop := Determined Agree f

def DeterminedQuery (f : Query ε) : Prop := Determined (fun x y => Agree x.1 y.1 ∧ x.2 = y.2) f

/-- Two checkpoints at the same place, of sessions that agree. -/
def SameSave (y z : PipelineCursor × Session ε) : Prop := y.1 = z.1 ∧ Agree y.2 z.2

/-- Two runs at the same place, in sessions that agree; what the first has saved, the second has saved
as well. -/
structure Sim (r q : Run ε) : Prop where
  session : Agree r.session q.session
  cursor : r.cursor = q.cursor
  outcome : r.outcome = q.outcome
  saves : ∀ y ∈ r.saves, ∃ z ∈ q.saves, SameSave y z

namespace Sim
variable {r q : Run ε}

theorem refl (r : Run ε) : Sim r r := ⟨.refl _, rfl, rfl, fun y hy => ⟨y, hy, rfl, .refl _⟩⟩

theorem trans {p : Run ε} (h : Sim r q) (h' : Sim q p) : Sim r p := by
  refine ⟨h.session.trans h'.session, h.cursor.trans h'.cursor, h.outcome.trans h'.outcome,
    fun y hy => ?_⟩
  obtain ⟨z, hz, hcursor, hagree⟩ := h.saves y hy
  obtain ⟨x, hx, hcursor', hagree'⟩ := h'.saves z hz
  exact ⟨x, hx, hcursor.trans hcursor', hagree.trans hagree'⟩

theorem onRunning (h : Sim r q) (f g : Run ε → Run ε)
    (hfg : r.outcome = .running → q.outcome = .running → Sim (f r) (g q)) :
    Sim (r.onRunning f) (q.onRunning g) := by
  by_cases hr : r.outcome = .running
  · have hq : q.outcome = .running := h.outcome ▸ hr
    rw [Run.onRunning_running f r hr, Run.onRunning_running g q hq]
    exact hfg hr hq
  · have hq : q.outcome ≠ .running := h.outcome ▸ hr
    rwa [Run.onRunning_ended f r hr, Run.onRunning_ended g q hq]

theorem perform (h : Sim r q) {f : Stage ε} (hf : DeterminedStage f) :
    Sim (r.perform f) (q.perform f) := by
  refine h.onRunning _ _ fun hr hq => ?_
  rcases hf r.session q.session h.session with ⟨s, t, hs, ht, hst⟩ | ⟨e, hs, ht⟩
  · rw [hs, ht]
    exact { h with session := hst }
  · rw [hs, ht]
    exact { h with outcome := rfl }

theorem ask (h : Sim r q) {f : Query ε} (hf : DeterminedQuery f) {next : Bool → Run ε → Run ε}
    (hnext : ∀ answer {r q : Run ε}, Sim r q → Sim (next answer r) (next answer q)) :
    Sim (r.ask f next) (q.ask f next) := by
  refine h.onRunning _ _ fun hr hq => ?_
  rcases hf r.session q.session h.session with ⟨⟨s, a⟩, ⟨t, b⟩, hs, ht, hst, hab⟩ | ⟨e, hs, ht⟩
  · rw [hs, ht]
    obtain rfl : a = b := hab
    exact hnext a { h with session := hst }
  · rw [hs, ht]
    exact { h with outcome := rfl }

theorem update (h : Sim r q) {f g : Session ε → Session ε}
    (hfg : ∀ {s t}, Agree s t → Agree (f s) (g t)) : Sim (r.update f) (q.update g) :=
  h.onRunning _ _ fun _ _ => { h with session := hfg h.session }

/-- A change of the cursor. -/
theorem setCursor (h : Sim r q) (f : PipelineCursor → PipelineCursor) :
    Sim { r with cursor := f r.cursor } { q with cursor := f q.cursor } :=
  { h with cursor := congrArg f h.cursor }

theorem save (h : Sim r q) (step : PipelineStep) : Sim (r.save step) (q.save step) := by
  refine h.onRunning _ _ fun _ _ => ?_
  have hcursor := congrArg (fun c : PipelineCursor => { c with done := step }) h.cursor
  refine ⟨h.session, hcursor, h.outcome, fun y hy => ?_⟩
  rcases List.mem_append.mp hy with hy | hy
  · obtain ⟨z, hz, hsame⟩ := h.saves y hy
    exact ⟨z, List.mem_append_left _ hz, hsame⟩
  · rw [List.mem_singleton.mp hy]
    exact ⟨_, List.mem_append_right _ (List.mem_singleton_self _), hcursor, h.session⟩

theorem setSkipOthers (h : Sim r q) (skip : Bool) : Sim (r.setSkipOthers skip) (q.setSkipOthers skip) :=
  h.onRunning _ _ fun _ _ => h.setCursor fun c => { c with skipOthers := skip }

theorem return_ (h : Sim r q) (value : Bool) : Sim (r.return_ value) (q.return_ value) :=
  h.onRunning _ _ fun _ _ => { h with outcome := rfl }

/-- The count that the last line of the log divides by stands in every checkpoint. -/
theorem logFinalResults_determined : DeterminedStage (logFinalResults (ε := ε)) := by
  intro s t h
  unfold logFinalResults
  rw [h.matchState]
  split_ifs
  · exact .inr ⟨_, rfl, rfl⟩
  · exact .inl ⟨s, t, rfl, rfl, h⟩

theorem finish (h : Sim r q) : Sim r.finish q.finish :=
  (h.perform logFinalResults_determined).return_ true

theorem unlessDone (h : Sim r q) (done : Bool) {f g : Run ε → Run ε} (hfg : Sim (f r) (g q)) :
    Sim (r.unlessDone done f) (q.unlessDone done g) := by
  cases done with
  | true => exact h
  | false => exact hfg

theorem pointed (h : Sim r q) {f : Stage ε} (hf : DeterminedStage f) :
    Sim (r.pointed f) (q.pointed f) :=
  ((h.update Agree.point).perform hf).update Agree.point

theorem enter (h : Sim r q) (iteration : Nat) : Sim (r.enter iteration) (q.enter iteration) :=
  h.onRunning _ _ fun _ _ =>
    { h.setCursor fun c => { c with iteration } with session := h.session.setIteration _ }

theorem cleanupTop (h : Sim r q) : Sim r.cleanupTop q.cleanupTop := by
  refine Sim.save ?_ _
  have hcleaned := h.update (fun hst => hst.cleanup .l3655)
  refine hcleaned.onRunning _ _ fun _ _ => { hcleaned with cursor := ?_ }
  dsimp only
  rw [hcleaned.cursor, hcleaned.session.total]

theorem cleanupBottom (h : Sim r q) : Sim r.cleanupBottom q.cleanupBottom :=
  (h.update fun hst => hst.cleanup .l3671).save _

end Sim

/-- What the stages of a pipeline read and write, from the first checkpoint on: they are functions of
what a checkpoint carries. -/
structure Stages.Determined (p : Stages ε) : Prop where
  sameProcessor : DeterminedQuery p.sameProcessor
  applyDirtyHeuristics : DeterminedQuery p.applyDirtyHeuristics
  findSameName : DeterminedStage p.findSameName
  findRemainingFunctions : DeterminedStage p.findRemainingFunctions
  bestCategory : DeterminedStage p.bestCategory
  partialCategory : DeterminedStage p.partialCategory
  smallDifferences : DeterminedStage p.smallDifferences
  findMatchesDiffing : ∀ k, DeterminedStage (p.findMatchesDiffing k)
  findRelatedMatches : ∀ k, DeterminedStage (p.findRelatedMatches k)
  findRelatedCompilationUnit : ∀ k, DeterminedStage (p.findRelatedCompilationUnit k)
  findLocallyAffineFunctions : ∀ k, DeterminedStage (p.findLocallyAffineFunctions k)
  finalPass : DeterminedStage p.finalPass
  findUnmatched : DeterminedStage p.findUnmatched

/-- Two loops at the same place. -/
structure LoopSim (l m : LoopRun ε) : Prop where
  run : Sim l.run m.run
  iteration : l.iteration = m.iteration
  loopDone : l.loopDone = m.loopDone
  converged : l.converged = m.converged

namespace LoopSim
variable {l m : LoopRun ε}

theorem live (h : LoopSim l m) : l.live = m.live := by
  rw [LoopRun.live, LoopRun.live, h.converged, h.run.outcome]

end LoopSim

theorem LoopRun.test_sim {l m : LoopRun ε} {r q : Run ε} (h : Sim r q)
    (hiteration : l.iteration = m.iteration) : LoopSim (l.test r) (m.test q) := by
  rw [LoopRun.test, LoopRun.test, h.session.total, h.cursor, hiteration]
  split_ifs
  · exact ⟨h, rfl, rfl, rfl⟩
  · exact ⟨h, rfl, rfl, rfl⟩

end DSigMatcher.Pipeline
