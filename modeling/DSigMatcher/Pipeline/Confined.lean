import DSigMatcher.Pipeline.SavePoints

namespace DSigMatcher.Pipeline
open DSigMatcher.Base DSigMatcher.Framework DSigMatcher.Diff DSigMatcher.Checkpoint

variable {ε : Type}

/-- The unmatched functions of both sides. -/
def Session.unmatched (s : Session ε) : Option (List UnmatchedRow) × Option (List UnmatchedRow) :=
  (s.final.unmatchedPrimary,s.final.unmatchedSecondary)

namespace Stages

/-- The stages before the final pass leave a part of the session alone. -/
structure Leave {α : Type} (p : Stages ε) (get : Session ε → α) : Prop where
  checkVersion : Keeps get p.checkVersion.stage
  equalDb : Keeps get p.equalDb
  checkCallgraph : Keeps get p.checkCallgraph
  findEqualMatches : Keeps get p.findEqualMatches
  sameProcessor : Keeps get p.sameProcessor.stage
  applyDirtyHeuristics : Keeps get p.applyDirtyHeuristics.stage
  findSameName : Keeps get p.findSameName
  findRemainingFunctions : Keeps get p.findRemainingFunctions
  bestCategory : Keeps get p.bestCategory
  partialCategory : Keeps get p.partialCategory
  smallDifferences : Keeps get p.smallDifferences
  findMatchesDiffing : ∀ k, Keeps get (p.findMatchesDiffing k)
  findRelatedMatches : ∀ k, Keeps get (p.findRelatedMatches k)
  findRelatedCompilationUnit : ∀ k, Keeps get (p.findRelatedCompilationUnit k)
  findLocallyAffineFunctions : ∀ k, Keeps get (p.findLocallyAffineFunctions k)

/-- No stage sets the iteration, which `diff()` itself does; the results are written by the final pass
and by `find_unmatched`, and there is none before. -/
structure Confined (p : Stages ε) : Prop where
  iteration : p.Leave Session.iteration
  results : p.Leave Session.final
  finalPass_iteration : Keeps Session.iteration p.finalPass
  finalPass_unmatched : Keeps Session.unmatched p.finalPass
  findUnmatched_iteration : Keeps Session.iteration p.findUnmatched

end Stages

/-- The part of a cursor that the steps of a list leave alone. -/
def place (c : PipelineCursor) : Bool × Nat := (c.skipOthers,c.iteration)

/-- A step that stays at its place and leaves a part of the session alone. -/
def Steady {α : Type} (get : Session ε → α) (x : Step ε) : Prop :=
  ∀ r, place (x.2 r).cursor = place r.cursor ∧ get (x.2 r).session = get r.session

section
variable {α : Type} {get : Session ε → α} {f : Stage ε}

theorem Keeps.update {g : Session ε → Session ε} (hg : ∀ s, get (g s) = get s) (r : Run ε) :
    get (r.update g).session = get r.session :=
  Run.onRunning_keeps (fun r => get r.session) _ r fun _ => hg _

theorem Keeps.ask {f : Query ε} (hf : Keeps get f.stage) {next : Bool → Run ε → Run ε}
    (hnext : ∀ answer r, get (next answer r).session = get r.session) (r : Run ε) :
    get (r.ask f next).session = get r.session := by
  rcases ask_cases r f next with ⟨-, h⟩ | ⟨s, answer, hs, h⟩ | ⟨e, h⟩
  · rw [h]
  · rw [h, hnext]
    exact hf r.session s (by rw [Query.stage, hs]; rfl)
  · rw [h]

theorem saving_steady {step : PipelineStep} {f : Run ε → Run ε}
    (h : ∀ r, place (f r).cursor = place r.cursor ∧ get (f r).session = get r.session) :
    Steady get (saving step f) := by
  intro r
  have hsave : place ((f r).save step).cursor = place (f r).cursor :=
    Run.onRunning_keeps (fun r => place r.cursor) _ _ fun _ => rfl
  refine ⟨hsave.trans (h r).1, ?_⟩
  rw [saving, Run.save_session]
  exact (h r).2

theorem perform_steady (hf : Keeps get f) (step : PipelineStep) :
    Steady get (saving step fun r => r.perform f) :=
  saving_steady fun r => ⟨congrArg place (Run.perform_cursor r f), hf.perform r⟩

theorem pointed_steady (hpoint : ∀ s : Session ε, get s.point = get s) (hf : Keeps get f)
    (step : PipelineStep) : Steady get (saving step fun r => r.pointed f) :=
  saving_steady fun r => ⟨congrArg place (Run.pointed_cursor r f), hf.pointed hpoint r⟩

theorem cleanupTop_steady (hcleanup : ∀ (s : Session ε) site, get (s.cleanup site) = get s) :
    Steady get (.loopCleanupTop,Run.cleanupTop) := by
  refine saving_steady fun r => ⟨?_, ?_⟩
  · refine (Run.onRunning_keeps (fun r => place r.cursor) _ _ ?_).trans ?_
    · exact fun _ => rfl
    · exact congrArg place (Run.update_cursor r _)
  · refine (Run.onRunning_keeps (fun r => get r.session) _ _ ?_).trans ?_
    · exact fun _ => rfl
    · exact Keeps.update (fun s => hcleanup s .l3655) r

theorem cleanupBottom_steady (hcleanup : ∀ (s : Session ε) site, get (s.cleanup site) = get s) :
    Steady get (.loopCleanupBottom,Run.cleanupBottom) :=
  saving_steady fun r =>
    ⟨congrArg place (Run.update_cursor r _), Keeps.update (fun s => hcleanup s .l3671) r⟩

/-- A checkpoint keeps what the steps left alone. -/
theorem SavedIn.steady {xs : List (Step ε)} {r : Run ε} {y : PipelineCursor × Session ε}
    (hxs : ∀ x ∈ xs, Steady get x) (h : SavedIn xs r y) :
    place y.1 = place r.cursor ∧ get y.2 = get r.session := by
  obtain ⟨u, hu, hsaved⟩ := h
  have hstation : place u.cursor = place r.cursor ∧ get u.session = get r.session :=
    station_invariant (P := fun u => place u.cursor = place r.cursor ∧ get u.session = get r.session)
      (fun x hx u hu => ⟨(hxs x hx u).1.trans hu.1, (hxs x hx u).2.trans hu.2⟩) ⟨rfl, rfl⟩ hu
  rwa [hsaved.cursor, hsaved.session] at hstation

theorem performAll_steady {xs : List (Step ε)} {r : Run ε} (hxs : ∀ x ∈ xs, Steady get x) :
    place (performAll xs r).cursor = place r.cursor ∧ get (performAll xs r).session = get r.session :=
  performAll_invariant (P := fun u => place u.cursor = place r.cursor ∧ get u.session = get r.session)
    (fun x hx u hu => ⟨(hxs x hx u).1.trans hu.1, (hxs x hx u).2.trans hu.2⟩) ⟨rfl, rfl⟩

end

namespace Stages
variable {α : Type} {p : Stages ε} {get : Session ε → α} (h : p.Leave get)
  (hpoint : ∀ s : Session ε, get s.point = get s)
include h

theorem Leave.categorySteps : ∀ x ∈ p.categorySteps, Steady get x := by
  rw [Stages.categorySteps, List.forall_mem_cons, List.forall_mem_cons, List.forall_mem_singleton]
  exact ⟨perform_steady h.bestCategory _, perform_steady h.partialCategory _,
    perform_steady h.smallDifferences _⟩

include hpoint

theorem Leave.remainingSteps : ∀ x ∈ p.remainingSteps, Steady get x :=
  List.forall_mem_singleton.mpr (pointed_steady hpoint h.findRemainingFunctions _)

theorem Leave.loopSteps (hcleanup : ∀ (s : Session ε) site, get (s.cleanup site) = get s) (k : Nat) :
    ∀ x ∈ p.loopSteps k, Steady get x := by
  intro x hx
  rw [Stages.loopSteps, List.mem_append, List.mem_append] at hx
  rcases hx with (hx | hx) | hx
  · rcases List.mem_cons.mp hx with rfl | hx
    · exact cleanupTop_steady hcleanup
    · rw [List.mem_singleton.mp hx]
      exact pointed_steady hpoint (h.findMatchesDiffing k) _
  · split_ifs at hx
    · rw [List.mem_singleton.mp hx]
      exact pointed_steady hpoint (h.findRelatedMatches k) _
    · cases hx
  · rcases List.mem_cons.mp hx with rfl | hx
    · exact pointed_steady hpoint (h.findRelatedCompilationUnit k) _
    rcases List.mem_cons.mp hx with rfl | hx
    · exact pointed_steady hpoint (h.findLocallyAffineFunctions k) _
    · rw [List.mem_singleton.mp hx]
      exact cleanupBottom_steady hcleanup

end Stages

namespace Stages
variable {p : Stages ε} (hc : p.Confined)
include hc

theorem Confined.closingSteps : ∀ x ∈ p.closingSteps, Steady Session.iteration x := by
  rw [Stages.closingSteps, List.forall_mem_cons, List.forall_mem_singleton]
  refine ⟨pointed_steady (fun _ => rfl) hc.finalPass_iteration _, saving_steady fun r => ⟨?_, ?_⟩⟩
  · rw [Run.update_cursor, Run.perform_cursor]
  · refine (Keeps.update ?_ _).trans (hc.findUnmatched_iteration.perform r)
    exact fun _ => rfl

/-- A fresh run has no results before its final pass. -/
theorem Confined.fresh_final (r : Run ε) : (p.fresh r).session.final = r.session.final := by
  have hrequire : Keeps Session.final p.requireIngest := by
    intro s t hst
    unfold requireIngest at hst
    dsimp only at hst
    split_ifs at hst
    rw [← Except.ok.inj hst]
  have hpoint (r : Run ε) : (r.update Session.point).session.final = r.session.final :=
    Run.onRunning_keeps (fun r => r.session.final) _ r fun _ => rfl
  have hpassed (version : Bool) (r : Run ε) :
      (if version then
        ((((((r.perform p.requireIngest).perform p.equalDb).perform p.checkCallgraph).perform
          p.findEqualMatches).update Session.point).save .equalMatches)
      else r.return_ false).session.final = r.session.final := by
    split_ifs
    · rw [Run.save_session, hpoint, hc.results.findEqualMatches.perform,
        hc.results.checkCallgraph.perform, hc.results.equalDb.perform, hrequire.perform]
    · exact Run.onRunning_keeps (fun r => r.session.final) _ r fun _ => rfl
  refine (hc.results.checkVersion.ask hpassed _).trans (Run.onRunning_keeps (fun r => r.session.final) _ r ?_)
  exact fun _ => rfl

theorem Confined.openingSteps : ∀ x ∈ p.openingSteps, ∀ r, (x.2 r).session.final = r.session.final := by
  rw [Stages.openingSteps, List.forall_mem_cons]
  refine ⟨fun r => ?_, fun x hx => ?_⟩
  · have hupdate (r : Run ε) (g : Session ε → Session ε) (hg : ∀ s, (g s).final = s.final) :
        (r.update g).session.final = r.session.final :=
      Run.onRunning_keeps (fun r => r.session.final) _ r fun r => hg r.session
    have hsame (same : Bool) (r : Run ε) : (r.update fun s =>
        { s with flags := { s.flags with isSameProcessor := same } }).session.final =
        r.session.final := by
      rw [hupdate]
      exact fun _ => rfl
    have hflags : ((r.ask p.sameProcessor fun same r => r.update fun s =>
        { s with flags := { s.flags with isSameProcessor := same } }).update
        p.prepared).session.final = r.session.final := by
      rw [hupdate _ p.prepared fun s => rfl]
      exact hc.results.sameProcessor.ask hsame r
    have hskip (skip : Bool) (r : Run ε) : (r.setSkipOthers skip).session.final = r.session.final :=
      Run.onRunning_keeps (fun r => r.session.final) _ r fun _ => rfl
    rw [saving, Run.save_session, dirtyPass]
    split_ifs
    · rw [hupdate _ Session.point fun s => rfl]
      exact (hc.results.applyDirtyHeuristics.ask hskip _).trans hflags
    · exact hflags
  · split_ifs at hx
    · cases hx
    · rw [List.mem_singleton.mp hx]
      exact fun r => (pointed_steady (fun _ => rfl) hc.results.findSameName _ r).2

theorem Confined.opened_final (s : Session ε) : (p.opened s).session.final = s.final := by
  rw [opened, opening_fresh]
  exact performAll_invariant (P := fun r => r.session.final = s.final)
    (fun x hx r hr => (hc.openingSteps x hx r).trans hr) (hc.fresh_final (Run.start none s))

theorem Confined.loopAt_frame (s : Session ε) (k : Nat) :
    (p.loopAt k s).run.cursor.skipOthers = (p.opened s).cursor.skipOthers ∧
      (p.loopAt k s).run.session.final = s.final := by
  have hhead := performAll_steady (r := p.opened s) hc.results.categorySteps
  have hskip (k : Nat) (r : Run ε) : (r.enter k).cursor.skipOthers = r.cursor.skipOthers :=
    Run.onRunning_keeps (fun r => r.cursor.skipOthers) _ r fun _ => rfl
  have hfinal (k : Nat) (r : Run ε) : (r.enter k).session.final = r.session.final :=
    Run.onRunning_keeps (fun r => r.session.final) _ r fun _ => rfl
  refine p.loopAt_invariant (P := fun r => r.cursor.skipOthers = (p.opened s).cursor.skipOthers ∧
    r.session.final = s.final) (fun k r hr => ?_) (fun k x hx r hr => ?_) ?_ k
  · exact ⟨(hskip k r).trans hr.1, (hfinal k r).trans hr.2⟩
  · have hstep := hc.results.loopSteps (fun _ => rfl) (fun _ _ => rfl) k x hx r
    exact ⟨(congrArg Prod.fst hstep.1).trans hr.1, hstep.2.trans hr.2⟩
  · exact ⟨congrArg Prod.fst hhead.1, hhead.2.trans (hc.opened_final s)⟩

end Stages

/-- What of the results a checkpoint leaves out is not there yet. -/
structure Complete (y : PipelineCursor × Session ε) : Prop where
  choosers : y.1.done.rank < PipelineStep.finalPass.rank → y.2.final.choosers = {}
  unmatched : y.1.done.rank < PipelineStep.findUnmatched.rank → y.2.unmatched = (none,none)

theorem Complete.of_empty {y : PipelineCursor × Session ε} (h : y.2.final = {}) : Complete y := by
  refine ⟨fun _ => by rw [h], fun _ => ?_⟩
  rw [Session.unmatched, h]

theorem SavedIn.complete {p : Stages ε} (hc : p.Confined) {r : Run ε} {y : PipelineCursor × Session ε}
    (hr : r.session.final = {}) (h : SavedIn p.closingSteps r y) : Complete y := by
  obtain ⟨u, hu, hsaved⟩ := h
  rcases List.mem_cons.mp hu with hu | hu
  · obtain ⟨hdone, rfl⟩ := Prod.mk.inj hu
    refine ⟨fun hlt => ?_, fun _ => ?_⟩
    · rw [hdone] at hlt
      exact absurd hlt (Nat.lt_irrefl _)
    · rw [← hsaved.session, (pointed_steady (fun _ => rfl) hc.finalPass_unmatched _ r).2,
        Session.unmatched, hr]
  · obtain ⟨hdone, -⟩ := Prod.mk.inj (List.mem_singleton.mp hu)
    refine ⟨fun hlt => ?_, fun hlt => ?_⟩
    · rw [hdone] at hlt
      exact absurd hlt (show ¬ 15 < 14 by decide)
    · rw [hdone] at hlt
      exact absurd hlt (Nat.lt_irrefl _)

/-- A checkpoint of a run that started without results leaves none out. -/
theorem SavePoint.complete {p : Stages ε} (hc : p.Confined) {rounds : Nat} {s : Session ε}
    {y : PipelineCursor × Session ε} (hs : s.final = {}) (h : SavePoint p rounds s y) : Complete y := by
  have hopened : (p.opened s).session.final = {} := (hc.opened_final s).trans hs
  have hleave (r : Run ε) : r.leaveLoop.session.final = r.session.final :=
    Run.onRunning_keeps (fun r => r.session.final) _ r fun _ => rfl
  cases h with
  | entry hsaved hdone =>
    refine .of_empty ?_
    rw [← hsaved.session, hc.fresh_final]
    exact hs
  | opening hsaved =>
    obtain ⟨u, hu, hsaved⟩ := hsaved
    have hfinal : u.session.final = {} :=
      station_invariant (P := fun r => r.session.final = {})
        (fun x hx r hr => (hc.openingSteps x hx r).trans hr) ((hc.fresh_final _).trans hs) hu
    exact .of_empty (hsaved.session ▸ hfinal)
  | remaining hskip hsaved =>
    exact .of_empty ((hsaved.steady (hc.results.remainingSteps fun _ => rfl)).2.trans hopened)
  | behindRemaining hskip hsaved =>
    refine hsaved.complete hc ?_
    rw [hleave, (performAll_steady (hc.results.remainingSteps fun _ => rfl)).2, hopened]
  | category hskip hsaved =>
    exact .of_empty ((hsaved.steady hc.results.categorySteps).2.trans hopened)
  | loop hskip k hk hlive hsaved =>
    have hsteady := (hsaved.steady (hc.results.loopSteps (fun _ => rfl) (fun _ _ => rfl) k)).2
    have henter : ((p.loopAt k s).run.enter k).session.final = (p.loopAt k s).run.session.final :=
      Run.onRunning_keeps (fun r => r.session.final) _ _ fun _ => rfl
    exact .of_empty (hsteady.trans (henter.trans ((hc.loopAt_frame s k).2.trans hs)))
  | behindLoop hskip hended hsaved =>
    refine hsaved.complete hc ?_
    rw [hleave, (hc.loopAt_frame s rounds).2, hs]

end DSigMatcher.Pipeline
