import DSigMatcher.Pipeline.Converge
import DSigMatcher.Pipeline.Steps

namespace DSigMatcher.Pipeline
open DSigMatcher.Base DSigMatcher.Framework DSigMatcher.Diff DSigMatcher.Checkpoint

variable {ε : Type}

namespace Stages
variable (p : Stages ε)

/-- The dirty heuristics up to their checkpoint. -/
def dirtyPass (r : Run ε) : Run ε :=
  let r := (r.ask p.sameProcessor fun same r =>
    r.update fun s => { s with flags := { s.flags with isSameProcessor := same } }).update p.prepared
  if p.experimental then (r.ask p.applyDirtyHeuristics Run.setSkipOthers).update Session.point else r

def openingSteps : List (Step ε) :=
  saving .dirtyHeuristics p.dirtyPass::
    if p.ignoreAllNames then [] else [saving .sameName fun r => r.pointed p.findSameName]

def remainingSteps : List (Step ε) :=
  [saving .remainingFunctions fun r => r.pointed p.findRemainingFunctions]

def categorySteps : List (Step ε) :=
  [saving .bestCategory fun r => r.perform p.bestCategory,
    saving .partialCategory fun r => r.perform p.partialCategory,
    saving .smallDifferences fun r => r.perform p.smallDifferences]

def loopSteps (k : Nat) : List (Step ε) :=
  [(.loopCleanupTop,Run.cleanupTop),
    saving .matchesDiffing fun r => r.pointed (p.findMatchesDiffing k)] ++
  (if p.slowHeuristics then [saving .relatedMatches fun r => r.pointed (p.findRelatedMatches k)]
    else []) ++
  [saving .relatedCompilationUnit fun r => r.pointed (p.findRelatedCompilationUnit k),
    saving .locallyAffine fun r => r.pointed (p.findLocallyAffineFunctions k),
    (.loopCleanupBottom,Run.cleanupBottom)]

def closingSteps : List (Step ε) :=
  [saving .finalPass fun r => r.pointed p.finalPass,
    saving .findUnmatched fun r => (r.perform p.findUnmatched).update Session.point]

/-- The run behind the categories. -/
def finish (rounds : Nat) (resume : Option PipelineCursor) (r : Run ε) : Run ε :=
  if isDone resume .finalPass then p.closing resume r
  else
    let l := p.convergenceLoop rounds resume r
    if l.live then l.run else p.closing resume l.run

/-- The run behind the opening. -/
def afterOpening (rounds : Nat) (resume : Option PipelineCursor) (r : Run ε) : Run ε :=
  if r.cursor.skipOthers then
    p.closing resume (performUnless (isDone resume) p.remainingSteps r)
  else p.finish rounds resume (performUnless (isDone resume) p.categorySteps r)

theorem runPipeline_eq (rounds : Nat) (resume : Option PipelineCursor) (s : Session ε) :
    p.runPipeline rounds resume s =
      p.afterOpening rounds resume (p.opening resume (Run.start resume s)) := rfl

theorem closing_eq (resume : Option PipelineCursor) (r : Run ε) :
    p.closing resume r = (performUnless (isDone resume) p.closingSteps r.leaveLoop).finish := rfl

theorem opening_fresh (r : Run ε) : p.opening none r = performAll p.openingSteps (p.fresh r) := by
  rw [opening, openingSteps]
  cases h : p.ignoreAllNames with
  | true =>
    rw [sameNames, h]
    rfl
  | false =>
    rw [sameNames, h]
    rfl

theorem iterationSteps_list (l : LoopRun ε) :
    p.iterationSteps l =
      performUnless (fun step => !l.pending step) (p.loopSteps l.iteration)
        (l.run.enter l.iteration) := by
  rw [iterationSteps, loopSteps]
  cases h : p.slowHeuristics with
  | true => rfl
  | false => rfl

variable {p} (hp : p.Determined)

theorem isDone_none (step : PipelineStep) : isDone none step = false := rfl

section
include hp

theorem dirtyHeuristics_resumable : Resumable (saving .dirtyHeuristics p.dirtyPass) := by
  refine saving_resumable (fun r q h => ?_) (fun r => ?_) fun r h => ?_
  · have hprepared {r q : Run ε} (h : Sim r q) : Sim (r.update p.prepared) (q.update p.prepared) :=
      h.update fun hst => (hst.rest _).symm.rest _ |>.symm
    have hsame {r q : Run ε} (h : Sim r q) (same : Bool) :
        Sim (r.update fun s => { s with flags := { s.flags with isSameProcessor := same } })
          (q.update fun s => { s with flags := { s.flags with isSameProcessor := same } }) :=
      h.update fun hst =>
        { hst with
          flags := congrArg (fun f : DiffFlags => { f with isSameProcessor := same }) hst.flags }
    have hflags := hprepared (h.ask hp.sameProcessor fun same _ _ h => hsame h same)
    rw [dirtyPass, dirtyPass]
    split_ifs
    · exact (hflags.ask hp.applyDirtyHeuristics fun skip _ _ h => h.setSkipOthers skip).update
        Agree.point
    · exact hflags
  · have hskip (skip : Bool) (r : Run ε) : (r.setSkipOthers skip).saves = r.saves :=
      Run.onRunning_keeps Run.saves _ r fun _ => rfl
    have hflags : ((r.ask p.sameProcessor fun same r => r.update fun s =>
        { s with flags := { s.flags with isSameProcessor := same } }).update p.prepared).saves =
        r.saves := by
      rw [Run.update_saves, ask_saves _ _ fun _ r => Run.update_saves r _]
    rw [dirtyPass]
    split_ifs
    · rw [Run.update_saves, ask_saves _ _ hskip, hflags]
    · exact hflags
  · rw [dirtyPass] at h
    split_ifs at h
    · exact running_of_onRunning (running_of_onRunning (running_of_onRunning (running_of_onRunning h)))
    · exact running_of_onRunning (running_of_onRunning h)

theorem openingSteps_resumable : ∀ x ∈ p.openingSteps, Resumable x := by
  rw [openingSteps, List.forall_mem_cons]
  refine ⟨dirtyHeuristics_resumable hp, ?_⟩
  split_ifs
  · exact fun x hx => absurd hx List.not_mem_nil
  · exact List.forall_mem_singleton.mpr (pointed_resumable hp.findSameName _)

theorem remainingSteps_resumable : ∀ x ∈ p.remainingSteps, Resumable x :=
  List.forall_mem_singleton.mpr (pointed_resumable hp.findRemainingFunctions _)

theorem categorySteps_resumable : ∀ x ∈ p.categorySteps, Resumable x := by
  rw [categorySteps, List.forall_mem_cons, List.forall_mem_cons, List.forall_mem_singleton]
  exact ⟨perform_resumable hp.bestCategory _, perform_resumable hp.partialCategory _,
    perform_resumable hp.smallDifferences _⟩

theorem loopSteps_resumable (k : Nat) : ∀ x ∈ p.loopSteps k, Resumable x := by
  have htop : Resumable (ε := ε) (.loopCleanupTop,Run.cleanupTop) := by
    refine ⟨fun r q h => h.cleanupTop, fun r y hy => (mem_save hy).imp_left fun hy => ?_,
      fun r h => running_of_onRunning (running_of_onRunning (running_of_onRunning h))⟩
    have hcleaned : y ∈ (r.update fun s => s.cleanup .l3655).saves → y ∈ r.saves := by
      rw [Run.update_saves]
      exact id
    exact Run.onRunning_of (fun t => y ∈ t.saves → y ∈ r.saves) _ _ hcleaned (fun _ => hcleaned) hy
  have hbottom : Resumable (ε := ε) (.loopCleanupBottom,Run.cleanupBottom) := by
    refine ⟨fun r q h => h.cleanupBottom, fun r y hy => ?_,
      fun r h => running_of_onRunning (running_of_onRunning h)⟩
    have hnew := mem_save hy
    rwa [Run.update_saves] at hnew
  intro x hx
  rw [loopSteps, List.mem_append, List.mem_append] at hx
  rcases hx with (hx | hx) | hx
  · rcases List.mem_cons.mp hx with rfl | hx
    · exact htop
    · rw [List.mem_singleton.mp hx]
      exact pointed_resumable (hp.findMatchesDiffing k) _
  · split_ifs at hx
    · rw [List.mem_singleton.mp hx]
      exact pointed_resumable (hp.findRelatedMatches k) _
    · cases hx
  · rcases List.mem_cons.mp hx with rfl | hx
    · exact pointed_resumable (hp.findRelatedCompilationUnit k) _
    rcases List.mem_cons.mp hx with rfl | hx
    · exact pointed_resumable (hp.findLocallyAffineFunctions k) _
    · rw [List.mem_singleton.mp hx]
      exact hbottom

theorem closingSteps_resumable : ∀ x ∈ p.closingSteps, Resumable x := by
  rw [closingSteps, List.forall_mem_cons, List.forall_mem_singleton]
  refine ⟨pointed_resumable hp.finalPass _, saving_resumable ?_ ?_ ?_⟩
  · exact fun r q h => (h.perform hp.findUnmatched).update Agree.point
  · intro r
    rw [Run.update_saves, Run.perform_saves]
  · exact fun r h => running_of_onRunning (running_of_onRunning h)

end

section
variable (p)

theorem openingSteps_rank : ∀ x ∈ p.openingSteps,
    x.1 = .dirtyHeuristics ∨ x.1 = .sameName := by
  intro x hx
  rcases List.mem_cons.mp hx with rfl | hx
  · exact .inl rfl
  · split_ifs at hx
    · cases hx
    · rw [List.mem_singleton.mp hx]
      exact .inr rfl

theorem categorySteps_rank : ∀ x ∈ p.categorySteps,
    x.1 = .bestCategory ∨ x.1 = .partialCategory ∨ x.1 = .smallDifferences := by
  rw [categorySteps, List.forall_mem_cons, List.forall_mem_cons, List.forall_mem_singleton]
  exact ⟨.inl rfl, .inr (.inl rfl), .inr (.inr rfl)⟩

theorem categorySteps_range : ∀ x ∈ p.categorySteps,
    PipelineStep.sameName.rank < x.1.rank ∧ x.1.rank < PipelineStep.loopCleanupTop.rank := by
  intro x hx
  rcases p.categorySteps_rank x hx with hx | hx | hx
  · rw [hx]
    decide
  · rw [hx]
    decide
  · rw [hx]
    decide

theorem closingSteps_rank : ∀ x ∈ p.closingSteps, x.1 = .finalPass ∨ x.1 = .findUnmatched := by
  rw [closingSteps, List.forall_mem_cons, List.forall_mem_singleton]
  exact ⟨.inl rfl, .inr rfl⟩

theorem openingSteps_sorted : p.openingSteps.Pairwise fun x y => x.1.rank < y.1.rank := by
  rw [openingSteps]
  split_ifs
  · exact List.pairwise_singleton _ _
  · exact List.pairwise_pair.mpr (show 2 < 3 by decide)

theorem remainingSteps_sorted : p.remainingSteps.Pairwise fun x y => x.1.rank < y.1.rank :=
  List.pairwise_singleton _ _

theorem categorySteps_sorted : p.categorySteps.Pairwise fun x y => x.1.rank < y.1.rank := by
  have h : (p.categorySteps.map fun x => x.1.rank).Pairwise (· < ·) := by
    change [5, 6, 7].Pairwise (· < ·)
    decide
  exact List.pairwise_map.mp h

theorem loopSteps_ranks (k : Nat) : (p.loopSteps k).map (fun x => x.1.rank) =
    [8, 9] ++ (if p.slowHeuristics then [10] else []) ++ [11, 12, 13] := by
  rw [loopSteps]
  split_ifs
  · rfl
  · rfl

theorem loopSteps_sorted (k : Nat) : (p.loopSteps k).Pairwise fun x y => x.1.rank < y.1.rank := by
  have h : ((p.loopSteps k).map fun x => x.1.rank).Pairwise (· < ·) := by
    rw [loopSteps_ranks]
    split_ifs
    · decide
    · decide
  exact List.pairwise_map.mp h

theorem loopSteps_isLoopStep (k : Nat) : ∀ x ∈ p.loopSteps k, x.1.isLoopStep = true := by
  intro x hx
  have hmem : x.1.rank ∈ (p.loopSteps k).map fun x => x.1.rank := List.mem_map_of_mem hx
  have hrange : 8 ≤ x.1.rank ∧ x.1.rank ≤ 13 := by
    rw [loopSteps_ranks] at hmem
    split_ifs at hmem
    · exact (by decide : ∀ n ∈ [8, 9] ++ [10] ++ [11, 12, 13], 8 ≤ n ∧ n ≤ 13) _ hmem
    · exact (by decide : ∀ n ∈ [8, 9] ++ [] ++ [11, 12, 13], 8 ≤ n ∧ n ≤ 13) _ hmem
  rw [PipelineStep.isLoopStep, Bool.and_eq_true, decide_eq_true_iff, decide_eq_true_iff]
  exact hrange

theorem closingSteps_sorted : p.closingSteps.Pairwise fun x y => x.1.rank < y.1.rank :=
  List.pairwise_pair.mpr (show 14 < 15 by decide)

end

/-- Nothing of a list is done where all of it comes behind a checkpoint. -/
theorem performUnless_later {xs : List (Step ε)} {c : PipelineCursor} {r : Run ε}
    (h : ∀ x ∈ xs, c.done.rank < x.1.rank) :
    performUnless (isDone (some c)) xs r = performUnless (isDone none) xs r := by
  refine performUnless_congr fun x hx => ?_
  rw [isDone_some, isDone_none]
  exact decide_eq_false (by have := h x hx; omega)

theorem performUnless_earlier {xs : List (Step ε)} {c : PipelineCursor} {r : Run ε}
    (h : ∀ x ∈ xs, x.1.rank ≤ c.done.rank) : performUnless (isDone (some c)) xs r = r :=
  performUnless_behind fun x hx => decide_eq_true (h x hx)

/-- The categories are behind everything from the loop on. -/
theorem categorySteps_behind {c : PipelineCursor} {r : Run ε}
    (h : PipelineStep.loopCleanupTop.rank ≤ c.done.rank) :
    performUnless (isDone (some c)) p.categorySteps r = r :=
  performUnless_earlier fun x hx => le_of_lt (Nat.lt_of_lt_of_le (p.categorySteps_range x hx).2 h)

theorem performUnless_fresh {xs : List (Step ε)} {r : Run ε} :
    performUnless (isDone none) xs r = performAll xs r :=
  performUnless_ahead fun _ _ => rfl

section
variable {c : PipelineCursor} (p) (r : Run ε) (rounds : Nat)

theorem closing_later (h : c.done.rank < PipelineStep.finalPass.rank) :
    p.closing (some c) r = p.closing none r := by
  rw [closing_eq, closing_eq, performUnless_later]
  intro x hx
  rcases p.closingSteps_rank x hx with hx | hx
  · rwa [hx]
  · rw [hx]
    exact h.trans (by decide)

theorem finish_later (h : c.done.rank < PipelineStep.loopCleanupTop.rank) :
    p.finish rounds (some c) r = p.finish rounds none r := by
  have hfinal : c.done.rank < PipelineStep.finalPass.rank := h.trans (by decide)
  have hdone : isDone (some c) .finalPass = isDone none .finalPass :=
    decide_eq_false (by omega)
  have hstart : loopStart (some c) r = loopStart none r := by
    have hloop : c.done.isLoopStep = false := by
      rw [PipelineStep.isLoopStep, Bool.and_eq_false_iff]
      exact .inl (decide_eq_false (by omega))
    rw [loopStart, hloop]
    rfl
  rw [finish, finish, hdone, convergenceLoop, convergenceLoop, hstart, closing_later p r hfinal]
  dsimp only
  rw [closing_later p _ hfinal]

theorem afterOpening_later (h : c.done.rank ≤ PipelineStep.sameName.rank) :
    p.afterOpening rounds (some c) r = p.afterOpening rounds none r := by
  have hremaining : ∀ x ∈ p.remainingSteps, c.done.rank < x.1.rank := by
    rw [remainingSteps, List.forall_mem_singleton]
    exact Nat.lt_of_le_of_lt h (show 3 < 4 by decide)
  have hcategories : ∀ x ∈ p.categorySteps, c.done.rank < x.1.rank := fun x hx =>
    Nat.lt_of_le_of_lt h (p.categorySteps_range x hx).1
  rw [afterOpening, afterOpening, performUnless_later hremaining, performUnless_later hcategories,
    closing_later p _ (Nat.lt_of_le_of_lt h (by decide)),
    finish_later p _ _ (Nat.lt_of_le_of_lt h (by decide))]

end

/-- A run that has left the loop leaves it once more as it is. -/
theorem leaveLoop_self {r : Run ε} (hcursor : r.cursor.iteration = 0)
    (hsession : r.session.iteration = none) : r.leaveLoop = r := by
  refine Run.onRunning_of (fun t => t = r) _ r rfl fun _ => ?_
  rw [← hcursor, ← hsession]

theorem enter_self {r : Run ε} {k : Nat} (hcursor : r.cursor.iteration = k)
    (hsession : r.session.iteration = some k) : r.enter k = r := by
  refine Run.onRunning_of (fun t => t = r) _ r rfl fun _ => ?_
  rw [← hsession, ← hcursor]

theorem leaveLoop_sim {r q : Run ε} (h : Sim r q) : Sim r.leaveLoop q.leaveLoop :=
  h.onRunning _ _ fun _ _ =>
    { h.setCursor fun c => { c with iteration := 0 } with session := h.session.setIteration _ }

section
include hp
variable {r q : Run ε} (resume : Option PipelineCursor)

theorem closing_sim (h : Sim r q) : Sim (p.closing resume r) (p.closing resume q) := by
  rw [closing_eq, closing_eq]
  exact (performUnless_related _ (fun x hx => (closingSteps_resumable hp x hx).sim)
    (leaveLoop_sim h)).finish

theorem iterationSteps_sim {l m : LoopRun ε} (h : LoopSim l m) :
    Sim (p.iterationSteps l) (p.iterationSteps m) := by
  have hpending : l.pending = m.pending := by
    funext step
    rw [LoopRun.pending, LoopRun.pending, h.loopDone]
  rw [iterationSteps_list, iterationSteps_list, hpending, h.iteration]
  exact performUnless_related _ (fun x hx => (loopSteps_resumable hp _ x hx).sim) (h.run.enter _)

theorem round_sim {l m : LoopRun ε} (h : LoopSim l m) : LoopSim (p.round l) (p.round m) := by
  cases hlive : l.live with
  | true =>
    rw [p.round_live l hlive, p.round_live m (h.live ▸ hlive)]
    exact LoopRun.test_sim (iterationSteps_sim hp h) h.iteration
  | false =>
    rw [p.round_ended l hlive, p.round_ended m (h.live ▸ hlive)]
    exact h

theorem rounds_sim {l m : LoopRun ε} (h : LoopSim l m) (n : Nat) :
    LoopSim (p.round^[n] l) (p.round^[n] m) := by
  induction n with
  | zero => exact h
  | succ n ih =>
    rw [Function.iterate_succ_apply', Function.iterate_succ_apply']
    exact round_sim hp ih

theorem behindLoop_sim {l m : LoopRun ε} (h : LoopSim l m) :
    Sim (if l.live then l.run else p.closing resume l.run)
      (if m.live then m.run else p.closing resume m.run) := by
  rw [h.live]
  split_ifs
  · exact h.run
  · exact closing_sim hp resume h.run

theorem finish_sim (h : Sim r q) (rounds : Nat) :
    Sim (p.finish rounds resume r) (p.finish rounds resume q) := by
  have hstart : LoopSim (loopStart resume r) (loopStart resume q) := by
    cases resume with
    | none => exact ⟨h, rfl, rfl, rfl⟩
    | some c =>
      rw [loopStart, loopStart]
      split_ifs
      · exact ⟨h, rfl, rfl, rfl⟩
      · exact ⟨h, rfl, rfl, rfl⟩
  rw [finish, finish]
  split_ifs
  · exact closing_sim hp resume h
  · exact behindLoop_sim hp resume (rounds_sim hp hstart rounds)

theorem afterOpening_sim (h : Sim r q) (rounds : Nat) :
    Sim (p.afterOpening rounds resume r) (p.afterOpening rounds resume q) := by
  rw [afterOpening, afterOpening, h.cursor]
  split_ifs
  · exact closing_sim hp resume
      (performUnless_related _ (fun x hx => (remainingSteps_resumable hp x hx).sim) h)
  · exact finish_sim hp resume
      (performUnless_related _ (fun x hx => (categorySteps_resumable hp x hx).sim) h) rounds

end

/-- A resumed run only prepares the engine for the steps of the opening that it has behind it. -/
theorem opening_sim (hp : p.Determined) (c : PipelineCursor) (r : Run ε) :
    Sim (p.opening (some c) r)
      (performUnless (isDone (some c)) p.openingSteps (p.entry (some c) r)) := by
  have hheuristics (r : Run ε) : Sim (p.heuristics (some c) r)
      (if isDone (some c) .dirtyHeuristics then r else p.dirtyHeuristics r) := by
    rw [heuristics]
    split_ifs
    · have hupdate := (Sim.refl r).update (f := p.prepared) (g := id) fun hst => (hst.symm.rest _).symm
      have hid : r.update id = r := Run.onRunning_of (fun t => t = r) _ r rfl fun _ => rfl
      rwa [hid] at hupdate
    · exact Sim.refl _
  have hnames {r q : Run ε} (h : Sim r q) : Sim (p.sameNames (some c) r)
      (performUnless (isDone (some c))
        (if p.ignoreAllNames then [] else [saving .sameName fun r => r.pointed p.findSameName]) q) := by
    rw [sameNames]
    cases p.ignoreAllNames with
    | true => exact h
    | false => exact h.unlessDone _ ((h.pointed hp.findSameName).save _)
  exact hnames (hheuristics _)

/-- Once the ingest was fine, a resumed run enters the steps where it is. -/
theorem entry_resumed (hingest : (joinedProblems p.problems).isEmpty = true) (c : PipelineCursor)
    (t : Session ε) : p.entry (some c) (Run.start (some c) t) = ⟨t, c, [], .running⟩ := by
  have hrequire : p.requireIngest t = .ok t := if_pos hingest
  exact perform_ok (r := Run.start (some c) t) rfl hrequire

/-- A fresh run that is past its entry has passed the ingest. -/
theorem fresh_ingest {r : Run ε} (h : (p.fresh r).outcome = .running) :
    (joinedProblems p.problems).isEmpty = true := by
  rw [fresh] at h
  generalize r.update _ = r₀ at h
  rcases ask_cases r₀ p.checkVersion _ with ⟨hr, hask⟩ | ⟨s, version, -, hask⟩ | ⟨e, hask⟩
  · rw [hask] at h
    exact absurd h hr
  · rw [hask] at h
    cases version with
    | false =>
      rw [if_neg Bool.false_ne_true] at h
      exact absurd h (Run.return_ended _ false)
    | true =>
      -- none of the stages before the checkpoint has raised
      rw [if_pos rfl, Run.save_outcome, Run.update_outcome] at h
      have hcallgraph := (Run.perform_running _ _ h).1
      have hequal := (Run.perform_running _ _ hcallgraph).1
      have hingest := (Run.perform_running _ _ (Run.perform_running _ _ hequal).1).2
      by_contra hproblems
      rw [requireIngest] at hingest
      dsimp only at hingest
      rw [if_neg hproblems] at hingest
      cases hingest
  · rw [hask] at h
    cases h

/-- A fresh run saves its first checkpoint where its entry ends. -/
theorem fresh_saves {r : Run ε} (hr : r.saves = []) {y : PipelineCursor × Session ε}
    (hy : y ∈ (p.fresh r).saves) : SavedAt y (p.fresh r) ∧ y.1.done = .equalMatches := by
  have hsaves : (r.update fun s => { s with ratiosCache := .empty, iteration := none }).saves = [] := by
    rw [Run.update_saves, hr]
  rw [fresh] at hy ⊢
  generalize r.update _ = r₀ at hsaves hy ⊢
  rcases ask_cases r₀ p.checkVersion _ with ⟨-, hask⟩ | ⟨s, version, -, hask⟩ | ⟨e, hask⟩
  · rw [hask, hsaves] at hy
    cases hy
  · rw [hask] at hy ⊢
    cases version with
    | false =>
      rw [if_neg Bool.false_ne_true, Run.return_saves] at hy
      exact absurd (hsaves ▸ hy) List.not_mem_nil
    | true =>
      rw [if_pos rfl] at hy ⊢
      rcases mem_save hy with hy | hsaved
      · rw [Run.update_saves, Run.perform_saves, Run.perform_saves, Run.perform_saves,
          Run.perform_saves] at hy
        exact absurd (hsaves ▸ hy) List.not_mem_nil
      · exact hsaved
  · rw [hask] at hy
    exact absurd (hsaves ▸ hy) List.not_mem_nil

end Stages

end DSigMatcher.Pipeline
