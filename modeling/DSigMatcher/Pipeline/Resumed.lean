import DSigMatcher.Pipeline.Confined

namespace DSigMatcher.Pipeline
open DSigMatcher.Base DSigMatcher.Framework DSigMatcher.Diff DSigMatcher.Checkpoint

variable {ε : Type}

namespace Stages
variable {p : Stages ε} (hp : p.Determined) {s t : Session ε} {y : PipelineCursor × Session ε}
  {rounds : Nat}

theorem opened_running (h : (p.opened s).outcome = .running) :
    (performAll p.openingSteps (p.fresh (Run.start none s))).outcome = .running := by
  rwa [opened, opening_fresh] at h

include hp

theorem fresh_running (h : (p.opened s).outcome = .running) :
    (p.fresh (Run.start none s)).outcome = .running :=
  running_of_performAll (openingSteps_resumable hp) (opened_running h)

theorem loopAt_running {k : Nat} (h : (p.loopAt k s).run.outcome = .running) :
    (p.opened s).outcome = .running := by
  refine running_of_performAll (categorySteps_resumable hp) ?_
  by_contra hr
  refine p.loopAt_invariant (P := fun r => r.outcome ≠ .running) (fun k r hr h => ?_)
    (fun k x hx r hr h => ?_) hr k h
  · exact hr (running_of_onRunning h)
  · exact hr ((loopSteps_resumable hp k x hx).running r h)

theorem leaveLoop_running {r : Run ε} (h : SavedIn p.closingSteps r.leaveLoop y) :
    r.outcome = .running :=
  running_of_onRunning (h.running (closingSteps_resumable hp))

/-- A run that has saved a checkpoint has passed its entry. -/
theorem savePoint_running (h : SavePoint p rounds s y) :
    (p.fresh (Run.start none s)).outcome = .running := by
  cases h with
  | entry hsaved hdone => exact hsaved.outcome
  | opening hsaved => exact hsaved.running (openingSteps_resumable hp)
  | remaining hskip hsaved =>
    exact fresh_running hp (hsaved.running (remainingSteps_resumable hp))
  | behindRemaining hskip hsaved =>
    exact fresh_running hp
      (running_of_performAll (remainingSteps_resumable hp) (leaveLoop_running hp hsaved))
  | category hskip hsaved => exact fresh_running hp (hsaved.running (categorySteps_resumable hp))
  | loop hskip k hk hlive hsaved =>
    exact fresh_running hp (loopAt_running hp ((LoopRun.live_iff _).mp hlive).2)
  | behindLoop hskip hended hsaved =>
    exact fresh_running hp (loopAt_running hp (leaveLoop_running hp hsaved))

omit hp in
theorem afterOpening_skipped {resume : Option PipelineCursor} {r : Run ε}
    (h : r.cursor.skipOthers = true) : p.afterOpening rounds resume r =
      p.closing resume (performUnless (isDone resume) p.remainingSteps r) := by
  rw [afterOpening, if_pos h]

omit hp in
theorem afterOpening_looped {resume : Option PipelineCursor} {r : Run ε}
    (h : r.cursor.skipOthers = false) : p.afterOpening rounds resume r =
      p.finish rounds resume (performUnless (isDone resume) p.categorySteps r) := by
  rw [afterOpening, h, if_neg Bool.false_ne_true]

omit hp in
theorem leaveLoop_skipOthers (r : Run ε) : r.leaveLoop.cursor.skipOthers = r.cursor.skipOthers :=
  Run.onRunning_keeps (fun r => r.cursor.skipOthers) _ r fun _ => rfl

omit hp in
theorem enter_skipOthers (k : Nat) (r : Run ε) : (r.enter k).cursor.skipOthers = r.cursor.skipOthers :=
  Run.onRunning_keeps (fun r => r.cursor.skipOthers) _ r fun _ => rfl

/-- A run resumed in the opening goes the whole way of the fresh one from there. -/
theorem resumed_opening {c : PipelineCursor} {q : Run ε}
    (hle : c.done.rank ≤ PipelineStep.sameName.rank)
    (hopening : Sim (p.opening (some c) q) (p.opened s)) :
    Sim (p.afterOpening rounds (some c) (p.opening (some c) q)) (p.runPipeline rounds none s) := by
  have hafter := afterOpening_sim hp (some c) hopening rounds
  rwa [afterOpening_later p (p.opened s) _ hle] at hafter

/-- A run resumed behind the opening goes on from its checkpoint. -/
theorem resumed_behind {c : PipelineCursor} {q : Run ε}
    (hlt : PipelineStep.sameName.rank < c.done.rank) (hq : p.entry (some c) q = q) :
    Sim (p.afterOpening rounds (some c) (p.opening (some c) q)) (p.afterOpening rounds (some c) q) := by
  refine afterOpening_sim hp (some c) ?_ rounds
  have hopening := opening_sim hp c q
  rw [hq, performUnless_earlier] at hopening
  · exact hopening
  · intro x hx
    rcases p.openingSteps_rank x hx with hx | hx
    · rw [hx]
      exact le_of_lt (Nat.lt_of_le_of_lt (by decide) hlt)
    · rw [hx]
      exact le_of_lt hlt

variable (hc : p.Confined)
include hc

/-- A run resumed behind the final pass, or behind the unmatched functions. -/
theorem closing_resumed {r q : Run ε} (hsaved : SavedIn p.closingSteps r.leaveLoop y)
    (hq : ∀ u, SavedAt y u → Sim q u) : Sim (p.closing (some y.1) q) (p.closing none r) := by
  have hleave : r.leaveLoop = { r with
      cursor := { r.cursor with iteration := 0 }
      session := { r.session with iteration := none } } :=
    Run.onRunning_running _ r (leaveLoop_running hp hsaved)
  have hsteady := hsaved.steady hc.closingSteps
  rw [hleave] at hsteady
  obtain ⟨u, hu, hat⟩ := hsaved
  have hself : u.leaveLoop = u := by
    refine leaveLoop_self ?_ ?_
    · rw [hat.cursor]
      exact congrArg Prod.snd hsteady.1
    · rw [hat.session]
      exact hsteady.2
  have hsim := leaveLoop_sim (hq u hat)
  rw [hself] at hsim
  rw [closing_eq, closing_eq, performUnless_fresh]
  exact (resume_steps (closingSteps_resumable hp) p.closingSteps_sorted hu hsim).finish

omit hp hc in
theorem closing_rank {r : Run ε} (hsaved : SavedIn p.closingSteps r y) :
    PipelineStep.finalPass.rank ≤ y.1.done.rank := by
  obtain ⟨u, hu, -⟩ := hsaved
  obtain ⟨x, hx, hdone⟩ := mem_names_of_station hu
  rcases p.closingSteps_rank x hx with h | h
  · rw [← hdone, h]
  · rw [← hdone, h]
    decide

/-- A loop that is resumed inside iteration `k` ends where the fresh one does. -/
theorem loop_resumed {k : Nat} (hk : k < rounds) (hlive : (p.loopAt k s).live = true)
    (hended : (p.loopAt rounds s).live = false)
    (hsaved : SavedIn (p.loopSteps k) ((p.loopAt k s).run.enter k) y) {q : Run ε}
    (hq : ∀ u, SavedAt y u → Sim q u) :
    LoopSim (p.round^[rounds] ⟨q, y.1.iteration, y.1.done, false⟩) (p.loopAt rounds s) := by
  obtain ⟨hiteration, hhead⟩ := p.loopAt_head k s hlive
  have hrunning := ((LoopRun.live_iff _).mp hlive).2
  have henter : (p.loopAt k s).run.enter k = { (p.loopAt k s).run with
      cursor := { (p.loopAt k s).run.cursor with iteration := k }
      session := { (p.loopAt k s).run.session with iteration := some k } } :=
    Run.onRunning_running _ _ hrunning
  have hsteady := hsaved.steady (hc.iteration.loopSteps (fun _ => rfl) (fun _ _ => rfl) k)
  rw [henter] at hsteady
  have hcursor : y.1.iteration = k := congrArg Prod.snd hsteady.1
  obtain ⟨u, hu, hat⟩ := hsaved
  have hself : u.enter k = u := by
    refine enter_self ?_ ?_
    · rw [hat.cursor, hcursor]
    · rw [hat.session]
      exact hsteady.2
  have hsim := (hq u hat).enter k
  rw [hself] at hsim
  -- the iteration in which the checkpoint was saved is completed
  have hround : LoopSim (p.round ⟨q, y.1.iteration, y.1.done, false⟩) (p.round (p.loopAt k s)) := by
    have hqlive : LoopRun.live ⟨q, y.1.iteration, y.1.done, false⟩ = true :=
      (LoopRun.live_iff _).mpr ⟨rfl, (hq u hat).outcome.trans hat.outcome⟩
    rw [p.round_live _ hqlive, p.round_live _ hlive]
    refine LoopRun.test_sim ?_ (hcursor.trans hiteration.symm)
    have hpending : (fun step => !LoopRun.pending ⟨q, y.1.iteration, y.1.done, false⟩ step) =
        isDone (some y.1) := by
      funext step
      rw [isDone_some, LoopRun.pending, ← decide_not]
      exact decide_eq_decide.mpr Nat.not_lt
    rw [iterationSteps_list, hpending, hcursor, p.iterationSteps_all hhead, hiteration]
    exact resume_steps (loopSteps_resumable hp k) (p.loopSteps_sorted k) hu hsim
  -- the iterations behind it are the same, and those behind the end change nothing
  obtain ⟨j, rfl⟩ : ∃ j, rounds = k+j+1 := ⟨rounds-k-1, by omega⟩
  have hrounds := rounds_sim hp hround (k+j)
  rw [← Function.iterate_succ_apply, ← Function.iterate_succ_apply] at hrounds
  have hlast : p.round^[k+j+1] (p.loopAt k s) = p.loopAt (k+j+1) s := by
    have hsplit : p.round^[j+1] (p.loopAt k s) = p.loopAt (k+j+1) s := by
      have hadd : j+1+k = k+j+1 := by omega
      rw [loopAt, loopAt, ← Function.iterate_add_apply, hadd]
    rw [Nat.add_assoc, Function.iterate_add_apply, hsplit]
    exact p.loopAt_ended hended k
  rwa [hlast] at hrounds

section
variable {q : Run ε} (hq : ∀ u, SavedAt y u → Sim q u)
include hq

omit hp hc in
theorem resumed_cursor {xs : List (Step ε)} {r : Run ε} (hsaved : SavedIn xs r y) : q.cursor = y.1 := by
  obtain ⟨u, -, hat⟩ := hsaved
  exact (hq u hat).cursor.trans hat.cursor

theorem resumed_remaining (hskip : (p.opened s).cursor.skipOthers = true)
    (hsaved : SavedIn p.remainingSteps (p.opened s) y) :
    Sim (p.afterOpening rounds (some y.1) q) (p.runPipeline rounds none s) := by
  have hplace := (hsaved.steady (hc.results.remainingSteps fun _ => rfl)).1
  have hcursor := resumed_cursor hq hsaved
  obtain ⟨u, hu, hat⟩ := hsaved
  obtain ⟨x, hx, hdone⟩ := mem_names_of_station hu
  have hrank : y.1.done.rank < PipelineStep.finalPass.rank := by
    rw [← hdone, List.mem_singleton.mp hx]
    exact show 4 < 14 by decide
  rw [afterOpening_skipped (by rw [hcursor]; exact (congrArg Prod.fst hplace).trans hskip),
    runPipeline_fresh, hskip, if_pos rfl, ← closing_later p _ hrank]
  exact closing_sim hp (some y.1)
    (resume_steps (remainingSteps_resumable hp) p.remainingSteps_sorted hu (hq u hat))

theorem resumed_behindRemaining (hskip : (p.opened s).cursor.skipOthers = true)
    (hsaved : SavedIn p.closingSteps (performAll p.remainingSteps (p.opened s)).leaveLoop y) :
    Sim (p.afterOpening rounds (some y.1) q) (p.runPipeline rounds none s) := by
  have hplace := (hsaved.steady hc.closingSteps).1
  have hremaining := performAll_steady (r := p.opened s) (hc.results.remainingSteps fun _ => rfl)
  have hskipped : q.cursor.skipOthers = true := by
    rw [resumed_cursor hq hsaved]
    exact ((congrArg Prod.fst hplace).trans (leaveLoop_skipOthers _)).trans
      ((congrArg Prod.fst hremaining.1).trans hskip)
  have hbehind : ∀ x ∈ p.remainingSteps, x.1.rank ≤ y.1.done.rank := by
    rw [remainingSteps, List.forall_mem_singleton]
    exact le_trans (show 4 ≤ 14 by decide) (closing_rank hsaved)
  rw [afterOpening_skipped hskipped, performUnless_earlier hbehind, runPipeline_fresh, hskip, if_pos rfl]
  exact closing_resumed hp hc hsaved hq

theorem resumed_category (hskip : (p.opened s).cursor.skipOthers = false)
    (hsaved : SavedIn p.categorySteps (p.opened s) y) :
    Sim (p.afterOpening rounds (some y.1) q) (p.runPipeline rounds none s) := by
  have hplace := (hsaved.steady hc.results.categorySteps).1
  have hcursor := resumed_cursor hq hsaved
  obtain ⟨u, hu, hat⟩ := hsaved
  obtain ⟨x, hx, hdone⟩ := mem_names_of_station hu
  have hrank : y.1.done.rank < PipelineStep.loopCleanupTop.rank := by
    rw [← hdone]
    exact (p.categorySteps_range x hx).2
  have hfinish := finish_sim hp (some y.1)
    (resume_steps (categorySteps_resumable hp) p.categorySteps_sorted hu (hq u hat)) rounds
  rw [afterOpening_looped (by rw [hcursor]; exact (congrArg Prod.fst hplace).trans hskip),
    runPipeline_fresh, hskip, if_neg Bool.false_ne_true]
  rwa [finish_later p (performAll p.categorySteps (p.opened s)) _ hrank] at hfinish

theorem resumed_behindLoop (hskip : (p.opened s).cursor.skipOthers = false)
    (hended : (p.loopAt rounds s).live = false)
    (hsaved : SavedIn p.closingSteps (p.loopAt rounds s).run.leaveLoop y) :
    Sim (p.afterOpening rounds (some y.1) q) (p.runPipeline rounds none s) := by
  have hrank := closing_rank hsaved
  have hplace := (hsaved.steady hc.closingSteps).1
  have hskipped : q.cursor.skipOthers = false := by
    rw [resumed_cursor hq hsaved]
    exact ((congrArg Prod.fst hplace).trans (leaveLoop_skipOthers _)).trans
      ((hc.loopAt_frame s rounds).1.trans hskip)
  have hdone : isDone (some y.1) .finalPass = true := decide_eq_true hrank
  rw [afterOpening_looped hskipped, categorySteps_behind (le_trans (by decide) hrank), finish, hdone,
    if_pos rfl, runPipeline_fresh, hskip, if_neg Bool.false_ne_true, hended, if_neg Bool.false_ne_true]
  exact closing_resumed hp hc hsaved hq

theorem resumed_loop (hskip : (p.opened s).cursor.skipOthers = false) {k : Nat} (hk : k < rounds)
    (hlive : (p.loopAt k s).live = true)
    (hsaved : SavedIn (p.loopSteps k) ((p.loopAt k s).run.enter k) y)
    (hend : (p.runPipeline rounds none s).outcome ≠ .running) :
    Sim (p.afterOpening rounds (some y.1) q) (p.runPipeline rounds none s) := by
  have hplace := (hsaved.steady (hc.results.loopSteps (fun _ => rfl) (fun _ _ => rfl) k)).1
  have hskipped : q.cursor.skipOthers = false := by
    rw [resumed_cursor hq hsaved]
    exact ((congrArg Prod.fst hplace).trans (enter_skipOthers k _)).trans
      ((hc.loopAt_frame s k).1.trans hskip)
  have hloop : y.1.done.isLoopStep = true := by
    obtain ⟨u, hu, -⟩ := hsaved
    obtain ⟨x, hx, hdone⟩ := mem_names_of_station hu
    exact hdone ▸ p.loopSteps_isLoopStep k x hx
  have hrange := hloop
  rw [PipelineStep.isLoopStep, Bool.and_eq_true, decide_eq_true_iff, decide_eq_true_iff] at hrange
  have hrank : y.1.done.rank < PipelineStep.finalPass.rank := Nat.lt_of_le_of_lt hrange.2 (by decide)
  rw [runPipeline_fresh, hskip, if_neg Bool.false_ne_true] at hend ⊢
  cases hended : (p.loopAt rounds s).live with
  | true =>
    rw [hended, if_pos rfl] at hend
    exact absurd ((LoopRun.live_iff _).mp hended).2 hend
  | false =>
    have hresumed := behindLoop_sim hp (some y.1)
      (loop_resumed hp hc hk hlive hended hsaved hq)
    have hdone : isDone (some y.1) .finalPass = false := decide_eq_false (Nat.not_le_of_lt hrank)
    have hstart : loopStart (some y.1) q = ⟨q, y.1.iteration, y.1.done, false⟩ := if_pos hloop
    rw [hended, if_neg Bool.false_ne_true, closing_later p (p.loopAt rounds s).run hrank] at hresumed
    rw [afterOpening_looped hskipped, categorySteps_behind (le_trans (by decide) hrange.1), finish,
      hdone, if_neg Bool.false_ne_true, if_neg Bool.false_ne_true, convergenceLoop, hstart]
    exact hresumed

end

/-- Resumed behind any of its checkpoints, a run ends like the one that was never interrupted. -/
theorem resume_sim (h : SavePoint p rounds s y) (hend : (p.runPipeline rounds none s).outcome ≠ .running)
    (ht : Agree t y.2) : Sim (p.runPipeline rounds (some y.1) t) (p.runPipeline rounds none s) := by
  have hentry := entry_resumed (fresh_ingest (savePoint_running hp h)) y.1 t
  have hq (u : Run ε) (hat : SavedAt y u) : Sim (Run.start (some y.1) t) u := hat.sim ht
  have hrank {xs : List (Step ε)} {r : Run ε} (hsaved : SavedIn xs r y) :
      ∃ x ∈ xs, x.1 = y.1.done := by
    obtain ⟨u, hu, -⟩ := hsaved
    exact mem_names_of_station hu
  rw [runPipeline_eq]
  cases h with
  | entry hsaved hdone =>
    have hlater : ∀ x ∈ p.openingSteps, y.1.done.rank < x.1.rank := by
      intro x hx
      rcases p.openingSteps_rank x hx with hx | hx
      · rw [hx, hdone]
        decide
      · rw [hx, hdone]
        decide
    refine resumed_opening hp (by rw [hdone]; decide) ((opening_sim hp y.1 _).trans ?_)
    rw [hentry, opened, opening_fresh, performUnless_later hlater, performUnless_fresh]
    exact performAll_related (fun x hx => (openingSteps_resumable hp x hx).sim) (hq _ hsaved)
  | opening hsaved =>
    obtain ⟨x, hx, hdone⟩ := hrank hsaved
    obtain ⟨u, hu, hat⟩ := hsaved
    refine resumed_opening hp ?_ ((opening_sim hp y.1 _).trans ?_)
    · rcases p.openingSteps_rank x hx with hx | hx
      · rw [← hdone, hx]
        decide
      · rw [← hdone, hx]
    · rw [hentry, opened, opening_fresh]
      exact resume_steps (openingSteps_resumable hp) p.openingSteps_sorted hu (hq u hat)
  | remaining hskip hsaved =>
    obtain ⟨x, hx, hdone⟩ := hrank hsaved
    refine (resumed_behind hp ?_ hentry).trans (resumed_remaining hp hc hq hskip hsaved)
    rw [← hdone, List.mem_singleton.mp hx]
    exact show 3 < 4 by decide
  | behindRemaining hskip hsaved =>
    exact (resumed_behind hp (Nat.lt_of_lt_of_le (by decide) (closing_rank hsaved)) hentry).trans
      (resumed_behindRemaining hp hc hq hskip hsaved)
  | category hskip hsaved =>
    obtain ⟨x, hx, hdone⟩ := hrank hsaved
    refine (resumed_behind hp ?_ hentry).trans (resumed_category hp hc hq hskip hsaved)
    rw [← hdone]
    exact (p.categorySteps_range x hx).1
  | loop hskip k hk hlive hsaved =>
    obtain ⟨x, hx, hdone⟩ := hrank hsaved
    refine (resumed_behind hp ?_ hentry).trans (resumed_loop hp hc hq hskip hk hlive hsaved hend)
    have hloop := p.loopSteps_isLoopStep k x hx
    rw [PipelineStep.isLoopStep, Bool.and_eq_true, decide_eq_true_iff, hdone] at hloop
    exact Nat.lt_of_lt_of_le (by decide) hloop.1
  | behindLoop hskip hended hsaved =>
    exact (resumed_behind hp (Nat.lt_of_lt_of_le (by decide) (closing_rank hsaved)) hentry).trans
      (resumed_behindLoop hp hc hq hskip hended hsaved)

end Stages

end DSigMatcher.Pipeline
