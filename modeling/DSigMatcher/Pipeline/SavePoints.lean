import DSigMatcher.Pipeline.Resume

namespace DSigMatcher.Pipeline
open DSigMatcher.Base DSigMatcher.Framework DSigMatcher.Diff DSigMatcher.Checkpoint

variable {ε : Type}

namespace Stages
variable (p : Stages ε)

/-- The run in front of the choice between the remaining functions and the categories. -/
def opened (s : Session ε) : Run ε := p.opening none (Run.start none s)

/-- The loop at the head of iteration `k`, or where it has ended. -/
def loopAt (k : Nat) (s : Session ε) : LoopRun ε :=
  p.round^[k] ⟨performAll p.categorySteps (p.opened s), 0, .none, false⟩

theorem runPipeline_fresh (rounds : Nat) (s : Session ε) :
    p.runPipeline rounds none s =
      if (p.opened s).cursor.skipOthers then
        p.closing none (performAll p.remainingSteps (p.opened s))
      else if (p.loopAt rounds s).live then (p.loopAt rounds s).run
      else p.closing none (p.loopAt rounds s).run := rfl

theorem iterationSteps_all {l : LoopRun ε} (hhead : l.loopDone = .none) :
    p.iterationSteps l = performAll (p.loopSteps l.iteration) (l.run.enter l.iteration) := by
  rw [iterationSteps_list]
  refine performUnless_ahead fun x hx => ?_
  have hloop := p.loopSteps_isLoopStep l.iteration x hx
  rw [PipelineStep.isLoopStep, Bool.and_eq_true, decide_eq_true_iff] at hloop
  rw [LoopRun.pending, hhead, Bool.not_eq_false']
  exact decide_eq_true (Nat.lt_of_lt_of_le (by decide) hloop.1)

theorem test_run (l : LoopRun ε) (r : Run ε) : (l.test r).run = r := by
  rw [LoopRun.test]
  split_ifs
  · rfl
  · rfl

/-- A loop that goes on is at the head of its next iteration. -/
theorem round_next {l : LoopRun ε} (h : (p.round l).live = true) :
    p.round l = ⟨p.iterationSteps l, l.iteration+1, .none, false⟩ := by
  have hlive := p.live_of_round l h
  rw [p.round_live l hlive, LoopRun.test] at h ⊢
  split_ifs at h ⊢
  · cases h
  · rfl

theorem loopAt_succ (k : Nat) (s : Session ε) : p.loopAt (k+1) s = p.round (p.loopAt k s) :=
  Function.iterate_succ_apply' ..

theorem loopAt_head (k : Nat) (s : Session ε) (h : (p.loopAt k s).live = true) :
    (p.loopAt k s).iteration = k ∧ (p.loopAt k s).loopDone = .none := by
  induction k with
  | zero => exact ⟨rfl, rfl⟩
  | succ k ih =>
    rw [loopAt_succ] at h ⊢
    rw [p.round_next h]
    exact ⟨congrArg (· + 1) (ih (p.live_of_round _ h)).1, rfl⟩

/-- A loop that has ended stays where it is. -/
theorem loopAt_ended {rounds : Nat} {s : Session ε} (h : (p.loopAt rounds s).live = false) (k : Nat) :
    p.round^[k] (p.loopAt rounds s) = p.loopAt rounds s :=
  Function.iterate_fixed (p.round_ended _ h) k

/-- What entering an iteration and its steps keep, the whole loop keeps. -/
theorem loopAt_invariant {P : Run ε → Prop} (henter : ∀ k r, P r → P (r.enter k))
    (hsteps : ∀ k, ∀ x ∈ p.loopSteps k, ∀ r, P r → P (x.2 r)) {s : Session ε}
    (h : P (p.loopAt 0 s).run) (k : Nat) : P (p.loopAt k s).run := by
  induction k with
  | zero => exact h
  | succ k ih =>
    rw [loopAt_succ, round]
    split_ifs
    · rw [test_run, iterationSteps_list]
      exact performUnless_invariant (hsteps _) (henter _ _ ih)
    · exact ih

end Stages

/-- Where in a fresh run a checkpoint was saved. -/
inductive SavePoint (p : Stages ε) (rounds : Nat) (s : Session ε) (y : PipelineCursor × Session ε) : Prop
  | entry (hsaved : SavedAt y (p.fresh (Run.start none s))) (hdone : y.1.done = .equalMatches)
  | opening (hsaved : SavedIn p.openingSteps (p.fresh (Run.start none s)) y)
  | remaining (hskip : (p.opened s).cursor.skipOthers = true)
      (hsaved : SavedIn p.remainingSteps (p.opened s) y)
  | behindRemaining (hskip : (p.opened s).cursor.skipOthers = true)
      (hsaved : SavedIn p.closingSteps (performAll p.remainingSteps (p.opened s)).leaveLoop y)
  | category (hskip : (p.opened s).cursor.skipOthers = false)
      (hsaved : SavedIn p.categorySteps (p.opened s) y)
  | loop (hskip : (p.opened s).cursor.skipOthers = false) (k : Nat) (hk : k < rounds)
      (hlive : (p.loopAt k s).live = true)
      (hsaved : SavedIn (p.loopSteps k) ((p.loopAt k s).run.enter k) y)
  | behindLoop (hskip : (p.opened s).cursor.skipOthers = false)
      (hended : (p.loopAt rounds s).live = false)
      (hsaved : SavedIn p.closingSteps (p.loopAt rounds s).run.leaveLoop y)

namespace Stages
variable {p : Stages ε} (hp : p.Determined) {y : PipelineCursor × Session ε} {s : Session ε}
include hp

theorem mem_closing_saves {r : Run ε} (hy : y ∈ (p.closing none r).saves) :
    y ∈ r.saves ∨ SavedIn p.closingSteps r.leaveLoop y := by
  have hleave : r.leaveLoop.saves = r.saves := Run.onRunning_keeps Run.saves _ r fun _ => rfl
  rw [closing_eq, Run.finish_saves, performUnless_fresh] at hy
  rw [← hleave]
  exact mem_saves (closingSteps_resumable hp) hy

theorem mem_opened_saves (hy : y ∈ (p.opened s).saves) :
    (SavedAt y (p.fresh (Run.start none s)) ∧ y.1.done = .equalMatches) ∨
      SavedIn p.openingSteps (p.fresh (Run.start none s)) y := by
  rw [opened, opening_fresh] at hy
  rcases mem_saves (openingSteps_resumable hp) hy with hy | hsaved
  · exact .inl (fresh_saves rfl hy)
  · exact .inr hsaved

theorem mem_loopAt_saves {k : Nat} (hy : y ∈ (p.loopAt k s).run.saves) :
    y ∈ (performAll p.categorySteps (p.opened s)).saves ∨
      ∃ j < k, (p.loopAt j s).live = true ∧
        SavedIn (p.loopSteps j) ((p.loopAt j s).run.enter j) y := by
  induction k with
  | zero => exact .inl hy
  | succ k ih =>
    have hlater : y ∈ (p.loopAt k s).run.saves →
        y ∈ (performAll p.categorySteps (p.opened s)).saves ∨
          ∃ j < k+1, (p.loopAt j s).live = true ∧
            SavedIn (p.loopSteps j) ((p.loopAt j s).run.enter j) y := fun hy =>
      (ih hy).imp_right fun ⟨j, hj, h⟩ => ⟨j, Nat.lt_succ_of_lt hj, h⟩
    rw [loopAt_succ] at hy
    cases hlive : (p.loopAt k s).live with
    | false =>
      rw [p.round_ended _ hlive] at hy
      exact hlater hy
    | true =>
      obtain ⟨hiteration, hhead⟩ := p.loopAt_head k s hlive
      rw [p.round_live _ hlive, test_run, p.iterationSteps_all hhead, hiteration] at hy
      rcases mem_saves (loopSteps_resumable hp k) hy with hy | hsaved
      · have henter : ((p.loopAt k s).run.enter k).saves = (p.loopAt k s).run.saves :=
          Run.onRunning_keeps Run.saves _ _ fun _ => rfl
        exact hlater (henter ▸ hy)
      · exact .inr ⟨k, Nat.lt_succ_self k, hlive, hsaved⟩

/-- Every checkpoint of a fresh run was saved at one of these points. -/
theorem savePoint {rounds : Nat} (hy : y ∈ (p.runPipeline rounds none s).saves) :
    SavePoint p rounds s y := by
  have hopened (hy : y ∈ (p.opened s).saves) : SavePoint p rounds s y := by
    rcases mem_opened_saves hp hy with ⟨hsaved, hdone⟩ | hsaved
    · exact .entry hsaved hdone
    · exact .opening hsaved
  rw [runPipeline_fresh] at hy
  cases hskip : (p.opened s).cursor.skipOthers with
  | true =>
    rw [hskip, if_pos rfl] at hy
    rcases mem_closing_saves hp hy with hy | hsaved
    · rcases mem_saves (remainingSteps_resumable hp) hy with hy | hsaved
      · exact hopened hy
      · exact .remaining hskip hsaved
    · exact .behindRemaining hskip hsaved
  | false =>
    have hloop (hy : y ∈ (p.loopAt rounds s).run.saves) : SavePoint p rounds s y := by
      rcases mem_loopAt_saves hp hy with hy | ⟨k, hk, hlive, hsaved⟩
      · rcases mem_saves (categorySteps_resumable hp) hy with hy | hsaved
        · exact hopened hy
        · exact .category hskip hsaved
      · exact .loop hskip k hk hlive hsaved
    rw [hskip, if_neg Bool.false_ne_true] at hy
    cases hlive : (p.loopAt rounds s).live with
    | true =>
      rw [hlive, if_pos rfl] at hy
      exact hloop hy
    | false =>
      rw [hlive, if_neg Bool.false_ne_true] at hy
      rcases mem_closing_saves hp hy with hy | hsaved
      · exact hloop hy
      · exact .behindLoop hskip hlive hsaved

end Stages

end DSigMatcher.Pipeline
