import DSigMatcher.Pipeline.Cursors

namespace DSigMatcher.Pipeline
open DSigMatcher.Base DSigMatcher.Json DSigMatcher.Framework DSigMatcher.Diff DSigMatcher.Checkpoint

/-- The match that iteration `k` finds. -/
def growingMatch (k : Nat) : Item :=
  ⟨some (List.replicate k 49), some (List.replicate k 97), some (List.replicate k 49),
    some (List.replicate k 97), text "Call graph", Binary64.one, 1, 1⟩

theorem growingMatch_stored (k : Nat) : ItemStored (growingMatch k) := by
  have hone : IsInt64 1 := ⟨by decide, by decide⟩
  exact ⟨hone, hone⟩

/-- Stages that find one new match in every iteration of the loop. -/
def growingStages : Stages Unit :=
  { Stages.idle with
    findMatchesDiffing := fun k s => .ok (s.appendBest (growingMatch k) (growingMatch_stored k)) }

def emptySession : Session Unit :=
  Session.initial 0 0 ⟨by decide, by decide⟩ ⟨by decide, by decide⟩ ()

/-- The matches of the first `n` iterations. -/
def grownMatches (n : Nat) : List Item := (List.range n).map growingMatch

theorem grownMatches_succ (n : Nat) : grownMatches (n+1) = grownMatches n ++ [growingMatch n] := by
  rw [grownMatches, List.range_succ, List.map_append, List.map_singleton, grownMatches]

theorem grownMatches_length (n : Nat) : (grownMatches n).length = n := by
  rw [grownMatches, List.length_map, List.length_range]

/-- A cleanup keeps all of them in their order. -/
theorem cleanupItems_grown (n : Nat) :
    (cleanupItems {} (sortDescending (grownMatches n))).2 = grownMatches n := by
  have hsorted : sortDescending (grownMatches n) = grownMatches n := by
    refine List.Pairwise.insertionSort_eq (List.pairwise_of_forall_mem_list fun a ha b hb => ?_)
    obtain ⟨i, -, rfl⟩ := List.mem_map.mp ha
    obtain ⟨j, -, rfl⟩ := List.mem_map.mp hb
    change ¬ Binary64.one < Binary64.one
    decide
  have hkeys : ((grownMatches n).map namePairKey).Nodup := by
    rw [grownMatches, List.map_map]
    refine List.Nodup.map (fun i j hij => ?_) List.nodup_range
    have hlength := congrArg List.length hij
    simp [namePairKey, growingMatch, keyText] at hlength
    omega
  have heas : ((grownMatches n).map Item.ea1).Nodup := by
    rw [grownMatches, List.map_map]
    refine List.Nodup.map (fun i j hij => ?_) List.nodup_range
    have hlength := congrArg List.length (Option.some.inj hij)
    simpa using hlength
  rw [hsorted]
  exact cleanupItems_all {} _ hkeys (fun _ _ => List.not_mem_nil) heas fun _ _ => rfl

/-- The state at the head of iteration `n`. -/
structure Grown (n : Nat) (st : MatchState) : Prop where
  best : st.best = grownMatches n
  partials : st.partials = []

theorem Grown.total {n : Nat} {st : MatchState} (h : Grown n st) :
    st.totalMatchedFunctions = n := by
  rw [MatchState.totalMatchedFunctions, h.best, h.partials, grownMatches_length]
  rfl

theorem Grown.cleanup {n : Nat} {st : MatchState} (h : Grown n st) : Grown n (Diff.cleanup st) := by
  refine ⟨?_, ?_⟩
  · rw [MatchState.cleanup_best, MatchState.cleanedBest, h.best]
    exact cleanupItems_grown n
  · rw [MatchState.cleanup_partials, MatchState.cleanedPartials, h.partials]
    rfl

theorem Grown.append {n : Nat} {s : Session Unit} (h : Grown n s.matchState) (hn : n + 1 < 2^63) :
    Grown (n+1) (s.appendBest (growingMatch n) (growingMatch_stored n)).matchState := by
  have hroom : s.matchState.totalMatchedFunctions + 1 < 2^63 := by
    rw [h.total]
    exact hn
  rw [Session.appendBest, dif_pos hroom]
  refine ⟨?_, h.partials⟩
  change s.matchState.best ++ [growingMatch n] = grownMatches (n+1)
  rw [h.best, grownMatches_succ]

/-- The session after the top cleanup of iteration `n`, and after the whole iteration. -/
def growTop (n : Nat) (s : Session Unit) : Session Unit :=
  Session.cleanup { s with iteration := some n } .l3655

def growIteration (n : Nat) (s : Session Unit) : Session Unit :=
  let found := ((growTop n s).point.appendBest (growingMatch n) (growingMatch_stored n)).point
  (found.point.point.point.point.point.point).cleanup .l3671

theorem growTop_grown (n : Nat) (s : Session Unit) (h : Grown n s.matchState) :
    Grown n (growTop n s).matchState := by
  rw [growTop, Session.cleanup_matchState]
  exact h.cleanup

theorem growIteration_grown (n : Nat) (s : Session Unit) (h : Grown n s.matchState)
    (hn : n + 1 < 2^63) : Grown (n+1) (growIteration n s).matchState := by
  have htop : Grown n (growTop n s).point.matchState := growTop_grown n s h
  simp only [growIteration, Session.cleanup_matchState, Session.point_matchState]
  exact (htop.append hn).cleanup

/-- The cursor saved after the top cleanup of iteration `n`. -/
def growCursor (n : Nat) (s : Session Unit) (c : PipelineCursor) : PipelineCursor :=
  ⟨.loopCleanupTop, n, c.skipOthers, (growTop n s).total⟩

section
variable {ε : Type} (s : Session ε) (c : PipelineCursor) (saves : List (PipelineCursor × Session ε))

theorem save_mk (step : PipelineStep) :
    Run.save step ⟨s, c, saves, .running⟩ =
      ⟨s, { c with done := step }, saves ++ [({ c with done := step },s)], .running⟩ := rfl

theorem pointed_mk (f : Stage ε) (t : Session ε) (h : f s.point = .ok t) :
    Run.pointed f ⟨s, c, saves, .running⟩ = ⟨t.point, c, saves, .running⟩ := by
  have hperform : Run.perform f ⟨s.point, c, saves, .running⟩ = ⟨t, c, saves, .running⟩ := by
    simp only [Run.perform, Run.onRunning, h]
  change (Run.perform f ⟨s.point, c, saves, .running⟩).update Session.point = _
  rw [hperform]
  rfl

end

/-- A stage that finds nothing still has its points and its checkpoint. -/
theorem idle_step (r : Run Unit) (step : PipelineStep) (hr : r.outcome = .running) :
    ((r.pointed Except.ok).save step) =
      ⟨r.session.point.point, { r.cursor with done := step },
        r.saves ++ [({ r.cursor with done := step },r.session.point.point)], .running⟩ := by
  obtain ⟨s, c, saves, outcome⟩ := r
  obtain rfl : outcome = .running := hr
  rw [pointed_mk s c saves Except.ok s.point rfl, save_mk]

/-- One iteration of the growing stages: six checkpoints, the first after the top cleanup. -/
theorem growing_iterationSteps (n : Nat) (s : Session Unit) (c : PipelineCursor)
    (saves : List (PipelineCursor × Session Unit)) :
    ∃ b1 b2 b3 b4 b5, growingStages.iterationSteps ⟨⟨s, c, saves, .running⟩, n, .none, false⟩ =
      ⟨growIteration n s, { growCursor n s c with done := .loopCleanupBottom },
        saves ++ [(growCursor n s c,growTop n s)] ++ [b1] ++ [b2] ++ [b3] ++ [b4] ++ [b5],
        .running⟩ := by
  have htop : (Run.enter n ⟨s, c, saves, .running⟩).cleanupTop =
      ⟨growTop n s, growCursor n s c, saves ++ [(growCursor n s c,growTop n s)], .running⟩ := rfl
  have hfind := pointed_mk (growTop n s) (growCursor n s c)
    (saves ++ [(growCursor n s c,growTop n s)]) (growingStages.findMatchesDiffing n)
    ((growTop n s).point.appendBest (growingMatch n) (growingMatch_stored n)) rfl
  let idle (step : PipelineStep) (r : Run Unit) : Run Unit := (r.pointed Except.ok).save step
  have hsteps : growingStages.iterationSteps ⟨⟨s, c, saves, .running⟩, n, .none, false⟩ =
      (idle .locallyAffine (idle .relatedCompilationUnit (idle .relatedMatches
        (((Run.enter n ⟨s, c, saves, .running⟩).cleanupTop.pointed
          (growingStages.findMatchesDiffing n)).save .matchesDiffing)))).cleanupBottom := rfl
  rw [hsteps, htop, hfind, save_mk]
  simp only [idle]
  rw [idle_step _ _ rfl, idle_step _ _ rfl, idle_step _ _ rfl]
  exact ⟨_, _, _, _, _, rfl⟩

/-- The loop at the head of iteration `n`, which has `n` matches and the checkpoints so far. -/
structure GrownHead (n : Nat) (l : LoopRun Unit) : Prop where
  running : l.run.outcome = .running
  iteration : l.iteration = n
  head : l.loopDone = .none
  converged : l.converged = false
  grown : Grown n l.run.session.matchState
  saved : ∀ k < n, ∃ x ∈ l.run.saves, x.1.iteration = k

/-- Every iteration finds a match, so the next one begins. -/
theorem growing_round (n : Nat) (hn : n + 1 < 2^63) (l : LoopRun Unit) (h : GrownHead n l) :
    GrownHead (n+1) (growingStages.round l) := by
  obtain ⟨⟨s, c, saves, outcome⟩, iteration, loopDone, converged⟩ := l
  obtain rfl : outcome = .running := h.running
  obtain rfl : iteration = n := h.iteration
  obtain rfl : loopDone = .none := h.head
  obtain rfl : converged = false := h.converged
  have htop := growTop_grown iteration s h.grown
  have hdone := growIteration_grown iteration s h.grown hn
  have htest : ¬ (growIteration iteration s).total ≤ (growTop iteration s).total := by
    rw [Int64.le_iff_toInt_le, Session.total_toInt, Session.total_toInt, hdone.total, htop.total]
    omega
  obtain ⟨b1, b2, b3, b4, b5, hsteps⟩ := growing_iterationSteps iteration s c saves
  have hround : growingStages.round ⟨⟨s, c, saves, .running⟩, iteration, .none, false⟩ =
      ⟨⟨growIteration iteration s, { growCursor iteration s c with done := .loopCleanupBottom },
        saves ++ [(growCursor iteration s c,growTop iteration s)] ++ [b1] ++ [b2] ++ [b3] ++
          [b4] ++ [b5], .running⟩, iteration+1, .none, false⟩ := by
    rw [Stages.round_live _ _ rfl, hsteps, LoopRun.test, if_neg]
    exact htest
  rw [hround]
  refine ⟨rfl, rfl, rfl, rfl, hdone, fun k hk => ?_⟩
  by_cases hlast : k = iteration
  · exact ⟨(growCursor iteration s c,growTop iteration s), by simp, hlast.symm⟩
  · obtain ⟨x, hx, hxk⟩ := h.saved k (by omega)
    exact ⟨x, by simp [hx], hxk⟩

theorem growing_loop (n : Nat) (hn : n < 2^63) (l : LoopRun Unit) (h : GrownHead 0 l) :
    GrownHead n (growingStages.round^[n] l) := by
  induction n with
  | zero => exact h
  | succ n ih =>
    rw [Function.iterate_succ_apply']
    exact growing_round n hn _ (ih (by omega))

/-- The growing run in front of its loop. -/
def growingStart : Run Unit :=
  growingStages.categories none (growingStages.opening none (Run.start none emptySession))

theorem growingStart_head : GrownHead 0 ⟨growingStart, 0, .none, false⟩ :=
  ⟨rfl, rfl, rfl, rfl, ⟨rfl, rfl⟩, fun k hk => (Nat.not_lt_zero k hk).elim⟩

/-- However far the loop goes, the growing run saves a checkpoint in each of its iterations. -/
theorem growing_saves (rounds : Nat) (hrounds : rounds < 2^63) (k : Nat) (hk : k < rounds) :
    ∃ x ∈ (growingStages.runPipeline rounds none emptySession).saves, x.1.iteration = k := by
  have hhead := growing_loop rounds hrounds _ growingStart_head
  have hlive : (growingStages.round^[rounds] ⟨growingStart, 0, .none, false⟩).live = true :=
    (LoopRun.live_iff _).mpr ⟨hhead.converged, hhead.running⟩
  have hrun : growingStages.runPipeline rounds none emptySession =
      (growingStages.round^[rounds] ⟨growingStart, 0, .none, false⟩).run := by
    have hskip : (growingStages.opening none (Run.start none emptySession)).cursor.skipOthers =
        false := rfl
    rw [Stages.runPipeline]
    dsimp only
    rw [hskip, if_neg Bool.false_ne_true, if_neg (by decide)]
    exact if_pos hlive
  rw [hrun]
  exact hhead.saved k hk

end DSigMatcher.Pipeline
