import DSigMatcher.Pipeline.Confined

namespace DSigMatcher.Pipeline
open DSigMatcher.Base DSigMatcher.Framework DSigMatcher.Diff DSigMatcher.Checkpoint

variable {ε : Type}

/-- What a fresh run does to the session up to its first checkpoint leads from each session to a later
one. -/
structure Stages.FollowsIn (p : Stages ε) (R : Session ε → Session ε → Prop) : Prop where
  refl : ∀ s, R s s
  trans : ∀ s t u, R s t → R t u → R s u
  point : ∀ s, R s s.point
  checkVersion : ∀ s t answer, p.checkVersion s = .ok (t,answer) → R s t
  equalDb : ∀ s t, p.equalDb s = .ok t → R s t
  checkCallgraph : ∀ s t, p.checkCallgraph s = .ok t → R s t
  findEqualMatches : ∀ s t, p.findEqualMatches s = .ok t → R s t

/-- So does what `diff()` does up to its final pass, in iterations below a number. -/
structure Stages.Follows (p : Stages ε) (n : Nat) (R : Session ε → Session ε → Prop) : Prop
    extends p.FollowsIn R where
  cleanup : ∀ s site, R s (s.cleanup site)
  iteration : ∀ s k, (∀ j ∈ k, j < n) → R s { s with iteration := k }
  prepared : ∀ s, R s (p.prepared s)
  sameProcessor : ∀ s t answer, p.sameProcessor s = .ok (t,answer) → R s t
  applyDirtyHeuristics : ∀ s t answer, p.applyDirtyHeuristics s = .ok (t,answer) → R s t
  findSameName : ∀ s t, p.findSameName s = .ok t → R s t
  findRemainingFunctions : ∀ s t, p.findRemainingFunctions s = .ok t → R s t
  bestCategory : ∀ s t, p.bestCategory s = .ok t → R s t
  partialCategory : ∀ s t, p.partialCategory s = .ok t → R s t
  smallDifferences : ∀ s t, p.smallDifferences s = .ok t → R s t
  findMatchesDiffing : ∀ k s t, p.findMatchesDiffing k s = .ok t → R s t
  findRelatedMatches : ∀ k s t, p.findRelatedMatches k s = .ok t → R s t
  findRelatedCompilationUnit : ∀ k s t, p.findRelatedCompilationUnit k s = .ok t → R s t
  findLocallyAffineFunctions : ∀ k s t, p.findLocallyAffineFunctions k s = .ok t → R s t

/-- So does the rest of it. -/
structure Stages.FollowsAll (p : Stages ε) (n : Nat) (R : Session ε → Session ε → Prop) : Prop
    extends p.Follows n R where
  finalPass : ∀ s t, p.finalPass s = .ok t → R s t
  findUnmatched : ∀ s t, p.findUnmatched s = .ok t → R s t

/-- What a run sets itself on its way in leads on: a fresh run clears the cache, and one that has to ask
for the processor notes the answer. -/
structure Stages.Enters (p : Stages ε) (resume : Option PipelineCursor)
    (R : Session ε → Session ε → Prop) (s : Session ε) : Prop where
  clear : resume.isNone = true → R s { s with ratiosCache := .empty, iteration := none }
  processor : isDone resume .dirtyHeuristics = false → ∀ t same,
    p.sameProcessor (p.entry resume (Run.start resume s)).session = .ok (t,same) →
    R t { t with flags := { t.flags with isSameProcessor := same } }

/-- A run from a session; the checkpoints stand between both, in the order they were saved. -/
structure Run.Path (R : Session ε → Session ε → Prop) (s : Session ε) (r : Run ε) : Prop where
  session : R s r.session
  saves : ∀ y ∈ r.saves, R s y.2 ∧ R y.2 r.session
  order : r.saves.Pairwise fun y z => R y.2 z.2

/-- A run on its way; it has not come to the end of `diff()`. -/
structure Run.Trail (R : Session ε → Session ε → Prop) (s : Session ε) (r : Run ε) : Prop
    extends Run.Path R s r where
  unfinished : r.outcome ≠ .returned true

/-- The run in front of the final pass, or where its loop has been left. -/
def Stages.beforeClosing (p : Stages ε) (rounds : Nat) (resume : Option PipelineCursor)
    (s : Session ε) : Run ε :=
  let r := p.opening resume (Run.start resume s)
  if r.cursor.skipOthers then p.remainingFunctions resume r
  else
    let r := p.categories resume r
    if isDone resume .finalPass then r else (p.convergenceLoop rounds resume r).run

theorem Stages.runPipeline_closing (p : Stages ε) (rounds : Nat) (resume : Option PipelineCursor)
    (s : Session ε) :
    p.runPipeline rounds resume s = p.closing resume (p.beforeClosing rounds resume s) ∨
      p.runPipeline rounds resume s = p.beforeClosing rounds resume s := by
  unfold runPipeline beforeClosing
  dsimp only
  split_ifs
  · exact .inl rfl
  · exact .inl rfl
  · exact .inr rfl
  · exact .inl rfl

/-- The last line of the log changes nothing that a checkpoint or the session has. -/
theorem Run.Path.finish {R : Session ε → Session ε → Prop} {s : Session ε} {r : Run ε}
    (h : r.Path R s) : r.finish.Path R s where
  session := r.finish_session.symm ▸ h.session
  saves y hy := by
    rw [Run.finish_session]
    exact h.saves y (r.finish_saves ▸ hy)
  order := r.finish_saves.symm ▸ h.order

theorem Run.Trail.unlessDone {R : Session ε → Session ε → Prop} {s : Session ε} {r : Run ε}
    {f : Run ε → Run ε} (hr : r.Trail R s) (done : Bool) (hf : (f r).Trail R s) :
    (r.unlessDone done f).Trail R s := Run.unlessDone_of (Run.Trail R s) done f r hr hf

namespace Stages.FollowsIn
variable {p : Stages ε} {R : Session ε → Session ε → Prop} (h : p.FollowsIn R) {s : Session ε}
  {r : Run ε}
include h

theorem step {q : Run ε} (hr : r.Trail R s) (hsaves : q.saves = r.saves)
    (hsession : R r.session q.session) (hout : q.outcome ≠ .returned true) : q.Trail R s where
  session := h.trans _ _ _ hr.session hsession
  saves y hy := by
    obtain ⟨hbefore, hafter⟩ := hr.saves y (hsaves ▸ hy)
    exact ⟨hbefore, h.trans _ _ _ hafter hsession⟩
  order := hsaves ▸ hr.order
  unfinished := hout

/-- A step that neither saves nor ends the run. -/
theorem onRunning {f : Run ε → Run ε} (hr : r.Trail R s)
    (hf : ∀ r, (f r).saves = r.saves ∧ (f r).outcome = r.outcome ∧ R r.session (f r).session) :
    (r.onRunning f).Trail R s := by
  refine Run.onRunning_of (Run.Trail R s) f r hr fun _ => ?_
  obtain ⟨hsaves, hout, hsession⟩ := hf r
  exact h.step hr hsaves hsession (hout ▸ hr.unfinished)

theorem update {g : Session ε → Session ε} (hr : r.Trail R s) (hg : ∀ s, R s (g s)) :
    (r.update g).Trail R s := h.onRunning hr fun r => ⟨rfl, rfl, hg r.session⟩

theorem perform {f : Stage ε} (hr : r.Trail R s) (hf : ∀ s t, f s = .ok t → R s t) :
    (r.perform f).Trail R s := by
  refine Run.onRunning_of (Run.Trail R s) _ r hr fun _ => ?_
  cases hstage : f r.session with
  | ok t => exact h.step hr rfl (hf _ _ hstage) hr.unfinished
  | error e => exact h.step hr rfl (h.refl _) Outcome.noConfusion

theorem ask {f : Query ε} {next : Bool → Run ε → Run ε} (hr : r.Trail R s)
    (hf : ∀ s t answer, f s = .ok (t,answer) → R s t)
    (hnext : ∀ t answer, f r.session = .ok (t,answer) → Run.Trail R s { r with session := t } →
      (next answer { r with session := t }).Trail R s) : (r.ask f next).Trail R s := by
  refine Run.onRunning_of (Run.Trail R s) _ r hr fun _ => ?_
  cases hquery : f r.session with
  | ok found =>
    exact hnext _ _ hquery (h.step hr rfl (hf _ found.1 found.2 hquery) hr.unfinished)
  | error e => exact h.step hr rfl (h.refl _) Outcome.noConfusion

theorem save (hr : r.Trail R s) (step : PipelineStep) : (r.save step).Trail R s := by
  refine Run.onRunning_of (Run.Trail R s) _ r hr fun _ =>
    ⟨⟨hr.session, fun y hy => ?_, ?_⟩, hr.unfinished⟩
  · rcases List.mem_append.mp hy with hy | hy
    · exact hr.saves y hy
    · rw [List.mem_singleton.mp hy]
      exact ⟨hr.session, h.refl _⟩
  · refine List.pairwise_append.mpr ⟨hr.order, List.pairwise_singleton _ _, fun y hy z hz => ?_⟩
    rw [List.mem_singleton.mp hz]
    exact (hr.saves y hy).2

theorem return_ (hr : r.Trail R s) : (r.return_ false).Trail R s :=
  Run.onRunning_of (Run.Trail R s) _ r hr fun _ =>
    h.step hr rfl (h.refl _) fun houtcome => Bool.noConfusion (Outcome.returned.inj houtcome)

theorem pointed {f : Stage ε} (hr : r.Trail R s) (hf : ∀ s t, f s = .ok t → R s t) :
    (r.pointed f).Trail R s := h.update (h.perform (h.update hr h.point) hf) h.point

/-- A stage between its points, and its checkpoint. -/
theorem pointedSave {f : Stage ε} (hr : r.Trail R s) (done : Bool) (step : PipelineStep)
    (hf : ∀ s t, f s = .ok t → R s t) :
    (r.unlessDone done fun r => (r.pointed f).save step).Trail R s :=
  hr.unlessDone done (h.save (h.pointed hr hf) step)

theorem performSave {f : Stage ε} (hr : r.Trail R s) (done : Bool) (step : PipelineStep)
    (hf : ∀ s t, f s = .ok t → R s t) :
    (r.unlessDone done fun r => (r.perform f).save step).Trail R s :=
  hr.unlessDone done (h.save (h.perform hr hf) step)

theorem requireIngest (hr : r.Trail R s) : (r.perform p.requireIngest).Trail R s := by
  refine h.perform hr fun s t ht => ?_
  unfold Stages.requireIngest at ht
  dsimp only at ht
  split_ifs at ht
  exact Except.ok.inj ht ▸ h.refl s

theorem fresh (hr : r.Trail R s)
    (hclear : R r.session { r.session with ratiosCache := .empty, iteration := none }) :
    (p.fresh r).Trail R s := by
  have hcleared : (r.update fun s => { s with ratiosCache := .empty, iteration := none }).Trail R s :=
    Run.onRunning_of (Run.Trail R s) _ r hr fun _ => h.step hr rfl hclear hr.unfinished
  unfold Stages.fresh
  refine h.ask hcleared h.checkVersion fun t version _ hr => ?_
  split_ifs
  · refine h.save (h.update (h.perform ?_ h.findEqualMatches) h.point) _
    exact h.perform (h.perform (h.requireIngest hr) h.equalDb) h.checkCallgraph
  · exact h.return_ hr

theorem start (resume : Option PipelineCursor) : (Run.start resume s).Trail R s :=
  ⟨⟨h.refl s, fun _ hy => absurd hy List.not_mem_nil, List.Pairwise.nil⟩, Outcome.noConfusion⟩

theorem entry (resume : Option PipelineCursor)
    (hclear : resume.isNone = true → R s { s with ratiosCache := .empty, iteration := none }) :
    (p.entry resume (Run.start resume s)).Trail R s := by
  unfold Stages.entry
  split_ifs with hresume
  · exact h.fresh (h.start resume) (hclear hresume)
  · exact h.requireIngest (h.start resume)

end Stages.FollowsIn

namespace Stages.Follows
variable {p : Stages ε} {n : Nat} {R : Session ε → Session ε → Prop} (h : p.Follows n R) {s : Session ε}
  {r : Run ε}
include h

theorem dirtyHeuristics (hr : r.Trail R s)
    (hprocessor : ∀ t same, p.sameProcessor r.session = .ok (t,same) →
      R t { t with flags := { t.flags with isSameProcessor := same } }) :
    (p.dirtyHeuristics r).Trail R s := by
  have hasked : (r.ask p.sameProcessor fun same r =>
      r.update fun s => { s with flags := { s.flags with isSameProcessor := same } }).Trail R s := by
    refine h.ask hr h.sameProcessor fun t same ht hr => ?_
    exact Run.onRunning_of (Run.Trail R s) _ _ hr fun _ =>
      h.step hr rfl (hprocessor t same ht) hr.unfinished
  have hprepared := h.update hasked h.prepared
  unfold Stages.dirtyHeuristics
  refine h.save ?_ _
  split_ifs
  · refine h.update (h.ask hprepared h.applyDirtyHeuristics fun t skip _ hr => ?_) h.point
    exact h.onRunning hr fun r => ⟨rfl, rfl, h.refl r.session⟩
  · exact hprepared

theorem opening {resume : Option PipelineCursor} (hs : p.Enters resume R s) :
    (p.opening resume (Run.start resume s)).Trail R s := by
  have hentry := h.entry resume hs.clear
  refine h.pointedSave ?_ _ _ h.findSameName
  unfold Stages.heuristics
  split_ifs with hdone
  · exact h.update hentry h.prepared
  · exact h.dirtyHeuristics hentry (hs.processor (Bool.eq_false_iff.mpr hdone))

/-- The head of an iteration and its first cleanup. -/
theorem iterationTop {l : LoopRun ε} (hl : l.run.Trail R s) (hn : l.iteration < n) :
    ((l.run.enter l.iteration).unlessDone (!l.pending .loopCleanupTop) Run.cleanupTop).Trail R s := by
  have henter : (l.run.enter l.iteration).Trail R s :=
    h.onRunning hl fun r => ⟨rfl, rfl, h.iteration r.session _ fun j hj => Option.some.inj hj ▸ hn⟩
  refine henter.unlessDone _ (h.save (h.onRunning (h.update henter fun s => h.cleanup s _) ?_) _)
  exact fun r => ⟨rfl, rfl, h.refl r.session⟩

theorem iterationSteps {l : LoopRun ε} (hl : l.run.Trail R s) (hn : l.iteration < n) :
    (p.iterationSteps l).Trail R s := by
  have hdiffing := h.pointedSave (h.iterationTop hl hn) (!l.pending .matchesDiffing) .matchesDiffing
    (h.findMatchesDiffing l.iteration)
  have hrelated := h.pointedSave hdiffing (!(p.slowHeuristics && l.pending .relatedMatches))
    .relatedMatches (h.findRelatedMatches l.iteration)
  have hunits := h.pointedSave hrelated (!l.pending .relatedCompilationUnit) .relatedCompilationUnit
    (h.findRelatedCompilationUnit l.iteration)
  have haffine := h.pointedSave hunits (!l.pending .locallyAffine) .locallyAffine
    (h.findLocallyAffineFunctions l.iteration)
  exact haffine.unlessDone (!l.pending .loopCleanupBottom)
    (h.save (h.update haffine fun s => h.cleanup s _) _)

theorem round {l : LoopRun ε} (hl : l.run.Trail R s) (hn : l.iteration < n) :
    (p.round l).run.Trail R s := by
  unfold Stages.round LoopRun.test
  split_ifs
  · exact h.iterationSteps hl hn
  · exact h.iterationSteps hl hn
  · exact hl

omit h in
theorem round_iteration (l : LoopRun ε) : (p.round l).iteration ≤ l.iteration+1 := by
  unfold Stages.round LoopRun.test
  split_ifs
  · exact Nat.le_succ _
  · exact le_rfl
  · exact Nat.le_succ _

omit h in
theorem loopStart_run (resume : Option PipelineCursor) (r : Run ε) :
    (Stages.loopStart resume r).run = r ∧
      (Stages.loopStart resume r).iteration ≤ (resume.getD {}).iteration := by
  unfold Stages.loopStart
  cases resume with
  | none => exact ⟨rfl, le_rfl⟩
  | some c =>
    dsimp only
    split_ifs
    · exact ⟨rfl, le_rfl⟩
    · exact ⟨rfl, Nat.zero_le _⟩

theorem convergenceLoop (hr : r.Trail R s) (rounds : Nat) (resume : Option PipelineCursor)
    (hn : (resume.getD {}).iteration+rounds ≤ n) :
    (p.convergenceLoop rounds resume r).run.Trail R s ∧
      (p.convergenceLoop rounds resume r).iteration ≤ (resume.getD {}).iteration+rounds := by
  obtain ⟨hrun, hstart⟩ := loopStart_run resume r
  unfold Stages.convergenceLoop
  induction rounds with
  | zero => exact ⟨hrun.symm ▸ hr, hstart⟩
  | succ rounds ih =>
    obtain ⟨htrail, hiteration⟩ := ih (by omega)
    rw [Function.iterate_succ_apply']
    have hnext := round_iteration (p := p) (p.round^[rounds] (Stages.loopStart resume r))
    exact ⟨h.round htrail (by omega), by omega⟩

theorem categories (hr : r.Trail R s) (resume : Option PipelineCursor) :
    (p.categories resume r).Trail R s :=
  h.performSave (h.performSave (h.performSave hr _ _ h.bestCategory) _ _ h.partialCategory) _ _
    h.smallDifferences

theorem beforeClosing (rounds : Nat) (resume : Option PipelineCursor)
    (hn : (resume.getD {}).iteration+rounds ≤ n) (hs : p.Enters resume R s) :
    (p.beforeClosing rounds resume s).Trail R s := by
  have hopened := h.opening hs
  unfold Stages.beforeClosing
  dsimp only
  split_ifs
  · exact h.pointedSave hopened _ _ h.findRemainingFunctions
  · exact h.categories hopened resume
  · exact (h.convergenceLoop (h.categories hopened resume) rounds resume hn).1

end Stages.Follows

namespace Stages.FollowsAll
variable {p : Stages ε} {n : Nat} {R : Session ε → Session ε → Prop} (h : p.FollowsAll n R)
    {s : Session ε}
  {r : Run ε}
include h

theorem closed (hr : r.Trail R s) (resume : Option PipelineCursor) : (p.closed resume r).Trail R s := by
  have hleft : r.leaveLoop.Trail R s := h.toFollows.onRunning hr fun r =>
    ⟨rfl, rfl, h.iteration r.session _ fun _ hj => absurd hj (Option.not_mem_none _)⟩
  have hfinal := h.toFollows.pointedSave hleft (isDone resume .finalPass) .finalPass h.finalPass
  have hunmatched := h.toFollows.update (h.toFollows.perform hfinal h.findUnmatched) h.point
  unfold Stages.closed
  apply hfinal.unlessDone
  exact h.toFollows.save hunmatched .findUnmatched

/-- Whatever a run saves, it comes by on its way, and it comes by it in this order. -/
theorem runPipeline (rounds : Nat) (resume : Option PipelineCursor)
    (hn : (resume.getD {}).iteration+rounds ≤ n) (hs : p.Enters resume R s) :
    (p.runPipeline rounds resume s).Path R s := by
  have hbefore := h.toFollows.beforeClosing rounds resume hn hs
  rcases p.runPipeline_closing rounds resume s with heq | heq
  · rw [heq]
    exact (h.closed hbefore resume).toPath.finish
  · rw [heq]
    exact hbefore.toPath

end Stages.FollowsAll

/-- A part of the session that `diff()` itself does not write. -/
structure Untouched {α : Type} (p : Stages ε) (get : Session ε → α) : Prop where
  point : ∀ s : Session ε, get s.point = get s
  cleanup : ∀ (s : Session ε) site, get (s.cleanup site) = get s
  flags : ∀ (s : Session ε) f, get { s with flags := f } = get s
  prepared : ∀ s, get (p.prepared s) = get s

namespace Stages
variable {α : Type} {p : Stages ε} {get : Session ε → α}

/-- What the stages leave alone is related as the iterations are. -/
theorem Leave.follows (h : p.Leave get) (hget : Untouched p get) {n : Nat}
    {R : Session ε → Session ε → Prop} (hsame : ∀ s t, get t = get s → R s t)
    (htrans : ∀ s t u, R s t → R t u → R s u)
    (hiteration : ∀ s k, (∀ j ∈ k, j < n) → R s { s with iteration := k }) : p.Follows n R := by
  have hquery {f : Query ε} (hf : Keeps get f.stage) (s t : Session ε) (answer : Bool)
      (hst : f s = .ok (t,answer)) : R s t := by
    refine hsame s t (hf s t ?_)
    rw [Query.stage, hst]
    rfl
  have hstage {f : Stage ε} (hf : Keeps get f) (s t : Session ε) (hst : f s = .ok t) : R s t :=
    hsame s t (hf s t hst)
  exact {
    refl := fun s => hsame s s rfl
    trans := htrans
    point := fun s => hsame s _ (hget.point s)
    cleanup := fun s site => hsame s _ (hget.cleanup s site)
    iteration := hiteration
    prepared := fun s => hsame s _ (hget.prepared s)
    checkVersion := hquery h.checkVersion
    equalDb := hstage h.equalDb
    checkCallgraph := hstage h.checkCallgraph
    findEqualMatches := hstage h.findEqualMatches
    sameProcessor := hquery h.sameProcessor
    applyDirtyHeuristics := hquery h.applyDirtyHeuristics
    findSameName := hstage h.findSameName
    findRemainingFunctions := hstage h.findRemainingFunctions
    bestCategory := hstage h.bestCategory
    partialCategory := hstage h.partialCategory
    smallDifferences := hstage h.smallDifferences
    findMatchesDiffing := fun k => hstage (h.findMatchesDiffing k)
    findRelatedMatches := fun k => hstage (h.findRelatedMatches k)
    findRelatedCompilationUnit := fun k => hstage (h.findRelatedCompilationUnit k)
    findLocallyAffineFunctions := fun k => hstage (h.findLocallyAffineFunctions k) }

/-- So is what a run sets on its way in, where the cleared cache is. -/
theorem Leave.enters (hget : Untouched p get) {resume : Option PipelineCursor}
    {R : Session ε → Session ε → Prop} {s : Session ε} (hsame : ∀ s t, get t = get s → R s t)
    (hclear : resume.isNone = true → R s { s with ratiosCache := .empty, iteration := none }) :
    p.Enters resume R s where
  clear := hclear
  processor _ t _ _ := hsame t _ (hget.flags t _)

variable {rounds : Nat} {s : Session ε}

/-- A session in an iteration below a number, or in none. -/
def Below (n : Nat) (s : Session ε) : Prop := ∀ k ∈ s.iteration, k < n

/-- Every checkpoint of a fresh run was saved in one of its iterations, or in none. -/
theorem Confined.saves_below (hc : p.Confined) (rounds : Nat) {s : Session ε} (hs : Below rounds s) :
    ∀ y ∈ (p.runPipeline rounds none s).saves, Below rounds y.2 := by
  have hsame (s t : Session ε) (hst : t.iteration = s.iteration) : Below rounds s → Below rounds t :=
    fun hs => by rwa [Below, hst]
  have hget : Untouched p Session.iteration :=
    ⟨fun _ => rfl, fun _ _ => rfl, fun _ _ => rfl, fun _ => rfl⟩
  have hearly := hc.iteration.follows hget (R := fun s t => Below rounds s → Below rounds t) hsame
    (fun _ _ _ hst htu hs => htu (hst hs)) fun _ _ hk _ => hk
  have hfollows : p.FollowsAll rounds fun s t => Below rounds s → Below rounds t :=
    { hearly with
      finalPass := fun s t hst => hsame s t (hc.finalPass_iteration s t hst)
      findUnmatched := fun s t hst => hsame s t (hc.findUnmatched_iteration s t hst) }
  have hpath := hfollows.runPipeline (s := s) rounds none (Nat.zero_add rounds).le <|
    Leave.enters hget hsame fun _ _ k hk => absurd hk (Option.not_mem_none k)
  exact fun y hy => (hpath.saves y hy).1 hs

/-- A fresh run has no results in front of its final pass. -/
theorem Confined.beforeClosing_final (hc : p.Confined) (rounds : Nat) (s : Session ε) :
    (p.beforeClosing rounds none s).session.final = s.final := by
  have hget : Untouched p Session.final :=
    ⟨fun _ => rfl, fun _ _ => rfl, fun _ _ => rfl, fun _ => rfl⟩
  have hfollows := hc.results.follows (n := rounds) hget (R := fun s t => t.final = s.final)
    (fun _ _ h => h) (fun _ _ _ hst htu => htu.trans hst) fun _ _ _ => rfl
  exact (hfollows.beforeClosing (s := s) rounds none (Nat.zero_add rounds).le <|
    Leave.enters hget (fun _ _ h => h) fun _ => rfl).session

theorem update_running {r : Run ε} {g : Session ε → Session ε} (h : (r.update g).outcome = .running) :
    r.outcome = .running ∧ (r.update g).session = g r.session := by
  have hr : r.outcome = .running := by
    rwa [Run.update_outcome] at h
  exact ⟨hr, congrArg Run.session (Run.onRunning_running _ r hr)⟩

/-- A stage between its points that a running run is left running by. -/
theorem pointed_session {r : Run ε} {f : Stage ε} (h : (r.pointed f).outcome = .running) :
    ∃ t, f r.session.point = .ok t ∧ (r.pointed f).session = t.point := by
  obtain ⟨hperform, hbehind⟩ := update_running h
  obtain ⟨hpoint, hstage⟩ := Run.perform_running _ f hperform
  rw [(update_running hpoint).2] at hstage
  exact ⟨_, hstage, hbehind⟩

theorem closed_running {r : Run ε} (h : (p.closed none r).outcome = .running) :
    ∃ t u, p.finalPass ({ r.session with iteration := none }).point = .ok t ∧
      p.findUnmatched t.point = .ok u ∧ (p.closed none r).session = u.point := by
  have hdef : p.closed none r =
      ((((r.leaveLoop.pointed p.finalPass).save .finalPass).perform p.findUnmatched).update
        Session.point).save .findUnmatched := rfl
  rw [hdef, Run.save_outcome] at h
  rw [hdef, Run.save_session]
  obtain ⟨hperform, hsession⟩ := update_running h
  obtain ⟨hfinal, hunmatched⟩ := Run.perform_running _ _ hperform
  rw [Run.save_outcome] at hfinal
  rw [Run.save_session] at hunmatched
  obtain ⟨t, hpass, hpassed⟩ := pointed_session hfinal
  have hsessions : r.leaveLoop.session = { r.session with iteration := none } :=
    congrArg Run.session (Run.onRunning_running _ r (running_of_onRunning (pointed_running hfinal)))
  rw [hsessions] at hpass
  rw [hpassed] at hunmatched
  exact ⟨t, _, hpass, hunmatched, hsession⟩

/-- A run that has come to its end has gone through the final pass and found what is unmatched. -/
theorem runPipeline_returned (h : (p.runPipeline rounds none s).outcome = .returned true) :
    let r := (p.beforeClosing rounds none s).session
    ∃ t u, p.finalPass ({ r with iteration := none }).point = .ok t ∧ p.findUnmatched t.point = .ok u ∧
      (p.runPipeline rounds none s).session = u.point := by
  have htrivial : p.FollowsAll rounds fun _ _ => True := by
    constructor
    · constructor
      · constructor <;> intros <;> trivial
      all_goals intros; trivial
    · intros
      trivial
    · intros
      trivial
  have hbefore := htrivial.toFollows.beforeClosing (s := s) rounds none (Nat.zero_add rounds).le
    ⟨fun _ => True.intro, fun _ _ _ _ => True.intro⟩
  rcases p.runPipeline_closing rounds none s with heq | heq
  · have hclosed := htrivial.closed hbefore none
    have hsession : (p.runPipeline rounds none s).session =
        (p.closed none (p.beforeClosing rounds none s)).session := by
      rw [heq]
      exact Run.finish_session _
    have hrunning : (p.closed none (p.beforeClosing rounds none s)).outcome = .running := by
      by_contra hended
      have hkept : (p.closed none (p.beforeClosing rounds none s)).finish =
          p.closed none (p.beforeClosing rounds none s) := Run.finish_self hended
      rw [heq, Stages.closing, hkept] at h
      exact hclosed.unfinished h
    rw [hsession]
    exact closed_running hrunning
  · rw [heq] at h
    exact absurd h hbefore.unfinished

end Stages

end DSigMatcher.Pipeline
