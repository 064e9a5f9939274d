import DSigMatcher.Framework.Stations
import DSigMatcher.Pipeline.Simulation

namespace DSigMatcher.Pipeline
open DSigMatcher.Base DSigMatcher.Framework DSigMatcher.Diff DSigMatcher.Checkpoint

variable {ε : Type}

/-- The run right behind a checkpoint. -/
structure SavedAt (y : PipelineCursor × Session ε) (r : Run ε) : Prop where
  cursor : r.cursor = y.1
  session : r.session = y.2
  outcome : r.outcome = .running

abbrev Step (ε : Type) := PipelineStep × (Run ε → Run ε)

/-- A step that ends with its checkpoint. -/
def saving (step : PipelineStep) (f : Run ε → Run ε) : Step ε := (step,fun r => (f r).save step)

/-- What comes of a step is determined by what a checkpoint carries, and it saves one checkpoint of
where it ends. It does not set a run going that has ended. -/
structure Resumable (x : Step ε) : Prop where
  sim : ∀ r q, Sim r q → Sim (x.2 r) (x.2 q)
  saves : ∀ r y, y ∈ (x.2 r).saves → y ∈ r.saves ∨ (SavedAt y (x.2 r) ∧ y.1.done = x.1)
  running : ∀ r, (x.2 r).outcome = .running → r.outcome = .running

theorem mem_save {r : Run ε} {step : PipelineStep} {y : PipelineCursor × Session ε}
    (h : y ∈ (r.save step).saves) : y ∈ r.saves ∨ (SavedAt y (r.save step) ∧ y.1.done = step) := by
  by_cases hr : r.outcome = .running
  · rw [Run.save, Run.onRunning_running _ r hr] at h ⊢
    rcases List.mem_append.mp h with h | h
    · exact .inl h
    · rw [List.mem_singleton.mp h]
      exact .inr ⟨⟨rfl, rfl, hr⟩, rfl⟩
  · rw [Run.save, Run.onRunning_ended _ r hr] at h
    exact .inl h

/-- A guarded step does not set a run going that has ended. -/
theorem running_of_onRunning {r : Run ε} {f : Run ε → Run ε}
    (h : (r.onRunning f).outcome = .running) : r.outcome = .running := by
  by_contra hr
  rw [Run.onRunning_ended f r hr] at h
  exact hr h

theorem saving_resumable {step : PipelineStep} {f : Run ε → Run ε}
    (hsim : ∀ r q, Sim r q → Sim (f r) (f q)) (hsaves : ∀ r, (f r).saves = r.saves)
    (hrunning : ∀ r, (f r).outcome = .running → r.outcome = .running) :
    Resumable (saving step f) where
  sim := fun r q h => (hsim r q h).save step
  saves := fun r _ hy => hsaves r ▸ mem_save hy
  running := fun r h => hrunning r (running_of_onRunning h)

theorem pointed_running {r : Run ε} {f : Stage ε} (h : (r.pointed f).outcome = .running) :
    r.outcome = .running :=
  running_of_onRunning (running_of_onRunning (running_of_onRunning h))

theorem pointed_resumable {f : Stage ε} (hf : DeterminedStage f) (step : PipelineStep) :
    Resumable (saving step fun r => r.pointed f) :=
  saving_resumable (fun _ _ h => h.pointed hf) (fun r => Run.pointed_saves r f)
    fun _ h => pointed_running h

theorem perform_resumable {f : Stage ε} (hf : DeterminedStage f) (step : PipelineStep) :
    Resumable (saving step fun r => r.perform f) :=
  saving_resumable (fun _ _ h => h.perform hf) (fun r => Run.perform_saves r f)
    fun _ h => running_of_onRunning h

/-- The step of a checkpoint is behind, and so are those before it. -/
theorem isDone_some (c : PipelineCursor) (step : PipelineStep) :
    Stages.isDone (some c) step = decide (step.rank ≤ c.done.rank) := rfl

/-- A checkpoint of one of the steps, saved where the step ends. -/
def SavedIn (xs : List (Step ε)) (r : Run ε) (y : PipelineCursor × Session ε) : Prop :=
  ∃ u, (y.1.done,u) ∈ stations xs r ∧ SavedAt y u

section
variable {xs : List (Step ε)} {r q : Run ε} {y : PipelineCursor × Session ε}

/-- A checkpoint that is new among those of a run of steps was saved at one of their stations. -/
theorem mem_saves (hxs : ∀ x ∈ xs, Resumable x) (hy : y ∈ (performAll xs r).saves) :
    y ∈ r.saves ∨ SavedIn xs r y := by
  induction xs generalizing r with
  | nil => exact .inl hy
  | cons x xs ih =>
    rw [List.forall_mem_cons] at hxs
    rcases ih hxs.2 hy with hy | ⟨u, hu, hsaved⟩
    · rcases hxs.1.saves r y hy with hy | ⟨hsaved, hstep⟩
      · exact .inl hy
      · exact .inr ⟨x.2 r, by rw [hstep]; exact List.mem_cons_self, hsaved⟩
    · exact .inr ⟨u, List.mem_cons_of_mem _ hu, hsaved⟩

/-- Resumed behind a checkpoint, the steps that are left end like all of them. -/
theorem resume_steps (hxs : ∀ x ∈ xs, Resumable x)
    (hsorted : xs.Pairwise fun x y => x.1.rank < y.1.rank) {u : Run ε}
    (hu : (y.1.done,u) ∈ stations xs r) (hq : Sim q u) :
    Sim (performUnless (Stages.isDone (some y.1)) xs q) (performAll xs r) :=
  resume_at_station (fun x hx => (hxs x hx).sim) hsorted hu hq

/-- A session that agrees with the one saved, in a run at the same place. -/
theorem SavedAt.sim {u : Run ε} (h : SavedAt y u) {t : Session ε} (ht : Agree t y.2) :
    Sim ⟨t, y.1, [], .running⟩ u :=
  ⟨h.session ▸ ht, h.cursor.symm, h.outcome.symm, fun _ hz => absurd hz List.not_mem_nil⟩

end

theorem perform_ok {r : Run ε} {f : Stage ε} {s : Session ε} (hr : r.outcome = .running)
    (hf : f r.session = .ok s) : r.perform f = { r with session := s } := by
  rw [Run.perform, Run.onRunning_running _ r hr, hf]

/-- A query goes on with its answer, or raises; a run that has ended asks nothing. -/
theorem ask_cases (r : Run ε) (f : Query ε) (next : Bool → Run ε → Run ε) :
    (r.outcome ≠ .running ∧ r.ask f next = r) ∨ (∃ s answer, f r.session = .ok (s,answer) ∧
      r.ask f next = next answer { r with session := s }) ∨
      ∃ e, r.ask f next = { r with outcome := .raised e } := by
  by_cases hr : r.outcome = .running
  · rw [Run.ask, Run.onRunning_running _ r hr]
    cases hf : f r.session with
    | error e => exact .inr (.inr ⟨e, rfl⟩)
    | ok x => exact .inr (.inl ⟨x.1, x.2, rfl, rfl⟩)
  · exact .inl ⟨hr, Run.onRunning_ended _ r hr⟩

theorem ask_saves (f : Query ε) (next : Bool → Run ε → Run ε)
    (hnext : ∀ answer r, (next answer r).saves = r.saves) (r : Run ε) :
    (r.ask f next).saves = r.saves := by
  rcases ask_cases r f next with ⟨-, h⟩ | ⟨s, answer, -, h⟩ | ⟨e, h⟩
  · rw [h]
  · rw [h, hnext]
  · rw [h]

/-- A run that saves a checkpoint was running before. -/
theorem SavedIn.running {xs : List (Step ε)} {r : Run ε} {y : PipelineCursor × Session ε}
    (hxs : ∀ x ∈ xs, Resumable x) (h : SavedIn xs r y) : r.outcome = .running := by
  obtain ⟨u, hu, hsaved⟩ := h
  by_contra hr
  have hended : u.outcome ≠ .running := station_invariant (P := fun v => v.outcome ≠ .running)
    (fun x hx v hv h => hv ((hxs x hx).running v h)) hr hu
  exact hended hsaved.outcome

theorem running_of_performAll {xs : List (Step ε)} {r : Run ε} (hxs : ∀ x ∈ xs, Resumable x)
    (hrunning : (performAll xs r).outcome = .running) : r.outcome = .running := by
  by_contra hr
  exact performAll_invariant (P := fun v => v.outcome ≠ .running)
    (fun x hx v hv h => hv ((hxs x hx).running v h)) hr hrunning

/-- A part of the session a stage leaves alone. -/
def Keeps {α : Type} (get : Session ε → α) (f : Stage ε) : Prop :=
  ∀ s t, f s = .ok t → get t = get s

theorem Keeps.perform {α : Type} {get : Session ε → α} {f : Stage ε} (hf : Keeps get f) (r : Run ε) :
    get (r.perform f).session = get r.session := by
  refine Run.onRunning_of (fun t => get t.session = get r.session) _ r rfl fun _ => ?_
  cases hs : f r.session with
  | ok s => exact hf r.session s hs
  | error e => rfl

theorem Keeps.pointed {α : Type} {get : Session ε → α} {f : Stage ε} (hf : Keeps get f)
    (hpoint : ∀ s, get s.point = get s) (r : Run ε) :
    get (r.pointed f).session = get r.session := by
  have hupdate (r : Run ε) : get (r.update Session.point).session = get r.session :=
    Run.onRunning_of (fun t => get t.session = get r.session) _ r rfl fun _ => hpoint r.session
  rw [Run.pointed, hupdate, hf.perform, hupdate]

end DSigMatcher.Pipeline
