import DSigMatcher.Pipeline.Restored
import DSigMatcher.Pipeline.Resumed
import DSigMatcher.Pipeline.RoundTrip

namespace DSigMatcher.Pipeline
open DSigMatcher.Base DSigMatcher.Framework DSigMatcher.Diff DSigMatcher.Checkpoint

section
variable {ε : Type} (p : Stages ε) (rounds : Nat) (exports : Exports) (s : Session ε)

/-- The runs of a pipeline that may have been interrupted, any number of times, and resumed each time
from one of their checkpoints in a session without results. -/
inductive Interrupted : Run ε → Prop
  | fresh : Interrupted (p.runPipeline rounds none s)
  | resumed (r : Run ε) (hr : Interrupted r) (y : PipelineCursor × Session ε) (hy : y ∈ r.saves)
      (hnone : NoNone y.2) (binding : CheckpointBinding)
      (walk : List (Option Text × Option Text) → List (Option Text × Option Text))
      (hwalk : ∀ pairs, (walk pairs).Perm pairs) (fresh : Session ε) (hfresh : fresh.final = {})
      (t : Session ε)
      (ht : restoreCheckpoint exports fresh (captureCheckpoint exports binding walk y.2 y.1)
        (capture_fits exports binding walk y.2 y.1) = .ok t) :
      Interrupted (p.runPipeline rounds (some y.1) t)

variable {p rounds exports s} (hp : p.Determined) (hc : p.Confined) (hs : s.final = {})
include hp hc hs

/-- A checkpoint of a run that does as the fresh one carries what that one would carry. -/
theorem Sim.complete {r : Run ε} (h : Sim r (p.runPipeline rounds none s))
    {y : PipelineCursor × Session ε} (hy : y ∈ r.saves) :
    Complete y ∧ ∃ z, SavePoint p rounds s z ∧ SameSave y z := by
  obtain ⟨z, hz, hsame⟩ := h.saves y hy
  have hpoint := Stages.savePoint hp hz
  have hcomplete := hpoint.complete hc hs
  refine ⟨⟨fun hlt => ?_, fun hlt => ?_⟩, z, hpoint, hsame⟩
  · rw [hsame.2.final]
    exact hcomplete.choosers (hsame.1 ▸ hlt)
  · rw [Session.unmatched, hsame.2.final]
    exact hcomplete.unmatched (hsame.1 ▸ hlt)

theorem Sim.resumed (hend : (p.runPipeline rounds none s).outcome ≠ .running) {r : Run ε}
    (h : Sim r (p.runPipeline rounds none s)) {y : PipelineCursor × Session ε} (hy : y ∈ r.saves)
    {t : Session ε} (ht : Agree t y.2) :
    Sim (p.runPipeline rounds (some y.1) t) (p.runPipeline rounds none s) := by
  obtain ⟨-, z, hpoint, hcursor, hagree⟩ := h.complete hp hc hs hy
  rw [hcursor]
  exact Stages.resume_sim hp hc hpoint hend (ht.trans hagree)

/-- What is restored from a checkpoint agrees with what was saved. -/
theorem Sim.restored {r : Run ε} (h : Sim r (p.runPipeline rounds none s))
    {y : PipelineCursor × Session ε} (hy : y ∈ r.saves) (hnone : NoNone y.2)
    (binding : CheckpointBinding)
    {walk : List (Option Text × Option Text) → List (Option Text × Option Text)}
    (hwalk : ∀ pairs, (walk pairs).Perm pairs) {fresh t : Session ε} (hfresh : fresh.final = {})
    (ht : restoreCheckpoint exports fresh (captureCheckpoint exports binding walk y.2 y.1)
      (capture_fits exports binding walk y.2 y.1) = .ok t) : Agree t y.2 := by
  obtain ⟨t₀, hrestored, hagree⟩ := restore_capture exports binding walk hwalk hnone
    (h.complete hp hc hs hy).1 fresh hfresh
  obtain ⟨-, -, hok⟩ := bind_eq_ok.mp (hrestored.symm.trans ht)
  rwa [← Except.ok.inj hok]

theorem Interrupted.sim (hend : (p.runPipeline rounds none s).outcome ≠ .running) {r : Run ε}
    (h : Interrupted p rounds exports s r) : Sim r (p.runPipeline rounds none s) := by
  induction h with
  | fresh => exact .refl _
  | resumed r hr y hy hnone binding walk hwalk fresh hfresh t ht ih =>
    exact ih.resumed hp hc hs hend hy (ih.restored hp hc hs hy hnone binding hwalk hfresh ht)

end

/-- Resume equals the uninterrupted run: from whichever of its checkpoints a run is resumed, and however
often it has been interrupted before, it ends as the run that was never interrupted, with the same
matches in the same order, dictionaries, ratio cache and results; and a checkpoint of a session over
the exports can be restored. -/
theorem resume_uninterrupted {ε : Type} (p : Stages ε) (hp : p.Determined) (hc : p.Confined)
    (rounds : Nat) (s : Session ε) (hs : s.final = {})
    (hend : (p.runPipeline rounds none s).outcome ≠ .running) (exports : Exports)
    (binding : CheckpointBinding)
    (walk : List (Option Text × Option Text) → List (Option Text × Option Text))
    (hwalk : ∀ pairs, (walk pairs).Perm pairs) (fresh : Session ε) (hfresh : fresh.final = {}) :
    ∀ r, Interrupted p rounds exports s r → ∀ y ∈ r.saves, NoNone y.2 →
      let c := captureCheckpoint exports binding walk y.2 y.1
      let restored := restoreCheckpoint exports fresh c (capture_fits exports binding walk y.2 y.1)
      (Belongs exports y.2 → ∃ t, restored = .ok t) ∧
      ∀ t, restored = .ok t →
        (p.runPipeline rounds (some c.cursor) t).outcome = (p.runPipeline rounds none s).outcome ∧
        Agree (p.runPipeline rounds (some c.cursor) t).session (p.runPipeline rounds none s).session := by
  intro r hr y hy hnone c restored
  have hsim := hr.sim hp hc hs hend
  refine ⟨fun hbelongs => ?_, fun t ht => ?_⟩
  · obtain ⟨t, hrestored, -⟩ := restore_capture exports binding walk hwalk hnone
      (hsim.complete hp hc hs hy).1 fresh hfresh
    exact ⟨t, hrestored.trans (by rw [check_capture binding walk hbelongs, ok_bind])⟩
  · have hresumed := hsim.resumed hp hc hs hend hy
      (hsim.restored hp hc hs hy hnone binding hwalk hfresh ht)
    exact ⟨hresumed.outcome, hresumed.session⟩

theorem sampleMatch_stored : ItemStored sampleMatch :=
  ⟨⟨by decide, by decide⟩, ⟨by decide, by decide⟩⟩

/-- Stages that find one match and hand it over in the final pass. -/
def handingStages : Stages Unit :=
  { Stages.idle with
    findEqualMatches := fun s => .ok (s.appendBest sampleMatch sampleMatch_stored)
    finalPass := fun s => .ok { s with
      final := { s.final with choosers := { s.final.choosers with best := s.matchState.best } } } }

theorem handingStages_determined : handingStages.Determined := by
  have hidle : DeterminedStage (Except.ok : Stage Unit) := fun s t h => .inl ⟨s, t, rfl, rfl, h⟩
  have hanswer (answer : Bool) : DeterminedQuery fun s : Session Unit => .ok (s,answer) :=
    fun s t h => .inl ⟨(s,answer), (t,answer), rfl, rfl, h, rfl⟩
  have hpass : DeterminedStage handingStages.finalPass := by
    intro s t h
    refine .inl ⟨_, _, rfl, rfl, { h with final := ?_ }⟩
    dsimp only
    rw [h.final, h.matchState]
  exact ⟨hanswer true, hanswer false, hidle, hidle, hidle, hidle, hidle, fun _ => hidle,
    fun _ => hidle, fun _ => hidle, fun _ => hidle, hpass, hidle⟩

theorem handingStages_leave {α : Type} (get : Session Unit → α)
    (hget : ∀ s, get (s.appendBest sampleMatch sampleMatch_stored) = get s) :
    handingStages.Leave get := by
  have hidle : Keeps get (Except.ok : Stage Unit) := by
    intro s t hst
    rw [Except.ok.inj hst]
  have hanswer (answer : Bool) : Keeps get (Query.stage fun s => .ok (s,answer)) := by
    intro s t hst
    rw [show s = t from Except.ok.inj hst]
  have hfind : Keeps get handingStages.findEqualMatches := by
    intro s t hst
    rw [← Except.ok.inj hst]
    exact hget s
  exact ⟨hanswer true, hidle, hidle, hfind, hanswer true, hanswer false, hidle, hidle, hidle, hidle,
    hidle, fun _ => hidle, fun _ => hidle, fun _ => hidle, fun _ => hidle⟩

theorem handingStages_confined : handingStages.Confined := by
  have happend {α : Type} (get : Session Unit → α) (s : Session Unit)
      (hget : ∀ st hst, get { s with matchState := st, stored := hst } = get s) :
      get (s.appendBest sampleMatch sampleMatch_stored) = get s := by
    rw [Session.appendBest]
    split_ifs
    · exact hget _ _
    · rfl
  refine ⟨handingStages_leave _ fun s => happend _ s fun _ _ => rfl,
    handingStages_leave _ fun s => happend _ s fun _ _ => rfl, ?_, ?_, ?_⟩
  · intro s t hst
    rw [← Except.ok.inj hst]
  · intro s t hst
    rw [← Except.ok.inj hst]
    rfl
  · intro s t hst
    rw [Except.ok.inj hst]

def sampleExports : Exports :=
  ⟨⟨text "old.sqlite", [text "4096"]⟩, ⟨text "new.sqlite", [text "8192"]⟩, text "old-new", text "1.0"⟩

/-- Resumed in the middle of the loop's first iteration. -/
theorem resume_uninterrupted_sample :
    ∃ y ∈ (handingStages.runPipeline 1 none emptySession).saves, y.1.done = .relatedMatches ∧
      ∃ t, restoreCheckpoint sampleExports emptySession
          (captureCheckpoint sampleExports (emptyCheckpoint y.1).binding List.reverse y.2 y.1)
          (capture_fits sampleExports (emptyCheckpoint y.1).binding List.reverse y.2 y.1) = .ok t ∧
        (handingStages.runPipeline 1 (some y.1) t).session.final.choosers.best = [sampleMatch] := by
  obtain ⟨y, hy, hdone, hbest, hpartials, hunreliable, hfinal, hiteration, htotals⟩ :
      ∃ y ∈ (handingStages.runPipeline 1 none emptySession).saves, y.1.done = .relatedMatches ∧
        y.2.matchState.best = [sampleMatch] ∧ y.2.matchState.partials = [] ∧
        y.2.matchState.unreliable = [] ∧ y.2.final = {} ∧ y.2.iteration = some 0 ∧
        y.2.matchState.total1 = 0 ∧ y.2.matchState.total2 = 0 := by decide
  have hitems {P : Item → Prop} (hsample : P sampleMatch) : OverItems P y.2 := by
    constructor <;> simp [hbest, hpartials, hunreliable, hfinal, hsample]
  have hnone : NoNone y.2 :=
    ⟨hitems ⟨rfl, rfl, sampleMatch_stored⟩, by simp [hfinal], by simp [hfinal], by simp [hiteration]⟩
  have hbelongs : Belongs sampleExports y.2 :=
    ⟨hitems ⟨by decide, by decide⟩, by simp [UnmatchedOf, hfinal], by simp [UnmatchedOf, hfinal],
      .inl htotals.1, .inl htotals.2⟩
  have h := resume_uninterrupted handingStages handingStages_determined handingStages_confined 1
    emptySession rfl (by decide) sampleExports (emptyCheckpoint y.1).binding List.reverse
    List.reverse_perm emptySession rfl _ .fresh y hy hnone
  obtain ⟨t, ht⟩ := h.1 hbelongs
  refine ⟨y, hy, hdone, t, ht, ?_⟩
  rw [show (handingStages.runPipeline 1 (some y.1) t).session.final =
    (handingStages.runPipeline 1 none emptySession).session.final from (h.2 t ht).2.final]
  decide

end DSigMatcher.Pipeline
