import DSigMatcher.Json.Fields

namespace DSigMatcher.Checkpoint
open DSigMatcher.Base DSigMatcher.Json
open DSigMatcher.Framework (ok_bind)

/-- The completed top-level stages of `diff()`, in execution order. -/
inductive PipelineStep
  | none
  | equalMatches
  | dirtyHeuristics
  | sameName
  | remainingFunctions
  | bestCategory
  | partialCategory
  | smallDifferences
  | loopCleanupTop
  | matchesDiffing
  | relatedMatches
  | relatedCompilationUnit
  | locallyAffine
  | loopCleanupBottom
  | finalPass
  | findUnmatched
  deriving DecidableEq

namespace PipelineStep

/-- `kStepNames`. -/
def names : List (PipelineStep × Text) :=
  [(none,text "none"), (equalMatches,text "find_equal_matches"),
    (dirtyHeuristics,text "apply_dirty_heuristics"), (sameName,text "find_same_name"),
    (remainingFunctions,text "find_remaining_functions"),
    (bestCategory,text "run_heuristics_for_category:Best"),
    (partialCategory,text "run_heuristics_for_category:Partial"),
    (smallDifferences,text "search_small_differences"), (loopCleanupTop,text "cleanup:3655"),
    (matchesDiffing,text "find_matches_diffing"), (relatedMatches,text "find_related_matches"),
    (relatedCompilationUnit,text "find_related_compilation_unit"),
    (locallyAffine,text "find_locally_affine_functions"), (loopCleanupBottom,text "cleanup:3671"),
    (finalPass,text "final_pass"), (findUnmatched,text "find_unmatched")]

/-- The position in execution order, as the enumerators are compared. -/
def rank (step : PipelineStep) : Nat := step.ctorIdx

/-- `PipelineStepName`. -/
def name (step : PipelineStep) : Text :=
  match names.find? fun entry => entry.1 = step with
  | some entry => entry.2
  | Option.none => text "unknown"

/-- `PipelineStepFromName`. -/
def fromName (t : Text) : Option PipelineStep :=
  (names.find? fun entry => entry.2 = t).map Prod.fst

theorem fromName_name (step : PipelineStep) : fromName step.name = some step := by
  cases step <;> decide

def isLoopStep (step : PipelineStep) : Bool :=
  loopCleanupTop.rank ≤ step.rank && step.rank ≤ loopCleanupBottom.rank

end PipelineStep

/-- Where `diff()` stands after a completed step. -/
structure PipelineCursor where
  done : PipelineStep := .none
  iteration : Nat := 0
  skipOthers : Bool := false
  oldTotal : Int64 := 0
  deriving DecidableEq

namespace PipelineCursor

/-- Only cursors `diff()` can reach. -/
def consistent (c : PipelineCursor) : Bool :=
  let categories := PipelineStep.bestCategory.rank ≤ c.done.rank &&
    c.done.rank ≤ PipelineStep.loopCleanupBottom.rank
  !(c.skipOthers && (c.done.rank < PipelineStep.dirtyHeuristics.rank || categories)) &&
    !(!c.skipOthers && c.done = .remainingFunctions) &&
    (c.done.isLoopStep || c.iteration = 0) && 0 ≤ c.oldTotal

/-- The members `CursorToJson` adds to an object. -/
def members (c : PipelineCursor) : List (Text × JsonValue) :=
  [(text "done",.string c.done.name), (text "iteration",.int (Int64.ofNat c.iteration)),
    (text "skip_others",.bool c.skipOthers), (text "old_total",.int c.oldTotal)]

def notReached (done : Text) (iteration : Nat) (skipOthers : Bool) : Text :=
  text "a stage diff() never reaches (done \"" ++ done ++ text "\", iteration " ++
    decimal iteration ++ text ", skip_others " ++ (if skipOthers then text "true" else text "false")
    ++ text ")"

/-- `CursorFromJson`. -/
def fromJson (v : JsonValue) (place : Text) : Except JsonError PipelineCursor := do
  let done ← field v "done" place JsonValue.asString
  match (PipelineStep.fromName done).filter fun step => step ≠ .none with
  | none =>
    .error { detail := text "unknown stage \"" ++ done ++ text "\"",
             path := memberPath place (text "done") }
  | some step =>
    let iteration ← field v "iteration" place JsonValue.asInt64
    require (0 ≤ iteration.toInt && iteration.toInt ≤ 1000000) "iteration out of range"
      (memberPath place (text "iteration"))
    let skipOthers ← field v "skip_others" place JsonValue.asBool
    let oldTotal ← field v "old_total" place JsonValue.asInt64
    let c : PipelineCursor := ⟨step, iteration.toInt.toNat, skipOthers, oldTotal⟩
    if !c.consistent then
      .error { detail := notReached done c.iteration skipOthers, path := rootPath place }
    else .ok c

/-- The cursors a reader accepts. -/
structure Readable (c : PipelineCursor) : Prop where
  step : c.done ≠ .none
  iteration : c.iteration ≤ 1000000
  consistent : c.consistent = true

instance (c : PipelineCursor) : Decidable c.Readable :=
  decidable_of_iff (c.done ≠ .none ∧ c.iteration ≤ 1000000 ∧ c.consistent = true)
    ⟨fun h => ⟨h.1, h.2.1, h.2.2⟩, fun h => ⟨h.1, h.2, h.3⟩⟩

/-- An object that has the members of a readable cursor gives it back. -/
theorem fromJson_members (c : PipelineCursor) (hc : c.Readable)
    (object : List (Text × JsonValue)) (hkeys : (object.map Prod.fst).Nodup)
    (hmem : c.members ⊆ object) (place : Text) : fromJson (.object object) place = .ok c := by
  have hiteration : (Int64.ofNat c.iteration).toInt = c.iteration := by
    have := hc.iteration
    exact Int64.toInt_ofNat_of_lt (by omega)
  have hdone := field_of_mem object hkeys "done" place (.string c.done.name) JsonValue.asString
    c.done.name (hmem (by simp [members])) rfl
  have hloop := field_of_mem object hkeys "iteration" place (.int (Int64.ofNat c.iteration))
    JsonValue.asInt64 (Int64.ofNat c.iteration) (hmem (by simp [members])) (asInt64_int _)
  have hskip := field_of_mem object hkeys "skip_others" place (.bool c.skipOthers) JsonValue.asBool
    c.skipOthers (hmem (by simp [members])) rfl
  have htotal := field_of_mem object hkeys "old_total" place (.int c.oldTotal) JsonValue.asInt64
    c.oldTotal (hmem (by simp [members])) (asInt64_int _)
  have hrange : (0 ≤ (c.iteration : Int) && (c.iteration : Int) ≤ 1000000) = true := by
    have := hc.iteration
    simp only [Bool.and_eq_true, decide_eq_true_eq]
    omega
  have hname : (PipelineStep.fromName c.done.name).filter (fun step => step ≠ .none) =
      some c.done := by
    rw [PipelineStep.fromName_name]
    simp [hc.step]
  simp only [fromJson, hdone, ok_bind, hname, hloop, hiteration, hrange, require, if_true, hskip,
    htotal, Int.toNat_natCast, hc.consistent, Bool.not_true, Bool.false_eq_true, if_false]

end PipelineCursor

end DSigMatcher.Checkpoint
