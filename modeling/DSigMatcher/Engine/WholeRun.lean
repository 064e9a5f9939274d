import DSigMatcher.Engine.Results
import DSigMatcher.Pipeline.Trail

namespace DSigMatcher.Engine
open DSigMatcher.Base DSigMatcher.Framework DSigMatcher.Diff DSigMatcher.Pipeline

namespace Environment
variable (env : Environment)

/-- The stages of `diff()` over an environment; the iteration only stands in the log. -/
def stages : Stages Rest where
  experimental := env.config.experimental
  ignoreAllNames := env.config.ignoreAllNames
  slowHeuristics := env.config.slowHeuristics
  problems := env.problems
  checkVersion := env.checkVersion.query
  equalDb := env.equalDb.stage
  checkCallgraph := env.checkCallgraph.stage
  findEqualMatches := env.findEqualMatches.stage
  sameProcessor := env.sameProcessor.query
  prepare := Session.rest
  applyDirtyHeuristics := env.applyDirtyHeuristics.query
  findSameName := env.findSameName.stage
  findRemainingFunctions := env.findRemainingFunctions.stage
  bestCategory := (env.runHeuristicsForCategory .best).stage
  partialCategory := (env.runHeuristicsForCategory .partials).stage
  smallDifferences := env.smallDifferences.stage
  findMatchesDiffing _ := env.findMatchesDiffing.stage
  findRelatedMatches _ := env.findRelatedMatches.stage
  findRelatedCompilationUnit _ := env.findRelatedCompilationUnit.stage
  findLocallyAffineFunctions _ := env.findLocallyAffineFunctions.stage
  finalPass := finalPass.stage
  findUnmatched := env.findUnmatched.stage

/-- From the first checkpoint on, the engine reads nothing that a checkpoint leaves out. -/
theorem stages_determined : env.stages.Determined where
  sameProcessor := env.sameProcessor.query_determined
  applyDirtyHeuristics := env.applyDirtyHeuristics.query_determined
  findSameName := env.findSameName.stage_determined
  findRemainingFunctions := env.findRemainingFunctions.stage_determined
  bestCategory := (env.runHeuristicsForCategory .best).stage_determined
  partialCategory := (env.runHeuristicsForCategory .partials).stage_determined
  smallDifferences := env.smallDifferences.stage_determined
  findMatchesDiffing _ := env.findMatchesDiffing.stage_determined
  findRelatedMatches _ := env.findRelatedMatches.stage_determined
  findRelatedCompilationUnit _ := env.findRelatedCompilationUnit.stage_determined
  findLocallyAffineFunctions _ := env.findLocallyAffineFunctions.stage_determined
  finalPass := finalPass.stage_determined
  findUnmatched := env.findUnmatched.stage_determined

end Environment

variable {env : Environment}

/-- What `diff()` does to its session: what its stages do, and what it sets itself. -/
inductive Change (facts : Facts env) (s : State) : State → Prop
  | move (t : State) (hmove : Move facts s t) : Change facts s t
  | iteration (k : Option Nat) : Change facts s { s with iteration := k }
  | processor (same : Bool)
      (hcache : ∀ e ∈ s.ratiosCache.entries, facts.Rated same e.ea1 e.ea2 e.ratio)
      (hmade : ∀ c, ∀ it ∈ s.matchState.items c, Made facts s.flags.isSameProcessor it c →
        Made facts same it c) :
      Change facts s { s with flags := { s.flags with isSameProcessor := same } }
  | resolved (rows : FinalChoosers)
      (hrows : resolveMatchesInto s.final.choosers s.matchState = .ok rows) :
      Change facts s { s with final := { s.final with choosers := rows } }
  | unmatchedMain (left : List UnmatchedRow) (hleft : Leftover env s.matchState .main left) :
      Change facts s { s with final := { s.final with unmatchedSecondary := some left } }
  | unmatchedDiff (left : List UnmatchedRow) (hleft : Leftover env s.matchState .diff left) :
      Change facts s { s with final := { s.final with unmatchedPrimary := some left } }

/-- A session that comes after another one, with a cache that has the ratios of its pairs. -/
structure Later (facts : Facts env) (s t : State) : Prop where
  changes : Relation.ReflTransGen (Change facts) s t
  cache : CacheRated facts t

/-- What comes after a session whose cache has the ratios of its pairs. -/
def Leads (facts : Facts env) (s t : State) : Prop := CacheRated facts s → Later facts s t

namespace Later
variable {facts : Facts env} {s t : State}

theorem change (h : Later facts s t) {u : State} (hu : Change facts t u) : Later facts s u := by
  refine ⟨h.changes.tail hu, ?_⟩
  cases hu with
  | move u hmove => exact hmove.cache h.cache
  | iteration k => exact h.cache
  | processor same hcache hmade => exact hcache
  | resolved rows hrows => exact h.cache
  | unmatchedMain left hleft => exact h.cache
  | unmatchedDiff left hleft => exact h.cache

theorem of_within (h : Within facts s t) : Later facts s t := by
  have hmoves : Move facts ≤ Change facts := fun _ t hmove => .move t hmove
  exact ⟨Relation.ReflTransGen.mono hmoves s t h.moves, h.cache⟩

/-- What every change keeps holds of the later session as well. -/
theorem invariant {P : State → Prop} (h : Later facts s t) (hs : P s)
    (hchange : ∀ s t, Change facts s t → P s → P t) : P t := by
  obtain ⟨hchanges, -⟩ := h
  induction hchanges with
  | refl => exact hs
  | tail _ hu ih => exact hchange _ _ hu ih

end Later

section
variable {facts : Facts env}

theorem Leads.change {s t : State} (h : Change facts s t) : Leads facts s t := fun hs =>
  Later.change ⟨.refl, hs⟩ h

theorem Leads.stage {m : Program Unit} (hm : ∀ start, m.Keeps (Within facts start) fun _ => True)
    (s t : State) (h : m.stage s = .ok t) : Leads facts s t := fun hs =>
  .of_within (Program.stage_keeps (hm s) (Within.refl hs) h)

theorem Leads.query {m : Program Bool} (hm : ∀ start, m.Keeps (Within facts start) fun _ => True)
    (s t : State) (answer : Bool) (h : m.query s = .ok (t,answer)) : Leads facts s t := fun hs =>
  .of_within (Program.query_keeps (hm s) (Within.refl hs) h).1

theorem Leads.finalPass {s t : State} (h : finalPass.stage s = .ok t) : Leads facts s t := by
  intro hs
  obtain ⟨rows, hrows, rfl⟩ := finalPass_ok h
  have hcleaned : Later facts s (s.cleanup .l2945) := Later.change ⟨.refl, hs⟩ (.move _ (.cleanup _))
  exact hcleaned.change (.resolved rows hrows)

theorem Leads.findUnmatched {s t : State} (h : env.findUnmatched.stage s = .ok t) :
    Leads facts s t := by
  intro hs
  obtain ⟨u, hmain, hdiff⟩ := findUnmatched_ok h
  have hu : Later facts s u := by
    rcases hmain with ⟨rfl, -⟩ | ⟨left, hleft, rfl⟩
    · exact ⟨.refl, hs⟩
    · exact Later.change ⟨.refl, hs⟩ (.unmatchedMain left hleft)
  rcases hdiff with ⟨rfl, -⟩ | ⟨left, hleft, rfl⟩
  · exact hu
  · exact hu.change (.unmatchedDiff left hleft)

/-- A diff changes its session in these ways and in no others. -/
theorem stages_follow (facts : Facts env) (n : Nat) : env.stages.FollowsAll n (Leads facts) where
  refl s hs := ⟨.refl, hs⟩
  trans s t u hst htu hs := ⟨(hst hs).changes.trans (htu (hst hs).cache).changes,
    (htu (hst hs).cache).cache⟩
  point s := .change (.move _ .point)
  cleanup s site := .change (.move _ (.cleanup site))
  iteration s k _ := .change (.iteration k)
  prepared s hs := ⟨.refl, hs⟩
  checkVersion := .query fun _ => keeps_checkVersion
  equalDb := .stage fun _ => keeps_equalDb
  checkCallgraph := .stage fun _ => keeps_checkCallgraph
  findEqualMatches := .stage fun _ => keeps_findEqualMatches
  sameProcessor := .query fun _ => keeps_sameProcessor
  applyDirtyHeuristics := .query fun _ => keeps_applyDirtyHeuristics
  findSameName := .stage fun _ => keeps_findSameName
  findRemainingFunctions := .stage fun _ => keeps_findRemainingFunctions
  bestCategory := .stage fun _ => keeps_runHeuristicsForCategory (by decide)
  partialCategory := .stage fun _ => keeps_runHeuristicsForCategory (by decide)
  smallDifferences := .stage fun _ => keeps_smallDifferences
  findMatchesDiffing _ := .stage fun _ => keeps_findMatchesDiffing
  findRelatedMatches _ := .stage fun _ => keeps_findRelatedMatches
  findRelatedCompilationUnit _ := .stage fun _ => keeps_findRelatedCompilationUnit
  findLocallyAffineFunctions _ := .stage fun _ => keeps_findLocallyAffineFunctions
  finalPass _ _ := Leads.finalPass
  findUnmatched _ _ := Leads.findUnmatched

end

end DSigMatcher.Engine
