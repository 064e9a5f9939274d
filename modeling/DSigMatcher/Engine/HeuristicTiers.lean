import DSigMatcher.Engine.Consumer

namespace DSigMatcher.Engine
open DSigMatcher.Base DSigMatcher.Framework DSigMatcher.Diff DSigMatcher.Pipeline

inductive HeurCategory
  | best | partials | unreliable | experimental
  deriving DecidableEq

inductive HeurType
  | noFps | ratio | ratioMax | ratioMaxTrusted
  deriving DecidableEq

/-- A heuristic of the registry; its SQL stands in the database under its id. -/
structure HeuristicSpec where
  id : Nat
  category : HeurCategory
  ratioType : HeurType
  min : Option Binary64
  flagUnreliable : Bool
  flagSlow : Bool
  flagSameCpu : Bool

/-- `HEURISTICS`. -/
def heuristics : List HeuristicSpec := [
  ⟨0,.best,.noFps,none,false,false,true⟩,
  ⟨1,.best,.noFps,none,false,false,true⟩,
  ⟨2,.best,.noFps,none,false,false,true⟩,
  ⟨3,.best,.noFps,none,false,false,true⟩,
  ⟨4,.best,.ratio,none,false,false,false⟩,
  ⟨5,.best,.ratio,none,false,false,true⟩,
  ⟨6,.best,.ratio,none,false,false,true⟩,
  ⟨7,.best,.ratio,none,false,false,false⟩,
  ⟨8,.best,.ratio,none,false,false,false⟩,
  ⟨9,.best,.ratioMax,some (literal 7 10),false,false,true⟩,
  ⟨10,.best,.noFps,none,false,false,false⟩,
  ⟨11,.best,.ratio,none,false,false,false⟩,
  ⟨12,.partials,.ratioMaxTrusted,some (literal 44 100),false,false,false⟩,
  ⟨13,.partials,.ratioMax,some (literal 449 1000),false,false,false⟩,
  ⟨14,.partials,.ratio,none,false,true,false⟩,
  ⟨15,.partials,.ratio,none,false,false,false⟩,
  ⟨16,.partials,.ratio,none,false,false,false⟩,
  ⟨17,.partials,.ratioMax,some (literal 5 10),false,false,false⟩,
  ⟨18,.partials,.ratioMax,some (literal 45 100),false,false,false⟩,
  ⟨19,.partials,.ratio,none,false,false,false⟩,
  ⟨20,.partials,.ratioMax,some (literal 5 10),false,false,false⟩,
  ⟨21,.partials,.ratioMax,some (literal 2 10),false,true,false⟩,
  ⟨22,.partials,.ratio,none,false,false,false⟩,
  ⟨23,.partials,.ratio,none,false,false,false⟩,
  ⟨24,.partials,.ratio,none,false,false,false⟩,
  ⟨25,.partials,.ratio,none,false,false,false⟩,
  ⟨26,.partials,.ratioMax,some (literal 579 1000),false,false,false⟩,
  ⟨27,.partials,.ratioMax,some (literal 6 10),false,false,false⟩,
  ⟨28,.partials,.ratioMax,some (literal 549 1000),false,false,false⟩,
  ⟨29,.partials,.ratioMax,some (literal 5 10),false,false,false⟩,
  ⟨30,.partials,.ratioMax,some (literal 5 10),false,false,false⟩,
  ⟨31,.partials,.ratioMax,some (literal 5 10),false,false,false⟩,
  ⟨32,.partials,.ratioMax,some (literal 5 10),false,false,false⟩,
  ⟨33,.partials,.ratio,none,false,false,false⟩,
  ⟨34,.partials,.ratio,none,false,false,false⟩,
  ⟨35,.partials,.ratioMax,some (literal 35 100),false,false,false⟩,
  ⟨36,.partials,.ratioMax,some (literal 5 10),true,true,false⟩,
  ⟨37,.partials,.ratioMax,some (literal 5 10),true,true,false⟩,
  ⟨38,.partials,.ratioMax,some (literal 5 10),true,true,false⟩,
  ⟨39,.partials,.ratioMax,some (literal 5 10),false,false,true⟩,
  ⟨40,.partials,.ratioMax,some (literal 5 10),false,false,false⟩,
  ⟨41,.partials,.ratioMax,some (literal 49 100),false,true,false⟩,
  ⟨42,.unreliable,.ratioMax,some (literal 5 10),false,false,false⟩,
  ⟨43,.unreliable,.ratioMax,some (literal 8 10),false,true,false⟩,
  ⟨44,.unreliable,.ratio,none,false,true,false⟩,
  ⟨45,.unreliable,.ratio,none,false,true,false⟩,
  ⟨46,.unreliable,.ratio,none,false,true,false⟩,
  ⟨47,.unreliable,.ratio,none,false,true,false⟩,
  ⟨48,.unreliable,.ratio,none,false,true,false⟩,
  ⟨49,.unreliable,.ratio,none,false,false,false⟩]

/-- The choosers of a category; the unreliable one adds a step further down. -/
def choosersFor : HeurCategory → Chooser × Chooser
  | .unreliable => (.partials,.unreliable)
  | _ => (.best,.partials)

/-- A heuristic of this type reads its least ratio. -/
def HeurType.readsMin : HeurType → Bool
  | .ratioMax | .ratioMaxTrusted => true
  | _ => false

/-- Python's division of the summary is by the count of the main functions. -/
def logShowSummary : Program Unit := do
  let st ← Program.matchState
  if st.total1 = 0 then
    Program.raise (text "D:1631 ZeroDivisionError") (text "show_summary with total_functions1 == 0")
  else pure ()

namespace Environment
variable (env : Environment)

/-- Whether a heuristic runs in a category. -/
def runs (flags : DiffFlags) (category : HeurCategory) (spec : HeuristicSpec) : Except DiffError Bool :=
  if spec.category ≠ category then .ok false
  else if spec.ratioType.readsMin && spec.min.isNone then
    .error (.wouldRaise (text "D:1495 KeyError")
      (text "'min' missing in heuristic " ++ decimal spec.id))
  else
    .ok (!(spec.flagUnreliable && !env.config.unreliable) &&
      !(spec.flagSlow && !env.config.slowHeuristics) && !(spec.flagSameCpu && !flags.isSameProcessor))

def runnableOf (flags : DiffFlags) (category : HeurCategory) :
    List HeuristicSpec → Except DiffError (List HeuristicSpec)
  | [] => .ok []
  | spec::specs => do
    let runs ← env.runs flags category spec
    let rest ← runnableOf flags category specs
    return if runs then spec::rest else rest

/-- `RunnableHeuristics`; nothing runs between the tests for a match of all functions. -/
def runnableHeuristics (st : MatchState) (flags : DiffFlags) (category : HeurCategory) :
    Except DiffError (List HeuristicSpec) :=
  if st.allFunctionsMatched then .ok [] else env.runnableOf flags category heuristics

def heuristicRows (spec : HeuristicSpec) : List (Except FetchError HeuristicRow) :=
  env.rows (.heuristic spec.id env.config.filterText)

/-- The worker of a heuristic. -/
def runWorker (spec : HeuristicSpec) (rows : List (Except FetchError HeuristicRow)) : Program Unit :=
  let choosers := choosersFor spec.category
  match spec.ratioType with
  | .noFps => env.addMatchesFromQuery rows choosers.1
  | .ratio => env.addMatchesFromQueryRatio rows choosers.1 choosers.2
  | .ratioMax => env.addMatchesFromQueryRatioMax rows choosers.1 choosers.2 (spec.min.getD .zero)
  | .ratioMaxTrusted => env.addMatchesFromQueryRatioMaxTrusted rows (spec.min.getD .zero)

/-- What Python would raise ends this heuristic only. -/
def runSingleHeuristic (spec : HeuristicSpec) : Program Unit :=
  (env.runWorker spec (env.heuristicRows spec)).catchRaise fun site detail =>
    Program.truncated ⟨spec.id,site,detail⟩

def runPointed (spec : HeuristicSpec) : Program Unit := do
  Program.point
  env.runSingleHeuristic spec
  Program.point

/-- The heuristics run from the last one to the first. -/
def runHeuristicsForCategory (category : HeurCategory) : Program Unit := do
  let st ← Program.matchState
  let flags ← Program.flags
  let runnable ← Program.pureDiff (env.runnableHeuristics st flags category)
  runnable.reverse.forM env.runPointed
  Program.cleanup .l1551
  logShowSummary
  Program.point

end Environment

/-- Every heuristic with a least ratio has one in the registry. -/
theorem heuristics_min :
    ∀ spec ∈ heuristics, spec.ratioType.readsMin = true → spec.min.isSome = true := by
  simp [heuristics, HeurType.readsMin]

theorem runnableOf_ok (env : Environment) (flags : DiffFlags) (category : HeurCategory)
    {specs : List HeuristicSpec}
    (h : ∀ spec ∈ specs, spec.ratioType.readsMin = true → spec.min.isSome = true) :
    ∃ runnable, env.runnableOf flags category specs = .ok runnable ∧ runnable.Sublist specs ∧
      ∀ spec ∈ runnable, spec.category = category := by
  induction specs with
  | nil => exact ⟨[], rfl, .slnil, fun _ hspec => absurd hspec List.not_mem_nil⟩
  | cons spec specs ih =>
    obtain ⟨rest, hrest, hsub, hcategory⟩ := ih fun x hx => h x (List.mem_cons_of_mem spec hx)
    have hmin := h spec List.mem_cons_self
    have hruns : ∃ b, env.runs flags category spec = .ok b ∧ (b = true → spec.category = category) := by
      unfold Environment.runs
      by_cases hother : spec.category ≠ category
      · rw [if_pos hother]
        exact ⟨false, rfl, fun hb => absurd hb Bool.false_ne_true⟩
      · rw [if_neg hother, if_neg]
        · exact ⟨_, rfl, fun _ => not_not.mp hother⟩
        · intro hnone
          simp only [Bool.and_eq_true, Option.isNone_iff_eq_none] at hnone
          have hsome := hmin hnone.1
          rw [hnone.2] at hsome
          cases hsome
    obtain ⟨b, hb, hsame⟩ := hruns
    rw [Environment.runnableOf, hb, ok_bind, hrest, ok_bind]
    cases b with
    | false => exact ⟨rest, rfl, hsub.cons spec, hcategory⟩
    | true =>
      exact ⟨spec::rest, rfl, hsub.cons_cons spec, List.forall_mem_cons.mpr ⟨hsame rfl, hcategory⟩⟩

/-- The list is always made, and holds heuristics of the category in the order of the registry. -/
theorem runnableHeuristics_ok (env : Environment) (st : MatchState) (flags : DiffFlags)
    (category : HeurCategory) :
    ∃ runnable, env.runnableHeuristics st flags category = .ok runnable ∧
      runnable.Sublist heuristics ∧ ∀ spec ∈ runnable, spec.category = category := by
  unfold Environment.runnableHeuristics
  split_ifs
  · exact ⟨[], rfl, List.nil_sublist _, fun _ hspec => absurd hspec List.not_mem_nil⟩
  · exact runnableOf_ok env flags category heuristics_min

section
variable {env : Environment} {facts : Facts env} {start : State}

theorem keeps_logShowSummary : logShowSummary.Keeps (Within facts start) fun _ => True :=
  keeps_matchState.bind fun _ _ => .ite (fun _ => .raise _) fun _ => keeps_pure ()

theorem choosersFor_reliable {category : HeurCategory} (h : category ≠ .unreliable) :
    choosersFor category = (.best,.partials) := by
  cases category with
  | unreliable => exact absurd rfl h
  | best => rfl
  | partials => rfl
  | experimental => rfl

theorem keeps_runWorker {spec : HeuristicSpec} (h : spec.category ≠ .unreliable)
    {rows : List (Except FetchError HeuristicRow)} (hrows : env.AllFetched rows) :
    (env.runWorker spec rows).Keeps (Within facts start) fun _ => True := by
  unfold Environment.runWorker
  rw [choosersFor_reliable h]
  cases spec.ratioType with
  | noFps => exact keeps_addMatchesFromQuery hrows
  | ratio => exact keeps_unlessAllMatched (keeps_addMatchesInternal none false hrows)
  | ratioMax => exact keeps_unlessAllMatched (keeps_addMatchesInternal _ true hrows)
  | ratioMaxTrusted => exact keeps_unlessAllMatched (keeps_addMatchesInternal _ true hrows)

theorem keeps_runSingleHeuristic {spec : HeuristicSpec} (h : spec.category ≠ .unreliable) :
    (env.runSingleHeuristic spec).Keeps (Within facts start) fun _ => True :=
  keeps_catchRaise (keeps_runWorker h (env.rows_fetched _)) fun _ _ => keeps_truncated _

theorem keeps_runPointed {spec : HeuristicSpec} (h : spec.category ≠ .unreliable) :
    (env.runPointed spec).Keeps (Within facts start) fun _ => True :=
  keeps_point.bind fun _ _ => (keeps_runSingleHeuristic h).bind fun _ _ => keeps_point

theorem keeps_runHeuristicsForCategory {category : HeurCategory} (h : category ≠ .unreliable) :
    (env.runHeuristicsForCategory category).Keeps (Within facts start) fun _ => True := by
  refine keeps_matchState.bind fun st _ => keeps_flags.bind fun flags _ => ?_
  refine (keeps_pureDiff _).bind fun runnable hrunnable => ?_
  obtain ⟨specs, hspecs, -, hcategory⟩ := runnableHeuristics_ok env st flags category
  obtain rfl := Except.ok.inj (hspecs.symm.trans hrunnable)
  have hruns : (specs.reverse.forM env.runPointed).Keeps (Within facts start) fun _ => True :=
    keeps_forM fun spec hspec =>
      keeps_runPointed (hcategory spec (List.mem_reverse.mp hspec) ▸ h)
  exact hruns.bind fun _ _ => (keeps_cleanup _).bind fun _ _ =>
    keeps_logShowSummary.bind fun _ _ => keeps_point

end

end DSigMatcher.Engine
