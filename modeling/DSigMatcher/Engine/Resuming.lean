import DSigMatcher.Engine.Shown
import DSigMatcher.Pipeline.Uninterrupted

namespace DSigMatcher.Engine
open DSigMatcher.Base DSigMatcher.Framework DSigMatcher.Diff DSigMatcher.Pipeline DSigMatcher.Checkpoint

/-- What is known of every environment. -/
def Environment.plainFacts (env : Environment) : Facts env :=
  .ofRatios env (fun _ _ _ _ => True) (.of_compute fun _ _ _ _ _ _ _ _ _ _ _ _ => True.intro)

variable {env : Environment}

section
variable {α : Type} {get : State → α}

/-- What no move changes, a program leaves alone. -/
theorem keeps_stage (hget : ∀ s t, Move env.plainFacts s t → get t = get s) {m : Program Unit}
    (hm : ∀ start, m.Keeps (Within env.plainFacts start) fun _ => True) : Keeps get m.stage := by
  intro s t hst
  have hwithin := Program.stage_keeps (hm s) (Within.refl fun _ _ => True.intro) hst
  exact hwithin.invariant (P := fun t => get t = get s) rfl fun u v huv hu => (hget u v huv).trans hu

theorem keeps_query (hget : ∀ s t, Move env.plainFacts s t → get t = get s) {m : Program Bool}
    (hm : ∀ start, m.Keeps (Within env.plainFacts start) fun _ => True) : Keeps get m.query.stage := by
  intro s t hst
  unfold Query.stage at hst
  cases hquery : m.query s with
  | error e =>
    rw [hquery] at hst
    cases hst
  | ok found =>
    rw [hquery] at hst
    obtain rfl : found.1 = t := Except.ok.inj hst
    have hwithin := (Program.query_keeps (hm s) (Within.refl fun _ _ => True.intro) hquery).1
    exact hwithin.invariant (P := fun t => get t = get s) rfl fun u v huv hu => (hget u v huv).trans hu

theorem stages_leave (hget : ∀ s t, Move env.plainFacts s t → get t = get s) :
    env.stages.Leave get where
  checkVersion := keeps_query hget fun _ => keeps_checkVersion
  equalDb := keeps_stage hget fun _ => keeps_equalDb
  checkCallgraph := keeps_stage hget fun _ => keeps_checkCallgraph
  findEqualMatches := keeps_stage hget fun _ => keeps_findEqualMatches
  sameProcessor := keeps_query hget fun _ => keeps_sameProcessor
  applyDirtyHeuristics := keeps_query hget fun _ => keeps_applyDirtyHeuristics
  findSameName := keeps_stage hget fun _ => keeps_findSameName
  findRemainingFunctions := keeps_stage hget fun _ => keeps_findRemainingFunctions
  bestCategory := keeps_stage hget fun _ => keeps_runHeuristicsForCategory (by decide)
  partialCategory := keeps_stage hget fun _ => keeps_runHeuristicsForCategory (by decide)
  smallDifferences := keeps_stage hget fun _ => keeps_smallDifferences
  findMatchesDiffing _ := keeps_stage hget fun _ => keeps_findMatchesDiffing
  findRelatedMatches _ := keeps_stage hget fun _ => keeps_findRelatedMatches
  findRelatedCompilationUnit _ := keeps_stage hget fun _ => keeps_findRelatedCompilationUnit
  findLocallyAffineFunctions _ := keeps_stage hget fun _ => keeps_findLocallyAffineFunctions

end

theorem Move.iteration {facts : Facts env} {s t : State} (h : Move facts s t) :
    t.iteration = s.iteration := by
  cases h with
  | add it c st hst hmade hadd => rfl
  | totals total1 total2 hst hcounted => rfl
  | cleanup site => rfl
  | point => rfl
  | store e hrated => rfl
  | flags f hf => rfl
  | hook dones => rfl
  | truncated entry => rfl

theorem Move.final {facts : Facts env} {s t : State} (h : Move facts s t) : t.final = s.final := by
  cases h with
  | add it c st hst hmade hadd => rfl
  | totals total1 total2 hst hcounted => rfl
  | cleanup site => rfl
  | point => rfl
  | store e hrated => rfl
  | flags f hf => rfl
  | hook dones => rfl
  | truncated entry => rfl

/-- The engine writes its results in the final pass and behind it, and never the iteration. -/
theorem stages_confined (env : Environment) : env.stages.Confined where
  iteration := stages_leave fun _ _ h => h.iteration
  results := stages_leave fun _ _ h => h.final
  finalPass_iteration s t hst := by
    obtain ⟨rows, -, rfl⟩ := finalPass_ok hst
    rfl
  finalPass_unmatched s t hst := by
    obtain ⟨rows, -, rfl⟩ := finalPass_ok hst
    rfl
  findUnmatched_iteration s t hst := by
    obtain ⟨u, hmain, hdiff⟩ := findUnmatched_ok hst
    have hu : u.iteration = s.iteration := by
      rcases hmain with ⟨rfl, -⟩ | ⟨left, -, rfl⟩ <;> rfl
    rcases hdiff with ⟨rfl, -⟩ | ⟨left, -, rfl⟩
    · exact hu
    · exact hu

def sideOf (exports : Exports) : Side → ExportSide
  | .main => exports.main
  | .diff => exports.diff

/-- The functions at the addresses of the exports. -/
def functionsOf (exports : Exports) : Functions where
  side which ea _ := ∃ a ∈ (sideOf exports which).addresses, ea = some a
  total which := (sideOf exports which).count.toInt

section
variable {exports : Exports} {s : State}

theorem Functions.Match.located {it : Item} (h : (functionsOf exports).Match it) :
    Located exports it := by
  obtain ⟨⟨a, ha, hmain⟩, ⟨b, hb, hdiff⟩⟩ := h
  constructor
  · rw [hmain]
    exact ha
  · rw [hdiff]
    exact hb

theorem Functions.Match.addressed {it : Item} (h : (functionsOf exports).Match it)
    (hit : ItemStored it) : Pipeline.Addressed it := by
  obtain ⟨⟨a, -, hmain⟩, ⟨b, -, hdiff⟩⟩ := h
  exact ⟨hmain ▸ rfl, hdiff ▸ rfl, hit⟩

/-- What holds of the items of a session over the exports. -/
theorem Settled.over (h : Settled (functionsOf exports) s) {P : Item → Prop}
    (hP : ∀ it, (functionsOf exports).Match it → ItemStored it → P it) : OverItems P s := by
  have hitems (c : Chooser) (it : Item) (hit : it ∈ s.matchState.items c) : P it :=
    hP it (h.items c it hit) (s.stored.items c it hit)
  have hrows (c : Chooser) (it : Item) (hit : it ∈ s.final.choosers.items c) : P it :=
    hP it (h.choosers.items c it hit).1 (h.choosers.items c it hit).2
  exact ⟨hitems .best, hitems .partials, hitems .unreliable, hrows .best, hrows .partials,
    hrows .unreliable, fun it hit => hP it (h.choosers.multimatch it hit).1
      (h.choosers.multimatch it hit).2⟩

theorem Settled.noNone (h : Settled (functionsOf exports) s) (hiteration : Stages.Below (2^31) s) :
    NoNone s where
  items := h.over fun _ hmatch hit => hmatch.addressed hit
  unmatchedPrimary row hrow := by
    obtain ⟨a, -, hea⟩ := h.unmatchedPrimary row hrow
    exact hea ▸ rfl
  unmatchedSecondary row hrow := by
    obtain ⟨a, -, hea⟩ := h.unmatchedSecondary row hrow
    exact hea ▸ rfl
  iteration := hiteration

theorem Settled.belongs (h : Settled (functionsOf exports) s) : Belongs exports s where
  items := h.over fun _ hmatch _ => hmatch.located
  unmatchedPrimary row hrow _ := by
    obtain ⟨a, ha, hea⟩ := h.unmatchedPrimary row hrow
    rw [hea]
    exact ha
  unmatchedSecondary row hrow _ := by
    obtain ⟨a, ha, hea⟩ := h.unmatchedSecondary row hrow
    rw [hea]
    exact ha
  total1 := h.total1
  total2 := h.total2

theorem Settled.agree {fns : Functions} {t : State} (hs : Settled fns s) (h : Agree t s) :
    Settled fns t where
  items c it hit := hs.items c it (h.matchState ▸ hit)
  choosers := h.final.symm ▸ hs.choosers
  unmatchedPrimary := h.final.symm ▸ hs.unmatchedPrimary
  unmatchedSecondary := h.final.symm ▸ hs.unmatchedSecondary
  total1 := h.matchState.symm ▸ hs.total1
  total2 := h.matchState.symm ▸ hs.total2

end

variable {fns : Functions}

/-- Over the databases of the exports, whatever a run comes by is of the exports. -/
theorem Environment.Shows.settled (h : env.Shows fns) {rounds : Nat} {s t : State}
    (hs : Unstarted s) (ht : Passes (env.stages.runPipeline rounds none s) t) : Settled fns t := by
  have hrates : env.Rates fun _ _ _ _ => True := .of_compute fun _ _ _ _ _ _ _ _ _ _ _ _ => True.intro
  have hstart : Startable (h.facts hrates) none s := hs.startable fun _ _ _ _ _ h => h
  apply (hstart.later ht).invariant (hs.settled fns)
  exact fun _ _ hchange hsettled => hsettled.change h hchange

/-- What a diff of two exports saves is of the exports, however often it has been interrupted. -/
theorem Environment.Shows.saved {exports : Exports} (h : env.Shows (functionsOf exports)) {rounds : Nat}
    (hrounds : rounds ≤ 2^31) {s : State} (hs : Unstarted s)
    (hend : (env.stages.runPipeline rounds none s).outcome ≠ .running) {r : Run Rest}
    (hr : Interrupted env.stages rounds exports s r) {y : PipelineCursor × State} (hy : y ∈ r.saves) :
    Settled (functionsOf exports) y.2 ∧ NoNone y.2 := by
  obtain ⟨z, hz, -, hagree⟩ :=
    (hr.sim env.stages_determined (stages_confined env) hs.final hend).saves y hy
  have hsettled := (h.settled hs (.inr ⟨z, hz, rfl⟩)).agree hagree
  refine ⟨hsettled, hsettled.noNone fun k hk => ?_⟩
  have hbelow := (stages_confined env).saves_below rounds (s := s)
    (fun k hk => absurd (hs.iteration ▸ hk) (Option.not_mem_none k)) z hz
  exact Nat.lt_of_lt_of_le (hbelow k (hagree.iteration ▸ hk)) hrounds

/-- Whichever checkpoint a diff of two exports is resumed from, and however often it has been
interrupted before: the checkpoint is restored, and the resumed run ends as the run that was never
interrupted, with the same matches, dictionaries, ratio cache and results. -/
theorem stages_resume (env : Environment) (exports : Exports) (hshows : env.Shows (functionsOf exports))
    (rounds : Nat) (hrounds : rounds ≤ 2^31) (s : State) (hs : Unstarted s)
    (hend : (env.stages.runPipeline rounds none s).outcome ≠ .running) (binding : CheckpointBinding)
    (walk : List (Option Text × Option Text) → List (Option Text × Option Text))
    (hwalk : ∀ pairs, (walk pairs).Perm pairs) (fresh : State) (hfresh : fresh.final = {}) :
    ∀ r, Interrupted env.stages rounds exports s r → ∀ y ∈ r.saves,
      ∃ t, restoreCheckpoint exports fresh (captureCheckpoint exports binding walk y.2 y.1)
          (capture_fits exports binding walk y.2 y.1) = .ok t ∧
        (env.stages.runPipeline rounds (some y.1) t).outcome =
          (env.stages.runPipeline rounds none s).outcome ∧
        Agree (env.stages.runPipeline rounds (some y.1) t).session
          (env.stages.runPipeline rounds none s).session := by
  intro r hr y hy
  have hsim := hr.sim env.stages_determined (stages_confined env) hs.final hend
  obtain ⟨hsettled, hnone⟩ := hshows.saved hrounds hs hend hr hy
  obtain ⟨t, ht, htagree⟩ := restore_capture exports binding walk hwalk hnone
    (hsim.complete env.stages_determined (stages_confined env) hs.final hy).1 fresh hfresh
  have hresumed := hsim.resumed env.stages_determined (stages_confined env) hs.final hend hy htagree
  refine ⟨t, ht.trans ?_, hresumed.outcome, hresumed.session⟩
  rw [check_capture binding walk hsettled.belongs, ok_bind]

/-- The exports of the sample. -/
def sampleExports : Exports :=
  ⟨⟨text "old.sqlite", (["4096","8192","12288","16384","20480","9216"] : List String).map text⟩,
    ⟨text "new.sqlite", (["4096","8208","12304","12320","16400","20496","9232"] : List String).map text⟩,
    text "old-new", text "1.0"⟩

theorem sampleExports_shown : sampleEnvironment.Shows (functionsOf sampleExports) := by
  refine sampleEnvironment_shows (fun which row hrow => ?_) ⟨by decide +kernel, by decide +kernel⟩
  have hall : ∀ row ∈ (sampleTables.table which).rows,
      ∃ a ∈ (sideOf sampleExports which).addresses, row.addrIdOf = some a := by
    cases which <;> decide +kernel
  exact hall row hrow

/-- The diff of the sample, resumed in the middle of the loop, where four ratios are in the cache. -/
theorem stages_resume_sample :
    ∃ y ∈ sampleRun.saves, (y.1.done = .matchesDiffing ∧ y.2.ratiosCache.entries.length = 4) ∧
      ∃ t, restoreCheckpoint sampleExports unstarted
          (captureCheckpoint sampleExports (emptyCheckpoint y.1).binding List.reverse y.2 y.1)
          (capture_fits sampleExports (emptyCheckpoint y.1).binding List.reverse y.2 y.1) = .ok t ∧
        (sampleEnvironment.stages.runPipeline 3 (some y.1) t).outcome = .returned true := by
  obtain ⟨-, y, hy, hdone⟩ := sampleRun_saves
  obtain ⟨t, ht, houtcome, -⟩ := stages_resume sampleEnvironment sampleExports sampleExports_shown 3
    (by decide) unstarted unstarted_ok sampleRun_ended (emptyCheckpoint y.1).binding
    List.reverse List.reverse_perm unstarted rfl _ .fresh y hy
  exact ⟨y, hy, hdone, t, ht, houtcome.trans sampleRun_ends.1.1⟩

end DSigMatcher.Engine
