import DSigMatcher.Diff.MatchImpl
import DSigMatcher.Engine.Sample

namespace DSigMatcher.Engine
open DSigMatcher.Base DSigMatcher.Framework DSigMatcher.Diff DSigMatcher.Pipeline DSigMatcher.Checkpoint
open Binary64 (InUnit)

variable {env : Environment}

section
variable {facts : Facts env}

/-- Every item stands in a category that it was made for. -/
def AllMade (facts : Facts env) (s : State) : Prop :=
  ∀ c, ∀ it ∈ s.matchState.items c, Made facts s.flags.isSameProcessor it c

/-- An addition that is not refused appends its item and pairs the names. -/
theorem addMatch_cases {st st' : MatchState} {n1 n2 : Option Text} {ratio : Binary64} {it : Item}
    {c : Option Chooser} (h : st.addMatch n1 n2 ratio it c = .ok st') :
    st' = st ∨ ∃ r, st' = (st.appendItem it c).putMatched n1 n2 r := by
  unfold MatchState.addMatch at h
  dsimp only at h
  generalize (if n1 = n2 then Binary64.one else ratio) = r at h
  split_ifs at h with hone
  · exact .inr ⟨r, (Except.ok.inj h).symm⟩
  · cases hbetter : st.hasBetterMatch n1 n2 r with
    | error e => simp [hbetter] at h
    | ok better =>
      cases better with
      | true =>
        simp only [hbetter] at h
        exact .inl (Except.ok.inj h).symm
      | false =>
        simp only [hbetter] at h
        exact .inr ⟨r, (Except.ok.inj h).symm⟩

/-- An addition lists its item in the category that it names, and changes no other list. -/
theorem addMatch_listed {st st' : MatchState} {n1 n2 : Option Text} {ratio : Binary64} {it : Item}
    {c : Chooser} (h : st.addMatch n1 n2 ratio it (some c) = .ok st') {c' : Chooser} {x : Item}
    (hx : x ∈ st'.items c') : x ∈ st.items c' ∨ x = it ∧ c = c' := by
  rcases addMatch_cases h with rfl | ⟨r, rfl⟩
  · exact .inl hx
  · have hitems : ((st.appendItem it (some c)).putMatched n1 n2 r).items c' =
        (st.appendItem it (some c)).items c' := by
      cases c' <;> rfl
    rw [hitems] at hx
    rcases MatchState.appendItem_items it (some c) c' with hsame | ⟨hcategory, -, happended⟩
    · exact .inl (hsame ▸ hx)
    · rw [happended, List.mem_append, List.mem_singleton] at hx
      exact hx.imp_right fun hx => ⟨hx, Option.some.inj hcategory⟩

theorem AllMade.move {s t : State} (h : AllMade facts s) (hmove : Move facts s t) : AllMade facts t := by
  intro c x hx
  rw [hmove.processor]
  cases hmove with
  | add it category st hst hmade hadd =>
    rcases addMatch_listed hadd hx with hx | ⟨rfl, rfl⟩
    · exact h c x hx
    · exact hmade
  | totals total1 total2 hst hcounted => exact h c x (by cases c <;> exact hx)
  | cleanup site => exact h c x (cleanup_subset s.matchState c hx)
  | point => exact h c x hx
  | store e hrated => exact h c x hx
  | flags f hf => exact h c x hx
  | hook dones => exact h c x hx
  | truncated entry => exact h c x hx

theorem AllMade.change {s t : State} (hchange : Change facts s t) (h : AllMade facts s) :
    AllMade facts t := by
  cases hchange with
  | move t hmove => exact h.move hmove
  | iteration k => exact h
  | processor same hcache hmade => exact fun c x hx => hmade c x hx (h c x hx)
  | resolved rows hrows => exact h
  | unmatchedMain left hleft => exact h
  | unmatchedDiff left hleft => exact h

theorem Later.allMade {s t : State} (h : Later facts s t) (hs : AllMade facts s) : AllMade facts t :=
  h.invariant (P := AllMade facts) hs fun _ _ hchange hs => hs.change hchange

/-- A session that a run comes by: one it saves, or the one it ends in. -/
def Passes (r : Run Rest) (t : State) : Prop := t = r.session ∨ ∃ y ∈ r.saves, y.2 = t

/-- A session that a run may start from, whose cache has the ratios of its pairs. -/
structure Startable (facts : Facts env) (resume : Option PipelineCursor) (s : State) : Prop where
  cache : CacheRated facts s
  enters : env.stages.Enters resume (Leads facts) s

/-- There is nothing to clear where a fresh run starts with an empty cache. -/
theorem Leads.clear {s : State} (h : s.ratiosCache = .empty) :
    Leads facts s { s with ratiosCache := .empty, iteration := none } := by
  have hcleared :
      { s with ratiosCache := .empty, iteration := none } = { s with iteration := none } := by
    rw [← h]
  rw [hcleared]
  exact .change (.iteration none)

/-- What is known of the ratios does not depend on the processors. -/
def Facts.Uniform (facts : Facts env) : Prop :=
  ∀ sameCpu sameCpu' ea1 ea2 r, facts.Rated sameCpu ea1 ea2 r → facts.Rated sameCpu' ea1 ea2 r

theorem Facts.Uniform.made (h : facts.Uniform) {sameCpu sameCpu' : Bool} {it : Item} {c : Chooser}
    (hmade : Made facts sameCpu it c) : Made facts sameCpu' it c := by
  have hfound (r : Binary64) (hr : facts.Found sameCpu it.pairKey r) :
      facts.Found sameCpu' it.pairKey r := by
    obtain ⟨ea1, ea2, hkey, hrated⟩ := hr
    exact ⟨ea1, ea2, hkey, h _ _ _ _ _ hrated⟩
  cases hmade with
  | best hpair hratio => exact .best hpair hratio
  | rated hpair hrated hone => exact .rated hpair (hfound _ hrated) hone
  | boosted r hpair hrated hone hlt hratio => exact .boosted r hpair (hfound r hrated) hone hlt hratio

/-- Such facts let every run start whose cache has the ratios of its pairs, if it is empty where the run
is fresh. -/
theorem Startable.of_uniform (h : facts.Uniform) {resume : Option PipelineCursor} {s : State}
    (hcache : CacheRated facts s) (hfresh : resume.isNone = true → s.ratiosCache = .empty) :
    Startable facts resume s where
  cache := hcache
  enters := {
    clear := fun hresume => .clear (hfresh hresume)
    processor := fun _ _ same _ ht => Later.change ⟨.refl, ht⟩
      (.processor same (fun e he => h _ _ _ _ _ (ht e he)) fun _ _ _ hmade => h.made hmade) }

theorem Startable.path {resume : Option PipelineCursor} {s : State} (h : Startable facts resume s)
    (rounds : Nat) : (env.stages.runPipeline rounds resume s).Path (Leads facts) s :=
  (stages_follow facts _).runPipeline rounds resume le_rfl h.enters

/-- Every session that a run comes by is later than its start. -/
theorem Startable.later {resume : Option PipelineCursor} {s t : State} (h : Startable facts resume s)
    {rounds : Nat} (ht : Passes (env.stages.runPipeline rounds resume s) t) : Later facts s t := by
  have hpath := h.path rounds
  rcases ht with rfl | ⟨y, hy, rfl⟩
  · exact hpath.session h.cache
  · exact (hpath.saves y hy).1 h.cache

end

/-- What is known where only the ratios matter. -/
def Facts.ofRatios (env : Environment) (Rated : Bool → Option Text → Option Text → Binary64 → Prop)
    (h : env.Rates Rated) : Facts env where
  Rated := Rated
  Paired _ _ _ _ := True
  Counted _ _ := True
  rates := h
  totals _ _ _ := True.intro
  rows _ _ := True.intro
  equalMatches _ _ _ _ _ _ _ _ := True.intro
  callees _ _ _ _ _ := True.intro
  tables _ _ _ _ := True.intro

/-- Best matches have the ratio one, partial ones a ratio below it, and there are no others. -/
structure Categorised (st : MatchState) : Prop where
  best : ∀ it ∈ st.best, it.ratio = .one
  partials : ∀ it ∈ st.partials, InUnit it.ratio ∧ it.ratio < Binary64.one
  unreliable : st.unreliable = []

theorem Categorised.allMade {facts : Facts env} (hpaired : ∀ it, facts.PairedItem it)
    (hrated : ∀ sameCpu ea1 ea2 r, InUnit r → facts.Rated sameCpu ea1 ea2 r) {s : State}
    (h : Categorised s.matchState) : AllMade facts s := by
  intro c it hit
  cases c with
  | best => exact .best (hpaired it) (h.best it hit)
  | partials =>
    obtain ⟨hunit, hlt⟩ := h.partials it hit
    refine .rated (hpaired it) ⟨it.ea1, it.ea2, rfl, hrated _ _ _ _ hunit⟩ ?_
    refine Bool.eq_false_iff.mpr fun hone => ?_
    exact hunit.lt_one_iff.mp hlt (Binary64.eq_one_iff.mp hone)
  | unreliable =>
    have hmem : it ∈ s.matchState.unreliable := hit
    rw [h.unreliable] at hmem
    exact absurd hmem List.not_mem_nil

theorem kMatchesBonusRatio_sign : kMatchesBonusRatio.negative = false := rfl

/-- A made item has a ratio of its category. -/
theorem Made.ratio {facts : Facts env}
    (hrated : ∀ sameCpu ea1 ea2 r, facts.Rated sameCpu ea1 ea2 r → InUnit r) {sameCpu : Bool}
    {it : Item} (h : Made facts sameCpu it .partials) : InUnit it.ratio ∧ it.ratio < Binary64.one := by
  cases h with
  | rated hpair hr hone =>
    obtain ⟨ea1, ea2, -, hr⟩ := hr
    have hunit := hrated _ _ _ _ hr
    refine ⟨hunit, hunit.lt_one_iff.mpr fun heq => ?_⟩
    rw [heq] at hone
    cases hone
  | boosted r hpair hr hone hlt hratio =>
    obtain ⟨ea1, ea2, -, hr⟩ := hr
    rw [hratio]
    have hsign := Binary64.add_sign (hrated _ _ _ _ hr).sign kMatchesBonusRatio_sign
    exact ⟨InUnit.of_lt_one hsign hlt, hlt⟩

theorem AllMade.categorised {facts : Facts env}
    (hrated : ∀ sameCpu ea1 ea2 r, facts.Rated sameCpu ea1 ea2 r → InUnit r) {s : State}
    (h : AllMade facts s) : Categorised s.matchState where
  best it hit := by
    cases h .best it hit with
    | best hpair hratio => exact hratio
  partials it hit := (h .partials it hit).ratio hrated
  unreliable := by
    refine List.eq_nil_iff_forall_not_mem.mpr fun it hit => ?_
    cases h .unreliable it hit

theorem Tables.Fits.rates {env : Environment} (h : env.tables.Fits) :
    env.Rates fun _ _ _ r => InUnit r :=
  .of_compute fun _ _ _ _ _ _ _ _ _ _ _ hr => compute_inUnit env.tables h _ _ _ _ _ _ _ _ _ hr

/-- Over a whole run, fresh or resumed, every best match has the ratio one, every partial one a ratio
below it that is no NaN and has no sign, no match is unreliable, and the cache holds no other ratios. -/
theorem runPipeline_categorised (env : Environment) (hfits : env.tables.Fits) (rounds : Nat)
    (resume : Option PipelineCursor) (s : State) (hs : Categorised s.matchState)
    (hcache : ∀ e ∈ s.ratiosCache.entries, InUnit e.ratio)
    (hfresh : resume.isNone = true → s.ratiosCache = .empty) (t : State)
    (ht : Passes (env.stages.runPipeline rounds resume s) t) :
    Categorised t.matchState ∧ ∀ e ∈ t.ratiosCache.entries, InUnit e.ratio := by
  let facts := Facts.ofRatios env (fun _ _ _ r => InUnit r) hfits.rates
  have hstart : Startable facts resume s := .of_uniform (fun _ _ _ _ _ h => h) hcache hfresh
  have hmade : AllMade facts s := by
    apply hs.allMade
    · exact fun _ => True.intro
    · exact fun _ _ _ _ h => h
  have hlater := hstart.later ht
  exact ⟨(hlater.allMade hmade).categorised fun _ _ _ _ h => h, hlater.cache⟩

theorem runPipeline_categorised_sample :
    (sampleRun.session.matchState.best.length,sampleRun.session.matchState.partials.length) = (2,4) ∧
      Categorised sampleRun.session.matchState ∧
      ∀ e ∈ sampleRun.session.ratiosCache.entries, InUnit e.ratio := by
  refine ⟨sampleRun_ends.2.1, ?_⟩
  exact runPipeline_categorised sampleEnvironment sampleTables_fits 3 none unstarted
    ⟨fun _ hit => absurd hit List.not_mem_nil, fun _ hit => absurd hit List.not_mem_nil, rfl⟩
    (fun _ he => absurd he List.not_mem_nil) (fun _ => rfl) _ (.inl rfl)

end DSigMatcher.Engine
