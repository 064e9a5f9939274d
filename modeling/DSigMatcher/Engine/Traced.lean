import DSigMatcher.Diff.RatioCache
import DSigMatcher.Engine.Provenance

namespace DSigMatcher.Engine
open DSigMatcher.Base DSigMatcher.Framework DSigMatcher.Diff DSigMatcher.Pipeline DSigMatcher.Checkpoint

variable {env : Environment}

/-- A ratio that the engine computes for the functions at two addresses, with their MD-Indices. -/
def IsRatio (t : Tables) (sameCpu : Bool) (ea1 ea2 : Option Text) (r : Binary64) : Prop :=
  ∃ row1 row2 src, t.main.StandsAt ea1 row1 ∧ t.diff.StandsAt ea2 row2 ∧
    compute t sameCpu ea1 ea2 row1 row2 src (t.main.mdSql row1) (t.diff.mdSql row2) = .ok r

/-- A ratio of two addresses with this key text. -/
def KeyRatio (t : Tables) (sameCpu : Bool) (key : Text) (r : Binary64) : Prop :=
  ∃ ea1 ea2, eaPairKey ea1 ea2 = key ∧ IsRatio t sameCpu ea1 ea2 r

/-- Every address of an export is plain, as an address is that the exporter writes. -/
def Tables.Plain (t : Tables) : Prop :=
  ∀ which, ∀ row ∈ (t.table which).rows, row.addrIdOf.any simpleText = true

/-- Among plain addresses the key text tells the pair. -/
theorem KeyRatio.own {t : Tables} (h : t.Plain) {sameCpu : Bool} {ea1 ea2 : Option Text} {r : Binary64}
    (hr : KeyRatio t sameCpu (eaPairKey ea1 ea2) r) : IsRatio t sameCpu ea1 ea2 r := by
  obtain ⟨ea1', ea2', hkey, hratio⟩ := hr
  obtain ⟨row1, row2, -, ⟨hrow1, rfl⟩, ⟨hrow2, rfl⟩, -⟩ := id hratio
  have hplain1 : (t.main.row row1).addrIdOf.any simpleText = true :=
    h .main _ (ExportTable.row_mem hrow1)
  have hplain2 : (t.diff.row row2).addrIdOf.any simpleText = true :=
    h .diff _ (ExportTable.row_mem hrow2)
  cases ha : (t.main.row row1).addrIdOf with
  | none => simp [ha] at hplain1
  | some a =>
    cases hb : (t.diff.row row2).addrIdOf with
    | none => simp [hb] at hplain2
    | some b =>
      rw [ha] at hplain1 hkey hratio
      rw [hb] at hplain2 hkey hratio
      obtain ⟨rfl, rfl⟩ := eaPairKey_simple hplain1 hplain2 hkey.symm
      exact hratio

theorem Environment.ReadsExports.rates (h : env.ReadsExports) : env.Rates (IsRatio env.tables) where
  fetched sameCpu row r1 r2 r hrow hrow1 hrow2 _ _ hr := by
    obtain ⟨⟨hat1, hmd1⟩, hat2, hmd2⟩ := h.fetched hrow hrow1 hrow2
    rw [hmd1, hmd2] at hr
    exact ⟨r1, r2, .sql, hat1, hat2, hr⟩
  compared _ r1 r2 _ hr1 hr2 hr := ⟨r1, r2, .python, ⟨hr1, rfl⟩, ⟨hr2, rfl⟩, hr⟩

def Environment.ReadsExports.facts (h : env.ReadsExports) : Facts env := .ofRatios env _ h.rates

/-- Where the ratio of an item comes from: a partial match has a computed one, and at most one bonus. -/
def Traced (isRatio : Binary64 → Prop) (it : Item) : Chooser → Prop
  | .best => it.ratio = .one
  | .partials => ∃ r, isRatio r ∧ r ≠ .one ∧ (it.ratio = r ∨
      it.ratio = r.add kMatchesBonusRatio ∧ r.add kMatchesBonusRatio < Binary64.one)
  | .unreliable => False

theorem Traced.mono {p q : Binary64 → Prop} (h : ∀ r, p r → q r) {it : Item} {c : Chooser}
    (ht : Traced p it c) : Traced q it c := by
  cases c with
  | best => exact ht
  | partials =>
    obtain ⟨r, hr, hrest⟩ := ht
    exact ⟨r, h r hr, hrest⟩
  | unreliable => exact ht

theorem made_iff_traced (h : env.ReadsExports) (sameCpu : Bool) (it : Item) (c : Chooser) :
    Made h.facts sameCpu it c ↔ Traced (KeyRatio env.tables sameCpu it.pairKey) it c := by
  have hne (r : Binary64) : r.eq .one = false ↔ r ≠ .one := by
    rw [Bool.eq_false_iff, Ne, Binary64.eq_one_iff]
  constructor
  · intro h
    cases h with
    | best hpair hratio => exact hratio
    | rated hpair hrated hone => exact ⟨it.ratio, hrated, (hne _).mp hone, .inl rfl⟩
    | boosted r hpair hrated hone hlt hratio => exact ⟨r, hrated, (hne r).mp hone, .inr ⟨hratio, hlt⟩⟩
  · intro h
    cases c with
    | best => exact .best True.intro h
    | partials =>
      obtain ⟨r, hrated, hone, hratio | ⟨hratio, hlt⟩⟩ := h
      · rw [← hratio] at hrated hone
        exact .rated True.intro hrated ((hne _).mpr hone)
      · exact .boosted r True.intro hrated ((hne r).mpr hone) hlt hratio
    | unreliable => exact h.elim

/-- A session in which nothing has been compared. -/
structure Unrated (s : State) : Prop where
  cache : s.ratiosCache = .empty
  partials : s.matchState.items .partials = []

/-- Up to its first checkpoint a fresh run compares nothing. -/
theorem stages_unrated (env : Environment) :
    env.stages.FollowsIn fun s t => Unrated s → Unrated t where
  refl _ h := h
  trans _ _ _ hst htu h := htu (hst h)
  point _ h := ⟨h.cache, h.partials⟩
  checkVersion _ _ _ ht hs := (Program.query_keeps keeps_checkVersion hs ht).1
  equalDb _ _ ht hs := Program.stage_keeps keeps_equalDb hs ht
  checkCallgraph _ _ ht hs := Program.stage_keeps keeps_checkCallgraph hs ht
  findEqualMatches _ _ ht hs := by
    refine Program.stage_keeps (findEqualMatches_keeps (fun _ _ _ => ?_) fun row _ n => ?_) hs ht
    · exact keeps_totals fun _ _ h => ⟨h.cache, h.partials⟩
    · refine keeps_added fun s st hst h hadd => ⟨h.cache, List.eq_nil_iff_forall_not_mem.mpr ?_⟩
      intro x hx
      have hlisted : x ∈ st.items .partials := hx
      rcases addMatch_listed hadd hlisted with hx | ⟨-, hc⟩
      · exact absurd (h.partials ▸ hx) List.not_mem_nil
      · cases hc

/-- A run may start where nothing has been compared that it has to ask for the processors for. -/
theorem Startable.of_unrated {facts : Facts env} {resume : Option PipelineCursor} {s : State}
    (hcache : CacheRated facts s) (h : Stages.isDone resume .dirtyHeuristics = false → Unrated s) :
    Startable facts resume s where
  cache := hcache
  enters := {
    clear := fun hresume => .clear (h (Option.isNone_iff_eq_none.mp hresume ▸ rfl)).cache
    processor := fun hdone t same hquery ht => by
      have hentry := ((stages_unrated env).entry resume fun _ h => ⟨rfl, h.partials⟩).session (h hdone)
      have hunrated : Unrated t := (Program.query_keeps keeps_sameProcessor hentry hquery).1
      refine Later.change ⟨.refl, ht⟩ (.processor same (fun e he => ?_) fun c it hit hmade => ?_)
      · rw [hunrated.cache] at he
        cases he
      · cases hmade with
        | best hpair hratio => exact .best hpair hratio
        | rated | boosted => exact absurd (hunrated.partials ▸ hit) List.not_mem_nil }

/-- Over a whole run, fresh or resumed, every partial match has the ratio that the engine computes for
the functions at its addresses, or that ratio with one bonus where the sum stays below one; no ratio
stands there that was not computed. Where addresses are not plain, it may be the ratio of another pair
with the key text of this one. -/
theorem runPipeline_traced (env : Environment) (hreads : env.ReadsExports) (rounds : Nat)
    (resume : Option PipelineCursor) (s : State)
    (hs : ∀ c, ∀ it ∈ s.matchState.items c,
      Traced (KeyRatio env.tables s.flags.isSameProcessor it.pairKey) it c)
    (hcache : ∀ e ∈ s.ratiosCache.entries,
      IsRatio env.tables s.flags.isSameProcessor e.ea1 e.ea2 e.ratio)
    (hstart : Stages.isDone resume .dirtyHeuristics = false → Unrated s) (t : State)
    (ht : Passes (env.stages.runPipeline rounds resume s) t) :
    ∀ c, ∀ it ∈ t.matchState.items c,
      Traced (KeyRatio env.tables t.flags.isSameProcessor it.pairKey) it c ∧
      (env.tables.Plain → Traced (IsRatio env.tables t.flags.isSameProcessor it.ea1 it.ea2) it c) := by
  have hstartable : Startable hreads.facts resume s := .of_unrated hcache hstart
  have hmade : AllMade hreads.facts s := fun c it hit => (made_iff_traced hreads _ it c).mpr (hs c it hit)
  intro c it hit
  have htraced := (made_iff_traced hreads _ it c).mp ((hstartable.later ht).allMade hmade c it hit)
  exact ⟨htraced, fun hplain => htraced.mono fun _ hr => hr.own hplain⟩

theorem sampleTables_plain : sampleTables.Plain := fun which => by cases which <;> decide +kernel

/-- The changed functions and the tied ones have the ratios of their own functions. -/
theorem runPipeline_traced_sample :
    sampleRun.session.matchState.partials.length = 4 ∧
      ∀ it ∈ sampleRun.session.matchState.partials, ∃ r, IsRatio sampleTables true it.ea1 it.ea2 r ∧
        r ≠ .one ∧ (it.ratio = r ∨
          it.ratio = r.add kMatchesBonusRatio ∧ r.add kMatchesBonusRatio < Binary64.one) := by
  obtain ⟨⟨-, hsame⟩, hlengths, -⟩ := sampleRun_ends
  refine ⟨congrArg Prod.snd hlengths, fun it hit => ?_⟩
  have htraced := runPipeline_traced sampleEnvironment sampleEnvironment_reads 3 none unstarted
    (fun c it hit => by cases c <;> cases hit) (fun _ he => absurd he List.not_mem_nil)
    (fun _ => ⟨rfl, rfl⟩) sampleRun.session (.inl rfl) .partials it hit
  exact hsame ▸ htraced.2 sampleTables_plain

theorem Change.cache_grows {facts : Facts env} {s t : State} (h : Change facts s t) :
    s.ratiosCache.entries <+: t.ratiosCache.entries := by
  have hsame : s.ratiosCache.entries <+: s.ratiosCache.entries := List.prefix_refl _
  cases h with
  | move t hmove =>
    cases hmove with
    | store e hrated =>
      show s.ratiosCache.entries <+: (s.ratiosCache.store e).entries
      unfold RatiosCache.store
      split_ifs
      · exact hsame
      · exact List.prefix_append _ _
    | add it c st hst hmade hadd => exact hsame
    | totals total1 total2 hst hcounted => exact hsame
    | cleanup site => exact hsame
    | point => exact hsame
    | flags f hf => exact hsame
    | hook dones => exact hsame
    | truncated entry => exact hsame
  | iteration k => exact hsame
  | processor same hcache hmade => exact hsame
  | resolved rows hrows => exact hsame
  | unmatchedMain left hleft => exact hsame
  | unmatchedDiff left hleft => exact hsame

theorem Later.cache_grows {facts : Facts env} {s t : State} (h : Later facts s t) :
    s.ratiosCache.entries <+: t.ratiosCache.entries :=
  h.invariant (P := fun t => s.ratiosCache.entries <+: t.ratiosCache.entries) (List.prefix_refl _)
    fun _ _ hchange hprefix => hprefix.trans hchange.cache_grows

/-- What a cache answers, every cache that it is a beginning of answers. -/
theorem find?_of_prefix {cache cache' : RatiosCache} (h : cache.entries <+: cache'.entries)
    {ea1 ea2 : Option Text} {x : Binary64} (hx : RatiosCache.find? cache ea1 ea2 = some x) :
    RatiosCache.find? cache' ea1 ea2 = some x := by
  obtain ⟨rest, hrest⟩ := h
  unfold RatiosCache.find? at hx ⊢
  obtain ⟨e, he, rfl⟩ := Option.map_eq_some_iff.mp hx
  rw [← hrest, List.find?_append, he]
  rfl

/-- Over a whole run, fresh or resumed, the cache only grows: a later checkpoint answers as an earlier
one for every pair that this one knows, and every answer was computed for its pair. -/
theorem runPipeline_cache (env : Environment) (hreads : env.ReadsExports) (rounds : Nat)
    (resume : Option PipelineCursor) (s : State)
    (hcache : ∀ e ∈ s.ratiosCache.entries,
      IsRatio env.tables s.flags.isSameProcessor e.ea1 e.ea2 e.ratio)
    (hstart : Stages.isDone resume .dirtyHeuristics = false → Unrated s) :
    let r := env.stages.runPipeline rounds resume s
    (r.saves.Pairwise fun y z => ∀ ea1 ea2 x, RatiosCache.find? y.2.ratiosCache ea1 ea2 = some x →
      RatiosCache.find? z.2.ratiosCache ea1 ea2 = some x) ∧
    (∀ y ∈ r.saves, y.2.ratiosCache.entries <+: r.session.ratiosCache.entries) ∧
    ∀ t, Passes r t → ∀ e ∈ t.ratiosCache.entries,
      IsRatio env.tables t.flags.isSameProcessor e.ea1 e.ea2 e.ratio := by
  have hstartable : Startable hreads.facts resume s := .of_unrated hcache hstart
  have hpath := hstartable.path rounds
  have hrated (y : PipelineCursor × State) (hy : y ∈ (env.stages.runPipeline rounds resume s).saves) :
      CacheRated hreads.facts y.2 := ((hpath.saves y hy).1 hcache).cache
  refine ⟨hpath.order.imp_of_mem ?_, fun y hy => ?_, fun t ht => ?_⟩
  · intro y z hy hz hyz ea1 ea2 x hx
    exact find?_of_prefix (hyz (hrated y hy)).cache_grows hx
  · exact ((hpath.saves y hy).2 (hrated y hy)).cache_grows
  · exact (hstartable.later ht).cache

/-- The cache has no ratio at first, two from the names, four from the heuristics and five from the gap
between two matches on, and these are the ratios of their functions. -/
theorem runPipeline_cache_sample :
    (sampleRun.saves.map fun y => y.2.ratiosCache.entries.length) =
        [0,0,2,2,4,4,4,4,4,5,5,5,5,5,5,5,5,5] ∧
      (∀ y ∈ sampleRun.saves, y.2.ratiosCache.entries <+: sampleRun.session.ratiosCache.entries) ∧
      ∀ e ∈ sampleRun.session.ratiosCache.entries, IsRatio sampleTables true e.ea1 e.ea2 e.ratio := by
  obtain ⟨⟨-, hsame⟩, -⟩ := sampleRun_ends
  obtain ⟨-, hsaves, hrated⟩ := runPipeline_cache sampleEnvironment sampleEnvironment_reads 3 none
    unstarted (fun _ he => absurd he List.not_mem_nil) fun _ => ⟨rfl, rfl⟩
  exact ⟨sampleRun_saves.1, hsaves, hsame ▸ hrated _ (.inl rfl)⟩

end DSigMatcher.Engine
