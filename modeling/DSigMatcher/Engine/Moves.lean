import DSigMatcher.Engine.Fetched
import DSigMatcher.Engine.Program
import DSigMatcher.Framework.UnitInterval
import Mathlib.Logic.Relation

namespace DSigMatcher.Engine
open DSigMatcher.Base DSigMatcher.Framework DSigMatcher.Diff DSigMatcher.Pipeline

/-- A text of a TEXT column; NULL is None. -/
def textOf : SqlValue → Option Text
  | .text t => some t
  | _ => none

/-- What holds of every ratio that the engine computes for two addresses: for the functions of a fetched
row, and for two functions of the tables. -/
structure Environment.Rates (env : Environment)
    (Rated : Bool → Option Text → Option Text → Binary64 → Prop) : Prop where
  fetched : ∀ sameCpu row r1 r2 r, env.Fetches row → row.row1 = some r1 → row.row2 = some r2 →
    r1 < env.tables.main.count → r2 < env.tables.diff.count →
    compute env.tables sameCpu (some row.ea1) (some row.ea2) r1 r2 .sql row.md1 row.md2 = .ok r →
    Rated sameCpu (some row.ea1) (some row.ea2) r
  compared : ∀ sameCpu r1 r2 r, r1 < env.tables.main.count → r2 < env.tables.diff.count →
    compute env.tables sameCpu (env.tables.main.row r1).addrIdOf (env.tables.diff.row r2).addrIdOf r1 r2
      .python none none = .ok r →
    Rated sameCpu (env.tables.main.row r1).addrIdOf (env.tables.diff.row r2).addrIdOf r

/-- What holds of every computed ratio. -/
theorem Environment.Rates.of_compute {env : Environment} {P : Binary64 → Prop}
    (h : ∀ sameCpu ea1 ea2 row1 row2 src md1 md2 r,
      row1 < env.tables.main.count → row2 < env.tables.diff.count →
      compute env.tables sameCpu ea1 ea2 row1 row2 src md1 md2 = .ok r → P r) :
    env.Rates fun _ _ _ r => P r where
  fetched _ _ _ _ _ _ _ _ h1 h2 hr := h _ _ _ _ _ _ _ _ _ h1 h2 hr
  compared _ _ _ _ h1 h2 hr := h _ _ _ _ _ _ _ _ _ h1 h2 hr

/-- What is known of an environment: the ratios its pairs have, by the processors and the addresses, the
functions that stand in a row together, by address and name, and the numbers of functions. -/
structure Facts (env : Environment) where
  Rated : Bool → Option Text → Option Text → Binary64 → Prop
  Paired : Option Text → Option Text → Option Text → Option Text → Prop
  Counted : Int → Int → Prop
  rates : env.Rates Rated
  totals : ∀ total1 total2, env.totals = .ok [total1,total2] → Counted total1 total2
  rows : ∀ row, env.Fetches row → Paired (some row.ea1) row.name1 (some row.ea2) row.name2
  equalMatches : ∀ stmt, env.db .equalMatches = .ok stmt → ∀ row, Except.ok row ∈ rowsOf stmt →
    ∀ ea name, textOf (row.cell (stmt.findColumn (text "ea"))) = ea →
      textOf (row.cell (stmt.findColumn (text "mangled_function"))) = name → Paired ea name ea name
  callees : ∀ name1 name2 r1 r2,
    env.fetchFunctionRows (.functionsExists name1 name2) .main none =
      .ok [⟨.main,some r1⟩,⟨.diff,some r2⟩] →
    Paired (env.tables.main.row r1).addrIdOf (some name1) (env.tables.diff.row r2).addrIdOf (some name2)
  tables : ∀ r1 r2, r1 < env.tables.main.count → r2 < env.tables.diff.count →
    Paired (env.tables.main.row r1).addrIdOf (env.tables.main.row r1).nameIdOf
      (env.tables.diff.row r2).addrIdOf (env.tables.diff.row r2).nameIdOf

/-- The functions of an item. -/
def Facts.PairedItem {env : Environment} (facts : Facts env) (it : Item) : Prop :=
  facts.Paired it.ea1 it.name1 it.ea2 it.name2

/-- The ratio of a pair with this key text; the cache tells no other pairs apart. -/
def Facts.Found {env : Environment} (facts : Facts env) (sameCpu : Bool) (key : Text) (r : Binary64) :
    Prop :=
  ∃ ea1 ea2, eaPairKey ea1 ea2 = key ∧ facts.Rated sameCpu ea1 ea2 r

def kMatchesBonusRatio : Binary64 := literal 1 100

variable {env : Environment}

/-- The items that the stages add, and where they add them: a one goes to the best matches, and any
other ratio, with its bonus or without, to the partial ones. -/
inductive Made (facts : Facts env) (sameCpu : Bool) (it : Item) : Chooser → Prop
  | best (hpair : facts.PairedItem it) (hratio : it.ratio = .one) : Made facts sameCpu it .best
  | rated (hpair : facts.PairedItem it) (hrated : facts.Found sameCpu it.pairKey it.ratio)
      (hone : it.ratio.eq .one = false) : Made facts sameCpu it .partials
  | boosted (r : Binary64) (hpair : facts.PairedItem it) (hrated : facts.Found sameCpu it.pairKey r)
      (hone : r.eq .one = false) (hlt : r.add kMatchesBonusRatio < Binary64.one)
      (hratio : it.ratio = r.add kMatchesBonusRatio) : Made facts sameCpu it .partials

theorem Made.paired {facts : Facts env} {sameCpu : Bool} {it : Item} {c : Chooser}
    (h : Made facts sameCpu it c) : facts.PairedItem it := by
  cases h with
  | best hpair hratio => exact hpair
  | rated hpair hrated hone => exact hpair
  | boosted r hpair hrated hone hlt hratio => exact hpair

/-- What a stage does to the session, one effect at a time. -/
inductive Move (facts : Facts env) (s : State) : State → Prop
  | add (it : Item) (c : Chooser) (st : MatchState) (hst : Stored st)
      (hmade : Made facts s.flags.isSameProcessor it c)
      (hadd : s.matchState.addMatch it.name1 it.name2 it.ratio it (some c) = .ok st) :
      Move facts s { s with matchState := st, stored := hst }
  | totals (total1 total2 : Int) (hst : Stored { s.matchState with total1, total2 })
      (hcounted : facts.Counted total1 total2) :
      Move facts s { s with matchState := { s.matchState with total1, total2 }, stored := hst }
  | cleanup (site : CleanupSite) : Move facts s (s.cleanup site)
  | point : Move facts s s.point
  | store (e : CacheEntry) (hrated : facts.Rated s.flags.isSameProcessor e.ea1 e.ea2 e.ratio) :
      Move facts s { s with ratiosCache := s.ratiosCache.store e }
  | flags (f : DiffFlags) (hf : f.isSameProcessor = s.flags.isSameProcessor) :
      Move facts s { s with flags := f }
  | hook (dones : HookDones) : Move facts s { s with hookDones := dones }
  | truncated (entry : HeuristicTruncation) :
      Move facts s { s with rest := ⟨s.rest.truncations ++ [entry]⟩ }

/-- Every ratio of the cache is one of its pair. -/
def CacheRated (facts : Facts env) (s : State) : Prop :=
  ∀ e ∈ s.ratiosCache.entries, facts.Rated s.flags.isSameProcessor e.ea1 e.ea2 e.ratio

/-- A session on the way from an earlier one. -/
structure Within (facts : Facts env) (start s : State) : Prop where
  moves : Relation.ReflTransGen (Move facts) start s
  cache : CacheRated facts s

theorem RatiosCache.mem_store (cache : RatiosCache) (e x : CacheEntry) :
    x ∈ (cache.store e).entries → x ∈ cache.entries ∨ x = e := by
  intro hx
  unfold RatiosCache.store at hx
  split_ifs at hx with h
  · exact .inl hx
  · rcases List.mem_append.mp hx with hx | hx
    · exact .inl hx
    · exact .inr (List.mem_singleton.mp hx)

/-- Only `diff()` itself asks for the processors. -/
theorem Move.processor {facts : Facts env} {s t : State} (h : Move facts s t) :
    t.flags.isSameProcessor = s.flags.isSameProcessor := by
  cases h with
  | flags f hf => exact hf
  | add it c st hst hmade hadd => rfl
  | totals total1 total2 hst hcounted => rfl
  | cleanup site => rfl
  | point => rfl
  | store e hrated => rfl
  | hook dones => rfl
  | truncated entry => rfl

theorem Move.cache {facts : Facts env} {s t : State} (h : Move facts s t) (hs : CacheRated facts s) :
    CacheRated facts t := by
  cases h with
  | store e hrated =>
    intro x hx
    rcases RatiosCache.mem_store _ e x hx with hx | rfl
    · exact hs x hx
    · exact hrated
  | add it c st hst hmade hadd => exact hs
  | totals total1 total2 hst hcounted => exact hs
  | cleanup site => exact hs
  | point => exact hs
  | flags f hf => exact fun x hx => hf.symm ▸ hs x hx
  | hook dones => exact hs
  | truncated entry => exact hs

namespace Within
variable {facts : Facts env} {start s t : State}

theorem refl (h : CacheRated facts s) : Within facts s s := ⟨.refl, h⟩

theorem move (h : Within facts start s) (hm : Move facts s t) : Within facts start t :=
  ⟨h.moves.tail hm, hm.cache h.cache⟩

/-- What every move keeps, a way keeps. -/
theorem invariant {P : State → Prop} (h : Within facts start t) (hstart : P start)
    (hmove : ∀ s t, Move facts s t → P s → P t) : P t := by
  obtain ⟨hmoves, -⟩ := h
  induction hmoves with
  | refl => exact hstart
  | tail _ hm ih => exact hmove _ _ hm ih

theorem processor (h : Within facts start s) : s.flags.isSameProcessor = start.flags.isSameProcessor :=
  h.invariant (P := fun s => s.flags.isSameProcessor = start.flags.isSameProcessor) rfl
    fun _ _ hm hs => hm.processor.trans hs

end Within

section
variable {I : State → Prop}

theorem keeps_pure {α : Type} (a : α) : (pure a : Program α).Keeps I fun _ => True := .pure True.intro

theorem keeps_forM {γ : Type} {l : List γ} {f : γ → Program PUnit}
    (hf : ∀ x ∈ l, (f x).Keeps I fun _ => True) : (l.forM f).Keeps I fun _ => True :=
  .forM hf True.intro

theorem keeps_lift {α : Type} (x : Except FetchError α) :
    (Program.lift x).Keeps I fun a => x = .ok a := .lift fun _ h => h

theorem keeps_pureDiff {α : Type} (x : Except DiffError α) :
    (Program.pureDiff x).Keeps I fun a => x = .ok a := by
  refine .lift fun a ha => ?_
  cases x with
  | error e => cases ha
  | ok b => exact congrArg Except.ok (Except.ok.inj ha)

theorem keeps_any {α : Type} {m : Program α} {Q : α → Prop} (h : m.Keeps I Q) :
    m.Keeps I fun _ => True := h.mono fun _ _ => True.intro

theorem keeps_isNew (p : Option Text × Option Text) : (Program.isNew p).Keeps I fun _ => True :=
  .gets fun _ _ => True.intro

theorem keeps_matchState : Program.matchState.Keeps I fun _ => True := .gets fun _ _ => True.intro

/-- What an addition keeps that is not refused. -/
theorem keeps_added {it : Item} {c : Chooser}
    (h : ∀ (s : State) st (hst : Stored st), I s →
      s.matchState.addMatch it.name1 it.name2 it.ratio it (some c) = .ok st →
      I { s with matchState := st, stored := hst }) : (Program.addMatch it c).Keeps I fun _ => True := by
  refine .attempt ?_ True.intro
  intro s t hs ht
  cases hadd : s.matchState.addMatch it.name1 it.name2 it.ratio it (some c) with
  | error e => simp [hadd] at ht
  | ok st =>
    simp only [hadd] at ht
    obtain ⟨hst, rfl⟩ := withMatches_ok ht
    exact h s st hst hs hadd

theorem keeps_totals {total1 total2 : Int}
    (h : ∀ (s : State) (hst : Stored { s.matchState with total1, total2 }), I s →
      I { s with matchState := { s.matchState with total1, total2 }, stored := hst }) :
    (Program.setTotals total1 total2).Keeps I fun _ => True := by
  refine .attempt ?_ True.intro
  intro s t hs ht
  obtain ⟨hst, rfl⟩ := withMatches_ok ht
  exact h s hst hs

end

section
variable {facts : Facts env} {start : State}

theorem keeps_flags : Program.flags.Keeps (Within facts start) fun f =>
    f.isSameProcessor = start.flags.isSameProcessor := .gets fun _ hs => hs.processor

theorem keeps_addMatch {it : Item} {c : Chooser} (h : Made facts start.flags.isSameProcessor it c) :
    (Program.addMatch it c).Keeps (Within facts start) fun _ => True :=
  keeps_added fun _ st hst hs hadd => hs.move (.add it c st hst (hs.processor.symm ▸ h) hadd)

theorem keeps_setTotals {total1 total2 : Int} (h : facts.Counted total1 total2) :
    (Program.setTotals total1 total2).Keeps (Within facts start) fun _ => True :=
  keeps_totals fun _ hst hs => hs.move (.totals total1 total2 hst h)

theorem keeps_cleanup (site : CleanupSite) :
    (Program.cleanup site).Keeps (Within facts start) fun _ => True :=
  .change (fun _ hs => hs.move (.cleanup site)) True.intro

theorem keeps_point : Program.point.Keeps (Within facts start) fun _ => True :=
  .change (fun _ hs => hs.move .point) True.intro

theorem keeps_setFlags {f : DiffFlags → DiffFlags}
    (hf : ∀ g, (f g).isSameProcessor = g.isSameProcessor) :
    (Program.setFlags f).Keeps (Within facts start) fun _ => True :=
  .change (fun s hs => hs.move (.flags (f s.flags) (hf s.flags))) True.intro

theorem keeps_store {e : CacheEntry}
    (h : facts.Rated start.flags.isSameProcessor e.ea1 e.ea2 e.ratio) :
    (Program.store e).Keeps (Within facts start) fun _ => True :=
  .change (fun _ hs => hs.move (.store e (hs.processor.symm ▸ h))) True.intro

theorem keeps_analysed (p : Option Text × Option Text) :
    (Program.analysed p).Keeps (Within facts start) fun _ => True :=
  .change (fun _ hs => hs.move (.hook _)) True.intro

theorem keeps_clearHook : Program.clearHook.Keeps (Within facts start) fun _ => True :=
  .change (fun _ hs => hs.move (.hook _)) True.intro

theorem keeps_truncated (entry : HeuristicTruncation) :
    (Program.truncated entry).Keeps (Within facts start) fun _ => True :=
  .change (fun _ hs => hs.move (.truncated entry)) True.intro

/-- A ratio that the cache has is the ratio of a pair with the same key text. -/
theorem keeps_cached (ea1 ea2 : Option Text) :
    (Program.cached ea1 ea2).Keeps (Within facts start) fun found =>
      ∀ r, found = some r → facts.Found start.flags.isSameProcessor (eaPairKey ea1 ea2) r := by
  refine .gets fun s hs r hr => ?_
  unfold RatiosCache.find? at hr
  cases hfind : s.ratiosCache.entries.find? fun e => e.key = eaPairKey ea1 ea2 with
  | none => simp [hfind] at hr
  | some e =>
    have hkey : e.key = eaPairKey ea1 ea2 := by simpa using List.find?_some hfind
    have hratio : e.ratio = r := by simpa [hfind] using hr
    have hrated := hs.cache e (List.mem_of_find?_eq_some hfind)
    rw [hs.processor, hratio] at hrated
    exact ⟨e.ea1, e.ea2, hkey, hrated⟩

end

end DSigMatcher.Engine
