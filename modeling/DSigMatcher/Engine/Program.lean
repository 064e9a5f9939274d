import DSigMatcher.Engine.Database
import DSigMatcher.Framework.Uniform
import DSigMatcher.Pipeline.Simulation

namespace DSigMatcher.Engine
open DSigMatcher.Base DSigMatcher.Framework DSigMatcher.Diff DSigMatcher.Pipeline

/-- A heuristic that an error has ended. -/
structure HeuristicTruncation where
  id : Nat
  site : Text
  detail : Text
  deriving DecidableEq

/-- What of the engine's own state no checkpoint carries. -/
structure Rest where
  truncations : List HeuristicTruncation := []
  deriving DecidableEq

abbrev State := Session Rest

/-- A computation of the engine: a function of what a checkpoint carries. -/
abbrev Program (α : Type) := Uniform (Agree (ε := Rest)) FetchError α

instance (it : Item) : Decidable (ItemStored it) :=
  inferInstanceAs
    (Decidable ((-2^63 ≤ it.nodes1 ∧ it.nodes1 < 2^63) ∧ -2^63 ≤ it.nodes2 ∧ it.nodes2 < 2^63))

theorem stored_iff (st : MatchState) : Stored st ↔
    st.totalMatchedFunctions < 2^63 ∧ (∀ c ∈ choosers, ∀ it ∈ st.items c, ItemStored it) ∧
      (-2^63 ≤ st.total1 ∧ st.total1 < 2^63) ∧ -2^63 ≤ st.total2 ∧ st.total2 < 2^63 := by
  constructor
  · intro h
    exact ⟨h.count, fun c _ => h.items c, h.total1, h.total2⟩
  · intro ⟨hcount, hitems, h1, h2⟩
    exact ⟨hcount, fun c => hitems c (by cases c <;> decide), h1, h2⟩

instance (st : MatchState) : Decidable (Stored st) := decidable_of_iff _ (stored_iff st).symm

/-- The session with other matches; there is no memory for more of them than a count holds. -/
def withMatches (s : State) (st : MatchState) : Except FetchError State :=
  if h : Stored st then .ok { s with matchState := st, stored := h }
  else .error (.ioFailure (text "out of memory"))

theorem withMatches_ok {s t : State} {st : MatchState} (h : withMatches s st = .ok t) :
    ∃ hst : Stored st, t = { s with matchState := st, stored := hst } := by
  unfold withMatches at h
  split_ifs at h with hst
  exact ⟨hst, (Except.ok.inj h).symm⟩

theorem withMatches_alike {s t : State} (h : Agree s t) (st : MatchState) :
    (∃ s' t', withMatches s st = .ok s' ∧ withMatches t st = .ok t' ∧ Agree s' t') ∨
      ∃ e, withMatches s st = .error e ∧ withMatches t st = .error e := by
  unfold withMatches
  by_cases hst : Stored st
  · rw [dif_pos hst, dif_pos hst]
    exact .inl ⟨_, _, rfl, rfl, { h with matchState := rfl }⟩
  · rw [dif_neg hst, dif_neg hst]
    exact .inr ⟨_, rfl, rfl⟩

/-- The ratio of a pair, by its key text. -/
def RatiosCache.find? (cache : RatiosCache) (ea1 ea2 : Option Text) : Option Binary64 :=
  (cache.entries.find? fun e => e.key = eaPairKey ea1 ea2).map CacheEntry.ratio

namespace Program
variable {α : Type}

def raise (site what : Text) : Program α := Uniform.raise (.diff (.wouldRaise site what))

/-- What the port does not support. -/
def refuse (what : Text) : Program α := Uniform.raise (.diff (.unsupportedInput what))

def lift (x : Except FetchError α) : Program α := Uniform.lift x

/-- What reads neither a database nor the session. -/
def pureDiff (x : Except DiffError α) : Program α := Uniform.lift (x.mapError .diff)

def matchState : Program MatchState := Uniform.gets Session.matchState fun _ _ h => h.matchState

def flags : Program DiffFlags := Uniform.gets Session.flags fun _ _ h => h.flags

def setFlags (f : DiffFlags → DiffFlags) : Program Unit :=
  Uniform.change (fun s => { s with flags := f s.flags }) fun _ _ h =>
    { h with flags := congrArg f h.flags }

def setTotals (total1 total2 : Int) : Program Unit :=
  Uniform.attempt (fun s => withMatches s { s.matchState with total1, total2 }) fun s t h => by
    rw [h.matchState]
    exact withMatches_alike h _

/-- `AddMatch` of the names and the ratio of an item. -/
def addMatch (it : Item) (c : Chooser) : Program Unit :=
  Uniform.attempt (fun s =>
    match s.matchState.addMatch it.name1 it.name2 it.ratio it (some c) with
    | .error e => .error (.diff e)
    | .ok st => withMatches s st) fun s t h => by
      rw [h.matchState]
      cases t.matchState.addMatch it.name1 it.name2 it.ratio it (some c) with
      | error e => exact .inr ⟨_, rfl, rfl⟩
      | ok st => exact withMatches_alike h st

def cleanup (site : CleanupSite) : Program Unit :=
  Uniform.change (fun s => s.cleanup site) fun _ _ h => h.cleanup site

def point : Program Unit := Uniform.change Session.point fun _ _ h => h.point

def cached (ea1 ea2 : Option Text) : Program (Option Binary64) :=
  Uniform.gets (fun s => RatiosCache.find? s.ratiosCache ea1 ea2) fun _ _ h => by rw [h.ratiosCache]

def store (e : CacheEntry) : Program Unit :=
  Uniform.change (fun s => { s with ratiosCache := s.ratiosCache.store e }) fun _ _ h =>
    { h with ratiosCache := congrArg (·.store e) h.ratiosCache }

theorem contains_hookDones (p : Option Text × Option Text) {s t : State} (h : Agree s t) :
    (!s.hookDones.pairs.contains p) = !t.hookDones.pairs.contains p := by
  apply congrArg Bool.not
  rw [Bool.eq_iff_iff, List.contains_iff_mem, List.contains_iff_mem]
  exact h.hookDones p

/-- Whether the hook has not analysed a pair of names. -/
def isNew (p : Option Text × Option Text) : Program Bool :=
  Uniform.gets (fun s => !s.hookDones.pairs.contains p) fun _ _ h => contains_hookDones p h

theorem mem_insert_hookDones (dones : HookDones) (p q : Option Text × Option Text) :
    q ∈ (dones.insert p).pairs ↔ q ∈ dones.pairs ∨ q = p := by
  unfold HookDones.insert
  split_ifs with h
  · refine ⟨.inl, fun hq => hq.elim id ?_⟩
    rintro rfl
    exact h
  · rw [List.mem_append, List.mem_singleton]

def analysed (p : Option Text × Option Text) : Program Unit :=
  Uniform.change (fun s => { s with hookDones := s.hookDones.insert p }) fun s t h => { h with
    hookDones := fun q => by
      rw [mem_insert_hookDones, mem_insert_hookDones, h.hookDones] }

def clearHook : Program Unit :=
  Uniform.change (fun s => { s with hookDones := .empty }) fun _ _ h => { h with
    hookDones := fun _ => Iff.rfl }

def final : Program FinalResults := Uniform.gets Session.final fun _ _ h => h.final

def setFinal (f : FinalResults → FinalResults) : Program Unit :=
  Uniform.change (fun s => { s with final := f s.final }) fun _ _ h =>
    { h with final := congrArg f h.final }

def truncated (entry : HeuristicTruncation) : Program Unit :=
  Uniform.change (fun s => { s with rest := ⟨s.rest.truncations ++ [entry]⟩ }) fun _ _ h => { h with }

/-- An error that Python would raise is handled; the refusals of the port and the failures of the
environment go on. -/
def catchRaise (m : Program α) (handle : Text → Text → Program α) : Program α :=
  m.catching fun
    | .diff (.wouldRaise site what) => some (handle site what)
    | _ => none

end Program

/-- The pipeline passes every error on alike. -/
def FetchError.toDiff : FetchError → DiffError
  | .diff e => e
  | .ioFailure what => .wouldRaise (text "IoFailure") what

def Program.stage (m : Program Unit) : Stage Rest := fun s =>
  match m.run s with
  | (.ok (),s) => .ok s
  | (.error e,_) => .error (FetchError.toDiff e)

def Program.query (m : Program Bool) : Query Rest := fun s =>
  match m.run s with
  | (.ok answer,s) => .ok (s,answer)
  | (.error e,_) => .error (FetchError.toDiff e)

theorem Program.stage_determined (m : Program Unit) : DeterminedStage m.stage := by
  intro s t h
  have hrun := m.alike s t h
  unfold Program.stage
  revert hrun
  rcases m.run s with ⟨x, s'⟩
  rcases m.run t with ⟨y, t'⟩
  intro ⟨hresult, hstate⟩
  obtain rfl : x = y := hresult
  cases x with
  | ok a => exact .inl ⟨s', t', rfl, rfl, hstate⟩
  | error e => exact .inr ⟨_, rfl, rfl⟩

theorem Program.query_determined (m : Program Bool) : DeterminedQuery m.query := by
  intro s t h
  have hrun := m.alike s t h
  unfold Program.query
  revert hrun
  rcases m.run s with ⟨x, s'⟩
  rcases m.run t with ⟨y, t'⟩
  intro ⟨hresult, hstate⟩
  obtain rfl : x = y := hresult
  cases x with
  | ok a => exact .inl ⟨(s',a), (t',a), rfl, rfl, hstate, rfl⟩
  | error e => exact .inr ⟨_, rfl, rfl⟩

/-- What a program keeps, its stage keeps. -/
theorem Program.stage_keeps {m : Program Unit} {I : State → Prop} {Q : Unit → Prop} (hm : m.Keeps I Q)
    {s t : State} (hs : I s) (h : m.stage s = .ok t) : I t := by
  have hrun := hm s hs
  unfold Program.stage at h
  revert hrun h
  rcases m.run s with ⟨x, s'⟩
  intro h hrun
  cases x with
  | ok a => exact Except.ok.inj h ▸ hrun.1
  | error e => cases h

theorem Program.query_keeps {m : Program Bool} {I : State → Prop} {Q : Bool → Prop} (hm : m.Keeps I Q)
    {s t : State} {answer : Bool} (hs : I s) (h : m.query s = .ok (t,answer)) : I t ∧ Q answer := by
  have hrun := hm s hs
  unfold Program.query at h
  revert hrun h
  rcases m.run s with ⟨x, s'⟩
  intro h hrun
  cases x with
  | ok a =>
    obtain ⟨rfl, rfl⟩ := Prod.mk.inj (Except.ok.inj h)
    exact ⟨hrun.1, hrun.2 a rfl⟩
  | error e => cases h

end DSigMatcher.Engine
