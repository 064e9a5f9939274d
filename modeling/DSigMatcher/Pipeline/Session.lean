import DSigMatcher.Checkpoint.Cursor
import DSigMatcher.Diff.Cleanup
import DSigMatcher.Diff.FinalPass

namespace DSigMatcher.Pipeline
open DSigMatcher.Base DSigMatcher.Framework DSigMatcher.Diff DSigMatcher.Checkpoint

/-- CBinDiff attributes the passes set. -/
structure DiffFlags where
  isSameProcessor : Bool := false
  isPatchDiff : Bool := false
  isSymbolsStripped : Bool := false
  hooksLoaded : Bool := false
  deriving DecidableEq

/-- The call sites of `cleanup_matches`. -/
inductive CleanupSite
  | l1551 | l2945 | l3185 | l3217 | l3340 | l3413 | l3471 | l3655 | l3671
  deriving DecidableEq

def CleanupSite.line : CleanupSite → Nat
  | .l1551 => 1551
  | .l2945 => 2945
  | .l3185 => 3185
  | .l3217 => 3217
  | .l3340 => 3340
  | .l3413 => 3413
  | .l3471 => 3471
  | .l3655 => 3655
  | .l3671 => 3671

structure CacheEntry where
  ea1 : Option Text
  ea2 : Option Text
  ratio : Binary64
  deriving DecidableEq

/-- Two pairs whose key texts agree share an entry, as in Python. -/
def CacheEntry.key (e : CacheEntry) : Text := eaPairKey e.ea1 e.ea2

/-- `ratios_cache` in insertion order. -/
@[ext] structure RatiosCache where
  entries : List CacheEntry
  nodup : (entries.map CacheEntry.key).Nodup
  deriving DecidableEq

namespace RatiosCache

def empty : RatiosCache := ⟨[], List.nodup_nil⟩

/-- `Store`: the first writer of a key wins. -/
def store (cache : RatiosCache) (e : CacheEntry) : RatiosCache :=
  if h : e.key ∈ cache.entries.map CacheEntry.key then cache
  else ⟨cache.entries ++ [e], by
    rw [List.map_append, List.nodup_append]
    refine ⟨cache.nodup, List.nodup_singleton _, ?_⟩
    intro a ha b hb hab
    rw [List.map_singleton, List.mem_singleton] at hb
    exact h (hb ▸ hab ▸ ha)⟩

end RatiosCache

/-- The pairs of names the patch-diff hook has analysed. -/
@[ext] structure HookDones where
  pairs : List (Option Text × Option Text)
  nodup : pairs.Nodup
  deriving DecidableEq

namespace HookDones

def empty : HookDones := ⟨[], List.nodup_nil⟩

def insert (dones : HookDones) (p : Option Text × Option Text) : HookDones :=
  if h : p ∈ dones.pairs then dones
  else ⟨dones.pairs ++ [p], by
    rw [List.nodup_append]
    refine ⟨dones.nodup, List.nodup_singleton _, ?_⟩
    intro a ha b hb hab
    rw [List.mem_singleton] at hb
    exact h (hb ▸ hab ▸ ha)⟩

end HookDones

/-- A map of call counts in the order of its lines. -/
def setCounter (line : Nat) (n : Int64) : List (Nat × Int64) → List (Nat × Int64)
  | [] => [(line,n)]
  | e::es =>
    if line < e.1 then (line,n)::e::es
    else if line = e.1 then (line,n)::es
    else e::setCounter line n es

theorem mem_keys_setCounter (line : Nat) (n : Int64) (es : List (Nat × Int64)) (k : Nat)
    (hk : k ∈ (setCounter line n es).map Prod.fst) : k = line ∨ k ∈ es.map Prod.fst := by
  induction es with
  | nil => simpa [setCounter] using hk
  | cons e es ih =>
    unfold setCounter at hk
    split_ifs at hk with hlt heq
    · simpa using hk
    · simp only [List.map_cons, List.mem_cons] at hk ⊢
      tauto
    · simp only [List.map_cons, List.mem_cons] at hk ⊢
      tauto

theorem setCounter_sorted (line : Nat) (n : Int64) (es : List (Nat × Int64))
    (hes : (es.map Prod.fst).Pairwise (· < ·)) :
    ((setCounter line n es).map Prod.fst).Pairwise (· < ·) := by
  induction es with
  | nil => simp [setCounter]
  | cons e es ih =>
    rw [List.map_cons, List.pairwise_cons] at hes
    unfold setCounter
    split_ifs with hlt heq
    · rw [List.map_cons, List.map_cons, List.pairwise_cons, List.pairwise_cons]
      refine ⟨?_, hes⟩
      intro k hk
      rcases List.mem_cons.mp hk with rfl | hk
      · exact hlt
      · exact Nat.lt_trans hlt (hes.1 k hk)
    · rw [List.map_cons, List.pairwise_cons]
      exact ⟨heq ▸ hes.1, hes.2⟩
    · rw [List.map_cons, List.pairwise_cons]
      refine ⟨?_, ih hes.2⟩
      intro k hk
      rcases mem_keys_setCounter line n es k hk with rfl | hk
      · omega
      · exact hes.1 k hk

/-- `std::map` of the calls so far a cleanup site. -/
@[ext] structure CleanupCounters where
  entries : List (Nat × Int64)
  sorted : (entries.map Prod.fst).Pairwise (· < ·)
  deriving DecidableEq

namespace CleanupCounters

def empty : CleanupCounters := ⟨[], List.Pairwise.nil⟩

def set (counters : CleanupCounters) (line : Nat) (n : Int64) : CleanupCounters :=
  ⟨setCounter line n counters.entries, setCounter_sorted line n _ counters.sorted⟩

def get (counters : CleanupCounters) (line : Nat) : Int64 :=
  match counters.entries.find? fun e => e.1 = line with
  | some e => e.2
  | none => 0

end CleanupCounters

structure UnmatchedRow where
  ea : Option Text
  name : Option Text
  deriving DecidableEq

/-- The choosers `save_results` writes. -/
structure FinalResults where
  choosers : FinalChoosers := {}
  unmatchedPrimary : Option (List UnmatchedRow) := none
  unmatchedSecondary : Option (List UnmatchedRow) := none
  deriving DecidableEq

def IsInt64 (n : Int) : Prop := -2^63 ≤ n ∧ n < 2^63

/-- The node counts of an item are 64-bit. -/
def ItemStored (it : Item) : Prop := IsInt64 it.nodes1 ∧ IsInt64 it.nodes2

/-- What the types of the source say: the lists are vectors, and the numbers are 64-bit. -/
structure Stored (st : MatchState) : Prop where
  count : st.totalMatchedFunctions < 2^63
  items : ∀ c, ∀ it ∈ st.items c, ItemStored it
  total1 : IsInt64 st.total1
  total2 : IsInt64 st.total2

theorem Stored.cleanup {st : MatchState} (h : Stored st) : Stored (cleanup st) := by
  refine ⟨?_, fun c it hit => h.items c it (cleanup_subset st c hit), ?_, ?_⟩
  · have hlength (s : CleanupScan) (l : List Item) :
        (cleanupItems s (sortDescending l)).2.length ≤ l.length := by
      have hle := (cleanupItems_sublist s (sortDescending l)).length_le
      rwa [sortDescending, List.length_insertionSort] at hle
    have hcount := h.count
    have hbest := hlength {} st.best
    have hpartials := hlength st.cleanedBest.1 st.partials
    rw [MatchState.totalMatchedFunctions] at hcount ⊢
    rw [MatchState.cleanup_best, MatchState.cleanup_partials]
    unfold MatchState.cleanedBest MatchState.cleanedPartials
    omega
  · rw [(MatchState.cleanup_totals st).1]
    exact h.total1
  · rw [(MatchState.cleanup_totals st).2]
    exact h.total2

theorem Stored.append {st : MatchState} (hst : Stored st) (it : Item) (hit : ItemStored it)
    (h : st.totalMatchedFunctions + 1 < 2^63) : Stored { st with best := st.best ++ [it] } := by
  refine ⟨?_, ?_, hst.total1, hst.total2⟩
  · have hcount : st.best.length + st.partials.length + 1 < 2^63 := h
    change (st.best ++ [it]).length + st.partials.length < 2^63
    rw [List.length_append, List.length_singleton]
    omega
  · intro c x hx
    cases c with
    | best =>
      rcases List.mem_append.mp hx with hx | hx
      · exact hst.items .best x hx
      · rw [List.mem_singleton.mp hx]
        exact hit
    | partials => exact hst.items .partials x hx
    | unreliable => exact hst.items .unreliable x hx

theorem Stored.initial (total1 total2 : Int) (h1 : IsInt64 total1) (h2 : IsInt64 total2) :
    Stored (MatchState.initial total1 total2) := by
  refine ⟨Nat.two_pow_pos 63, ?_, h1, h2⟩
  intro c it hit
  cases c with
  | best => cases hit
  | partials => cases hit
  | unreliable => cases hit

/-- A diff session; `rest` is what no checkpoint carries. -/
structure Session (ε : Type) where
  matchState : MatchState
  stored : Stored matchState
  flags : DiffFlags
  iteration : Option Nat
  ratiosCache : RatiosCache
  hookDones : HookDones
  final : FinalResults
  pointSeq : Int64
  cleanupCounters : CleanupCounters
  rest : ε

namespace Session
variable {ε : Type}

/-- `Point`: the harness counts every point. -/
def point (s : Session ε) : Session ε := { s with pointSeq := s.pointSeq + 1 }

/-- `DiffSession::Cleanup`, between its two points. -/
def cleanup (s : Session ε) (site : CleanupSite) : Session ε :=
  let counted := { s with
    cleanupCounters := s.cleanupCounters.set site.line (s.cleanupCounters.get site.line + 1) }
  let before := counted.point
  let cleaned := { before with
    matchState := Diff.cleanup before.matchState
    stored := before.stored.cleanup }
  cleaned.point

/-- `TotalMatchedFunctions` as the signed count the loop compares. -/
def total (s : Session ε) : Int64 := Int64.ofNat s.matchState.totalMatchedFunctions

theorem total_toInt (s : Session ε) : s.total.toInt = s.matchState.totalMatchedFunctions :=
  Int64.toInt_ofNat_of_lt s.stored.count

theorem total_nonneg (s : Session ε) : 0 ≤ s.total := by
  rw [Int64.le_iff_toInt_le, total_toInt]
  exact Int.natCast_nonneg _

/-- A match appended to the best ones, while the count has room for it. -/
def appendBest (s : Session ε) (it : Item) (hit : ItemStored it) : Session ε :=
  if h : s.matchState.totalMatchedFunctions + 1 < 2^63 then
    { s with
      matchState := { s.matchState with best := s.matchState.best ++ [it] }
      stored := s.stored.append it hit h }
  else s

theorem appendBest_items (s : Session ε) (it : Item) (hit : ItemStored it) (c : Chooser) (x : Item)
    (hx : x ∈ (s.appendBest it hit).matchState.items c) : x ∈ s.matchState.items c ∨ x = it := by
  unfold appendBest at hx
  split_ifs at hx
  · cases c with
    | best => simpa [MatchState.items] using hx
    | partials => exact .inl hx
    | unreliable => exact .inl hx
  · exact .inl hx

/-- The session of a run that has not begun. -/
def initial (total1 total2 : Int) (h1 : IsInt64 total1) (h2 : IsInt64 total2) (rest : ε) :
    Session ε where
  matchState := MatchState.initial total1 total2
  stored := Stored.initial total1 total2 h1 h2
  flags := {}
  iteration := none
  ratiosCache := .empty
  hookDones := .empty
  final := {}
  pointSeq := 0
  cleanupCounters := .empty
  rest := rest

@[simp] theorem point_matchState (s : Session ε) : s.point.matchState = s.matchState := rfl

@[simp] theorem cleanup_matchState (s : Session ε) (site : CleanupSite) :
    (s.cleanup site).matchState = Diff.cleanup s.matchState := rfl

end Session

end DSigMatcher.Pipeline
