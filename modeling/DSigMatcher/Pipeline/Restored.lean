import DSigMatcher.Pipeline.Checkpointing
import DSigMatcher.Pipeline.Confined

namespace DSigMatcher.Pipeline
open DSigMatcher.Base DSigMatcher.Framework DSigMatcher.Diff DSigMatcher.Checkpoint

variable {ε : Type}

theorem ratioFromBits_ratioBits (ratio : Binary64) : ratioFromBits (ratioBits ratio) = ratio := by
  rw [ratioFromBits, ratioBits, UInt64.toNat_ofNat_of_lt' ratio.toBits_lt, Binary64.ofBits_toBits]

theorem toInt_ofInt_of_isInt64 {n : Int} (h : IsInt64 n) : (Int64.ofInt n).toInt = n :=
  Int64.toInt_ofInt_of_le h.1 h.2

/-- What holds of every match item and of every item of the choosers. -/
structure OverItems (P : Item → Prop) (s : Session ε) : Prop where
  best : ∀ it ∈ s.matchState.best, P it
  partials : ∀ it ∈ s.matchState.partials, P it
  unreliable : ∀ it ∈ s.matchState.unreliable, P it
  choosersBest : ∀ it ∈ s.final.choosers.best, P it
  choosersPartials : ∀ it ∈ s.final.choosers.partials, P it
  choosersUnreliable : ∀ it ∈ s.final.choosers.unreliable, P it
  choosersMultimatch : ∀ it ∈ s.final.choosers.multimatch, P it

/-- An item whose addresses are not None; its node counts are 64-bit. -/
structure Addressed (it : Item) : Prop where
  ea1 : it.ea1.isSome = true
  ea2 : it.ea2.isSome = true
  stored : ItemStored it

/-- A session with no None address; its iteration is an `int`. -/
structure NoNone (s : Session ε) : Prop where
  items : OverItems Addressed s
  unmatchedPrimary : ∀ row ∈ s.final.unmatchedPrimary.getD [], row.ea.isSome = true
  unmatchedSecondary : ∀ row ∈ s.final.unmatchedSecondary.getD [], row.ea.isSome = true
  iteration : ∀ k ∈ s.iteration, k < 2^31

/-- An item of two functions of the exports. -/
structure Located (exports : Exports) (it : Item) : Prop where
  ea1 : keyText it.ea1 ∈ exports.main.addresses
  ea2 : keyText it.ea2 ∈ exports.diff.addresses

/-- Unmatched functions of one export; the text of None is let through. -/
def UnmatchedOf (side : ExportSide) (rows : Option (List UnmatchedRow)) : Prop :=
  ∀ row ∈ rows.getD [], keyText row.ea ≠ text "None" → keyText row.ea ∈ side.addresses

/-- A session over the two exports. -/
structure Belongs (exports : Exports) (s : Session ε) : Prop where
  items : OverItems (Located exports) s
  unmatchedPrimary : UnmatchedOf exports.diff s.final.unmatchedPrimary
  unmatchedSecondary : UnmatchedOf exports.main s.final.unmatchedSecondary
  total1 : s.matchState.total1 = 0 ∨ s.matchState.total1 = exports.main.count.toInt
  total2 : s.matchState.total2 = 0 ∨ s.matchState.total2 = exports.diff.count.toInt

theorem keyText_isSome {ea : Option Text} (h : ea.isSome = true) : some (keyText ea) = ea := by
  cases ea with
  | none => cases h
  | some ea => rfl

theorem Addressed.restored {it : Item} (h : Addressed it) : fromSnapItem (toSnapItem it) = it := by
  rw [fromSnapItem, toSnapItem]
  dsimp only
  rw [ratioFromBits_ratioBits, toInt_ofInt_of_isInt64 h.stored.1, toInt_ofInt_of_isInt64 h.stored.2,
    keyText_isSome h.ea1, keyText_isSome h.ea2]

theorem items_restored {items : List Item} (h : ∀ it ∈ items, Addressed it) :
    (items.map toSnapItem).map fromSnapItem = items := by
  rw [List.map_map]
  exact (List.map_congr_left (g := id) fun it hit => (h it hit).restored).trans (List.map_id _)

theorem unmatched_restored {rows : Option (List UnmatchedRow)}
    (h : ∀ row ∈ rows.getD [], row.ea.isSome = true) :
    fromSnapUnmatched (toSnapUnmatched rows) = rows := by
  cases rows with
  | none => rfl
  | some rows =>
    refine congrArg some ?_
    dsimp only
    rw [List.map_map]
    refine (List.map_congr_left (g := id) fun row hrow => ?_).trans (List.map_id _)
    change (⟨some (keyText row.ea), row.name⟩ : UnmatchedRow) = row
    rw [keyText_isSome (h row hrow)]

section
variable {exports : Exports} {before : StateSnapshot}

theorem requireItems_ok {items : List Item} (h : ∀ it ∈ items, Located exports it) (place : Text) :
    requireItems exports before (items.map toSnapItem) place = .ok () := by
  refine forM_ok fun snap hsnap => ?_
  obtain ⟨it, hit, rfl⟩ := List.mem_map.mp hsnap
  have hfirst : (toSnapItem it).ea1 ∈ exports.main.addresses := (h it hit).ea1
  have hsecond : (toSnapItem it).ea2 ∈ exports.diff.addresses := (h it hit).ea2
  rw [requireAddress, if_pos hfirst, ok_bind, requireAddress, if_pos hsecond]

theorem requireUnmatched_ok {side : ExportSide} {rows : Option (List UnmatchedRow)}
    (h : UnmatchedOf side rows) (place : Text) :
    requireUnmatched before (toSnapUnmatched rows) side place = .ok () := by
  refine forM_ok fun snap hsnap => ?_
  cases rows with
  | none => cases hsnap
  | some rows =>
    obtain ⟨row, hrow, rfl⟩ := List.mem_map.mp hsnap
    dsimp only
    split_ifs with hnone
    · rw [requireAddress, if_pos (h row hrow hnone)]
    · rfl

theorem requireTotal_ok {side : ExportSide} {total : Int}
    (h : total = 0 ∨ total = side.count.toInt) (name : Text) :
    requireTotal before (Int64.ofInt total) side name = .ok () := by
  refine if_neg fun hboth => ?_
  rcases h with rfl | rfl
  · exact hboth.1 rfl
  · exact hboth.2 (Int64.ofInt_toInt _)

end

/-- A dictionary comes back with its keys in their order. -/
theorem importDict_exportDict (d : NameDict) : importDict (exportDict d) = d := by
  have hput (d : NameDict) (e : Option Text × MatchedEntry) (h : ∀ y ∈ d.entries, y.1 ≠ e.1) :
      (d.put e.1 e.2).entries = d.entries ++ [e] :=
    InsertionDict.putEntries_new e.2 h
  rw [importDict, exportDict, List.foldl_map]
  simp only [ratioFromBits_ratioBits]
  exact InsertionDict.ext (foldl_entries hput d.entries .empty d.nodup)

theorem ratiosCache_restored (cache : RatiosCache) :
    (cache.entries.map fun e => (⟨e.ea1, e.ea2, ratioBits e.ratio⟩ : CheckpointCacheEntry)).foldl
      (fun cache e => cache.store ⟨e.ea1, e.ea2, ratioFromBits e.ratioBits⟩) .empty = cache := by
  have hstore (cache : RatiosCache) (e : CacheEntry) (h : ∀ y ∈ cache.entries, y.key ≠ e.key) :
      (cache.store e).entries = cache.entries ++ [e] := by
    have hnew : e.key ∉ cache.entries.map CacheEntry.key := by
      intro hmem
      obtain ⟨y, hy, hkey⟩ := List.mem_map.mp hmem
      exact h y hy hkey
    rw [RatiosCache.store, dif_neg hnew]
  rw [List.foldl_map]
  simp only [ratioFromBits_ratioBits]
  exact RatiosCache.ext (foldl_entries hstore cache.entries .empty cache.nodup)

/-- The hook's pairs come back in the order in which they were walked. -/
theorem hookDones_restored {pairs : List (Option Text × Option Text)} (h : pairs.Nodup) :
    (pairs.foldl HookDones.insert .empty).pairs = pairs := by
  have hinsert (dones : HookDones) (p : Option Text × Option Text) (h : ∀ y ∈ dones.pairs, y ≠ p) :
      (dones.insert p).pairs = dones.pairs ++ [p] := by
    rw [HookDones.insert, dif_neg fun hmem => h p hmem rfl]
  have hpairs : ((HookDones.empty.pairs ++ pairs).map id).Pairwise (· ≠ ·) := by
    rwa [List.map_id]
  exact foldl_entries hinsert pairs .empty hpairs

theorem setCounter_last {line : Nat} (n : Int64) {es : List (Nat × Int64)}
    (h : ∀ e ∈ es, e.1 < line) : setCounter line n es = es ++ [(line,n)] := by
  induction es with
  | nil => rfl
  | cons e es ih =>
    rw [List.forall_mem_cons] at h
    rw [setCounter, if_neg (Nat.not_lt_of_gt h.1), if_neg (Nat.ne_of_gt h.1), ih h.2, List.cons_append]

theorem cleanupCounters_restored (counters : CleanupCounters) :
    counters.entries.foldl (fun counters x => counters.set x.1 x.2) .empty = counters := by
  have hset (counters : CleanupCounters) (e : Nat × Int64) (h : ∀ y ∈ counters.entries, y.1 < e.1) :
      (counters.set e.1 e.2).entries = counters.entries ++ [e] :=
    setCounter_last e.2 h
  exact CleanupCounters.ext (foldl_entries hset counters.entries .empty counters.sorted)

theorem iteration_restored {iteration : Option Nat} (h : ∀ k ∈ iteration, k < 2^31) :
    (iteration.map Int64.ofNat).map (fun k => k.toInt32.toInt.toNat) = iteration := by
  cases iteration with
  | none => rfl
  | some k =>
    have hk : k < 2^31 := h k rfl
    have hword : (Int64.ofNat k).toInt = k := Int64.toInt_ofNat_of_lt (by omega)
    refine congrArg some ?_
    change ((Int64.ofNat k).toInt32.toInt).toNat = k
    rw [Int64.toInt_toInt32, hword]
    have hbmod : (k : Int).bmod (2^32) = k := by
      rw [Int.bmod_eq_of_le] <;> omega
    rw [hbmod, Int.toNat_natCast]

section
variable (exports : Exports) (binding : CheckpointBinding)
  (walk : List (Option Text × Option Text) → List (Option Text × Option Text))
  {s : Session ε} {cursor : PipelineCursor}

theorem capture_fits (s : Session ε) (cursor : PipelineCursor) :
    Fits (captureCheckpoint exports binding walk s cursor).state := by
  have hcount := s.stored.count
  rw [MatchState.totalMatchedFunctions] at hcount
  change (s.matchState.best.map toSnapItem).length + (s.matchState.partials.map toSnapItem).length < 2^63
  rwa [List.length_map, List.length_map]

variable {exports}

/-- A checkpoint of a session over the exports belongs to them. -/
theorem check_capture (h : Belongs exports s) :
    checkSnapshotMatchesInputs exports (captureCheckpoint exports binding walk s cursor).state = .ok () := by
  simp only [checkSnapshotMatchesInputs, captureCheckpoint, snapshot, requireItems_ok h.items.best,
    requireItems_ok h.items.partials, requireItems_ok h.items.unreliable, ok_bind]
  split_ifs
  · simp only [requireItems_ok h.items.choosersBest, requireItems_ok h.items.choosersPartials,
      requireItems_ok h.items.choosersUnreliable, requireItems_ok h.items.choosersMultimatch,
      requireUnmatched_ok h.unmatchedPrimary, requireUnmatched_ok h.unmatchedSecondary,
      requireTotal_ok h.total1, requireTotal_ok h.total2, ok_bind]
  · simp only [requireItems_ok h.items.choosersBest, requireItems_ok h.items.choosersPartials,
      requireItems_ok h.items.choosersUnreliable, requireItems_ok h.items.choosersMultimatch,
      requireTotal_ok h.total1, requireTotal_ok h.total2, ok_bind]
  · simp only [requireUnmatched_ok h.unmatchedPrimary, requireUnmatched_ok h.unmatchedSecondary,
      requireTotal_ok h.total1, requireTotal_ok h.total2, ok_bind]
  · simp only [requireTotal_ok h.total1, requireTotal_ok h.total2, ok_bind]

variable (exports)

theorem matchState_restored (h : NoNone s) :
    importState (captureCheckpoint exports binding walk s cursor).state = s.matchState := by
  change (⟨(Int64.ofInt s.matchState.total1).toInt, (Int64.ofInt s.matchState.total2).toInt,
    (s.matchState.best.map toSnapItem).map fromSnapItem,
    (s.matchState.partials.map toSnapItem).map fromSnapItem,
    (s.matchState.unreliable.map toSnapItem).map fromSnapItem,
    importDict (exportDict s.matchState.primary),
    importDict (exportDict s.matchState.secondary)⟩ : MatchState) = s.matchState
  rw [toInt_ofInt_of_isInt64 s.stored.total1, toInt_ofInt_of_isInt64 s.stored.total2,
    items_restored h.items.best, items_restored h.items.partials, items_restored h.items.unreliable,
    importDict_exportDict, importDict_exportDict]

theorem final_restored (h : NoNone s) (hcomplete : Complete (cursor,s)) :
    restoreFinal {} (captureCheckpoint exports binding walk s cursor).state = s.final := by
  have hfinal (hlt : ¬ PipelineStep.findUnmatched.rank ≤ cursor.done.rank) :
      (⟨s.final.choosers, none, none⟩ : FinalResults) = s.final := by
    obtain ⟨hprimary, hsecondary⟩ := Prod.mk.inj (hcomplete.unmatched (Nat.lt_of_not_le hlt))
    calc (⟨s.final.choosers, none, none⟩ : FinalResults)
      _ = ⟨s.final.choosers, s.final.unmatchedPrimary, s.final.unmatchedSecondary⟩ := by
        rw [hprimary, hsecondary]
      _ = s.final := rfl
  simp only [restoreFinal, captureCheckpoint, snapshot]
  split_ifs with hlast hpass hpass
  · dsimp only
    rw [items_restored h.items.choosersBest, items_restored h.items.choosersPartials,
      items_restored h.items.choosersUnreliable, items_restored h.items.choosersMultimatch,
      unmatched_restored h.unmatchedPrimary, unmatched_restored h.unmatchedSecondary]
  · exact absurd (le_trans (by decide) hlast) hpass
  · rw [← hfinal hlast]
    dsimp only
    rw [items_restored h.items.choosersBest, items_restored h.items.choosersPartials,
      items_restored h.items.choosersUnreliable, items_restored h.items.choosersMultimatch]
  · have hchoosers : s.final.choosers = {} := hcomplete.choosers (Nat.lt_of_not_le hpass)
    rw [← hfinal hlast, hchoosers]

/-- A checkpoint is restored as it was captured, once it has passed the check against the exports. -/
theorem restore_capture (hwalk : ∀ pairs, (walk pairs).Perm pairs) (h : NoNone s)
    (hcomplete : Complete (cursor,s)) (fresh : Session ε) (hfresh : fresh.final = {}) :
    ∃ t, restoreCheckpoint exports fresh (captureCheckpoint exports binding walk s cursor)
        (capture_fits exports binding walk s cursor) =
      (checkSnapshotMatchesInputs exports (captureCheckpoint exports binding walk s cursor).state >>=
        fun _ => .ok t) ∧ Agree t s := by
  have hnodup : (walk s.hookDones.pairs).Nodup :=
    (hwalk s.hookDones.pairs).nodup_iff.mpr s.hookDones.nodup
  refine ⟨_, rfl, ⟨matchState_restored exports binding walk h, rfl, iteration_restored h.iteration,
    ratiosCache_restored s.ratiosCache, fun pair => ?_, ?_, rfl,
    cleanupCounters_restored s.cleanupCounters⟩⟩
  · change pair ∈ ((walk s.hookDones.pairs).foldl HookDones.insert .empty).pairs ↔ _
    rw [hookDones_restored hnodup]
    exact (hwalk s.hookDones.pairs).mem_iff
  · change restoreFinal fresh.final _ = s.final
    rw [hfresh]
    exact final_restored exports binding walk h hcomplete

end

end DSigMatcher.Pipeline
