import DSigMatcher.Checkpoint.Codec
import DSigMatcher.Framework.Fallible
import DSigMatcher.Pipeline.Run

namespace DSigMatcher.Pipeline
open DSigMatcher.Base DSigMatcher.Framework DSigMatcher.Diff DSigMatcher.Checkpoint

variable {ε : Type}

/-- What the restore asks of one export: its path and the addresses of its functions. -/
structure ExportSide where
  path : Text
  addresses : List Text

def ExportSide.count (side : ExportSide) : Int64 := Int64.ofNat side.addresses.length

/-- The two exports of a session, and what a snapshot says about its producer. -/
structure Exports where
  main : ExportSide
  diff : ExportSide
  pair : Text
  version : Text

def ratioBits (ratio : Binary64) : UInt64 := UInt64.ofNat ratio.toBits

def ratioFromBits (bits : UInt64) : Binary64 := Binary64.ofBits bits.toNat

/-- `ExportItem` and `ToSnapItem`: an address that is None becomes its text. -/
def toSnapItem (it : Item) : SnapItem :=
  ⟨keyText it.ea1, it.name1, keyText it.ea2, it.name2, it.desc, ratioBits it.ratio,
    Int64.ofInt it.nodes1, Int64.ofInt it.nodes2⟩

/-- `ImportItem` and `FromSnapItem`. -/
def fromSnapItem (it : SnapItem) : Item :=
  ⟨some it.ea1, it.name1, some it.ea2, it.name2, it.desc, ratioFromBits it.ratioBits,
    it.nodes1.toInt, it.nodes2.toInt⟩

def exportDict (d : NameDict) : List SnapMatched :=
  d.entries.map fun e => ⟨e.1, e.2.other, ratioBits e.2.ratio⟩

def importDict (rows : List SnapMatched) : NameDict :=
  rows.foldl (fun d row => d.put row.key ⟨row.other, ratioFromBits row.ratioBits⟩) .empty

def toSnapUnmatched (rows : Option (List UnmatchedRow)) : Option (List SnapUnmatched) :=
  rows.map fun rows => rows.map fun row => ⟨keyText row.ea, row.name⟩

def fromSnapUnmatched (rows : Option (List SnapUnmatched)) : Option (List UnmatchedRow) :=
  rows.map fun rows => rows.map fun row => ⟨some row.ea, row.name⟩

/-- `DiffSession::Snapshot` at a point that is neither after the final pass nor after the unmatched
functions. -/
def snapshot (exports : Exports) (s : Session ε) (point : Text) : StateSnapshot where
  producer := text "dsigmatcher-" ++ exports.version
  pair := exports.pair
  seq := s.pointSeq
  point := point
  iteration := s.iteration.map Int64.ofNat
  flags := {
    isSameProcessor := s.flags.isSameProcessor
    isPatchDiff := s.flags.isPatchDiff
    isSymbolsStripped := s.flags.isSymbolsStripped
    hooksLoaded := s.flags.hooksLoaded
    totalFunctions1 := Int64.ofInt s.matchState.total1
    totalFunctions2 := Int64.ofInt s.matchState.total2 }
  best := s.matchState.best.map toSnapItem
  partials := s.matchState.partials.map toSnapItem
  unreliable := s.matchState.unreliable.map toSnapItem
  matchedPrimary := exportDict s.matchState.primary
  matchedSecondary := exportDict s.matchState.secondary

/-- `CaptureCheckpoint`; the binding is filled in by its caller, and the hook's pairs come in the
order in which their set is walked. -/
def captureCheckpoint (exports : Exports) (binding : CheckpointBinding)
    (walk : List (Option Text × Option Text) → List (Option Text × Option Text))
    (s : Session ε) (cursor : PipelineCursor) : EngineCheckpoint where
  binding := binding
  cursor := cursor
  state := { snapshot exports s (text "checkpoint:" ++ cursor.done.name) with
    choosers :=
      if PipelineStep.finalPass.rank ≤ cursor.done.rank then
        some {
          best := s.final.choosers.best.map toSnapItem
          partials := s.final.choosers.partials.map toSnapItem
          unreliable := s.final.choosers.unreliable.map toSnapItem
          multimatch := s.final.choosers.multimatch.map toSnapItem }
      else none
    unmatched :=
      if PipelineStep.findUnmatched.rank ≤ cursor.done.rank then
        some {
          primary := toSnapUnmatched s.final.unmatchedPrimary
          secondary := toSnapUnmatched s.final.unmatchedSecondary }
      else none }
  ratiosCache := s.ratiosCache.entries.map fun e => ⟨e.ea1, e.ea2, ratioBits e.ratio⟩
  hookDones := walk s.hookDones.pairs
  pointSeq := s.pointSeq
  cleanupCounters := s.cleanupCounters.entries

section
variable (exports : Exports) (before : StateSnapshot)

/-- An address of the snapshot has to be a function of its side. -/
def requireAddress (ea : Text) (side : ExportSide) (place : Text) : Except DiffError Unit :=
  if ea ∈ side.addresses then .ok ()
  else
    .error (.unsupportedInput (text "replay: snapshot address " ++ ea ++ text " (" ++ place ++
      text ") is not a function of '" ++ side.path ++ text "'; the snapshot (pair '" ++ before.pair ++
      text "') does not belong to these databases"))

def requireItems (items : List SnapItem) (place : Text) : Except DiffError Unit :=
  items.forM fun it => do
    requireAddress before it.ea1 exports.main place
    requireAddress before it.ea2 exports.diff place

def requireUnmatched (rows : Option (List SnapUnmatched)) (side : ExportSide) (place : Text) :
    Except DiffError Unit :=
  (rows.getD []).forM fun row =>
    if row.ea ≠ text "None" then requireAddress before row.ea side place else .ok ()

def requireTotal (recorded : Int64) (side : ExportSide) (name : Text) : Except DiffError Unit :=
  if recorded ≠ 0 ∧ recorded ≠ side.count then
    .error (.unsupportedInput (text "replay: the snapshot records " ++ name ++ text " = " ++
      decimalInt recorded.toInt ++ text " but '" ++ side.path ++ text "' has " ++
      decimalInt side.count.toInt ++ text " functions; the snapshot (pair '" ++ before.pair ++
      text "') does not belong to these databases"))
  else .ok ()

/-- `CheckSnapshotMatchesInputs`. -/
def checkSnapshotMatchesInputs : Except DiffError Unit := do
  requireItems exports before before.best (text "all_matches.best")
  requireItems exports before before.partials (text "all_matches.partial")
  requireItems exports before before.unreliable (text "all_matches.unreliable")
  match before.choosers with
  | some choosers =>
    requireItems exports before choosers.best (text "choosers.best")
    requireItems exports before choosers.partials (text "choosers.partial")
    requireItems exports before choosers.unreliable (text "choosers.unreliable")
    requireItems exports before choosers.multimatch (text "choosers.multimatch")
  | none => pure ()
  match before.unmatched with
  | some unmatched =>
    -- the primary ones are functions of the diff database, the secondary ones of the main one
    requireUnmatched before unmatched.primary exports.diff (text "unmatched.primary")
    requireUnmatched before unmatched.secondary exports.main (text "unmatched.secondary")
  | none => pure ()
  requireTotal before before.flags.totalFunctions1 exports.main (text "total_functions1")
  requireTotal before before.flags.totalFunctions2 exports.diff (text "total_functions2")

end

/-- `MatchState::Import`. -/
def importState (before : StateSnapshot) : MatchState where
  total1 := before.flags.totalFunctions1.toInt
  total2 := before.flags.totalFunctions2.toInt
  best := before.best.map fromSnapItem
  partials := before.partials.map fromSnapItem
  unreliable := before.unreliable.map fromSnapItem
  primary := importDict before.matchedPrimary
  secondary := importDict before.matchedSecondary

theorem toInt_isInt64 (n : Int64) : IsInt64 n.toInt := ⟨n.le_toInt, n.toInt_lt⟩

theorem fromSnapItem_stored (it : SnapItem) : ItemStored (fromSnapItem it) :=
  ⟨toInt_isInt64 it.nodes1, toInt_isInt64 it.nodes2⟩

/-- The vectors of a snapshot are no longer than a vector can be. -/
def Fits (before : StateSnapshot) : Prop := before.best.length+before.partials.length < 2^63

theorem importState_stored {before : StateSnapshot} (h : Fits before) : Stored (importState before) := by
  refine ⟨?_, ?_, toInt_isInt64 _, toInt_isInt64 _⟩
  · rw [MatchState.totalMatchedFunctions, importState, List.length_map, List.length_map]
    exact h
  · intro c it hit
    have hmap (items : List SnapItem) (hit : it ∈ items.map fromSnapItem) : ItemStored it := by
      obtain ⟨item, -, rfl⟩ := List.mem_map.mp hit
      exact fromSnapItem_stored item
    cases c with
    | best => exact hmap _ hit
    | partials => exact hmap _ hit
    | unreliable => exact hmap _ hit

/-- The two addresses of a `ratios_cache` key: split at the first dash between a function of each
side, else at the first dash. -/
def splitCacheKey (exports : Exports) (key : Text) : Except DiffError (Text × Text) :=
  let splits := ((List.range key.length).filter fun i => key[i]? = some 45).map fun i =>
    (key.take i,key.drop (i+1))
  match splits.find? fun x => x.1 ∈ exports.main.addresses && x.2 ∈ exports.diff.addresses with
  | some x => .ok x
  | none =>
    match splits.head? with
    | some x => .ok x
    | none => .error (.unsupportedInput (text "ratios_cache key without '-': " ++ key))

/-- The cache of a snapshot, over a cleared one. -/
def seedCache (exports : Exports) (entries : List SnapCacheEntry) : Except DiffError RatiosCache :=
  entries.foldlM (fun cache e => do
    let x ← splitCacheKey exports e.key
    pure (cache.store ⟨some x.1, some x.2, ratioFromBits e.ratioBits⟩)) .empty

/-- The results a snapshot carries; those it leaves out stay as they are. -/
def restoreFinal (final : FinalResults) (before : StateSnapshot) : FinalResults :=
  let choosers :=
    match before.choosers with
    | some c => ⟨c.best.map fromSnapItem, c.partials.map fromSnapItem, c.unreliable.map fromSnapItem,
        c.multimatch.map fromSnapItem⟩
    | none => final.choosers
  match before.unmatched with
  | some dump => ⟨choosers, fromSnapUnmatched dump.primary, fromSnapUnmatched dump.secondary⟩
  | none => { final with choosers }

/-- `DiffSession::Restore`. -/
def restore (exports : Exports) (s : Session ε) (before : StateSnapshot) (h : Fits before) :
    Except DiffError (Session ε) := do
  let cache ←
    match before.ratiosCache with
    | some entries => seedCache exports entries
    | none => pure s.ratiosCache
  pure { s with
    matchState := importState before
    stored := importState_stored h
    flags := ⟨before.flags.isSameProcessor, before.flags.isPatchDiff, before.flags.isSymbolsStripped,
      before.flags.hooksLoaded⟩
    iteration := before.iteration.map fun k => k.toInt32.toInt.toNat
    ratiosCache := cache
    final := restoreFinal s.final before }

/-- `RestoreCheckpoint`. -/
def restoreCheckpoint (exports : Exports) (s : Session ε) (c : EngineCheckpoint) (h : Fits c.state) :
    Except DiffError (Session ε) := do
  checkSnapshotMatchesInputs exports c.state
  let t ← restore exports s c.state h
  pure { t with
    ratiosCache := c.ratiosCache.foldl
      (fun cache e => cache.store ⟨e.ea1, e.ea2, ratioFromBits e.ratioBits⟩) .empty
    hookDones := c.hookDones.foldl HookDones.insert .empty
    pointSeq := c.pointSeq
    cleanupCounters := c.cleanupCounters.foldl (fun counters x => counters.set x.1 x.2) .empty }

end DSigMatcher.Pipeline
