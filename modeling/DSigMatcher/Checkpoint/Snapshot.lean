import DSigMatcher.Json.Fields

namespace DSigMatcher.Checkpoint
open DSigMatcher.Base DSigMatcher.Json
open DSigMatcher.Framework (ok_bind)

structure SnapItem where
  ea1 : Text
  name1 : Option Text
  ea2 : Text
  name2 : Option Text
  desc : Text
  ratioBits : UInt64
  nodes1 : Int64
  nodes2 : Int64
  deriving DecidableEq

/-- A matched dict entry; the key and the other name may be Python's None. -/
structure SnapMatched where
  key : Option Text
  other : Option Text
  ratioBits : UInt64
  deriving DecidableEq

structure SnapFlags where
  isSameProcessor : Bool := false
  isPatchDiff : Bool := false
  isSymbolsStripped : Bool := false
  hooksLoaded : Bool := false
  totalFunctions1 : Int64 := 0
  totalFunctions2 : Int64 := 0
  deriving DecidableEq

structure SnapUnmatched where
  ea : Text
  name : Option Text
  deriving DecidableEq

structure SnapCacheEntry where
  key : Text
  ratioBits : UInt64
  deriving DecidableEq

structure SnapChoosers where
  best : List SnapItem
  partials : List SnapItem
  unreliable : List SnapItem
  multimatch : List SnapItem
  deriving DecidableEq

structure SnapUnmatchedDump where
  primary : Option (List SnapUnmatched)
  secondary : Option (List SnapUnmatched)
  deriving DecidableEq

/-- `kSnapshotSchema`. -/
def snapshotSchema : Text := text "dsig-parity-snapshot/1"

structure StateSnapshot where
  schema : Text := snapshotSchema
  producer : Text := []
  pair : Text := []
  seq : Int64 := 0
  point : Text := []
  iteration : Option Int64 := none
  flags : SnapFlags := {}
  best : List SnapItem := []
  partials : List SnapItem := []
  unreliable : List SnapItem := []
  matchedPrimary : List SnapMatched := []
  matchedSecondary : List SnapMatched := []
  ratiosCache : Option (List SnapCacheEntry) := none
  choosers : Option SnapChoosers := none
  unmatched : Option SnapUnmatchedDump := none
  deriving DecidableEq

def ratioToJson (bits : UInt64) : JsonValue := .string (bitsHex bits)

def ratioFromJson (v : JsonValue) : Except JsonError UInt64 := v.asString >>= parseRatioBits

@[simp] theorem ratioFromJson_ratioToJson (bits : UInt64) :
    ratioFromJson (ratioToJson bits) = .ok bits := by
  simp [ratioFromJson, ratioToJson, JsonValue.asString]

/-- `ReadEa`: an address text, or an integer as written. -/
def readEa (v : JsonValue) : Except JsonError Text :=
  match v with
  | .string t => .ok t
  | .number t =>
    if v.isIntegerText then .ok t
    else .error { detail := text "item address is neither a string nor an integer" }
  | _ => .error { detail := text "item address is neither a string nor an integer" }

def itemToJson (it : SnapItem) : JsonValue :=
  .array [.string it.ea1, optionalString it.name1, .string it.ea2, optionalString it.name2,
    .string it.desc, ratioToJson it.ratioBits, .int it.nodes1, .int it.nodes2]

def itemFromJson (v : JsonValue) (place : Text) : Except JsonError SnapItem := do
  match ← inField place v.items with
  | [ea1, name1, ea2, name2, desc, ratio, nodes1, nodes2] =>
    let ea1 ← inField (indexed place 0) (readEa ea1)
    let name1 ← inField (indexed place 1) (readOptionalString name1)
    let ea2 ← inField (indexed place 2) (readEa ea2)
    let name2 ← inField (indexed place 3) (readOptionalString name2)
    let desc ← inField (indexed place 4) desc.asString
    let ratio ← inField (indexed place 5) (ratioFromJson ratio)
    let nodes1 ← inField (indexed place 6) nodes1.asInt64
    let nodes2 ← inField (indexed place 7) nodes2.asInt64
    .ok ⟨ea1, name1, ea2, name2, desc, ratio, nodes1, nodes2⟩
  | _ => errorAt "an item must have 8 fields" place

theorem itemFromJson_itemToJson (it : SnapItem) (place : Text) :
    itemFromJson (itemToJson it) place = .ok it := by
  simp [itemFromJson, itemToJson, JsonValue.items, JsonValue.asString, readEa]

theorem itemToJson_valid (it : SnapItem) : Valid 1 (itemToJson it) := by
  simp [itemToJson, Valid, valid_int, valid_optionalString, ratioToJson]

def itemsToJson : List SnapItem → JsonValue := writeList itemToJson

def itemsFromJson : JsonValue → Text → Except JsonError (List SnapItem) := readList itemFromJson

theorem itemsFromJson_itemsToJson (l : List SnapItem) (place : Text) :
    itemsFromJson (itemsToJson l) place = .ok l :=
  readList_writeList itemToJson itemFromJson l (fun it _ => itemFromJson_itemToJson it) place

theorem itemsToJson_valid (l : List SnapItem) : Valid 2 (itemsToJson l) :=
  valid_writeList 1 itemToJson l fun it _ => itemToJson_valid it

def matchedEntryToJson (m : SnapMatched) : JsonValue :=
  .array [optionalString m.key, optionalString m.other, ratioToJson m.ratioBits]

def matchedEntryFromJson (v : JsonValue) (place : Text) : Except JsonError SnapMatched := do
  match ← inField place v.items with
  | [key, other, ratio] =>
    let key ← inField (indexed place 0) (readOptionalString key)
    let other ← inField (indexed place 1) (readOptionalString other)
    let ratio ← inField (indexed place 2) (ratioFromJson ratio)
    .ok ⟨key, other, ratio⟩
  | _ => errorAt "a matched entry must have 3 fields" place

def matchedToJson : List SnapMatched → JsonValue := writeList matchedEntryToJson

def matchedFromJson : JsonValue → Text → Except JsonError (List SnapMatched) :=
  readList matchedEntryFromJson

theorem matchedFromJson_matchedToJson (l : List SnapMatched) (place : Text) :
    matchedFromJson (matchedToJson l) place = .ok l := by
  refine readList_writeList _ _ l (fun m _ place => ?_) place
  simp [matchedEntryFromJson, matchedEntryToJson, JsonValue.items]

theorem matchedToJson_valid (l : List SnapMatched) : Valid 2 (matchedToJson l) := by
  refine valid_writeList 1 _ l fun m _ => ?_
  simp [matchedEntryToJson, Valid, valid_optionalString, ratioToJson]

def unmatchedRowToJson (row : SnapUnmatched) : JsonValue :=
  .array [.string row.ea, optionalString row.name]

def unmatchedRowFromJson (v : JsonValue) (place : Text) : Except JsonError SnapUnmatched := do
  match ← inField place v.items with
  | [ea, name] =>
    let ea ← inField (indexed place 0) (readEa ea)
    let name ← inField (indexed place 1) (readOptionalString name)
    .ok ⟨ea, name⟩
  | _ => errorAt "an unmatched row must have 2 fields" place

def unmatchedToJson : Option (List SnapUnmatched) → JsonValue
  | some rows => writeList unmatchedRowToJson rows
  | none => .null

/-- A missing member, or null, is no list. -/
def unmatchedFromJson (v : Option JsonValue) (place : Text) :
    Except JsonError (Option (List SnapUnmatched)) :=
  match v with
  | none => .ok none
  | some .null => .ok none
  | some v => some <$> readList unmatchedRowFromJson v place

theorem unmatchedFromJson_unmatchedToJson (l : Option (List SnapUnmatched)) (place : Text) :
    unmatchedFromJson (some (unmatchedToJson l)) place = .ok l := by
  cases l with
  | none => rfl
  | some rows =>
    have hrows : readList unmatchedRowFromJson (writeList unmatchedRowToJson rows) place =
        .ok rows := by
      refine readList_writeList _ _ rows (fun row _ place => ?_) place
      simp [unmatchedRowFromJson, unmatchedRowToJson, JsonValue.items, readEa]
    change some <$> readList unmatchedRowFromJson (writeList unmatchedRowToJson rows) place = _
    rw [hrows]
    rfl

theorem unmatchedToJson_valid (l : Option (List SnapUnmatched)) :
    Valid 2 (unmatchedToJson l) := by
  cases l with
  | none => exact valid_null 2
  | some rows =>
    refine valid_writeList 1 _ rows fun row _ => ?_
    simp [unmatchedRowToJson, Valid, valid_optionalString]

def cacheEntryToJson (e : SnapCacheEntry) : JsonValue :=
  .array [.string e.key, ratioToJson e.ratioBits]

def cacheEntryFromJson (v : JsonValue) (place : Text) : Except JsonError SnapCacheEntry := do
  match ← inField place v.items with
  | [key, ratio] =>
    let key ← inField (indexed place 0) key.asString
    let ratio ← inField (indexed place 1) (ratioFromJson ratio)
    .ok ⟨key, ratio⟩
  | _ => errorAt "a ratios_cache entry must have 2 fields" place

def ratiosCacheToJson : List SnapCacheEntry → JsonValue := writeList cacheEntryToJson

def ratiosCacheFromJson : JsonValue → Except JsonError (List SnapCacheEntry) :=
  fun v => readList cacheEntryFromJson v (text "ratios_cache")

theorem ratiosCacheFromJson_ratiosCacheToJson (l : List SnapCacheEntry) :
    ratiosCacheFromJson (ratiosCacheToJson l) = .ok l := by
  refine readList_writeList _ _ l (fun e _ place => ?_) _
  simp [cacheEntryFromJson, cacheEntryToJson, JsonValue.items, JsonValue.asString]

theorem ratiosCacheToJson_valid (l : List SnapCacheEntry) : Valid 2 (ratiosCacheToJson l) := by
  refine valid_writeList 1 _ l fun e _ => ?_
  simp [cacheEntryToJson, Valid, ratioToJson]

def flagsMembers (f : SnapFlags) : List (Text × JsonValue) :=
  [(text "is_same_processor",.bool f.isSameProcessor), (text "is_patch_diff",.bool f.isPatchDiff),
    (text "is_symbols_stripped",.bool f.isSymbolsStripped),
    (text "hooks_loaded",.bool f.hooksLoaded),
    (text "total_functions1",.int f.totalFunctions1),
    (text "total_functions2",.int f.totalFunctions2)]

theorem flagsMembers_nodup (f : SnapFlags) : ((flagsMembers f).map Prod.fst).Nodup := by
  change List.Nodup [text "is_same_processor", text "is_patch_diff", text "is_symbols_stripped",
    text "hooks_loaded", text "total_functions1", text "total_functions2"]
  decide

/-- `ReadBoolFlag` and `ReadIntFlag`: a missing or null flag is the zero of its kind. -/
def readFlag {α : Type} (flags : JsonValue) (name : String) (zero : α)
    (read : JsonValue → Except JsonError α) : Except JsonError α :=
  inField (text "flags." ++ text name) (optionalMember flags name zero read)

def flagsFromJson (flags : JsonValue) : Except JsonError SnapFlags := do
  require flags.isObject "JSON value is not an object" (text "flags")
  let isSameProcessor ← readFlag flags "is_same_processor" false JsonValue.asBool
  let isPatchDiff ← readFlag flags "is_patch_diff" false JsonValue.asBool
  let isSymbolsStripped ← readFlag flags "is_symbols_stripped" false JsonValue.asBool
  let hooksLoaded ← readFlag flags "hooks_loaded" false JsonValue.asBool
  let totalFunctions1 ← readFlag flags "total_functions1" 0 JsonValue.asInt64
  let totalFunctions2 ← readFlag flags "total_functions2" 0 JsonValue.asInt64
  .ok ⟨isSameProcessor, isPatchDiff, isSymbolsStripped, hooksLoaded, totalFunctions1,
    totalFunctions2⟩

theorem flagsFromJson_flagsMembers (f : SnapFlags) :
    flagsFromJson (.object (flagsMembers f)) = .ok f := by
  have hbool (name : String) (b : Bool) (h : (text name,.bool b) ∈ flagsMembers f) :
      readFlag (.object (flagsMembers f)) name false JsonValue.asBool = .ok b := by
    rw [readFlag, optionalMember_of_mem _ (flagsMembers_nodup f) name false b _ _ h (by simp)
      (fun _ => rfl), inField_ok]
  have hint (name : String) (n : Int64) (h : (text name,.int n) ∈ flagsMembers f) :
      readFlag (.object (flagsMembers f)) name 0 JsonValue.asInt64 = .ok n := by
    rw [readFlag, optionalMember_of_mem _ (flagsMembers_nodup f) name 0 n _ _ h
      (by simp [JsonValue.int]) (fun _ => asInt64_int n), inField_ok]
  rw [flagsFromJson, hbool _ f.isSameProcessor (by simp [flagsMembers]),
    hbool _ f.isPatchDiff (by simp [flagsMembers]),
    hbool _ f.isSymbolsStripped (by simp [flagsMembers]),
    hbool _ f.hooksLoaded (by simp [flagsMembers]),
    hint _ f.totalFunctions1 (by simp [flagsMembers]),
    hint _ f.totalFunctions2 (by simp [flagsMembers])]
  rfl

theorem flagsMembers_valid (f : SnapFlags) : Valid 1 (.object (flagsMembers f)) := by
  refine ⟨flagsMembers_nodup f, ?_⟩
  simp [flagsMembers, valid_int, valid_bool]

/-- A list member whose absence is reported under `place` as well. -/
def listMember {α : Type} (v : JsonValue) (key : String) (place : Text)
    (read : JsonValue → Text → Except JsonError α) : Except JsonError α := do
  let x ← inField place (v.atKey (text key))
  read x place

theorem listMember_of_mem {α : Type} (members : List (Text × JsonValue))
    (hkeys : (members.map Prod.fst).Nodup) (key : String) (place : Text) (x : JsonValue)
    (read : JsonValue → Text → Except JsonError α) (value : α) (h : (text key,x) ∈ members)
    (hread : read x place = .ok value) :
    listMember (.object members) key place read = .ok value := by
  rw [listMember, JsonValue.atKey, find?_of_mem members hkeys (text key) x h]
  exact hread

def choosersMembers (c : SnapChoosers) : List (Text × JsonValue) :=
  [(text "best",itemsToJson c.best), (text "partial",itemsToJson c.partials),
    (text "unreliable",itemsToJson c.unreliable), (text "multimatch",itemsToJson c.multimatch)]

def choosersFromJson (v : JsonValue) : Except JsonError SnapChoosers := do
  let best ← listMember v "best" (text "choosers.best") itemsFromJson
  let partials ← listMember v "partial" (text "choosers.partial") itemsFromJson
  let unreliable ← listMember v "unreliable" (text "choosers.unreliable") itemsFromJson
  let multimatch ← listMember v "multimatch" (text "choosers.multimatch") itemsFromJson
  .ok ⟨best, partials, unreliable, multimatch⟩

theorem choosersMembers_nodup (c : SnapChoosers) : ((choosersMembers c).map Prod.fst).Nodup := by
  change List.Nodup [text "best", text "partial", text "unreliable", text "multimatch"]
  decide

theorem choosersFromJson_choosersMembers (c : SnapChoosers) :
    choosersFromJson (.object (choosersMembers c)) = .ok c := by
  have hlist (key : String) (l : List SnapItem) (place : Text)
      (h : (text key,itemsToJson l) ∈ choosersMembers c) :
      listMember (.object (choosersMembers c)) key place itemsFromJson = .ok l :=
    listMember_of_mem _ (choosersMembers_nodup c) key place _ _ l h
      (itemsFromJson_itemsToJson l place)
  rw [choosersFromJson, hlist _ c.best _ (by simp [choosersMembers]),
    hlist _ c.partials _ (by simp [choosersMembers]),
    hlist _ c.unreliable _ (by simp [choosersMembers]),
    hlist _ c.multimatch _ (by simp [choosersMembers])]
  rfl

theorem choosersMembers_valid (c : SnapChoosers) : Valid 3 (.object (choosersMembers c)) := by
  refine ⟨choosersMembers_nodup c, ?_⟩
  simp [choosersMembers, itemsToJson_valid]

def unmatchedMembers (u : SnapUnmatchedDump) : List (Text × JsonValue) :=
  [(text "primary",unmatchedToJson u.primary), (text "secondary",unmatchedToJson u.secondary)]

def unmatchedDumpFromJson (v : JsonValue) : Except JsonError SnapUnmatchedDump := do
  require v.isObject "JSON value is not an object" (text "unmatched")
  let primary ← unmatchedFromJson (v.find? (text "primary")) (text "unmatched.primary")
  let secondary ← unmatchedFromJson (v.find? (text "secondary")) (text "unmatched.secondary")
  .ok ⟨primary, secondary⟩

theorem unmatchedMembers_nodup (u : SnapUnmatchedDump) :
    ((unmatchedMembers u).map Prod.fst).Nodup := by
  change List.Nodup [text "primary", text "secondary"]
  decide

theorem unmatchedDumpFromJson_unmatchedMembers (u : SnapUnmatchedDump) :
    unmatchedDumpFromJson (.object (unmatchedMembers u)) = .ok u := by
  have hkeys := unmatchedMembers_nodup u
  rw [unmatchedDumpFromJson,
    find?_of_mem _ hkeys (text "primary") (unmatchedToJson u.primary) (by simp [unmatchedMembers]),
    find?_of_mem _ hkeys (text "secondary") (unmatchedToJson u.secondary)
      (by simp [unmatchedMembers]),
    unmatchedFromJson_unmatchedToJson, unmatchedFromJson_unmatchedToJson]
  rfl

theorem unmatchedMembers_valid (u : SnapUnmatchedDump) :
    Valid 3 (.object (unmatchedMembers u)) := by
  refine ⟨unmatchedMembers_nodup u, ?_⟩
  simp [unmatchedMembers, unmatchedToJson_valid]

/-- A member that is only written when there is something to write. -/
def optionalEntry {α : Type} (key : String) (write : α → JsonValue) :
    Option α → List (Text × JsonValue)
  | some x => [(text key,write x)]
  | none => []

def allMatchesMembers (s : StateSnapshot) : List (Text × JsonValue) :=
  [(text "best",itemsToJson s.best), (text "partial",itemsToJson s.partials),
    (text "unreliable",itemsToJson s.unreliable)]

theorem allMatchesMembers_nodup (s : StateSnapshot) :
    ((allMatchesMembers s).map Prod.fst).Nodup := by
  change List.Nodup [text "best", text "partial", text "unreliable"]
  decide

/-- The members of `SnapshotToJson`. -/
def snapshotMembers (s : StateSnapshot) : List (Text × JsonValue) :=
  [(text "schema",.string s.schema), (text "producer",.string s.producer),
    (text "pair",.string s.pair), (text "seq",.int s.seq), (text "point",.string s.point),
    (text "iteration",match s.iteration with | some i => .int i | none => .null),
    (text "flags",.object (flagsMembers s.flags)),
    (text "all_matches",.object (allMatchesMembers s)),
    (text "matched_primary",matchedToJson s.matchedPrimary),
    (text "matched_secondary",matchedToJson s.matchedSecondary)] ++
  optionalEntry "ratios_cache" ratiosCacheToJson s.ratiosCache ++
  optionalEntry "choosers" (fun c => .object (choosersMembers c)) s.choosers ++
  optionalEntry "unmatched" (fun u => .object (unmatchedMembers u)) s.unmatched

def snapshotToJson (s : StateSnapshot) : JsonValue := .object (snapshotMembers s)

/-- A text or number member with a default, read under its own name. -/
def plainMember {α : Type} (root : JsonValue) (key : String) (default : α)
    (read : JsonValue → Except JsonError α) : Except JsonError α :=
  optionalMember root key default fun v => inField (text key) (read v)

def schemaFromJson (root : JsonValue) : Except JsonError Text :=
  match root.find? (text "schema") with
  | some v => inField (text "schema") v.asString
  | none => .ok snapshotSchema

def snapshotFromJson (root : JsonValue) : Except JsonError StateSnapshot := do
  require root.isObject "a snapshot must be a JSON object" (text "(root)")
  let schema ← schemaFromJson root
  if schema ≠ snapshotSchema then
    .error { detail := text "unsupported snapshot schema \"" ++ schema ++ text "\"",
             path := text "schema" }
  else
    let producer ← plainMember root "producer" [] JsonValue.asString
    let pair ← plainMember root "pair" [] JsonValue.asString
    let seq ← plainMember root "seq" 0 JsonValue.asInt64
    let point ← inField (text "point") (root.atKey (text "point") >>= JsonValue.asString)
    let iteration ← plainMember root "iteration" none fun v => some <$> v.asInt64
    let flags ← optionalMember root "flags" {} flagsFromJson
    let all ← inField (text "all_matches") (root.atKey (text "all_matches"))
    let best ← listMember all "best" (text "all_matches.best") itemsFromJson
    let partials ← listMember all "partial" (text "all_matches.partial") itemsFromJson
    let unreliable ← listMember all "unreliable" (text "all_matches.unreliable") itemsFromJson
    let primary ← listMember root "matched_primary" (text "matched_primary") matchedFromJson
    let secondary ← listMember root "matched_secondary" (text "matched_secondary") matchedFromJson
    let cache ← optionalMember root "ratios_cache" none fun v => some <$> ratiosCacheFromJson v
    let choosers ← optionalMember root "choosers" none fun v => some <$> choosersFromJson v
    let unmatched ← optionalMember root "unmatched" none fun v => some <$> unmatchedDumpFromJson v
    .ok ⟨schema, producer, pair, seq, point, iteration, flags, best, partials, unreliable, primary,
      secondary, cache, choosers, unmatched⟩

theorem optionalEntry_keys {α : Type} (key : String) (write : α → JsonValue) (x : Option α) :
    ((optionalEntry key write x).map Prod.fst).Sublist [text key] := by
  cases x with
  | none => exact List.nil_sublist _
  | some x => exact List.Sublist.refl _

/-- What was written optionally is read back optionally. -/
theorem optionalMember_optionalEntry {α : Type} (before after : List (Text × JsonValue))
    (key : String) (write : α → JsonValue) (x : Option α)
    (hkeys : ((before ++ optionalEntry key write x ++ after).map Prod.fst).Nodup)
    (hout : text key ∉ (before ++ after).map Prod.fst)
    (read : JsonValue → Except JsonError α) (hread : ∀ y, read (write y) = .ok y)
    (hnull : ∀ y, write y ≠ .null) :
    optionalMember (.object (before ++ optionalEntry key write x ++ after)) key none
      (fun v => some <$> read v) = .ok x := by
  cases x with
  | none =>
    have hfind : (JsonValue.object (before ++ optionalEntry key write none ++ after)).find?
        (text key) = none :=
      find?_of_not_mem _ _ (by simpa [optionalEntry] using hout)
    rw [optionalMember, hfind]
  | some y =>
    refine optionalMember_of_mem _ hkeys key none (some y) (write y) _ (by simp [optionalEntry])
      (fun h => absurd h (hnull y)) fun _ => ?_
    rw [hread]
    rfl

def snapshotKeys : List Text :=
  [text "schema", text "producer", text "pair", text "seq", text "point", text "iteration",
    text "flags", text "all_matches", text "matched_primary", text "matched_secondary"]

/-- The members every snapshot has. -/
def snapshotBase (s : StateSnapshot) : List (Text × JsonValue) :=
  (snapshotMembers { s with ratiosCache := none, choosers := none, unmatched := none })

theorem snapshotBase_keys (s : StateSnapshot) : (snapshotBase s).map Prod.fst = snapshotKeys := rfl

theorem snapshotMembers_eq (s : StateSnapshot) :
    snapshotMembers s = snapshotBase s ++
      optionalEntry "ratios_cache" ratiosCacheToJson s.ratiosCache ++
      optionalEntry "choosers" (fun c => .object (choosersMembers c)) s.choosers ++
      optionalEntry "unmatched" (fun u => .object (unmatchedMembers u)) s.unmatched := rfl

theorem snapshotMembers_nodup (s : StateSnapshot) : ((snapshotMembers s).map Prod.fst).Nodup := by
  have hall : (snapshotKeys ++ [text "ratios_cache"] ++ [text "choosers"] ++
      [text "unmatched"]).Nodup := by decide
  refine hall.sublist ?_
  rw [snapshotMembers_eq, List.map_append, List.map_append, List.map_append, snapshotBase_keys]
  exact (((List.Sublist.refl _).append (optionalEntry_keys _ _ _)).append
    (optionalEntry_keys _ _ _)).append (optionalEntry_keys _ _ _)

theorem snapshotMembers_valid (s : StateSnapshot) : Valid 4 (snapshotToJson s) := by
  refine ⟨snapshotMembers_nodup s, ?_⟩
  have hall (s : StateSnapshot) : Valid 3 (.object (allMatchesMembers s)) :=
    ⟨allMatchesMembers_nodup s, by simp [allMatchesMembers, itemsToJson_valid]⟩
  have hiteration : Valid 3 (match s.iteration with | some i => .int i | none => .null) := by
    cases s.iteration with
    | none => exact valid_null 3
    | some i => exact valid_int 3 i
  have hflags : Valid 3 (.object (flagsMembers s.flags)) := (flagsMembers_valid _).mono (by decide)
  have hmatched (l : List SnapMatched) : Valid 3 (matchedToJson l) :=
    (matchedToJson_valid l).mono (by decide)
  have hcache (l : List SnapCacheEntry) : Valid 3 (ratiosCacheToJson l) :=
    (ratiosCacheToJson_valid l).mono (by decide)
  have hoptional {α : Type} (key : String) (write : α → JsonValue) (x : Option α)
      (h : ∀ y, Valid 3 (write y)) : ∀ m ∈ optionalEntry key write x, Valid 3 m.2 := by
    cases x with
    | none => simp [optionalEntry]
    | some y => simpa [optionalEntry] using h y
  intro m hm
  rw [snapshotMembers_eq, List.mem_append, List.mem_append, List.mem_append] at hm
  rcases hm with ((hm | hm) | hm) | hm
  · revert m
    simp [snapshotBase, snapshotMembers, optionalEntry, valid_string, valid_int, hiteration,
      hflags, hmatched, hall]
  · exact hoptional _ _ _ hcache m hm
  · exact hoptional _ _ _ choosersMembers_valid m hm
  · exact hoptional _ _ _ unmatchedMembers_valid m hm

section
variable (s : StateSnapshot)

theorem snapshotToJson_find? (key : Text) (x : JsonValue) (h : (key,x) ∈ snapshotBase s) :
    (snapshotToJson s).find? key = some x := by
  refine find?_of_mem _ (snapshotMembers_nodup s) key x ?_
  rw [snapshotMembers_eq]
  simp [h]

theorem plainMember_snapshotToJson {α : Type} (key : String) (default value : α) (x : JsonValue)
    (read : JsonValue → Except JsonError α) (h : (text key,x) ∈ snapshotBase s)
    (hnull : x = .null → default = value) (hread : x ≠ .null → read x = .ok value) :
    plainMember (snapshotToJson s) key default read = .ok value := by
  rw [plainMember, optionalMember, snapshotToJson_find? s _ _ h]
  cases x with
  | null => exact congrArg Except.ok (hnull rfl)
  | _ => simp [hread]

private theorem optionalMember_snapshotToJson {α : Type} (key : String) (write : α → JsonValue)
    (x : Option α) (before after : List (Text × JsonValue)) (keys : List Text)
    (read : JsonValue → Except JsonError α)
    (heq : snapshotMembers s = before ++ optionalEntry key write x ++ after)
    (hsub : ((before ++ after).map Prod.fst).Sublist keys) (hout : text key ∉ keys)
    (hread : ∀ y, read (write y) = .ok y) (hnull : ∀ y, write y ≠ .null) :
    optionalMember (snapshotToJson s) key none (fun v => some <$> read v) = .ok x := by
  have hkeys := snapshotMembers_nodup s
  rw [snapshotToJson, heq]
  rw [heq] at hkeys
  exact optionalMember_optionalEntry before after key write x hkeys (fun h => hout (hsub.subset h))
    read hread hnull

/-- The three members that are only there at times. -/
theorem optionalMembers_snapshotToJson :
    optionalMember (snapshotToJson s) "ratios_cache" none
      (fun v => some <$> ratiosCacheFromJson v) = .ok s.ratiosCache ∧
    optionalMember (snapshotToJson s) "choosers" none
      (fun v => some <$> choosersFromJson v) = .ok s.choosers ∧
    optionalMember (snapshotToJson s) "unmatched" none
      (fun v => some <$> unmatchedDumpFromJson v) = .ok s.unmatched := by
  have hbase : ((snapshotBase s).map Prod.fst).Sublist snapshotKeys := List.Sublist.refl _
  refine ⟨?_, ?_, ?_⟩
  · refine optionalMember_snapshotToJson s _ ratiosCacheToJson s.ratiosCache (snapshotBase s)
      (optionalEntry "choosers" (fun c => .object (choosersMembers c)) s.choosers ++
        optionalEntry "unmatched" (fun u => .object (unmatchedMembers u)) s.unmatched)
      (snapshotKeys ++ ([text "choosers"] ++ [text "unmatched"])) _ ?_ ?_ (by decide)
      ratiosCacheFromJson_ratiosCacheToJson (by simp [ratiosCacheToJson, writeList])
    · rw [snapshotMembers_eq, List.append_assoc _ _ (optionalEntry "unmatched" _ _)]
    · rw [List.map_append, List.map_append]
      exact hbase.append ((optionalEntry_keys _ _ _).append (optionalEntry_keys _ _ _))
  · refine optionalMember_snapshotToJson s _ (fun c => .object (choosersMembers c)) s.choosers
      (snapshotBase s ++ optionalEntry "ratios_cache" ratiosCacheToJson s.ratiosCache)
      (optionalEntry "unmatched" (fun u => .object (unmatchedMembers u)) s.unmatched)
      (snapshotKeys ++ [text "ratios_cache"] ++ [text "unmatched"]) _ (snapshotMembers_eq s) ?_
      (by decide) choosersFromJson_choosersMembers (by simp)
    rw [List.map_append, List.map_append]
    exact (hbase.append (optionalEntry_keys _ _ _)).append (optionalEntry_keys _ _ _)
  · refine optionalMember_snapshotToJson s _ (fun u => .object (unmatchedMembers u)) s.unmatched
      (snapshotBase s ++ optionalEntry "ratios_cache" ratiosCacheToJson s.ratiosCache ++
        optionalEntry "choosers" (fun c => .object (choosersMembers c)) s.choosers) []
      (snapshotKeys ++ [text "ratios_cache"] ++ [text "choosers"]) _ ?_ ?_ (by decide)
      unmatchedDumpFromJson_unmatchedMembers (by simp)
    · rw [snapshotMembers_eq, List.append_nil]
    · rw [List.append_nil, List.map_append, List.map_append]
      exact (hbase.append (optionalEntry_keys _ _ _)).append (optionalEntry_keys _ _ _)

/-- A snapshot of the supported schema is read back as it was. -/
theorem snapshotFromJson_snapshotToJson (hs : s.schema = snapshotSchema) :
    snapshotFromJson (snapshotToJson s) = .ok s := by
  have hschema : schemaFromJson (snapshotToJson s) = .ok snapshotSchema := by
    rw [schemaFromJson, snapshotToJson_find? s (text "schema") (.string s.schema)
      (by simp [snapshotBase, snapshotMembers]), ← hs]
    rfl
  have hproducer := plainMember_snapshotToJson s "producer" [] s.producer (.string s.producer)
    JsonValue.asString (by simp [snapshotBase, snapshotMembers]) (by simp) fun _ => rfl
  have hpair := plainMember_snapshotToJson s "pair" [] s.pair (.string s.pair)
    JsonValue.asString (by simp [snapshotBase, snapshotMembers]) (by simp) fun _ => rfl
  have hseq := plainMember_snapshotToJson s "seq" 0 s.seq (.int s.seq) JsonValue.asInt64
    (by simp [snapshotBase, snapshotMembers]) (by simp [JsonValue.int]) fun _ => asInt64_int _
  have hpoint : (snapshotToJson s).atKey (text "point") = .ok (.string s.point) := by
    rw [JsonValue.atKey, snapshotToJson_find? s (text "point") (.string s.point)
      (by simp [snapshotBase, snapshotMembers])]
  have hiteration := plainMember_snapshotToJson s "iteration" none s.iteration
    (match s.iteration with | some i => .int i | none => .null) (fun v => some <$> v.asInt64)
    (by simp [snapshotBase, snapshotMembers]) (by cases s.iteration <;> simp [JsonValue.int])
    (by cases s.iteration <;> simp)
  have hflags : optionalMember (snapshotToJson s) "flags" {} flagsFromJson = .ok s.flags := by
    rw [optionalMember, snapshotToJson_find? s (text "flags") (.object (flagsMembers s.flags))
      (by simp [snapshotBase, snapshotMembers])]
    exact flagsFromJson_flagsMembers s.flags
  have hall : (snapshotToJson s).atKey (text "all_matches") =
      .ok (.object (allMatchesMembers s)) := by
    rw [JsonValue.atKey, snapshotToJson_find? s (text "all_matches")
      (.object (allMatchesMembers s)) (by simp [snapshotBase, snapshotMembers, allMatchesMembers])]
  have hitems (key : String) (place : Text) (l : List SnapItem)
      (h : (text key,itemsToJson l) ∈ allMatchesMembers s) :
      listMember (.object (allMatchesMembers s)) key place itemsFromJson = .ok l :=
    listMember_of_mem _ (allMatchesMembers_nodup s) key place _ _ l h
      (itemsFromJson_itemsToJson l place)
  have hmatched (key : String) (place : Text) (l : List SnapMatched)
      (h : (text key,matchedToJson l) ∈ snapshotBase s) :
      listMember (snapshotToJson s) key place matchedFromJson = .ok l := by
    rw [listMember, JsonValue.atKey, snapshotToJson_find? s _ _ h]
    exact matchedFromJson_matchedToJson l place
  obtain ⟨hcache, hchoosers, hunmatched⟩ := optionalMembers_snapshotToJson s
  have hobject : (snapshotToJson s).isObject = true := rfl
  simp only [snapshotFromJson, require, hobject, if_true, ok_bind, hschema, ne_eq,
    not_true_eq_false, if_false, hproducer, hpair, hseq, hpoint, JsonValue.asString, inField_ok,
    hiteration, hflags, hall, hitems "best" _ s.best (by simp [allMatchesMembers]),
    hitems "partial" _ s.partials (by simp [allMatchesMembers]),
    hitems "unreliable" _ s.unreliable (by simp [allMatchesMembers]),
    hmatched "matched_primary" _ s.matchedPrimary (by simp [snapshotBase, snapshotMembers]),
    hmatched "matched_secondary" _ s.matchedSecondary (by simp [snapshotBase, snapshotMembers]),
    hcache, hchoosers, hunmatched, ← hs]

end

/-- `SerializeSnapshot`. -/
def serializeSnapshot (s : StateSnapshot) (pretty : Bool) : Text := jsonWrite pretty (snapshotToJson s)

/-- `ParseSnapshot`: Python's json module writes snapshots as well. -/
def parseSnapshot (json : Text) : Except JsonError StateSnapshot := do
  let root ← jsonParse json { pythonCompat := true }
  snapshotFromJson root

/-- A snapshot of the supported schema comes back from its text. -/
theorem parseSnapshot_serialize (s : StateSnapshot) (hs : s.schema = snapshotSchema)
    (pretty : Bool) : parseSnapshot (serializeSnapshot s pretty) = .ok s := by
  have hparse := jsonParse_jsonWrite pretty { pythonCompat := true } (snapshotToJson s)
    ((snapshotMembers_valid s).mono (by decide)) [] (by simp [AllSpaces])
  rw [List.append_nil] at hparse
  rw [parseSnapshot, serializeSnapshot, hparse, ok_bind]
  exact snapshotFromJson_snapshotToJson s hs

end DSigMatcher.Checkpoint
