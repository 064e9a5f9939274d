import DSigMatcher.Checkpoint.Codec

namespace DSigMatcher.Checkpoint
open DSigMatcher.Base DSigMatcher.Json
open DSigMatcher.Framework (ok_bind)

/-- `OptionalQuoted`. -/
def optionalQuoted : Option Text → Text
  | some t => jsonQuote t
  | none => text "null"

def counterToJson (c : Nat × Int64) : JsonValue := .array [.int (Int64.ofNat c.1), .int c.2]

def hookDoneToJson (d : Option Text × Option Text) : JsonValue :=
  .array [optionalString d.1, optionalString d.2]

/-- The state of a checkpoint file: the snapshot without its own ratios cache. -/
def EngineCheckpoint.stateMembers (c : EngineCheckpoint) : List (Text × JsonValue) :=
  (snapshotMembers c.state).eraseP fun m => m.1 = text "ratios_cache"

/-- The members of `Head`, in front of the ratios cache. -/
def EngineCheckpoint.headMembers (c : EngineCheckpoint) : List (Text × JsonValue) :=
  [(text "schema",.string stateSchema), (text "binding",.object c.binding.members),
    (text "cursor",.object c.cursor.members), (text "point_seq",.int c.pointSeq),
    (text "cleanup_counters",writeList counterToJson c.cleanupCounters),
    (text "hook_dones",writeList hookDoneToJson c.hookDones),
    (text "state",.object c.stateMembers)]

/-- The loop that appends the ratios cache as text. -/
def cacheText : Bool → List CheckpointCacheEntry → Text
  | _, [] => []
  | first, e::es =>
    (if first then [] else [44]) ++ [91] ++ optionalQuoted e.ea1 ++ [44] ++
      optionalQuoted e.ea2 ++ text ",\"" ++ bitsHex e.ratioBits ++ text "\"]" ++
      cacheText false es

def serializeCheckpointState (c : EngineCheckpoint) : Text :=
  (jsonWrite false (.object c.headMembers)).dropLast ++ text ",\"ratios_cache\":[" ++
    cacheText true c.ratiosCache ++ text "]\x7d\n"

def counterFromJson (v : JsonValue) (place : Text) : Except JsonError (Nat × Int64) := do
  match ← inField place v.items with
  | [site, count] =>
    let site ← inField (indexed place 0) site.asInt64
    require (0 ≤ site.toInt && site.toInt ≤ 100000) "cleanup site out of range" (indexed place 0)
    let count ← inField (indexed place 1) count.asInt64
    .ok (site.toInt.toNat,count)
  | _ => errorAt "a cleanup counter must have 2 fields" place

def hookDoneFromJson (v : JsonValue) (place : Text) :
    Except JsonError (Option Text × Option Text) := do
  match ← inField place v.items with
  | [name1, name2] =>
    let name1 ← inField (indexed place 0) (readOptionalString name1)
    let name2 ← inField (indexed place 1) (readOptionalString name2)
    .ok (name1,name2)
  | _ => errorAt "a hook_dones entry must have 2 fields" place

def checkpointCacheEntryFromJson (v : JsonValue) (place : Text) :
    Except JsonError CheckpointCacheEntry := do
  match ← inField place v.items with
  | [ea1, ea2, ratio] =>
    let ea1 ← inField (indexed place 0) (readOptionalString ea1)
    let ea2 ← inField (indexed place 1) (readOptionalString ea2)
    let ratio ← inField (indexed place 2) (ratioFromJson ratio)
    .ok ⟨ea1, ea2, ratio⟩
  | _ => errorAt "a ratios_cache entry must have 3 fields" place

/-- A list of the root object: a missing one is reported by its own path. -/
def rootList {α : Type} (root : JsonValue) (key : String)
    (read : JsonValue → Text → Except JsonError α) : Except JsonError (List α) := do
  let rows ← field root key [] JsonValue.items
  readRows read (text key) 0 rows

def parseCheckpointState (json : Text) : Except JsonError EngineCheckpoint := do
  let root ← jsonParse json {}
  require root.isObject "a checkpoint state must be a JSON object" (text "(root)")
  checkSchema root stateSchema "state"
  let binding ← member root (text "binding") []
  let binding ← bindingFromJson binding (text "binding")
  let cursor ← member root (text "cursor") []
  let cursor ← PipelineCursor.fromJson cursor (text "cursor")
  let pointSeq ← field root "point_seq" [] JsonValue.asInt64
  let counters ← rootList root "cleanup_counters" counterFromJson
  let dones ← rootList root "hook_dones" hookDoneFromJson
  let state ← member root (text "state") []
  let state ← snapshotFromJson state
  require state.ratiosCache.isNone "the state must not carry ratios_cache"
    (text "state.ratios_cache")
  let cache ← rootList root "ratios_cache" checkpointCacheEntryFromJson
  .ok ⟨binding, cursor, state, cache, dones, pointSeq, counters⟩

/-- The checkpoints a reader accepts: a cursor `diff()` reaches, known cleanup sites, and a state
of the supported schema without a ratios cache of its own. -/
structure EngineCheckpoint.Readable (c : EngineCheckpoint) : Prop where
  cursor : c.cursor.Readable
  sites : ∀ x ∈ c.cleanupCounters, x.1 ≤ 100000
  schema : c.state.schema = snapshotSchema
  noCache : c.state.ratiosCache = none

def checkpointCacheEntryToJson (e : CheckpointCacheEntry) : JsonValue :=
  .array [optionalString e.ea1, optionalString e.ea2, ratioToJson e.ratioBits]

theorem writeMembers_append (pretty : Bool) (indent : Nat) (first : Bool)
    (a b : List (Text × JsonValue)) :
    writeMembers pretty indent first (a ++ b) =
      writeMembers pretty indent first a ++ writeMembers pretty indent (first && a.isEmpty) b := by
  induction a generalizing first with
  | nil => simp [writeMembers]
  | cons m a ih =>
    obtain ⟨k, v⟩ := m
    simp [writeMembers, ih, List.append_assoc]

/-- Hex digits are quoted as they are. -/
theorem jsonQuote_bitsHex (bits : UInt64) :
    jsonQuote (bitsHex bits) = [34] ++ bitsHex bits ++ [34] := by
  have hdigit : ∀ d < 16, quoteByte (hexDigit d) = [hexDigit d] := by decide
  have hquote (k n : Nat) : (hexDigits k n).flatMap quoteByte = hexDigits k n := by
    induction k generalizing n with
    | zero => rfl
    | succ k ih => simp [hexDigits, ih, hdigit (n%16) (Nat.mod_lt n (by decide))]
  rw [jsonQuote, bitsHex, hquote]

theorem write_optionalString (indent : Nat) (t : Option Text) :
    write false indent (optionalString t) = optionalQuoted t := by
  cases t <;> rfl

/-- The appended text is what the writer makes of the cache. -/
theorem cacheText_eq (first : Bool) (es : List CheckpointCacheEntry) :
    cacheText first es = writeItems false 2 first (es.map checkpointCacheEntryToJson) := by
  have hentry (e : CheckpointCacheEntry) : write false 2 (checkpointCacheEntryToJson e) =
      [91] ++ optionalQuoted e.ea1 ++ [44] ++ optionalQuoted e.ea2 ++ text ",\"" ++
        bitsHex e.ratioBits ++ text "\"]" := by
    have hratio : write false 3 (ratioToJson e.ratioBits) = [34] ++ bitsHex e.ratioBits ++ [34] :=
      jsonQuote_bitsHex e.ratioBits
    have hopen : text ",\"" = [44, 34] := by decide
    have hclose : text "\"]" = [34, 93] := by decide
    simp [checkpointCacheEntryToJson, write, writeItems, write_optionalString, hratio, separator,
      newLine, hopen, hclose]
  induction es generalizing first with
  | nil => rfl
  | cons e es ih =>
    rw [cacheText, List.map_cons, writeItems, hentry, ih]
    simp [separator, newLine, List.append_assoc]

/-- All members of a state file. -/
def EngineCheckpoint.members (c : EngineCheckpoint) : List (Text × JsonValue) :=
  c.headMembers ++ [(text "ratios_cache",writeList checkpointCacheEntryToJson c.ratiosCache)]

/-- The state file is the compact text of one object, and a new line. -/
theorem serializeCheckpointState_eq (c : EngineCheckpoint) :
    serializeCheckpointState c = jsonWrite false (.object c.members) ++ [10] := by
  have hkey : text ",\"ratios_cache\":[" = [44] ++ jsonQuote (text "ratios_cache") ++ [58, 91] := by
    decide
  have hend : text "]\x7d\n" = [93, 125, 10] := by decide
  have hnonempty : c.headMembers.isEmpty = false := rfl
  have hhead : (jsonWrite false (.object c.headMembers)).dropLast =
      [123] ++ writeMembers false 1 true c.headMembers := by
    rw [jsonWrite, write, hnonempty, List.dropLast_append_of_ne_nil (by simp)]
    simp [newLine]
  rw [serializeCheckpointState, hhead, hkey, hend, cacheText_eq, EngineCheckpoint.members,
    jsonWrite, write, writeMembers_append, hnonempty]
  simp [writeMembers, writeList, write, separator, newLine, colon]

theorem counterFromJson_counterToJson (x : Nat × Int64) (hx : x.1 ≤ 100000) (place : Text) :
    counterFromJson (counterToJson x) place = .ok x := by
  have hsite : (Int64.ofNat x.1).toInt = x.1 := Int64.toInt_ofNat_of_lt (by omega)
  have hrange : (0 ≤ (x.1 : Int) && (x.1 : Int) ≤ 100000) = true := by
    simp only [Bool.and_eq_true, decide_eq_true_eq]
    omega
  simp only [counterFromJson, counterToJson, JsonValue.items, inField_ok, ok_bind, asInt64_int,
    hsite, require, hrange, if_true, Int.toNat_natCast]

theorem hookDoneFromJson_hookDoneToJson (d : Option Text × Option Text) (place : Text) :
    hookDoneFromJson (hookDoneToJson d) place = .ok d := by
  simp [hookDoneFromJson, hookDoneToJson, JsonValue.items]

theorem checkpointCacheEntryFromJson_toJson (e : CheckpointCacheEntry) (place : Text) :
    checkpointCacheEntryFromJson (checkpointCacheEntryToJson e) place = .ok e := by
  simp [checkpointCacheEntryFromJson, checkpointCacheEntryToJson, JsonValue.items]

namespace EngineCheckpoint
variable (c : EngineCheckpoint)

theorem members_nodup : (c.members.map Prod.fst).Nodup := by
  change List.Nodup [text "schema", text "binding", text "cursor", text "point_seq",
    text "cleanup_counters", text "hook_dones", text "state", text "ratios_cache"]
  decide

/-- Without a ratios cache there is nothing to take out of the state. -/
theorem stateMembers_eq (h : c.state.ratiosCache = none) :
    c.stateMembers = snapshotMembers c.state := by
  have hsub : ((snapshotMembers c.state).map Prod.fst).Sublist
      (snapshotKeys ++ [text "choosers"] ++ [text "unmatched"]) := by
    rw [snapshotMembers_eq, h]
    simp only [optionalEntry, List.append_nil]
    rw [List.map_append, List.map_append, snapshotBase_keys]
    exact ((List.Sublist.refl _).append (optionalEntry_keys _ _ _)).append
      (optionalEntry_keys _ _ _)
  refine List.eraseP_of_forall_not fun m hm hkey => ?_
  have hkey : m.1 = text "ratios_cache" := by simpa using hkey
  have hmem := hsub.subset (List.mem_map_of_mem hm)
  rw [hkey] at hmem
  exact absurd hmem (by decide)

theorem members_valid : Valid 5 (.object c.members) := by
  have hstate : Valid 4 (.object c.stateMembers) := by
    have hsnapshot := snapshotMembers_valid c.state
    refine ⟨?_, fun m hm => hsnapshot.2 m (List.eraseP_sublist.subset hm)⟩
    exact hsnapshot.1.sublist (List.eraseP_sublist.map _)
  have hbinding : Valid 4 (.object c.binding.members) := c.binding.members_valid.mono (by decide)
  have hcursor : Valid 4 (.object c.cursor.members) := by
    have hcursor : Valid 1 (.object c.cursor.members) := by
      refine ⟨?_, c.cursor.members_valid⟩
      change List.Nodup [text "done", text "iteration", text "skip_others", text "old_total"]
      decide
    exact hcursor.mono (by decide)
  have hcounters : Valid 4 (writeList counterToJson c.cleanupCounters) := by
    have hlist := valid_writeList 1 counterToJson c.cleanupCounters fun x _ => by
      simp [counterToJson, Valid, valid_int]
    exact hlist.mono (by decide)
  have hdones : Valid 4 (writeList hookDoneToJson c.hookDones) := by
    have hlist := valid_writeList 1 hookDoneToJson c.hookDones fun x _ => by
      simp [hookDoneToJson, Valid, valid_optionalString]
    exact hlist.mono (by decide)
  have hcache : Valid 4 (writeList checkpointCacheEntryToJson c.ratiosCache) := by
    have hlist := valid_writeList 1 checkpointCacheEntryToJson c.ratiosCache fun x _ => by
      simp [checkpointCacheEntryToJson, Valid, valid_optionalString, ratioToJson]
    exact hlist.mono (by decide)
  refine ⟨c.members_nodup, ?_⟩
  simp [members, headMembers, valid_string, valid_int, hstate, hbinding, hcursor, hcounters,
    hdones, hcache]

theorem rootList_members {α : Type} (key : String) (write : α → JsonValue)
    (read : JsonValue → Text → Except JsonError α) (l : List α)
    (h : (text key,writeList write l) ∈ c.members)
    (hread : ∀ x ∈ l, ∀ place, read (write x) place = .ok x) :
    rootList (.object c.members) key read = .ok l := by
  have hitems := field_of_mem _ c.members_nodup key [] _ JsonValue.items (l.map write) h rfl
  have hlist := readList_writeList write read l hread (text key)
  rw [rootList, hitems]
  simpa [readList, writeList, JsonValue.items] using hlist

theorem member_members (key : Text) (x : JsonValue) (h : (key,x) ∈ c.members) :
    member (.object c.members) key [] = .ok x := by
  rw [member, find?_of_mem _ c.members_nodup key x h]
  rfl

end EngineCheckpoint

/-- A state file of a readable checkpoint is read back as it was. -/
theorem parseCheckpointState_serialize (c : EngineCheckpoint) (hc : c.Readable) :
    parseCheckpointState (serializeCheckpointState c) = .ok c := by
  have hkeys := c.members_nodup
  have hparse := jsonParse_jsonWrite false {} (.object c.members) (c.members_valid.mono (by decide))
    [10] allSpaces_newLine
  have hschema : checkSchema (.object c.members) stateSchema "state" = .ok () := by
    rw [checkSchema, field_of_mem _ hkeys "schema" [] (.string stateSchema) JsonValue.asString
      stateSchema (by simp [EngineCheckpoint.members, EngineCheckpoint.headMembers]) rfl]
    simp
  have hbinding := c.member_members (text "binding") (.object c.binding.members)
    (by simp [EngineCheckpoint.members, EngineCheckpoint.headMembers])
  have hcursor := c.member_members (text "cursor") (.object c.cursor.members)
    (by simp [EngineCheckpoint.members, EngineCheckpoint.headMembers])
  have hcursorKeys : (c.cursor.members.map Prod.fst).Nodup := by
    change List.Nodup [text "done", text "iteration", text "skip_others", text "old_total"]
    decide
  have hreadCursor := c.cursor.fromJson_members hc.cursor c.cursor.members hcursorKeys
    (List.Subset.refl _) (text "cursor")
  have hseq := field_of_mem _ hkeys "point_seq" [] (.int c.pointSeq) JsonValue.asInt64 c.pointSeq
    (by simp [EngineCheckpoint.members, EngineCheckpoint.headMembers]) (asInt64_int _)
  have hcounters := c.rootList_members "cleanup_counters" counterToJson counterFromJson
    c.cleanupCounters (by simp [EngineCheckpoint.members, EngineCheckpoint.headMembers])
    fun x hx => counterFromJson_counterToJson x (hc.sites x hx)
  have hdones := c.rootList_members "hook_dones" hookDoneToJson hookDoneFromJson c.hookDones
    (by simp [EngineCheckpoint.members, EngineCheckpoint.headMembers])
    fun d _ => hookDoneFromJson_hookDoneToJson d
  have hstate := c.member_members (text "state") (.object c.stateMembers)
    (by simp [EngineCheckpoint.members, EngineCheckpoint.headMembers])
  have hreadState : snapshotFromJson (.object c.stateMembers) = .ok c.state := by
    rw [c.stateMembers_eq hc.noCache]
    exact snapshotFromJson_snapshotToJson c.state hc.schema
  have hcache := c.rootList_members "ratios_cache" checkpointCacheEntryToJson
    checkpointCacheEntryFromJson c.ratiosCache
    (by simp [EngineCheckpoint.members, EngineCheckpoint.headMembers])
    fun e _ => checkpointCacheEntryFromJson_toJson e
  have hobject : (JsonValue.object c.members).isObject = true := rfl
  simp only [parseCheckpointState, serializeCheckpointState_eq, hparse, ok_bind, require, hobject,
    if_true, hschema, hbinding, bindingFromJson_members, hcursor, hreadCursor, hseq, hcounters,
    hdones, hstate, hreadState, hc.noCache, Option.isNone_none, hcache]

end DSigMatcher.Checkpoint
