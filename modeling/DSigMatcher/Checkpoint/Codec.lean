import DSigMatcher.Checkpoint.Cursor
import DSigMatcher.Checkpoint.Snapshot

namespace DSigMatcher.Checkpoint
open DSigMatcher.Base DSigMatcher.Json
open DSigMatcher.Framework (ok_bind)

/-- What a checkpoint is bound to; an empty `-wal` digest is written as null. -/
structure CheckpointBinding where
  toolVersion : Text
  sqliteVersion : Text
  db1Sha256 : Text
  db1Size : Int64
  db1WalSha256 : Text
  db2Sha256 : Text
  db2Size : Int64
  db2WalSha256 : Text
  ignoreSmallFunctions : Bool
  relatedCuSource : Text
  deriving DecidableEq

/-- One ratio of the cache with its exact addresses. -/
structure CheckpointCacheEntry where
  ea1 : Option Text
  ea2 : Option Text
  ratioBits : UInt64
  deriving DecidableEq

structure EngineCheckpoint where
  binding : CheckpointBinding
  cursor : PipelineCursor
  state : StateSnapshot
  ratiosCache : List CheckpointCacheEntry
  hookDones : List (Option Text × Option Text)
  pointSeq : Int64
  cleanupCounters : List (Nat × Int64)
  deriving DecidableEq

structure CheckpointManifest where
  binding : CheckpointBinding
  cursor : PipelineCursor
  generation : Int64
  stateFile : Text
  stateSha256 : Text
  stateBytes : Int64
  db1 : Text
  db2 : Text
  createdDirectory : Bool
  deriving DecidableEq

/-- `kCheckpointManifestSchema`. -/
def manifestSchema : Text := text "dsigmatcher-checkpoint-manifest/1"

/-- `kCheckpointStateSchema`. -/
def stateSchema : Text := text "dsigmatcher-checkpoint-state/1"

def optionalText (t : Text) : JsonValue := if t.isEmpty then .null else .string t

def readOptionalText (v : JsonValue) : Except JsonError Text :=
  match v with
  | .null => .ok []
  | v => v.asString

theorem readOptionalText_optionalText (t : Text) : readOptionalText (optionalText t) = .ok t := by
  cases t <;> rfl

theorem valid_optionalText (k : Nat) (t : Text) : Valid k (optionalText t) := by
  unfold optionalText
  split_ifs
  · exact valid_null k
  · exact valid_string k t

/-- `BindingToJson`. -/
def CheckpointBinding.members (b : CheckpointBinding) : List (Text × JsonValue) :=
  [(text "tool_version",.string b.toolVersion), (text "sqlite_version",.string b.sqliteVersion),
    (text "db1_sha256",.string b.db1Sha256), (text "db1_size",.int b.db1Size),
    (text "db1_wal_sha256",optionalText b.db1WalSha256),
    (text "db2_sha256",.string b.db2Sha256), (text "db2_size",.int b.db2Size),
    (text "db2_wal_sha256",optionalText b.db2WalSha256),
    (text "ignore_small_functions",.bool b.ignoreSmallFunctions),
    (text "related_cu_source",.string b.relatedCuSource)]

/-- `BindingFromJson`. -/
def bindingFromJson (v : JsonValue) (place : Text) : Except JsonError CheckpointBinding := do
  let toolVersion ← field v "tool_version" place JsonValue.asString
  let sqliteVersion ← field v "sqlite_version" place JsonValue.asString
  let db1Sha256 ← field v "db1_sha256" place JsonValue.asString
  let db1Size ← field v "db1_size" place JsonValue.asInt64
  let db1WalSha256 ← field v "db1_wal_sha256" place readOptionalText
  let db2Sha256 ← field v "db2_sha256" place JsonValue.asString
  let db2Size ← field v "db2_size" place JsonValue.asInt64
  let db2WalSha256 ← field v "db2_wal_sha256" place readOptionalText
  let ignoreSmallFunctions ← field v "ignore_small_functions" place JsonValue.asBool
  let relatedCuSource ← field v "related_cu_source" place JsonValue.asString
  .ok ⟨toolVersion, sqliteVersion, db1Sha256, db1Size, db1WalSha256, db2Sha256, db2Size,
    db2WalSha256, ignoreSmallFunctions, relatedCuSource⟩

theorem CheckpointBinding.members_nodup (b : CheckpointBinding) :
    (b.members.map Prod.fst).Nodup := by
  change List.Nodup [text "tool_version", text "sqlite_version", text "db1_sha256",
    text "db1_size", text "db1_wal_sha256", text "db2_sha256", text "db2_size",
    text "db2_wal_sha256", text "ignore_small_functions", text "related_cu_source"]
  decide

theorem bindingFromJson_members (b : CheckpointBinding) (place : Text) :
    bindingFromJson (.object b.members) place = .ok b := by
  have hkeys := b.members_nodup
  have hstring (key : String) (t : Text) (h : (text key,.string t) ∈ b.members) :
      field (.object b.members) key place JsonValue.asString = .ok t :=
    field_of_mem _ hkeys key place _ _ t h rfl
  have hint (key : String) (n : Int64) (h : (text key,.int n) ∈ b.members) :
      field (.object b.members) key place JsonValue.asInt64 = .ok n :=
    field_of_mem _ hkeys key place _ _ n h (asInt64_int n)
  have hwal (key : String) (t : Text) (h : (text key,optionalText t) ∈ b.members) :
      field (.object b.members) key place readOptionalText = .ok t :=
    field_of_mem _ hkeys key place _ _ t h (readOptionalText_optionalText t)
  have hignore : field (.object b.members) "ignore_small_functions" place JsonValue.asBool =
      .ok b.ignoreSmallFunctions :=
    field_of_mem _ hkeys _ place (.bool b.ignoreSmallFunctions) _ _
      (by simp [CheckpointBinding.members]) rfl
  simp only [bindingFromJson, ok_bind, hignore,
    hstring "tool_version" b.toolVersion (by simp [CheckpointBinding.members]),
    hstring "sqlite_version" b.sqliteVersion (by simp [CheckpointBinding.members]),
    hstring "db1_sha256" b.db1Sha256 (by simp [CheckpointBinding.members]),
    hint "db1_size" b.db1Size (by simp [CheckpointBinding.members]),
    hwal "db1_wal_sha256" b.db1WalSha256 (by simp [CheckpointBinding.members]),
    hstring "db2_sha256" b.db2Sha256 (by simp [CheckpointBinding.members]),
    hint "db2_size" b.db2Size (by simp [CheckpointBinding.members]),
    hwal "db2_wal_sha256" b.db2WalSha256 (by simp [CheckpointBinding.members]),
    hstring "related_cu_source" b.relatedCuSource (by simp [CheckpointBinding.members])]

theorem CheckpointBinding.members_valid (b : CheckpointBinding) : Valid 1 (.object b.members) := by
  refine ⟨b.members_nodup, ?_⟩
  simp [CheckpointBinding.members, valid_string, valid_int, valid_bool, valid_optionalText]

/-- The members of a manifest. -/
def CheckpointManifest.members (m : CheckpointManifest) : List (Text × JsonValue) :=
  [(text "schema",.string manifestSchema), (text "binding",.object m.binding.members)] ++
  m.cursor.members ++
  [(text "generation",.int m.generation), (text "state_file",.string m.stateFile),
    (text "state_sha256",.string m.stateSha256), (text "state_bytes",.int m.stateBytes),
    (text "db1",.string m.db1), (text "db2",.string m.db2),
    (text "created_directory",.bool m.createdDirectory)]

def serializeCheckpointManifest (m : CheckpointManifest) : Text :=
  jsonWrite true (.object m.members) ++ [10]

/-- The schema of a checkpoint file, checked against the supported one. -/
def checkSchema (root : JsonValue) (schema : Text) (kind : String) : Except JsonError Unit := do
  let found ← field root "schema" [] JsonValue.asString
  if found ≠ schema then
    .error { detail := text "unsupported checkpoint " ++ text kind ++ text " schema \"" ++ found ++
               text "\"",
             path := text "schema" }
  else .ok ()

def parseCheckpointManifest (json : Text) : Except JsonError CheckpointManifest := do
  let root ← jsonParse json {}
  require root.isObject "a checkpoint manifest must be a JSON object" (text "(root)")
  checkSchema root manifestSchema "manifest"
  let binding ← member root (text "binding") []
  let binding ← bindingFromJson binding (text "binding")
  let cursor ← PipelineCursor.fromJson root []
  let generation ← field root "generation" [] JsonValue.asInt64
  let stateFile ← field root "state_file" [] JsonValue.asString
  let stateSha256 ← field root "state_sha256" [] JsonValue.asString
  let stateBytes ← field root "state_bytes" [] JsonValue.asInt64
  let db1 ← field root "db1" [] JsonValue.asString
  let db2 ← field root "db2" [] JsonValue.asString
  let createdDirectory ← field root "created_directory" [] JsonValue.asBool
  .ok ⟨binding, cursor, generation, stateFile, stateSha256, stateBytes, db1, db2, createdDirectory⟩

theorem CheckpointManifest.cursor_members (m : CheckpointManifest) :
    m.cursor.members ⊆ m.members := by
  intro x hx
  simp [CheckpointManifest.members, hx]

theorem CheckpointManifest.members_nodup (m : CheckpointManifest) :
    (m.members.map Prod.fst).Nodup := by
  change List.Nodup [text "schema", text "binding", text "done", text "iteration",
    text "skip_others", text "old_total", text "generation", text "state_file",
    text "state_sha256", text "state_bytes", text "db1", text "db2", text "created_directory"]
  decide

theorem PipelineCursor.members_valid (c : PipelineCursor) :
    ∀ m ∈ c.members, Valid 0 m.2 := by
  simp [PipelineCursor.members, valid_string, valid_int, valid_bool]

theorem CheckpointManifest.members_valid (m : CheckpointManifest) :
    Valid 2 (.object m.members) := by
  refine ⟨m.members_nodup, fun x hx => ?_⟩
  rw [CheckpointManifest.members, List.mem_append, List.mem_append] at hx
  rcases hx with (hx | hx) | hx
  · revert x
    simp [valid_string, m.binding.members_valid]
  · exact (m.cursor.members_valid x hx).mono (by decide)
  · revert x
    simp [valid_string, valid_int, valid_bool]

theorem allSpaces_newLine : AllSpaces [10] := by
  simp [AllSpaces, isSpace]

/-- A written manifest is read back as it was, as far as its cursor is. -/
theorem parseCheckpointManifest_eq (m : CheckpointManifest) :
    parseCheckpointManifest (serializeCheckpointManifest m) =
      PipelineCursor.fromJson (.object m.members) [] >>= fun cursor =>
        .ok { m with cursor := cursor } := by
  have hkeys := m.members_nodup
  have hparse := jsonParse_jsonWrite true {} (.object m.members)
    (m.members_valid.mono (by decide)) [10] allSpaces_newLine
  have hschema : checkSchema (.object m.members) manifestSchema "manifest" = .ok () := by
    rw [checkSchema, field_of_mem _ hkeys "schema" [] (.string manifestSchema) JsonValue.asString
      manifestSchema (by simp [CheckpointManifest.members]) rfl]
    simp
  have hbinding : member (.object m.members) (text "binding") [] =
      .ok (.object m.binding.members) := by
    rw [member, find?_of_mem _ hkeys (text "binding") (.object m.binding.members)
      (by simp [CheckpointManifest.members])]
    rfl
  have hstring (key : String) (t : Text) (h : (text key,.string t) ∈ m.members) :
      field (.object m.members) key [] JsonValue.asString = .ok t :=
    field_of_mem _ hkeys key [] _ _ t h rfl
  have hint (key : String) (n : Int64) (h : (text key,.int n) ∈ m.members) :
      field (.object m.members) key [] JsonValue.asInt64 = .ok n :=
    field_of_mem _ hkeys key [] _ _ n h (asInt64_int n)
  have hcreated : field (.object m.members) "created_directory" [] JsonValue.asBool =
      .ok m.createdDirectory :=
    field_of_mem _ hkeys _ [] (.bool m.createdDirectory) _ _
      (by simp [CheckpointManifest.members]) rfl
  have hobject : (JsonValue.object m.members).isObject = true := rfl
  simp only [parseCheckpointManifest, serializeCheckpointManifest, hparse, ok_bind, require,
    hobject, if_true, hschema, hbinding, bindingFromJson_members, hcreated,
    hint "generation" m.generation (by simp [CheckpointManifest.members]),
    hstring "state_file" m.stateFile (by simp [CheckpointManifest.members]),
    hstring "state_sha256" m.stateSha256 (by simp [CheckpointManifest.members]),
    hint "state_bytes" m.stateBytes (by simp [CheckpointManifest.members]),
    hstring "db1" m.db1 (by simp [CheckpointManifest.members]),
    hstring "db2" m.db2 (by simp [CheckpointManifest.members])]

/-- A manifest with a readable cursor is read back as it was. -/
theorem parseCheckpointManifest_serialize (m : CheckpointManifest) (hc : m.cursor.Readable) :
    parseCheckpointManifest (serializeCheckpointManifest m) = .ok m := by
  have hcursor := m.cursor.fromJson_members hc m.members m.members_nodup m.cursor_members []
  rw [parseCheckpointManifest_eq, hcursor, ok_bind]

end DSigMatcher.Checkpoint
