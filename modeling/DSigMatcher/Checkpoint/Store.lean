import DSigMatcher.Checkpoint.StateFile
import DSigMatcher.Framework.Crash

namespace DSigMatcher.Checkpoint
open DSigMatcher.Base DSigMatcher.Framework DSigMatcher.Json

/-- `%06lld`. -/
def sixDigits (n : Int) : Text :=
  let digits := decimal n.natAbs
  if n < 0 then [45] ++ List.replicate (5-digits.length) 48 ++ digits
  else List.replicate (6-digits.length) 48 ++ digits

def manifestName : Text := text "manifest.json"

def probeName : Text := text ".dsig-checkpoint-probe"

def stateFileName (generation : Int64) : Text :=
  text "state-" ++ sixDigits generation.toInt ++ text ".json"

def temporaryName (name : Text) : Text := name ++ text ".tmp"

def endsWith (t suffix : Text) : Bool := suffix.isSuffixOf t

/-- `state-`, at least six digits, `.json`. -/
def isStateFileName (name : Text) : Bool :=
  17 ≤ name.length && startsWith name (text "state-") && endsWith name (text ".json") &&
    ((name.drop 6).take (name.length-11)).all isDigit

example : isStateFileName (stateFileName 12) = true := by decide
example : isStateFileName (text "state-12.json") = false := by decide

/-- `IsStoreFileName`: the files a store may create, replace or delete. -/
def isStoreFileName (name : Text) : Bool :=
  let name := if 4 < name.length && endsWith name (text ".tmp") then name.take (name.length-4)
    else name
  name = manifestName || name = probeName || isStateFileName name

/-- What a store keeps in memory. -/
structure CheckpointStore where
  dir : Text
  generation : Int64 := 0
  createdDir : Bool := false
  deriving DecidableEq

/-- The calls of one `Write`, as they turn out. -/
structure WriteCalls where
  stateWrite : WriteCall Text
  stateRename : Call
  stateDrop : Call
  manifestWrite : WriteCall Text
  manifestRename : Call
  manifestDrop : Call
  stateRemove : Call
  listed : List Text
  listingRaises : Bool
  staleRemove : Text → Call

/-- `ReplaceFileBytesDurable`. -/
def replaceFileBytesDurable (write : WriteCall Text) (rename drop : Call) (name bytes : Text)
    (d : Disk Text Text) : Outcome (Disk Text Text) :=
  d.replaceCall write rename drop (temporaryName name) name bytes

/-- `Generation_ + 1`; past the largest number the sum has no meaning. -/
def nextGeneration (generation : Int64) : Option Int64 :=
  if generation.toInt+1 < 2^63 then some (Int64.ofInt (generation.toInt+1)) else none

/-- The files that are left over once the manifest names `stateFile`. -/
def staleFiles (listed : List Text) (stateFile : Text) : List Text :=
  listed.filter fun name => name ≠ stateFile && name ≠ manifestName && isStoreFileName name

section
variable (sha256Hex : Text → Text)

/-- The manifest a `Write` makes for its state bytes. -/
def CheckpointStore.manifest (store : CheckpointStore) (next : Int64) (c : EngineCheckpoint)
    (db1 db2 : Text) : CheckpointManifest :=
  ⟨c.binding, c.cursor, next, stateFileName next, sha256Hex (serializeCheckpointState c),
    Int64.ofNat (serializeCheckpointState c).length, db1, db2, store.createdDir⟩

/-- The two files of a checkpoint, up to the commit. -/
def CheckpointStore.commit (store : CheckpointStore) (calls : WriteCalls) (next : Int64)
    (c : EngineCheckpoint) (db1 db2 : Text) (d : Disk Text Text) : Outcome (Disk Text Text) :=
  let manifest := store.manifest sha256Hex next c db1 db2
  (replaceFileBytesDurable calls.stateWrite calls.stateRename calls.stateDrop manifest.stateFile
    (serializeCheckpointState c) d).andThen fun d =>
      (replaceFileBytesDurable calls.manifestWrite calls.manifestRename calls.manifestDrop
        manifestName (serializeCheckpointManifest manifest) d).onFailure
          (Disk.removeCall calls.stateRemove manifest.stateFile)

/-- How one `Write` ended: with `IoFailure`, or with the end of the process, which an exception
of any other kind is too. -/
inductive WriteEnd
  | done | ioFailure | killed
  deriving DecidableEq

/-- `Write`: the store afterwards, the files, and how it ended. -/
def CheckpointStore.write (store : CheckpointStore) (calls : WriteCalls) (c : EngineCheckpoint)
    (db1 db2 : Text) (d : Disk Text Text) : CheckpointStore × Disk Text Text × WriteEnd :=
  match nextGeneration store.generation with
  | none => (store, d, .killed)
  | some next =>
    match store.commit sha256Hex calls next c db1 db2 d with
    | .failed d => (store, d, .ioFailure)
    | .killed d => (store, d, .killed)
    | .done d =>
      let store := { store with generation := next }
      if calls.listingRaises then (store, d, .killed)
      else
        match d.removeCalls calls.staleRemove (staleFiles calls.listed (stateFileName next)) with
        | .done d => (store, d, .done)
        | .failed d => (store, d, .done)
        | .killed d => (store, d, .killed)

def hasManifest (dir : Option (Disk Text Text)) : Bool :=
  dir.any fun d => (d.files manifestName).isSome

/-- The hint every rejection of `Load` ends with. -/
def restartHint : Text :=
  text " (run the command again without --resume to start from the beginning)"

def CheckpointStore.damaged (store : CheckpointStore) (detail : Text) : Text :=
  text "--resume: the checkpoint in '" ++ store.dir ++ text "' is damaged: " ++ detail ++
    restartHint

/-- A rejection for want of a checkpoint. -/
def CheckpointStore.absent (store : CheckpointStore) (dir : Option (Disk Text Text)) : Text :=
  match dir with
  | none => text "--resume: '" ++ store.dir ++
      text "' is not a directory, so there is no checkpoint to resume" ++ restartHint
  | some _ => text "--resume: '" ++ store.dir ++ text "' holds no checkpoint (no " ++
      manifestName ++ text ")" ++ restartHint

/-- `Load` once the manifest is read. -/
def CheckpointStore.loadState (store : CheckpointStore) (d : Disk Text Text)
    (manifest : CheckpointManifest) : Except Text (EngineCheckpoint × CheckpointStore) :=
  let quoted := text "'" ++ manifest.stateFile ++ text "'"
  if !isStateFileName manifest.stateFile then
    .error (store.damaged (text "the manifest names the state file " ++ quoted))
  else
    match d.files manifest.stateFile with
    | none => .error (store.damaged (text "its state file " ++ quoted ++ text " is missing"))
    | some bytes =>
      if Int64.ofNat bytes.length ≠ manifest.stateBytes then
        .error (store.damaged (quoted ++ text " has " ++ decimal bytes.length ++
          text " bytes, the manifest records " ++ decimalInt manifest.stateBytes.toInt))
      else if sha256Hex bytes ≠ manifest.stateSha256 then
        .error (store.damaged (text "the sha256 of " ++ quoted ++
          text " differs from the manifest's"))
      else
        match parseCheckpointState bytes with
        | .error bad => .error (store.damaged (quoted ++ text ": " ++ bad.what))
        | .ok c =>
          if c.binding ≠ manifest.binding ∨ c.cursor ≠ manifest.cursor then
            .error (store.damaged (quoted ++ text " does not belong to its manifest"))
          else .ok (c, ⟨store.dir, manifest.generation, manifest.createdDirectory⟩)

/-- `Load`: the checkpoint, and the store that goes on from it. -/
def CheckpointStore.load (store : CheckpointStore) (dir : Option (Disk Text Text)) :
    Except Text (EngineCheckpoint × CheckpointStore) :=
  match dir with
  | none => .error (store.absent dir)
  | some d =>
    match d.files manifestName with
    | none => .error (store.absent dir)
    | some json =>
      match parseCheckpointManifest json with
      | .error bad => .error (store.damaged (manifestName ++ text ": " ++ bad.what))
      | .ok manifest => store.loadState sha256Hex d manifest

end

/-- The calls of `Prepare`. -/
structure PrepareCalls where
  create : Bool
  probeWrite : WriteCall Text
  probeRemove : Call

/-- `Prepare`: create the directory, and prove it writable with a probe file. -/
def CheckpointStore.prepare (store : CheckpointStore) (calls : PrepareCalls)
    (dir : Option (Disk Text Text)) : Option CheckpointStore × Option (Disk Text Text) :=
  match dir, calls.create with
  | none, false => (none, none)
  | dir, _ =>
    let d := dir.getD ⟨fun _ => none, []⟩
    let store := { store with createdDir := store.createdDir || dir.isNone }
    match d.writeCall calls.probeWrite probeName (text "probe\n") with
    | .failed d => (none, some d)
    | .killed d => (none, some d)
    | .done d =>
      let removed := d.remove (!calls.probeRemove.happens) probeName
      if calls.probeRemove.happens && !calls.probeRemove.killed then (some store, some removed)
      else (none, some removed)

end DSigMatcher.Checkpoint
