import DSigMatcher.Checkpoint.Store

namespace DSigMatcher.Checkpoint
open DSigMatcher.Base DSigMatcher.Framework DSigMatcher.Json

/-- One thing that happens to a checkpoint directory. -/
inductive Event
  /-- A process starts; whatever ran before it has ended. -/
  | start (calls : PrepareCalls)
  /-- The running process saves a checkpoint. -/
  | write (calls : WriteCalls) (c : EngineCheckpoint) (db1 db2 : Text)

/-- The directory, and the store of the process that runs, if one does. -/
structure System where
  dir : Option (Disk Text Text)
  process : Option CheckpointStore

section
variable (sha256Hex : Text → Text) (path : Text)

/-- A new process: it resumes the checkpoint it finds, and refuses to start over one. -/
def System.start (s : System) (calls : PrepareCalls) : System :=
  let opened : Option CheckpointStore :=
    if hasManifest s.dir then
      match CheckpointStore.load sha256Hex ⟨path, 0, false⟩ s.dir with
      | .error _ => none
      | .ok (_,store) => some store
    else some ⟨path, 0, false⟩
  match opened with
  | none => ⟨s.dir, none⟩
  | some store =>
    match store.prepare calls s.dir with
    | (process,dir) => ⟨dir, process⟩

/-- A save by the running process; one that kills the process leaves none. -/
def System.write (s : System) (calls : WriteCalls) (c : EngineCheckpoint) (db1 db2 : Text) :
    System × Option WriteEnd :=
  match s.process, s.dir with
  | some store, some d =>
    match store.write sha256Hex calls c db1 db2 d with
    | (_,d,.killed) => (⟨some d, none⟩, some .killed)
    | (store,d,ended) => (⟨some d, some store⟩, some ended)
  | _, _ => (s, none)

def System.step (s : System) : Event → System
  | .start calls => s.start sha256Hex path calls
  | .write calls c db1 db2 => (s.write sha256Hex calls c db1 db2).1

def System.run (s : System) (es : List Event) : System := es.foldl (System.step sha256Hex path) s

end

/-- A directory without a checkpoint, whatever else it holds, and no process. -/
def System.initial (others : Option (Text → Option Text)) : System :=
  ⟨others.map fun files => ⟨Function.update files manifestName none, []⟩, none⟩

/-- A durable register of one checkpoint: a write that is cut short may have taken effect. -/
def RegisterStep (c : EngineCheckpoint) (before after : Option EngineCheckpoint) :
    Option WriteEnd → Prop
  | none => after = before
  | some .done => after = some c
  | some .ioFailure => after = before
  | some .killed => after = before ∨ after = some c

/-- What an event does to the register. -/
def Event.RegisterStep (sha256Hex : Text → Text) (s : System) (e : Event)
    (before after : Option EngineCheckpoint) : Prop :=
  match e with
  | .start _ => after = before
  | .write calls c db1 db2 =>
    Checkpoint.RegisterStep c before after (s.write sha256Hex calls c db1 db2).2

/-- The manifest of a checkpoint. -/
structure Describes (sha256Hex : Text → Text) (m : CheckpointManifest) (c : EngineCheckpoint) :
    Prop where
  binding : m.binding = c.binding
  cursor : m.cursor = c.cursor
  generation : 0 ≤ m.generation.toInt
  stateFile : m.stateFile = stateFileName m.generation
  sha256 : m.stateSha256 = sha256Hex (serializeCheckpointState c)
  bytes : m.stateBytes = Int64.ofNat (serializeCheckpointState c).length

/-- The two files of a committed checkpoint. -/
structure Committed (sha256Hex : Text → Text) (d : Disk Text Text) (m : CheckpointManifest)
    (c : EngineCheckpoint) : Prop where
  describes : Describes sha256Hex m c
  manifest : d.files manifestName = some (serializeCheckpointManifest m)
  state : d.files m.stateFile = some (serializeCheckpointState c)

/-- The files of the directory are those of the register, and the running process counts on. -/
inductive Holds (sha256Hex : Text → Text) (s : System) : Option EngineCheckpoint → Prop
  | empty (hfiles : ∀ d ∈ s.dir, d.files manifestName = none)
      (hstore : ∀ store ∈ s.process, store.generation = 0) : Holds sha256Hex s none
  | committed (d : Disk Text Text) (m : CheckpointManifest) (c : EngineCheckpoint)
      (hdir : s.dir = some d) (hfiles : Committed sha256Hex d m c)
      (hstore : ∀ store ∈ s.process, store.generation = m.generation) :
      Holds sha256Hex s (some c)

/-- The number a printed generation stands for. -/
theorem digitsValue_sixDigits (n : Int) (hn : 0 ≤ n) :
    JsonValue.digitsValue (sixDigits n) = n.natAbs ∧ 6 ≤ (sixDigits n).length ∧
      (sixDigits n).all isDigit = true := by
  have hzeros (k : Nat) (t : Text) :
      JsonValue.digitsValue (List.replicate k 48 ++ t) = JsonValue.digitsValue t := by
    induction k with
    | zero => rfl
    | succ k ih => simpa [List.replicate_succ, JsonValue.digitsValue] using ih
  obtain ⟨hvalue, hall, -⟩ := digitsValue_decimal n.natAbs
  rw [sixDigits, if_neg (by omega)]
  refine ⟨by rw [hzeros, hvalue], by simp; omega, ?_⟩
  rw [List.all_append, Bool.and_eq_true]
  exact ⟨by simp [isDigit], List.all_eq_true.mpr hall⟩

theorem stateFileName_injective (g h : Int64) (hg : 0 ≤ g.toInt) (hh : 0 ≤ h.toInt)
    (heq : stateFileName g = stateFileName h) : g.toInt = h.toInt := by
  have hdigits : sixDigits g.toInt = sixDigits h.toInt := by
    have := List.append_cancel_right heq
    exact List.append_cancel_left this
  have hvalue := congrArg JsonValue.digitsValue hdigits
  rw [(digitsValue_sixDigits _ hg).1, (digitsValue_sixDigits _ hh).1] at hvalue
  omega

theorem isStateFileName_stateFileName (g : Int64) (hg : 0 ≤ g.toInt) :
    isStateFileName (stateFileName g) = true := by
  obtain ⟨-, hlen, hall⟩ := digitsValue_sixDigits g.toInt hg
  have hpre : (text "state-").length = 6 := by decide
  have hsuf : (text ".json").length = 5 := by decide
  have hlength : (stateFileName g).length = (sixDigits g.toInt).length+11 := by
    simp only [stateFileName, List.length_append, hpre, hsuf]
    omega
  have hmiddle : ((stateFileName g).drop 6).take ((stateFileName g).length-11) =
      sixDigits g.toInt := by
    rw [hlength, stateFileName, List.append_assoc, ← hpre, List.drop_left, Nat.add_sub_cancel,
      List.take_left]
  rw [isStateFileName, hmiddle, hall, hlength]
  simp only [Bool.and_eq_true, decide_eq_true_eq, and_true]
  refine ⟨⟨by omega, ?_⟩, ?_⟩
  · rw [startsWith_iff, stateFileName, List.append_assoc]
    exact List.prefix_append _ _
  · rw [endsWith, List.isSuffixOf_iff_suffix]
    exact List.suffix_append _ _

/-- No state file is the manifest, and no final name is a temporary one. -/
theorem stateFileName_names (g : Int64) :
    stateFileName g ≠ manifestName ∧ stateFileName g ≠ temporaryName manifestName ∧
      stateFileName g ≠ probeName ∧
      (∀ h, stateFileName g ≠ temporaryName (stateFileName h)) ∧
      manifestName ≠ temporaryName (stateFileName g) := by
  have hstate : (stateFileName g).head? = some 115 := by
    have : text "state-" = [115, 116, 97, 116, 101, 45] := by decide
    simp [stateFileName, this]
  have hlast (t : Text) : (t ++ text ".json").getLast? = some 110 ∧
      (t ++ text ".tmp").getLast? = some 112 := by
    have hjson : text ".json" = [46, 106, 115, 111, 110] := by decide
    have htmp : text ".tmp" = [46, 116, 109, 112] := by decide
    simp [hjson, htmp]
  refine ⟨?_, ?_, ?_, ?_, ?_⟩
  · intro h
    rw [h] at hstate
    exact absurd hstate (by decide)
  · intro h
    rw [h] at hstate
    exact absurd hstate (by decide)
  · intro h
    rw [h] at hstate
    exact absurd hstate (by decide)
  · intro h heq
    have hg := (hlast (text "state-" ++ sixDigits g.toInt)).1
    have hh := (hlast (stateFileName h)).2
    have heq : text "state-" ++ sixDigits g.toInt ++ text ".json" = stateFileName h ++ text ".tmp" :=
      heq
    rw [heq, hh] at hg
    exact absurd hg (by decide)
  · intro h
    have hm : manifestName.getLast? = some 110 := by decide
    have ht := (hlast (stateFileName g)).2
    have h : manifestName = stateFileName g ++ text ".tmp" := h
    rw [h, ht] at hm
    exact absurd hm (by decide)

/-- The next generation is the next number. -/
theorem nextGeneration_some (g next : Int64) (h : nextGeneration g = some next) :
    next.toInt = g.toInt+1 := by
  unfold nextGeneration at h
  split_ifs at h with hlt
  obtain rfl := Option.some.inj h
  have hlo := Int64.le_toInt g
  exact Int64.toInt_ofInt_of_le (by omega) (by omega)

section
variable {sha256Hex : Text → Text}

/-- Files other than the new state file and the temporary ones survive the commit; the manifest
is the old one or the new one, and the new one only with its state file. -/
theorem commit_meets (store : CheckpointStore) (calls : WriteCalls) (next : Int64)
    (c : EngineCheckpoint) (db1 db2 : Text) (d : Disk Text Text) :
    let m := store.manifest sha256Hex next c db1 db2
    let old : Disk Text Text → Prop := fun e => e.files manifestName = d.files manifestName ∧
      ∀ g, stateFileName g ≠ stateFileName next →
        e.files (stateFileName g) = d.files (stateFileName g)
    let new : Disk Text Text → Prop := fun e =>
      e.files manifestName = some (serializeCheckpointManifest m) ∧
        e.files m.stateFile = some (serializeCheckpointState c)
    (store.commit sha256Hex calls next c db1 db2 d).Meets new old fun e => old e ∨ new e := by
  intro m old new
  obtain ⟨hmanifest, hmanifestTmp, -, htmp, hmanifestState⟩ := stateFileName_names next
  have hfiles : ∀ e, Disk.SameOutside [temporaryName (stateFileName next), stateFileName next] d e →
      old e := by
    intro e he
    refine ⟨he _ (by simp [hmanifestState, Ne.symm hmanifest]), fun g hg => he _ ?_⟩
    simp [hg, (stateFileName_names g).2.2.2.1 next]
  have hstate : (replaceFileBytesDurable calls.stateWrite calls.stateRename calls.stateDrop
      m.stateFile (serializeCheckpointState c) d).Meets
        (fun e => old e ∧ e.files m.stateFile = some (serializeCheckpointState c)) old
        (fun e => old e ∨ new e) := by
    refine (Disk.replaceCall_meets _ _ _ _ _ _ d (htmp next)).imp (fun e he => ?_) (fun e he => ?_)
      fun e he => ?_
    · exact ⟨hfiles e he.1, he.2⟩
    · exact hfiles e (he.weaken (by simp))
    · exact Or.inl (hfiles e he.1)
  refine hstate.andThen fun e he => ?_
  have hframe : ∀ f, Disk.SameOutside [temporaryName manifestName, manifestName] e f →
      ∀ g, f.files (stateFileName g) = e.files (stateFileName g) := by
    intro f hf g
    obtain ⟨hg, hgTmp, -⟩ := stateFileName_names g
    exact hf _ (by simp [hg, hgTmp])
  have hne : manifestName ≠ temporaryName manifestName := by decide
  refine Outcome.Meets.onFailure (Q := fun f => Disk.SameOutside [temporaryName manifestName] e f)
    ?_ fun f hf => ?_
  · refine (Disk.replaceCall_meets _ _ _ _ _ _ e hne).imp (fun f hf => ?_) (fun f hf => hf)
      fun f hf => ?_
    · exact ⟨hf.2, (hframe f hf.1 next).trans he.2⟩
    · obtain ⟨hsame, hold | hnew⟩ := hf
      · refine Or.inl ⟨hold.trans he.1.1, fun g hg => ?_⟩
        exact (hframe f hsame g).trans (he.1.2 g hg)
      · exact Or.inr ⟨hnew, (hframe f hsame next).trans he.2⟩
  · have hold : ∀ k, Disk.SameOutside [stateFileName next] f k → old k := by
      intro k hk
      have hkept : k.files manifestName = e.files manifestName :=
        (hk _ (by simpa using Ne.symm hmanifest)).trans (hf _ (by simpa using hne))
      refine ⟨hkept.trans he.1.1, fun g hg => ?_⟩
      have hfe := hframe f (hf.weaken (by simp)) g
      exact (hk _ (by simpa using hg)).trans (hfe.trans (he.1.2 g hg))
    exact (Disk.removeCall_meets calls.stateRemove (stateFileName next) f).imp hold
      (fun _ h => h.elim) fun k hk => Or.inl (hold k hk)

theorem Holds.generation {s : System} {r : Option EngineCheckpoint} (h : Holds sha256Hex s r)
    (store : CheckpointStore) (hs : s.process = some store) : 0 ≤ store.generation.toInt := by
  cases h with
  | empty hfiles hstore =>
    have hzero := hstore store (by simp [hs])
    rw [hzero]
    decide
  | committed d m c hdir hfiles hstore =>
    have hm := hstore store (by simp [hs])
    rw [hm]
    exact hfiles.describes.generation

/-- The files of the committed checkpoint are still there. -/
theorem Holds.keep {store : CheckpointStore} {d e : Disk Text Text} {r : Option EngineCheckpoint}
    (h : Holds sha256Hex ⟨some d, some store⟩ r) (next : Int64)
    (hnext : next.toInt = store.generation.toInt+1)
    (hmanifest : e.files manifestName = d.files manifestName)
    (hstate : ∀ g, stateFileName g ≠ stateFileName next →
      e.files (stateFileName g) = d.files (stateFileName g))
    (process : Option CheckpointStore) (hp : ∀ q ∈ process, q.generation = store.generation) :
    Holds sha256Hex ⟨some e, process⟩ r := by
  have hpos := h.generation store rfl
  cases h with
  | empty hfiles hstore =>
    have hzero : store.generation = 0 := hstore store rfl
    refine .empty (fun f hf => ?_) fun q hq => (hp q hq).trans hzero
    obtain rfl := Option.some.inj hf
    rw [hmanifest]
    exact hfiles d rfl
  | committed d' m c hdir hfiles hstore =>
    obtain rfl := Option.some.inj hdir
    have hgen : store.generation = m.generation := hstore store rfl
    have hname : m.stateFile = stateFileName m.generation := hfiles.describes.stateFile
    have hne : stateFileName m.generation ≠ stateFileName next := by
      intro heq
      have hinj := stateFileName_injective _ _ hfiles.describes.generation (by omega) heq
      rw [hnext, hgen] at hinj
      omega
    refine .committed e m c rfl ⟨hfiles.describes, ?_, ?_⟩ fun q hq => (hp q hq).trans hgen
    · rw [hmanifest, hfiles.manifest]
    · rw [hname, hstate _ hne, ← hname, hfiles.state]

/-- The files of the new checkpoint are there. -/
theorem Holds.commit (store : CheckpointStore) (e : Disk Text Text) (c : EngineCheckpoint)
    (db1 db2 : Text) (next : Int64) (hpos : 0 ≤ next.toInt)
    (hmanifest : e.files manifestName =
      some (serializeCheckpointManifest (store.manifest sha256Hex next c db1 db2)))
    (hstate : e.files (stateFileName next) = some (serializeCheckpointState c))
    (process : Option CheckpointStore) (hp : ∀ q ∈ process, q.generation = next) :
    Holds sha256Hex ⟨some e, process⟩ (some c) :=
  .committed e (store.manifest sha256Hex next c db1 db2) c rfl
    ⟨⟨rfl, rfl, hpos, rfl, rfl, rfl⟩, hmanifest, hstate⟩ hp

/-- Stale files are neither the manifest nor the state file it names. -/
theorem staleFiles_spec (listed : List Text) (stateFile : Text) :
    manifestName ∉ staleFiles listed stateFile ∧ stateFile ∉ staleFiles listed stateFile := by
  constructor <;> simp [staleFiles]

/-- A write moves the register as its end says, whatever goes wrong in it. -/
theorem Holds.write {s : System} {r : Option EngineCheckpoint} (h : Holds sha256Hex s r)
    (calls : WriteCalls) (c : EngineCheckpoint) (db1 db2 : Text) :
    ∃ after, RegisterStep c r after (s.write sha256Hex calls c db1 db2).2 ∧
      Holds sha256Hex (s.write sha256Hex calls c db1 db2).1 after := by
  obtain ⟨dir, process⟩ := s
  cases process with
  | none => exact ⟨r, rfl, h⟩
  | some store =>
    cases dir with
    | none => exact ⟨r, rfl, h⟩
    | some d =>
      have hpos := h.generation store rfl
      simp only [System.write, CheckpointStore.write]
      cases hnext : nextGeneration store.generation with
      | none =>
        refine ⟨r, Or.inl rfl, ?_⟩
        cases h with
        | empty hfiles hstore => exact .empty hfiles (by simp)
        | committed d' m c' hdir hfiles hstore => exact .committed d' m c' hdir hfiles (by simp)
      | some next =>
        have hvalue := nextGeneration_some _ _ hnext
        have hcommit := @commit_meets sha256Hex store calls next c db1 db2 d
        dsimp only
        cases hc : store.commit sha256Hex calls next c db1 db2 d with
        | failed e =>
          rw [hc] at hcommit
          exact ⟨r, rfl, h.keep next hvalue hcommit.1 hcommit.2 _ (by simp)⟩
        | killed e =>
          rw [hc] at hcommit
          rcases hcommit with hold | hnew
          · exact ⟨r, Or.inl rfl, h.keep next hvalue hold.1 hold.2 _ (by simp)⟩
          · exact ⟨some c, Or.inr rfl,
              .commit store e c db1 db2 next (by omega) hnew.1 hnew.2 _ (by simp)⟩
        | done e =>
          rw [hc] at hcommit
          have hnew (f : Disk Text Text)
              (hf : Disk.SameOutside (staleFiles calls.listed (stateFileName next)) e f)
              (process : Option CheckpointStore) (hp : ∀ q ∈ process, q.generation = next) :
              Holds sha256Hex ⟨some f, process⟩ (some c) := by
            have hstale := staleFiles_spec calls.listed (stateFileName next)
            refine .commit store f c db1 db2 next (by omega) ?_ ?_ process hp
            · rw [hf _ hstale.1, hcommit.1]
            · exact (hf _ hstale.2).trans hcommit.2
          dsimp only
          split_ifs with hraises
          · exact ⟨some c, Or.inr rfl, hnew e (fun q _ => rfl) _ (by simp)⟩
          · have hremoved := Disk.removeCalls_meets calls.staleRemove
              (staleFiles calls.listed (stateFileName next)) e
            cases hr : e.removeCalls calls.staleRemove
                (staleFiles calls.listed (stateFileName next)) with
            | done f =>
              rw [hr] at hremoved
              exact ⟨some c, rfl, hnew f hremoved _ (by simp)⟩
            | failed f =>
              rw [hr] at hremoved
              exact ⟨some c, rfl, hnew f hremoved _ (by simp)⟩
            | killed f =>
              rw [hr] at hremoved
              exact ⟨some c, Or.inr rfl, hnew f hremoved _ (by simp)⟩

/-- A committed checkpoint that can be read is what `Load` returns. -/
theorem Committed.load {d : Disk Text Text} {m : CheckpointManifest} {c : EngineCheckpoint}
    (h : Committed sha256Hex d m c) (hc : c.Readable) (store : CheckpointStore) :
    store.load sha256Hex (some d) = .ok (c,⟨store.dir, m.generation, m.createdDirectory⟩) := by
  obtain ⟨hbinding, hcursor, hgen, hfile, hsha, hbytes⟩ := h.describes
  have hmanifest := parseCheckpointManifest_serialize m (hcursor ▸ hc.cursor)
  have hname : isStateFileName m.stateFile = true :=
    hfile ▸ isStateFileName_stateFileName m.generation hgen
  have hparse := parseCheckpointState_serialize c hc
  have hbelongs : ¬ (c.binding ≠ m.binding ∨ c.cursor ≠ m.cursor) := by
    simp [hbinding, hcursor]
  simp [CheckpointStore.load, h.manifest, hmanifest, CheckpointStore.loadState, hname, h.state,
    hbytes, hsha, hparse, hbelongs]

/-- Whatever `Load` makes of a committed checkpoint, it counts on from its generation. -/
theorem Committed.load_generation {d : Disk Text Text} {m : CheckpointManifest}
    {c c' : EngineCheckpoint} (h : Committed sha256Hex d m c) (store store' : CheckpointStore)
    (hload : store.load sha256Hex (some d) = .ok (c',store')) :
    store'.generation = m.generation := by
  rw [CheckpointStore.load, h.manifest] at hload
  dsimp only at hload
  rw [parseCheckpointManifest_eq] at hload
  cases hcursor : PipelineCursor.fromJson (.object m.members) [] with
  | error e => simp [hcursor] at hload
  | ok cursor =>
    simp only [hcursor, ok_bind] at hload
    unfold CheckpointStore.loadState at hload
    dsimp only at hload
    split_ifs at hload
    split at hload
    · cases hload
    · split_ifs at hload
      split at hload
      · cases hload
      · split_ifs at hload
        exact congrArg (fun p => p.2.generation) (Except.ok.inj hload).symm

/-- `Prepare` touches nothing but its probe file, and keeps the count. -/
theorem prepare_spec (store : CheckpointStore) (calls : PrepareCalls)
    (dir : Option (Disk Text Text)) :
    (∀ q ∈ (store.prepare calls dir).1, q.generation = store.generation) ∧
      (∀ e ∈ (store.prepare calls dir).2,
        Disk.SameOutside [probeName] (dir.getD ⟨fun _ => none, []⟩) e) ∧
      (dir.isSome = true → (store.prepare calls dir).2.isSome = true) := by
  let d := dir.getD ⟨fun _ => none, []⟩
  have hwrite : (d.writeCall calls.probeWrite probeName (text "probe\n")).Meets
      (Disk.SameOutside [probeName] d) (Disk.SameOutside [probeName] d)
      (Disk.SameOutside [probeName] d) := by
    cases calls.probeWrite with
    | complete => exact Disk.write_same d probeName _
    | failed left => exact Disk.leave_same d probeName left
    | killed left => exact Disk.leave_same d probeName left
  have hremove (e : Disk Text Text) (he : Disk.SameOutside [probeName] d e) :
      Disk.SameOutside [probeName] d (e.remove (!calls.probeRemove.happens) probeName) :=
    he.trans fun q hq => Disk.remove_frame _ e probeName q (by simpa using hq)
  unfold CheckpointStore.prepare
  split
  · exact ⟨by simp, by simp, by simp⟩
  · dsimp only
    cases hw : d.writeCall calls.probeWrite probeName (text "probe\n") with
    | failed e =>
      rw [hw] at hwrite
      have hsame : Disk.SameOutside [probeName] d e := hwrite
      simpa using hsame
    | killed e =>
      rw [hw] at hwrite
      have hsame : Disk.SameOutside [probeName] d e := hwrite
      simpa using hsame
    | done e =>
      rw [hw] at hwrite
      have hsame := hremove e hwrite
      dsimp only
      split_ifs
      · simpa using hsame
      · simpa using hsame

/-- A new process leaves the register as it is. -/
theorem Holds.start {s : System} {r : Option EngineCheckpoint} (h : Holds sha256Hex s r)
    (path : Text) (calls : PrepareCalls) : Holds sha256Hex (s.start sha256Hex path calls) r := by
  have hprobe : manifestName ∉ [probeName] := by decide
  have hdead : Holds sha256Hex ⟨s.dir, none⟩ r := by
    cases h with
    | empty hfiles hstore => exact .empty hfiles (by simp)
    | committed d m c hdir hfiles hstore => exact .committed d m c hdir hfiles (by simp)
  have hprepared (store : CheckpointStore)
      (hstore : Holds sha256Hex ⟨s.dir, some store⟩ r) :
      Holds sha256Hex ⟨(store.prepare calls s.dir).2, (store.prepare calls s.dir).1⟩ r := by
    obtain ⟨hcount, hsame, hdir⟩ := prepare_spec store calls s.dir
    cases hstore with
    | empty hfiles hzero =>
      refine .empty (fun e he => ?_) fun q hq => (hcount q hq).trans (hzero store rfl)
      rw [hsame e he _ hprobe]
      cases hd : s.dir with
      | none => rfl
      | some d => exact hfiles d hd
    | committed d m c hd hfiles hgen =>
      change s.dir = some d at hd
      rw [hd] at hcount hsame hdir ⊢
      obtain ⟨e, he⟩ := Option.isSome_iff_exists.mp (hdir rfl)
      have hframe := hsame e he
      have hstate : m.stateFile ∉ [probeName] := by
        rw [hfiles.describes.stateFile]
        simpa using (stateFileName_names m.generation).2.2.1
      refine .committed e m c he ⟨hfiles.describes, ?_, ?_⟩
        fun q hq => (hcount q hq).trans (hgen store rfl)
      · exact (hframe _ hprobe).trans hfiles.manifest
      · exact (hframe _ hstate).trans hfiles.state
  unfold System.start
  by_cases hm : hasManifest s.dir = true
  · rw [if_pos hm]
    cases hload : CheckpointStore.load sha256Hex ⟨path, 0, false⟩ s.dir with
    | error e => exact hdead
    | ok p =>
      refine hprepared p.2 ?_
      cases hdead with
      | empty hfiles hstore =>
        cases hd : s.dir with
        | none => simp [hasManifest, hd] at hm
        | some d => simp [hasManifest, hd, hfiles d hd] at hm
      | committed d m c hd hfiles hgen =>
        change s.dir = some d at hd
        rw [hd] at hload
        refine .committed d m c hd hfiles fun q hq => ?_
        obtain rfl := Option.some.inj hq
        exact hfiles.load_generation _ _ hload
  · rw [if_neg hm]
    refine hprepared ⟨path, 0, false⟩ ?_
    cases hdead with
    | empty hfiles hstore => exact .empty hfiles fun q hq => by obtain rfl := Option.some.inj hq; rfl
    | committed d m c hd hfiles hgen =>
      change s.dir = some d at hd
      exact absurd (by simp [hasManifest, hd, hfiles.manifest]) hm

/-- What any later `Load` says about a directory with this register. -/
def Shows (sha256Hex : Text → Text) (dir : Option (Disk Text Text)) :
    Option EngineCheckpoint → Prop
  | none => ∀ loader : CheckpointStore, loader.load sha256Hex dir = .error (loader.absent dir)
  | some c => c.Readable → ∀ loader : CheckpointStore,
      ∃ store, loader.load sha256Hex dir = .ok (c,store)

end

theorem Holds.initial (sha256Hex : Text → Text) (others : Option (Text → Option Text)) :
    Holds sha256Hex (System.initial others) none := by
  refine .empty (fun d hd => ?_) (by simp [System.initial])
  obtain ⟨files, -, rfl⟩ := Option.map_eq_some_iff.mp hd
  exact Function.update_self manifestName none files

end DSigMatcher.Checkpoint
