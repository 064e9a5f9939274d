import DSigMatcher.Port.Safety

namespace DSigMatcher.Port
open DSigMatcher.Base DSigMatcher.Framework

/-- `program.md5sum` as stored: no value, a digest text, or a BLOB. -/
inductive StoredMd5
  | missing
  | digest (t : Text) (terminated : (0 : UInt8) ∉ t)
  | blob (bytes : Text)
  deriving DecidableEq

def hexDigit (n : UInt8) : UInt8 := if n < 10 then 48+n else 87+n

/-- `ColumnTextOrHex`: a BLOB is read as lowercase hex. -/
def columnTextOrHex : StoredMd5 → Text
  | .missing => []
  | .digest t _ => t
  | .blob bytes => bytes.flatMap fun b => [hexDigit (b/16), hexDigit (b%16)]

example : columnTextOrHex (.blob [0xd4, 0x1d]) = text "d41d" := by decide

/-- One row of `dsig_provenance`. -/
structure HopRecord (ρ : Type) where
  hop : Int
  sourcePath : Text
  sourceInputMd5 : Text
  sourceFileSha256 : Text
  targetInputMd5 : Text
  targetFileSha256Before : Text
  appliedAt : Text
  toolVersion : Text
  functionsReference : Nat
  functionsTarget : Nat
  matchCount : Nat
  namesApplied : Nat
  namesSkippedExisting : Nat
  namesSkippedHops : Nat
  namesSkippedRatio : Nat
  minRatio : ρ
  maxHops : Int
  lineage : Text
  deriving DecidableEq

/-- What a port reads of a database; absent `dsig_*` tables have no rows. -/
structure Database (ρ : Type) where
  functions : List FunctionsRow
  md5 : StoredMd5
  provenance : List (HopRecord ρ)
  nameOrigin : List (NameOrigin ρ)
  deriving DecidableEq

section
variable {ρ : Type}

/-- `Identity.InputMd5`. -/
def Database.inputMd5 (d : Database ρ) : Text := columnTextOrHex d.md5

/-- `Identity.Lineage`: that of the last hop. -/
def Database.lineage (d : Database ρ) : Text :=
  match d.provenance.getLast? with
  | some record => record.lineage
  | none => []

/-- An export no port has written. -/
def Database.IsExport (d : Database ρ) : Prop := d.provenance = [] ∧ d.nameOrigin = []

def shownMd5 (md5 : Text) : Text := if md5.isEmpty then text "<unknown>" else md5

def buildLineage (parentLineage sourceMd5 targetMd5 : Text) : Text :=
  if parentLineage.isEmpty then shownMd5 sourceMd5 ++ text " -> " ++ shownMd5 targetMd5
  else parentLineage ++ text " -> " ++ shownMd5 targetMd5

/-- What `c_str()` passes on: the bytes before the first zero. -/
def cString (t : Text) : Text := t.takeWhile (· != 0)

/-- `BindHop`: the texts are bound as C strings. -/
def bindHop (r : HopRecord ρ) : HopRecord ρ :=
  { r with
    sourcePath := cString r.sourcePath
    sourceInputMd5 := cString r.sourceInputMd5
    sourceFileSha256 := cString r.sourceFileSha256
    targetInputMd5 := cString r.targetInputMd5
    targetFileSha256Before := cString r.targetFileSha256Before
    appliedAt := cString r.appliedAt
    toolVersion := cString r.toolVersion
    lineage := cString r.lineage }

/-- `insert or replace` by the integer key `hop`; the rows are kept in key order. -/
def insertHop (record : HopRecord ρ) : List (HopRecord ρ) → List (HopRecord ρ)
  | [] => [record]
  | r::rs =>
    if record.hop < r.hop then record::r::rs
    else if record.hop = r.hop then record::rs
    else r::insertHop record rs

/-- The parent's hops, then the new one. -/
def writeHops (parents : List (HopRecord ρ)) (record : HopRecord ρ) : List (HopRecord ρ) :=
  insertHop (bindHop record) (parents.foldl (fun rows r => insertHop (bindHop r) rows) [])

def highestParentHop (parents : List (HopRecord ρ)) : Int :=
  parents.foldl (fun highest r => max highest r.hop) 0

/-- `insert or replace` by the text key `address`. -/
def insertOrigin (rows : List (NameOrigin ρ)) (origin : NameOrigin ρ) : List (NameOrigin ρ) :=
  rows.filter (fun r => r.address != origin.address) ++ [origin]

variable {reference target : LabelTable}

/-- The origin row of an applied decision. -/
def PlanEntry.originRow (e : PlanEntry ρ reference target) : NameOrigin ρ where
  address := e.decision.targetAddress
  name := e.decision.referenceName.getD []
  originAddress := e.originAddress
  originName := e.originName
  hops := e.decision.hops
  cumulativeRatio := e.decision.confidence
  heuristic := e.resolved.proposal.category ++ text ":" ++ e.resolved.proposal.description
  firstLabelledAt := e.firstLabelledAt

def writeOrigins (es : List (PlanEntry ρ reference target)) : List (NameOrigin ρ) :=
  (appliedEntries es).foldl (fun rows e => insertOrigin rows e.originRow) []

end

/-- What one port is given besides its reference. -/
structure PortRequest (ρ : Type) where
  options : PlanOptions ρ
  proposals : List (LabelProposal ρ)
  target : Database ρ
  outputPath : Text
  sourcePath : Text
  sourceFileSha256 : Text
  targetFileSha256 : Text
  appliedAt : Text
  toolVersion : Text

structure LabelPortResult (ρ : Type) where
  database : Database ρ
  decisions : List (LabelDecision ρ)
  counters : PortCounters
  newHop : Int
  lineage : Text

section
variable {ρ : Type} [Zero ρ] [One ρ] [Mul ρ] [LT ρ] [DecidableLT ρ]

theorem planLabels_isSome {reference target : LabelTable} (options : PlanOptions ρ)
    (origins : List (NameOrigin ρ)) (appliedAt : Text)
    (rs : List (ResolvedProposal ρ reference target)) :
    (planLabels options origins appliedAt (rs.length+1) rs).isSome := by
  obtain ⟨es, -, hes⟩ := planLabels_terminates options origins appliedAt rs
  exact Option.isSome_iff_exists.mpr ⟨es, hes 0⟩

/-- Both passes run to their end. -/
def plannedEntries {reference target : LabelTable} (options : PlanOptions ρ)
    (origins : List (NameOrigin ρ)) (appliedAt : Text)
    (rs : List (ResolvedProposal ρ reference target)) : List (PlanEntry ρ reference target) :=
  (planLabels options origins appliedAt (rs.length+1) rs).get
    (planLabels_isSome options origins appliedAt rs)

theorem plannedEntries_planned {reference target : LabelTable} (options : PlanOptions ρ)
    (origins : List (NameOrigin ρ)) (appliedAt : Text)
    (rs : List (ResolvedProposal ρ reference target)) :
    Planned options origins appliedAt rs (plannedEntries options origins appliedAt rs) := by
  obtain ⟨es, h, hes⟩ := planLabels_terminates options origins appliedAt rs
  have hget : plannedEntries options origins appliedAt rs = es := by
    have h0 := hes 0
    unfold plannedEntries
    simp only [h0, Option.get_some]
  rw [hget]
  exact h

/-- The record of this hop. -/
def newRecord (request : PortRequest ρ) (reference : Database ρ) (functionsReference : Nat)
    (counters : PortCounters) : HopRecord ρ where
  hop := highestParentHop reference.provenance + 1
  sourcePath := request.sourcePath
  sourceInputMd5 := reference.inputMd5
  sourceFileSha256 := request.sourceFileSha256
  targetInputMd5 := request.target.inputMd5
  targetFileSha256Before := request.targetFileSha256
  appliedAt := request.appliedAt
  toolVersion := request.toolVersion
  functionsReference := functionsReference
  functionsTarget := request.target.functions.length
  matchCount := counters.selected
  namesApplied := counters.namesApplied
  namesSkippedExisting := counters.namesSkippedExisting
  namesSkippedHops := counters.namesSkippedHops
  namesSkippedRatio := counters.namesSkippedRatio
  minRatio := request.options.minCumulativeRatio
  maxHops := request.options.maxHops
  lineage := buildLineage reference.lineage reference.inputMd5 request.target.inputMd5

/-- `PortLabels` on loaded tables: the output is the target with the names, the origins of the
applied names and the reference's hops plus this one. -/
def portResolved (request : PortRequest ρ) (reference : Database ρ)
    {referenceTable targetTable : LabelTable}
    (rs : List (ResolvedProposal ρ referenceTable targetTable)) :
    Except PortError (LabelPortResult ρ) :=
  let es := plannedEntries request.options reference.nameOrigin request.appliedAt rs
  let record := newRecord request reference referenceTable.rows.length (portCounters rs es)
  match writeNames request.target.functions es with
  | .error e => .error ⟨.io, text "output '" ++ request.outputPath ++ text "': " ++ e⟩
  | .ok functions => .ok {
      database := {
        functions := functions
        md5 := request.target.md5
        provenance := writeHops reference.provenance record
        nameOrigin := writeOrigins es }
      decisions := es.map PlanEntry.decision
      counters := portCounters rs es
      newHop := record.hop
      lineage := record.lineage }

def portLabels (request : PortRequest ρ) (reference : Database ρ) :
    Except PortError (LabelPortResult ρ) :=
  match loadLabelTable reference.functions with
  | .error e => .error ⟨.input, text "reference: " ++ e⟩
  | .ok referenceTable =>
    match loadLabelTable request.target.functions with
    | .error e => .error ⟨.input, text "target: " ++ e⟩
    | .ok targetTable =>
      match resolveProposals referenceTable targetTable request.proposals with
      | .error e => .error e
      | .ok rs => portResolved request reference rs

/-- What a successful port consists of. -/
structure PortRun (request : PortRequest ρ) (reference : Database ρ) (result : LabelPortResult ρ)
    {referenceTable targetTable : LabelTable}
    (rs : List (ResolvedProposal ρ referenceTable targetTable))
    (es : List (PlanEntry ρ referenceTable targetTable)) : Prop where
  referenceLoaded : loadLabelTable reference.functions = .ok referenceTable
  targetLoaded : loadLabelTable request.target.functions = .ok targetTable
  proposals : rs.map ResolvedProposal.proposal = request.proposals
  planned : Planned request.options reference.nameOrigin request.appliedAt rs es
  functions : writeNames request.target.functions es = .ok result.database.functions
  md5 : result.database.md5 = request.target.md5
  provenance : result.database.provenance = writeHops reference.provenance
    (newRecord request reference referenceTable.rows.length (portCounters rs es))
  nameOrigin : result.database.nameOrigin = writeOrigins es
  decisions : result.decisions = es.map PlanEntry.decision

theorem portLabels_ok (request : PortRequest ρ) (reference : Database ρ)
    (result : LabelPortResult ρ) (h : portLabels request reference = .ok result) :
    ∃ (referenceTable targetTable : LabelTable)
      (rs : List (ResolvedProposal ρ referenceTable targetTable))
      (es : List (PlanEntry ρ referenceTable targetTable)),
      PortRun request reference result rs es := by
  unfold portLabels at h
  split at h
  · cases h
  rename_i referenceTable hreference
  split at h
  · cases h
  rename_i targetTable htarget
  split at h
  · cases h
  rename_i rs hrs
  unfold portResolved at h
  dsimp only at h
  split at h
  · cases h
  rename_i functions hfunctions
  obtain rfl := Except.ok.inj h
  exact ⟨referenceTable, targetTable, rs, _, hreference, htarget,
    resolveProposals_proposals _ _ _ _ hrs, plannedEntries_planned _ _ _ _, hfunctions, rfl, rfl,
    rfl, rfl⟩

end

end DSigMatcher.Port
