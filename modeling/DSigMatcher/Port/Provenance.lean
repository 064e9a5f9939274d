import DSigMatcher.Port.Chain
import Mathlib

namespace DSigMatcher.Port
open DSigMatcher.Base DSigMatcher.Framework

section
variable {ρ : Type}

theorem inheritedOrigin_some (origins : List (NameOrigin ρ)) (address name : Text)
    (parent : NameOrigin ρ) (h : inheritedOrigin origins address name = some parent) :
    parent ∈ origins ∧ parent.address = address ∧ parent.name = name := by
  unfold inheritedOrigin at h
  obtain ⟨hfind, hname⟩ := Option.filter_eq_some_iff.mp h
  have haddress := List.find?_some hfind
  exact ⟨List.mem_of_find?_eq_some hfind, by simpa using haddress, by simpa using hname⟩

end

section
variable {ρ : Type} [Zero ρ] [One ρ] [Mul ρ] [LT ρ] [DecidableLT ρ]

/-- The port applied a proposal that carries `name` from a reference row to a target row. -/
def AppliedProposal (request : PortRequest ρ) (result : LabelPortResult ρ)
    (referenceAddress name address : Text) (ratio : ρ) : Prop :=
  ∃ proposal decision, (proposal,decision) ∈ request.proposals.zip result.decisions ∧
    decision.action = .applied ∧ decision.referenceAddress = referenceAddress ∧
    decision.referenceName = some name ∧ decision.targetAddress = address ∧
    proposal.ratio = ratio

/-- The latest `h` ports of a chain applied proposals that carried `name` from `origin`, where it
had no history, to `address`; `ratios` are theirs, the latest first. -/
inductive Carried (start : Database ρ) :
    List (PortRequest ρ) → (address name : Text) → (h : Nat) → (origin : Text) → List ρ → Prop
  | began {request earlier reference result address name origin ratio}
      (hreference : runPorts start earlier = .ok reference)
      (hresult : portLabels request reference = .ok result)
      (happlied : AppliedProposal request result origin name address ratio)
      (hnew : inheritedOrigin reference.nameOrigin origin name = none) :
      Carried start (request::earlier) address name 1 origin [ratio]
  | hop {request earlier reference result address name via h origin ratio ratios}
      (hcarried : Carried start earlier via name h origin ratios)
      (hreference : runPorts start earlier = .ok reference)
      (hresult : portLabels request reference = .ok result)
      (happlied : AppliedProposal request result via name address ratio) :
      Carried start (request::earlier) address name (h+1) origin (ratio::ratios)

/-- The origin row one port writes, from the history its reference had. -/
structure OriginStep (request : PortRequest ρ) (reference : Database ρ)
    (result : LabelPortResult ρ) (o : NameOrigin ρ) (via : Text) (ratio : ρ) : Prop where
  applied : AppliedProposal request result via o.name o.address ratio
  listed : ∃ row ∈ reference.functions, row.address = some via ∧ row.name = some o.name
  hops : o.hops = nextHops (inheritedOrigin reference.nameOrigin via o.name)
  ratio_eq : o.cumulativeRatio =
    previousRatio (inheritedOrigin reference.nameOrigin via o.name)*ratio
  origin : (o.originAddress,o.originName) =
    match inheritedOrigin reference.nameOrigin via o.name with
    | some parent => (parent.originAddress,parent.originName)
    | none => (via,o.name)

/-- The history an applied decision of pass 1 carries on. -/
theorem nameEntry_history {reference target : LabelTable} (options : PlanOptions ρ)
    (origins : List (NameOrigin ρ)) (appliedAt : Text) (r : ResolvedProposal ρ reference target)
    (name : Text)
    (h : (nameEntry options origins appliedAt r name).decision.action = .applied) :
    let e := nameEntry options origins appliedAt r name
    let inherited := inheritedOrigin origins r.referenceRow.address name
    e.decision.referenceAddress = r.referenceRow.address ∧
    e.decision.hops = nextHops inherited ∧
    e.decision.confidence = previousRatio inherited*r.proposal.ratio ∧
    (e.originAddress,e.originName) = match inherited with
      | some parent => (parent.originAddress,parent.originName)
      | none => (r.referenceRow.address,name) := by
  by_cases hc : (isPortableName r.targetRow.name && r.targetRow.name == some name) = true
  · simp [nameEntry, hc] at h
  simp only [nameEntry, if_neg hc, openDecision, true_and]
  cases inheritedOrigin origins r.referenceRow.address name <;> rfl

/-- Every origin row of a port's output comes from one applied proposal. -/
theorem portLabels_originStep (request : PortRequest ρ) (reference : Database ρ)
    (result : LabelPortResult ρ) (h : portLabels request reference = .ok result)
    (o : NameOrigin ρ) (ho : o ∈ result.database.nameOrigin) :
    ∃ via ratio, OriginStep request reference result o via ratio := by
  obtain ⟨referenceTable, targetTable, rs, es, hrun⟩ := portLabels_ok request reference result h
  rw [hrun.nameOrigin] at ho
  obtain ⟨e, he, rfl⟩ := mem_writeOrigins es o ho
  obtain ⟨hmem, happ⟩ := (mem_appliedEntries es e).mp he
  obtain ⟨name, hf⟩ := hrun.planned.facts e he
  have hname : e.originRow.name = name := by simp [PlanEntry.originRow, hf.referenceName]
  have hhistory := nameEntry_history request.options reference.nameOrigin request.appliedAt
    e.resolved name (hf.entry_eq ▸ happ)
  rw [← hf.entry_eq] at hhistory
  obtain ⟨hvia, hhops, hratio, horigin⟩ := hhistory
  refine ⟨e.resolved.referenceRow.address, e.resolved.proposal.ratio, ?_, ?_, ?_, ?_, ?_⟩
  · refine ⟨e.resolved.proposal, e.decision, ?_, happ, hvia, ?_, rfl, rfl⟩
    · have hzip : request.proposals.zip result.decisions =
          es.map fun e => (e.resolved.proposal,e.decision) := by
        rw [hrun.decisions, ← hrun.proposals, ← hrun.planned.resolved, List.map_map,
          List.zip_map']
        rfl
      rw [hzip]
      exact List.mem_map_of_mem hmem
    · rw [hname, hf.referenceName]
  · refine ⟨e.resolved.referenceRow.stored, ?_, rfl, ?_⟩
    · rw [← loadLabelTable_rows _ _ hrun.referenceLoaded]
      exact List.mem_map_of_mem (List.getElem_mem _)
    · rw [hname]
      exact hf.name_eq
  · rw [hname]
    exact hhops
  · rw [hname]
    exact hratio
  · rw [hname]
    exact horigin

end

/-- Where the name of an origin row comes from, over the whole chain. -/
structure OriginTraced (start : Database ℚ) (requests : List (PortRequest ℚ)) (o : NameOrigin ℚ)
    (h : Nat) (ratios : List ℚ) : Prop where
  hops : o.hops = h
  carried : Carried start requests o.address o.name h o.originAddress ratios
  ratio : o.cumulativeRatio = ratios.prod
  count : ratios.length = h
  source : ∃ d, runPorts start (requests.drop h) = .ok d ∧
    ∃ row ∈ d.functions, row.address = some o.originAddress ∧ row.name = some o.originName

theorem runPorts_origins (start : Database ℚ) (hstart : start.IsExport)
    (requests : List (PortRequest ℚ)) (d : Database ℚ) (h : runPorts start requests = .ok d) :
    ∀ o ∈ d.nameOrigin, ∃ n ratios, OriginTraced start requests o n ratios := by
  induction requests generalizing d with
  | nil =>
    obtain rfl := Except.ok.inj h
    simp [hstart.2]
  | cons request earlier ih =>
    obtain ⟨reference, result, hreference, hresult, rfl⟩ := runPorts_cons _ _ _ _ h
    intro o ho
    obtain ⟨via, ratio, hstep⟩ := portLabels_originStep request reference result hresult o ho
    have hhops := hstep.hops
    have hratio := hstep.ratio_eq
    have horigin := hstep.origin
    cases hparent : inheritedOrigin reference.nameOrigin via o.name with
    | none =>
      -- the history of the name begins at this port's reference
      rw [hparent] at hhops hratio horigin
      obtain ⟨haddress, hname⟩ := Prod.mk.inj horigin
      refine ⟨1, [ratio], hhops, ?_, by rw [hratio]; simp [previousRatio], rfl, reference,
        hreference, ?_⟩
      · rw [haddress]
        exact .began hreference hresult hstep.applied hparent
      · rw [haddress, hname]
        exact hstep.listed
    | some parent =>
      rw [hparent] at hhops hratio horigin
      obtain ⟨hmem, hvia, hname⟩ := inheritedOrigin_some _ _ _ _ hparent
      obtain ⟨n, ratios, ht⟩ := ih reference hreference parent hmem
      obtain ⟨haddress, horiginName⟩ := Prod.mk.inj horigin
      refine ⟨n+1, ratio::ratios, ?_, ?_, ?_, by simp [ht.count], ?_⟩
      · rw [hhops, nextHops, ht.hops]
        rfl
      · have hcarried := ht.carried
        rw [hvia, hname] at hcarried
        rw [haddress]
        exact .hop hcarried hreference hresult hstep.applied
      · rw [hratio, previousRatio, ht.ratio, List.prod_cons, mul_comm]
      · rw [haddress, horiginName, List.drop_succ_cons]
        exact ht.source

/-- What the output of the last port of a chain says about the whole chain. -/
structure ProvenanceKept (start : Database ℚ) (request : PortRequest ℚ)
    (earlier : List (PortRequest ℚ)) (d : Database ℚ) : Prop where
  traced : ∀ o ∈ d.nameOrigin, ∃ h ratios, OriginTraced start (request::earlier) o h ratios
  step : ∃ reference result, runPorts start earlier = .ok reference ∧
    portLabels request reference = .ok result ∧ result.database = d ∧
    (∀ o ∈ d.nameOrigin, ∃ via ratio, OriginStep request reference result o via ratio) ∧
    ∃ record, d.provenance = reference.provenance ++ [record]
  increasing : d.provenance.Pairwise fun a b => a.hop < b.hop
  count : d.provenance.length = earlier.length+1
  lineage : d.lineage = lineageOf (chainDigests start (request::earlier))

/-- Provenance survives any number of hops. -/
theorem runPorts_provenance (start : Database ℚ) (hstart : start.IsExport)
    (request : PortRequest ℚ) (earlier : List (PortRequest ℚ)) (d : Database ℚ)
    (h : runPorts start (request::earlier) = .ok d) :
    ProvenanceKept start request earlier d := by
  have hout := runPorts_output hstart _ d h
  have htraced := runPorts_origins start hstart _ d h
  obtain ⟨reference, result, hreference, hresult, rfl⟩ := runPorts_cons _ _ _ _ h
  obtain ⟨-, record, hrecord, -⟩ := (runPorts_output hstart _ reference hreference).port hresult
  exact ⟨htraced, ⟨reference, result, hreference, hresult, rfl,
    portLabels_originStep request reference result hresult, record, hrecord⟩, hout.hops.ordered,
    hout.count, hout.lineage (by simp)⟩

/-- An export with one named function. -/
def sampleExport (address name md5 : String) (h : (0 : UInt8) ∉ text md5) : Database ℚ where
  functions := [⟨some (text address), some (text name), none⟩]
  md5 := .digest (text md5) h
  provenance := []
  nameOrigin := []

/-- Ports the one function of the reference to the one function of the target. -/
def sampleRequest (referenceEa targetEa : Nat) (targetName : String) (ratio : ℚ)
    (target : Database ℚ) : PortRequest ℚ where
  options := { minCumulativeRatio := 0 }
  proposals := [⟨1, text "best", text "00000", text "Same RVA", text "0.5000000", ratio,
    referenceEa, targetEa, some (text "parse_header"), some (text targetName), true⟩]
  target := target
  outputPath := text "out.sqlite"
  sourcePath := text "reference.sqlite"
  sourceFileSha256 := text "5e"
  targetFileSha256 := text "7a"
  appliedAt := text "2025-01-01T00:00:00Z"
  toolVersion := text "1.0.0"

def sampleStart : Database ℚ := sampleExport "4096" "parse_header" "aa" (by decide)

def sampleChain : List (PortRequest ℚ) :=
  [sampleRequest 8192 12288 "sub_3000" (1/2) (sampleExport "12288" "sub_3000" "cc" (by decide)),
    sampleRequest 4096 8192 "sub_2000" (1/2) (sampleExport "8192" "sub_2000" "bb" (by decide))]

/-- After two ports the row at 12288 still names 4096, with both ratios multiplied. -/
theorem runPorts_provenance_sample :
    ∃ d, d.nameOrigin = [⟨text "12288", text "parse_header", text "4096", text "parse_header", 2,
        1/4, text "best:Same RVA", text "2025-01-01T00:00:00Z"⟩] ∧
      d.lineage = text "aa -> bb -> cc" ∧
      ∃ request earlier, sampleChain = request::earlier ∧
        ProvenanceKept sampleStart request earlier d := by
  have hrun : (runPorts sampleStart sampleChain).toOption.map
      (fun d => (d.nameOrigin,d.lineage)) = some ([⟨text "12288", text "parse_header",
        text "4096", text "parse_header", 2, 1/4, text "best:Same RVA",
        text "2025-01-01T00:00:00Z"⟩],text "aa -> bb -> cc") := by
    decide +kernel
  cases h : runPorts sampleStart sampleChain with
  | error e => simp [h, Except.toOption] at hrun
  | ok d =>
    rw [h] at hrun
    obtain ⟨horigin, hlineage⟩ := Prod.mk.inj (Option.some.inj hrun)
    exact ⟨d, horigin, hlineage, _, _, rfl,
      runPorts_provenance sampleStart ⟨rfl, rfl⟩ _ _ d h⟩

end DSigMatcher.Port
