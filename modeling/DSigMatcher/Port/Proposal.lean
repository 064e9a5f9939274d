import DSigMatcher.Port.LabelTable

namespace DSigMatcher.Port
open DSigMatcher.Base

inductive PortFailure
  | none | usage | input | io
  deriving DecidableEq

/-- What a refused port returns. -/
structure PortError where
  failure : PortFailure
  error : Text
  deriving DecidableEq

/-- One proposed label transfer, target function from reference function. -/
structure LabelProposal (ρ : Type) where
  sourceRow : Int
  category : Text
  line : Text
  description : Text
  ratioText : Text
  ratio : ρ
  referenceEa : Nat
  targetEa : Nat
  referenceName : Option Text
  targetName : Option Text
  selected : Bool := true
  deriving DecidableEq

def showName : Option Text → Text
  | some name => text "'" ++ name ++ text "'"
  | none => text "None"

def nameMatchesRow (name : Option Text) (row : LabelRow) : Bool :=
  name == row.name || name == row.mangled

/-- A proposal whose two addresses are functions of its two databases. -/
structure ResolvedProposal (ρ : Type) (reference target : LabelTable) where
  proposal : LabelProposal ρ
  referenceIndex : Fin reference.rows.length
  targetIndex : Fin target.rows.length

namespace ResolvedProposal
variable {ρ : Type} {reference target : LabelTable}

def referenceRow (r : ResolvedProposal ρ reference target) : LabelRow :=
  (reference.rows.get r.referenceIndex)

def targetRow (r : ResolvedProposal ρ reference target) : LabelRow :=
  (target.rows.get r.targetIndex)

end ResolvedProposal

section
variable {ρ : Type} (reference target : LabelTable)

/-- The results row a refusal names. -/
def proposalPlace (p : LabelProposal ρ) : Text :=
  text "results row " ++ decimalInt p.sourceRow ++ text " (" ++ p.category ++ text " " ++
    p.line ++ text ")"

/-- Every proposal must describe the two databases: both addresses exist and both names fit. -/
def resolveProposal (p : LabelProposal ρ) :
    Except PortError (ResolvedProposal ρ reference target) :=
  match reference.byEa p.referenceEa with
  | none => .error ⟨.input, proposalPlace p ++ text ": address " ++ hexEa p.referenceEa ++
      text " is not a function of the reference database"⟩
  | some i =>
    match target.byEa p.targetEa with
    | none => .error ⟨.input, proposalPlace p ++ text ": address2 " ++ hexEa p.targetEa ++
        text " is not a function of the target database"⟩
    | some j =>
      if !nameMatchesRow p.referenceName (reference.rows.get i) then
        .error ⟨.input, proposalPlace p ++ text ": name " ++ showName p.referenceName ++
          text " is not the reference function at " ++ hexEa p.referenceEa ++ text " (" ++
          showName (reference.rows.get i).name ++ text " / " ++ showName (reference.rows.get i).mangled ++
          text "); the results file belongs to another pair"⟩
      else if !nameMatchesRow p.targetName (target.rows.get j) then
        .error ⟨.input, proposalPlace p ++ text ": name2 " ++ showName p.targetName ++
          text " is not the target function at " ++ hexEa p.targetEa ++ text " (" ++
          showName (target.rows.get j).name ++ text " / " ++ showName (target.rows.get j).mangled ++
          text "); the results file belongs to another pair"⟩
      else .ok ⟨p, i, j⟩

/-- The checks run in stored order; the first refusal ends the port. -/
def resolveProposals :
    List (LabelProposal ρ) → Except PortError (List (ResolvedProposal ρ reference target))
  | [] => .ok []
  | p::ps =>
    match resolveProposal reference target p with
    | .error e => .error e
    | .ok r =>
      match resolveProposals ps with
      | .error e => .error e
      | .ok rs => .ok (r::rs)

theorem resolveProposal_proposal (p : LabelProposal ρ) (r : ResolvedProposal ρ reference target)
    (h : resolveProposal reference target p = .ok r) : r.proposal = p := by
  unfold resolveProposal at h
  split at h
  · cases h
  · split at h
    · cases h
    · split_ifs at h
      obtain rfl := Except.ok.inj h
      rfl

/-- An accepted list is the proposals themselves, in order. -/
theorem resolveProposals_proposals (ps : List (LabelProposal ρ))
    (rs : List (ResolvedProposal ρ reference target))
    (h : resolveProposals reference target ps = .ok rs) :
    rs.map ResolvedProposal.proposal = ps := by
  induction ps generalizing rs with
  | nil =>
    obtain rfl := Except.ok.inj h
    rfl
  | cons p ps ih =>
    unfold resolveProposals at h
    split at h
    · cases h
    next r hr =>
      split at h
      · cases h
      next rs' hrs =>
        obtain rfl := Except.ok.inj h
        rw [List.map_cons, resolveProposal_proposal reference target p r hr, ih rs' hrs]

end

end DSigMatcher.Port
