import DSigMatcher.Port.Proposal

namespace DSigMatcher.Port
open DSigMatcher.Base

/-- One row of `dsig_name_origin`. -/
structure NameOrigin (ρ : Type) where
  address : Text
  name : Text
  originAddress : Text
  originName : Text
  hops : Int
  cumulativeRatio : ρ
  heuristic : Text
  firstLabelledAt : Text
  deriving DecidableEq

inductive LabelAction
  | notSelected | applied | confirmed | skippedNotPortable | skippedConflict | skippedHops
  | skippedRatio | skippedExisting | skippedDuplicateName
  deriving DecidableEq

structure LabelDecision (ρ : Type) where
  action : LabelAction
  targetAddress : Text
  referenceAddress : Text
  referenceName : Option Text
  referenceMangled : Option Text
  targetNameBefore : Option Text
  targetMangledBefore : Option Text
  writtenMangled : Text
  confidence : ρ
  hops : Int
  deriving DecidableEq

/-- The port options the planning passes read. -/
structure PlanOptions (ρ : Type) where
  overwriteExistingNames : Bool := false
  overwriteStripped : Bool := false
  minCumulativeRatio : ρ
  maxHops : Int := -1

/-- A decision with the per-proposal arrays kept beside it. -/
structure PlanEntry (ρ : Type) (reference target : LabelTable) where
  resolved : ResolvedProposal ρ reference target
  decision : LabelDecision ρ
  originAddress : Text
  originName : Text
  firstLabelledAt : Text

section
variable {ρ : Type} [LT ρ] [DecidableLT ρ]

/-- The hop cap, then the ratio floor, then an existing real name. -/
def limitAction (options : PlanOptions ρ) (description : Text) (targetHasRealName : Bool)
    (hops : Int) (confidence : ρ) : LabelAction :=
  if 0 ≤ options.maxHops ∧ options.maxHops < hops then .skippedHops
  else if confidence < options.minCumulativeRatio then .skippedRatio
  else if targetHasRealName &&
      !(options.overwriteExistingNames &&
        (!(description == strippedDescription) || options.overwriteStripped)) then
    .skippedExisting
  else .applied

theorem limitAction_cases (options : PlanOptions ρ) (description : Text) (real : Bool)
    (hops : Int) (confidence : ρ) :
    limitAction options description real hops confidence = .skippedHops ∨
    limitAction options description real hops confidence = .skippedRatio ∨
    limitAction options description real hops confidence = .skippedExisting ∨
    limitAction options description real hops confidence = .applied ∧
      (0 ≤ options.maxHops → hops ≤ options.maxHops) ∧
      ¬ confidence < options.minCumulativeRatio ∧
      (real = true → options.overwriteExistingNames = true ∧
        (description = strippedDescription → options.overwriteStripped = true)) := by
  unfold limitAction
  split_ifs with hh hr he
  · exact .inl rfl
  · exact .inr (.inl rfl)
  · exact .inr (.inr (.inl rfl))
  · refine .inr (.inr (.inr ⟨rfl, ?_, hr, ?_⟩))
    · intro h0
      by_contra hlt
      exact hh ⟨h0, by omega⟩
    · intro hreal
      subst hreal
      simpa [imp_iff_not_or, or_comm] using he

end

section
variable {ρ : Type} [Zero ρ] [One ρ] [Mul ρ] [LT ρ] [DecidableLT ρ]
variable {reference target : LabelTable}

def isPortableName : Option Text → Bool
  | some name => isPortableSymbol name
  | none => false

/-- The decision before any test: both rows' labels, nothing written. -/
def openDecision (r : ResolvedProposal ρ reference target) : LabelDecision ρ where
  action := .notSelected
  targetAddress := r.targetRow.address
  referenceAddress := r.referenceRow.address
  referenceName := r.referenceRow.name
  referenceMangled := r.referenceRow.mangled
  targetNameBefore := r.targetRow.name
  targetMangledBefore := r.targetRow.mangled
  writtenMangled := []
  confidence := 0
  hops := 0

/-- History is inherited only while the reference still carries the name it recorded. -/
def inheritedOrigin (origins : List (NameOrigin ρ)) (address name : Text) :
    Option (NameOrigin ρ) :=
  (origins.find? (·.address == address)).filter (·.name == name)

def writtenMangledOf (referenceMangled : Option Text) (referenceName : Text) : Text :=
  match referenceMangled with
  | some mangled => if isPortableSymbol mangled then mangled else referenceName
  | none => referenceName

def nextHops : Option (NameOrigin ρ) → Int
  | some origin => origin.hops+1
  | none => 1

def previousRatio : Option (NameOrigin ρ) → ρ
  | some origin => origin.cumulativeRatio
  | none => 1

/-- A portable reference name: its history, then confirmation, limits or application. -/
def nameEntry (options : PlanOptions ρ) (origins : List (NameOrigin ρ)) (appliedAt : Text)
    (r : ResolvedProposal ρ reference target) (referenceName : Text) :
    PlanEntry ρ reference target :=
  let targetHasRealName := isPortableName r.targetRow.name
  if targetHasRealName && r.targetRow.name == some referenceName then
    ⟨r, { openDecision r with action := .confirmed }, [], [], []⟩
  else
    let inherited := inheritedOrigin origins r.referenceRow.address referenceName
    let hops := nextHops inherited
    let confidence := previousRatio inherited*r.proposal.ratio
    let action := limitAction options r.proposal.description targetHasRealName hops confidence
    { resolved := r
      decision := { openDecision r with
        action := action
        writtenMangled :=
          if action = .applied then writtenMangledOf r.referenceRow.mangled referenceName else []
        confidence := confidence
        hops := hops }
      originAddress := match inherited with
        | some origin => origin.originAddress
        | none => r.referenceRow.address
      originName := match inherited with
        | some origin => origin.originName
        | none => referenceName
      firstLabelledAt := match inherited with
        | some origin => if origin.firstLabelledAt.isEmpty then appliedAt else origin.firstLabelledAt
        | none => appliedAt }

/-- One decision, given the target rows claimed by earlier selected proposals. -/
def planEntry (options : PlanOptions ρ) (origins : List (NameOrigin ρ)) (appliedAt : Text)
    (claimed : List (Fin target.rows.length)) (r : ResolvedProposal ρ reference target) :
    PlanEntry ρ reference target :=
  if !r.proposal.selected then ⟨r, openDecision r, [], [], []⟩
  else if r.targetIndex ∈ claimed then
    ⟨r, { openDecision r with action := .skippedConflict }, [], [], []⟩
  else
    match r.referenceRow.name with
    | none => ⟨r, { openDecision r with action := .skippedNotPortable }, [], [], []⟩
    | some referenceName =>
      if !isPortableSymbol referenceName then
        ⟨r, { openDecision r with action := .skippedNotPortable }, [], [], []⟩
      else nameEntry options origins appliedAt r referenceName

/-- Pass 1: one decision per proposal; the first selected one claims its target row. -/
def decisionPass (options : PlanOptions ρ) (origins : List (NameOrigin ρ)) (appliedAt : Text)
    (claimed : List (Fin target.rows.length)) :
    List (ResolvedProposal ρ reference target) → List (PlanEntry ρ reference target)
  | [] => []
  | r::rs =>
    planEntry options origins appliedAt claimed r ::
      decisionPass options origins appliedAt
        (if r.proposal.selected then r.targetIndex::claimed else claimed) rs

@[simp] theorem nameEntry_resolved (options : PlanOptions ρ) (origins : List (NameOrigin ρ))
    (appliedAt : Text) (r : ResolvedProposal ρ reference target) (name : Text) :
    (nameEntry options origins appliedAt r name).resolved = r := by
  unfold nameEntry
  dsimp only
  split_ifs <;> rfl

@[simp] theorem nameEntry_targetAddress (options : PlanOptions ρ)
    (origins : List (NameOrigin ρ)) (appliedAt : Text) (r : ResolvedProposal ρ reference target)
    (name : Text) :
    (nameEntry options origins appliedAt r name).decision.targetAddress =
      r.targetRow.address := by
  unfold nameEntry
  dsimp only
  split_ifs <;> rfl

@[simp] theorem planEntry_resolved (options : PlanOptions ρ) (origins : List (NameOrigin ρ))
    (appliedAt : Text) (claimed : List (Fin target.rows.length))
    (r : ResolvedProposal ρ reference target) :
    (planEntry options origins appliedAt claimed r).resolved = r := by
  unfold planEntry
  split_ifs
  · rfl
  · rfl
  · split
    · rfl
    · split_ifs
      · rfl
      · exact nameEntry_resolved ..

@[simp] theorem decisionPass_resolved (options : PlanOptions ρ) (origins : List (NameOrigin ρ))
    (appliedAt : Text) (claimed : List (Fin target.rows.length))
    (rs : List (ResolvedProposal ρ reference target)) :
    (decisionPass options origins appliedAt claimed rs).map PlanEntry.resolved = rs := by
  induction rs generalizing claimed with
  | nil => rfl
  | cons r rs ih => simp [decisionPass, ih]

/-- What an applied decision of pass 1 was made from. -/
structure AppliedFacts (options : PlanOptions ρ) (origins : List (NameOrigin ρ))
    (appliedAt : Text) (r : ResolvedProposal ρ reference target)
    (e : PlanEntry ρ reference target) (name : Text) : Prop where
  selected : r.proposal.selected = true
  name_eq : r.referenceRow.name = some name
  portable : isPortableSymbol name = true
  entry_eq : e = nameEntry options origins appliedAt r name
  hopCap : 0 ≤ options.maxHops → e.decision.hops ≤ options.maxHops
  ratioFloor : ¬ e.decision.confidence < options.minCumulativeRatio
  overwrite : isPortableName r.targetRow.name = true → options.overwriteExistingNames = true ∧
    (r.proposal.description = strippedDescription → options.overwriteStripped = true)
  referenceName : e.decision.referenceName = some name
  writtenMangled : e.decision.writtenMangled = writtenMangledOf r.referenceRow.mangled name

theorem writtenMangledOf_portable (mangled : Option Text) (name : Text)
    (hn : isPortableSymbol name = true) :
    isPortableSymbol (writtenMangledOf mangled name) = true := by
  unfold writtenMangledOf
  split
  · split_ifs with hm
    · exact hm
    · exact hn
  · exact hn

private theorem nameEntry_applied (options : PlanOptions ρ) (origins : List (NameOrigin ρ))
    (appliedAt : Text) (r : ResolvedProposal ρ reference target) (name : Text)
    (hs : r.proposal.selected = true) (hn : r.referenceRow.name = some name)
    (hp : isPortableSymbol name = true)
    (h : (nameEntry options origins appliedAt r name).decision.action = .applied) :
    AppliedFacts options origins appliedAt r (nameEntry options origins appliedAt r name) name := by
  by_cases hc : (isPortableName r.targetRow.name && r.targetRow.name == some name) = true
  · simp [nameEntry, hc] at h
  have hl := limitAction_cases options r.proposal.description (isPortableName r.targetRow.name)
    (nextHops (inheritedOrigin origins r.referenceRow.address name))
    (previousRatio (inheritedOrigin origins r.referenceRow.address name)*r.proposal.ratio)
  simp only [nameEntry, if_neg hc] at h
  rw [h] at hl
  obtain ⟨-, hhops, hratio, hover⟩ : _ ∧ _ := by simpa only [reduceCtorEq, false_or] using hl
  refine ⟨hs, hn, hp, rfl, ?_, ?_, hover, ?_, ?_⟩ <;> simp only [nameEntry, if_neg hc]
  · exact hhops
  · exact hratio
  · exact hn
  · rw [if_pos h]

/-- Applied is reached on one path only: selected, unclaimed, portable and within the limits. -/
theorem planEntry_applied (options : PlanOptions ρ) (origins : List (NameOrigin ρ))
    (appliedAt : Text) (claimed : List (Fin target.rows.length))
    (r : ResolvedProposal ρ reference target)
    (h : (planEntry options origins appliedAt claimed r).decision.action = .applied) :
    r.targetIndex ∉ claimed ∧ ∃ name, AppliedFacts options origins appliedAt r
      (planEntry options origins appliedAt claimed r) name := by
  have hs : r.proposal.selected = true := by
    cases hs : r.proposal.selected with
    | true => rfl
    | false => simp [planEntry, hs, openDecision] at h
  have hc : r.targetIndex ∉ claimed := by
    intro hc
    simp [planEntry, hs, hc] at h
  refine ⟨hc, ?_⟩
  cases hn : r.referenceRow.name with
  | none => simp [planEntry, hs, hc, hn] at h
  | some name =>
    have hp : isPortableSymbol name = true := by
      cases hp : isPortableSymbol name with
      | true => rfl
      | false => simp [planEntry, hs, hc, hn, hp] at h
    have he : planEntry options origins appliedAt claimed r =
        nameEntry options origins appliedAt r name := by simp [planEntry, hs, hc, hn, hp]
    rw [he] at h ⊢
    exact ⟨name, nameEntry_applied options origins appliedAt r name hs hn hp h⟩

/-- Behind a claim there is neither a selection nor a conflict to decide on. -/
theorem nameEntry_action (options : PlanOptions ρ) (origins : List (NameOrigin ρ))
    (appliedAt : Text) (r : ResolvedProposal ρ reference target) (name : Text) :
    (nameEntry options origins appliedAt r name).decision.action ≠ .skippedDuplicateName ∧
    (nameEntry options origins appliedAt r name).decision.action ≠ .notSelected ∧
    (nameEntry options origins appliedAt r name).decision.action ≠ .skippedConflict := by
  by_cases hc : (isPortableName r.targetRow.name && r.targetRow.name == some name) = true
  · simp [nameEntry, hc]
  simp only [nameEntry, if_neg hc]
  rcases limitAction_cases options r.proposal.description (isPortableName r.targetRow.name)
    (nextHops (inheritedOrigin origins r.referenceRow.address name))
    (previousRatio (inheritedOrigin origins r.referenceRow.address name)*r.proposal.ratio)
    with h | h | h | ⟨h, -⟩ <;> simp [h]

/-- Pass 1 never reports a duplicate, and passes over exactly the unselected proposals. -/
theorem planEntry_action (options : PlanOptions ρ) (origins : List (NameOrigin ρ))
    (appliedAt : Text) (claimed : List (Fin target.rows.length))
    (r : ResolvedProposal ρ reference target) :
    (planEntry options origins appliedAt claimed r).decision.action ≠ .skippedDuplicateName ∧
    ((planEntry options origins appliedAt claimed r).decision.action = .notSelected ↔
      r.proposal.selected = false) := by
  cases hs : r.proposal.selected with
  | false => simp [planEntry, hs, openDecision]
  | true =>
    by_cases hc : r.targetIndex ∈ claimed
    · simp [planEntry, hs, hc]
    cases hn : r.referenceRow.name with
    | none => simp [planEntry, hs, hc, hn]
    | some name =>
      cases hp : isPortableSymbol name with
      | true =>
        obtain ⟨hduplicate, hselected, -⟩ := nameEntry_action options origins appliedAt r name
        simpa [planEntry, hs, hc, hn, hp] using And.intro hduplicate hselected
      | false => simp [planEntry, hs, hc, hn, hp]

end

end DSigMatcher.Port
