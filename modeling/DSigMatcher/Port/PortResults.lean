import DSigMatcher.Diff.FixedExact
import DSigMatcher.Framework.Fallible
import DSigMatcher.Framework.UnitInterval
import DSigMatcher.Pipeline.Session
import DSigMatcher.Port.Decision
import DSigMatcher.Port.IntReaders

namespace DSigMatcher.Port
open DSigMatcher.Base DSigMatcher.Framework DSigMatcher.Diff DSigMatcher.Pipeline
open Binary64 (InUnit Rounds grid)

/-- A row of `results`; every column is a text, and a name may be NULL. -/
structure ResultsRowText where
  type : Text
  line : Text
  address : Text
  name : Option Text
  address2 : Text
  name2 : Option Text
  ratio : Text
  nodes1 : Text
  nodes2 : Text
  description : Text
  deriving DecidableEq

/-- `FormatLine05`. -/
def formatLine05 (n : Nat) : Text := List.replicate (5-(decimal n).length) 48 ++ decimal n

/-- `FormatRatio7`; seven decimals are never refused. -/
def formatRatio7 (ratio : Binary64) : Text :=
  match formatFixedExact ratio 7 with
  | .ok t => t
  | .error _ => []

/-- `FormatEa`: what `FormatAddr08x` raises is raised at the caller's place. -/
def formatEa (ea : Option Text) (site : Text) : Except DiffError Text :=
  match ea with
  | none => .error (.wouldRaise site (text "TypeError: int() argument must be a string, a " ++
      text "bytes-like object or a real number, not 'NoneType'"))
  | some t =>
    match formatAddr08x t with
    | .ok shown => .ok shown
    | .error (.wouldRaise _ detail) => .error (.wouldRaise site detail)
    | .error e => .error e

def formatItem (type : Text) (n : Nat) (it : Item) : Except DiffError ResultsRowText := do
  let address ← formatEa it.ea1 (text "D:286 \"%08x\" % int(item.ea)")
  let address2 ← formatEa it.ea2 (text "D:288 \"%08x\" % int(item.ea2)")
  return {
    type := type
    line := formatLine05 n
    address := address
    name := it.name1
    address2 := address2
    name2 := it.name2
    ratio := formatRatio7 it.ratio
    nodes1 := decimalInt it.nodes1
    nodes2 := decimalInt it.nodes2
    description := it.desc }

/-- `FormatChooser`; the lines are counted from zero. -/
def formatChooser (type : Text) (items : List Item) : Except DiffError (List ResultsRowText) :=
  items.zipIdx.mapM fun entry => formatItem type entry.2 entry.1

/-- The choosers by the names of their categories, in stored order. -/
def categoryItems (final : FinalChoosers) : List (Text × List Item) :=
  [(text "best", final.best), (text "partial", final.partials),
    (text "unreliable", final.unreliable), (text "multimatch", final.multimatch)]

/-- `insert or ignore` under the unique index on the two addresses. -/
def insertOrIgnore (table : List ResultsRowText) (row : ResultsRowText) : List ResultsRowText :=
  if (row.address, row.address2) ∈ table.map fun r => (r.address, r.address2) then table
  else table ++ [row]

/-- A row of `unmatched`. -/
structure UnmatchedRowText where
  type : Text
  line : Text
  address : Text
  name : Option Text
  deriving DecidableEq

def formatUnmatchedRow (type : Text) (n : Nat) (row : UnmatchedRow) :
    Except DiffError UnmatchedRowText := do
  let address ← formatEa row.ea (text "D:280 \"%08x\" % int(item.ea)")
  return ⟨type,formatLine05 n,address,row.name⟩

/-- `FormatUnmatched`; a list that was never made writes nothing. -/
def formatUnmatched (type : Text) (rows : Option (List UnmatchedRow)) :
    Except DiffError (List UnmatchedRowText) :=
  (rows.getD []).zipIdx.mapM fun entry => formatUnmatchedRow type entry.2 entry.1

/-- The rows of `results`. -/
def resultsTable (final : FinalChoosers) : Except DiffError (List ResultsRowText) :=
  ((categoryItems final).mapM fun c => formatChooser c.1 c.2).map fun rows =>
    rows.flatten.foldl insertOrIgnore []

/-- The two tables `WriteDiaphoraResults` fills; every row is formatted before the file is touched. The
functions of the diff export are the primary ones. -/
def writtenTables (final : FinalResults) :
    Except DiffError (List ResultsRowText × List UnmatchedRowText) := do
  let results ← resultsTable final.choosers
  let primary ← formatUnmatched (text "primary") final.unmatchedPrimary
  let secondary ← formatUnmatched (text "secondary") final.unmatchedSecondary
  return (results,primary ++ secondary)

/-- A new table numbers its rows from one. -/
def rowids (table : List ResultsRowText) : List (ResultsRowText × Nat) := table.zipIdx 1

/-- The loop of `ParseRatio`: digits and one point, and whether there was a digit. -/
def ratioScan : Bool → Bool → Text → Bool
  | _, seenDigit, [] => seenDigit
  | seenDot, seenDigit, c::r =>
    if c = 46 then !seenDot && ratioScan true seenDigit r
    else isDigit c && ratioScan seenDot true r

/-- `ParseRatio`; what `strtod` gets is read as the nearest double. -/
def parseRatio (t : Text) : Option Binary64 :=
  if t.isEmpty || !ratioScan false false t then none else Json.pyFloatAscii t

def knownCategories : List Text :=
  [text "best", text "partial", text "unreliable", text "multimatch"]

/-- One round of `ReadResultsFile`. -/
def readResultsRow (stored : ResultsRowText × Nat) : Except Text (LabelProposal Binary64) :=
  let row := stored.1
  let place := text "results row " ++ decimal stored.2
  if row.type ∉ knownCategories then
    .error (place ++ text ": unknown type '" ++ row.type ++ text "'")
  else
    match parseHexAddress row.address, parseHexAddress row.address2 with
    | some ea, some ea2 =>
      match parseRatio row.ratio with
      | none => .error (place ++ text ": ratio '" ++ row.ratio ++ text "' is not \"%.7f\" text")
      | some ratio => .ok {
          sourceRow := stored.2
          category := row.type
          line := row.line
          description := row.description
          ratioText := row.ratio
          ratio := ratio
          referenceEa := ea
          targetEa := ea2
          referenceName := row.name
          targetName := row.name2 }
    | _, _ => .error (place ++ text ": address '" ++ row.address ++ text "' / address2 '" ++
        row.address2 ++ text "' is not \"%08x\" hex")

/-- `ReadResultsFile`, in the order of the rowids; the first refusal ends it. -/
def readResultsFile (rows : List (ResultsRowText × Nat)) :
    Except Text (List (LabelProposal Binary64)) :=
  rows.mapM readResultsRow

/-- The arguments that widen the selection. -/
structure PortFromResultsArgs where
  includeUnreliable : Bool := false
  includeMultimatch : Bool := false

/-- Best and partial rows are applied, the others on request. -/
def selectRow (args : PortFromResultsArgs) (p : LabelProposal Binary64) : LabelProposal Binary64 :=
  { p with selected := p.category == text "best" || p.category == text "partial" ||
      (p.category == text "unreliable" && args.includeUnreliable) ||
      (p.category == text "multimatch" && args.includeMultimatch) }

section
variable {t : Text} {n : Nat}

theorem isPySpace_lt {c : UInt8} (h : isPySpace c = true) : c < 128 := by
  simp only [isPySpace, Bool.or_eq_true, decide_eq_true_eq] at h
  rcases h with ((((rfl | rfl) | rfl) | rfl) | rfl) | rfl <;> decide

theorem isDigit_lt {c : UInt8} (h : isDigit c = true) : c < 128 := by
  have hrange := (isDigit_iff c).mp h
  simp only [UInt8.lt_iff_toNat_lt, UInt8.reduceToNat]
  omega

/-- What `PyIntParse` reads digits from has nothing else but underscores. -/
theorem pyDigits_lt {p : Bool} {b ds : Text} (h : pyDigits p b = some ds) : ∀ c ∈ b, c < 128 := by
  induction b generalizing p ds with
  | nil => exact fun _ hc => absurd hc List.not_mem_nil
  | cons c r ih =>
    rw [pyDigits] at h
    split_ifs at h with hdigit hunderscore
    · obtain ⟨ds', hds, -⟩ := Option.map_eq_some_iff.mp h
      exact List.forall_mem_cons.mpr ⟨isDigit_lt hdigit, ih hds⟩
    · have hc : c = 95 := by
        simp only [Bool.and_eq_true, decide_eq_true_eq] at hunderscore
        exact hunderscore.1.1
      exact List.forall_mem_cons.mpr ⟨hc ▸ by decide, ih h⟩

/-- The digits behind a decimal address that the database side takes. -/
theorem parseDecimalAddress_digits (h : parseDecimalAddress t = some n) :
    ∃ ds, (trimSpaces t).head? ≠ some 45 ∧ pyDigits false (dropSign (trimSpaces t)) = some ds ∧
      ds ≠ [] ∧ decimalValue ds = n ∧ n < 2^64 := by
  rw [parseDecimalAddress_eq] at h
  split_ifs at h with hhead
  obtain ⟨ds, hds, hread⟩ := Option.bind_eq_some_iff.mp h
  split_ifs at hread with hcond
  obtain ⟨hne, hlt⟩ := hcond
  obtain rfl := Option.some.inj hread
  exact ⟨ds, hhead, hds, by simpa using hne, rfl, hlt⟩

theorem isAscii_of_parsed (h : parseDecimalAddress t = some n) : isAscii t = true := by
  obtain ⟨ds, hhead, hds, -, -, -⟩ := parseDecimalAddress_digits h
  obtain ⟨p, s, ht, hp, hs⟩ := trimSpaces_spec t
  have hbody : ∀ c ∈ trimSpaces t, c < 128 := by
    rcases dropSign_cases (trimSpaces t) with ⟨hminus, -⟩ | ⟨-, hsplit⟩ | ⟨-, -, hsame⟩
    · exact absurd hminus hhead
    · rw [hsplit]
      exact List.forall_mem_cons.mpr ⟨by decide, pyDigits_lt hds⟩
    · rw [hsame] at hds
      exact pyDigits_lt hds
  rw [isAscii, List.all_eq_true]
  intro c hc
  rw [ht, List.mem_append, List.mem_append] at hc
  rw [decide_eq_true_eq]
  rcases hc with (hc | hc) | hc
  · exact isPySpace_lt (hp c hc)
  · exact hbody c hc
  · exact isPySpace_lt (hs c hc)

/-- What the database side takes is an integer for the passes of a diff. -/
theorem isPyInt_of_parsed (h : parseDecimalAddress t = some n) : IsPyInt (some t) := by
  obtain ⟨ds, -, hds, hne, -, -⟩ := parseDecimalAddress_digits h
  refine ⟨t, rfl, isAscii_of_parsed h, ?_⟩
  rw [pyIntAsciiAccepts_eq, hds, Option.any_some]
  simpa using hne

theorem toHex_padded (n : Nat) :
    List.replicate (8-(toHex n).length) 48 ++ toHex n = hexEa n := rfl

/-- Such an address is written with at least eight digits. -/
theorem formatAddr08x_parsed (h : parseDecimalAddress t = some n) :
    formatAddr08x t = .ok (hexEa n) := by
  obtain ⟨ds, hhead, hds, hne, hvalue, -⟩ := parseDecimalAddress_digits h
  have hempty : ds.isEmpty = false := by simpa using hne
  have hzero := decimalValue_dropZeros ds
  have hshown : decimalValue (if (ds.dropWhile (· = 48)).isEmpty then [48]
      else ds.dropWhile (· = 48)) = n := by
    rw [← hvalue, ← hzero]
    split_ifs with hnil
    · rw [List.isEmpty_iff.mp hnil]
      rfl
    · rfl
  have hparse : pyIntParse t = .ok (some (false,if (ds.dropWhile (· = 48)).isEmpty then [48]
      else ds.dropWhile (· = 48))) := by
    rw [pyIntParse, isAscii_of_parsed h, hds]
    simp only [Bool.not_true, Bool.false_eq_true, if_false, hempty, hhead, decide_false]
  rw [formatAddr08x, hparse]
  simp only [hshown, Bool.false_and, Bool.false_eq_true, if_false, toHex_padded]

theorem parseHexAddress_hexEa (h : parseDecimalAddress t = some n) :
    parseHexAddress (hexEa n) = some n := by
  obtain ⟨ds, -, -, -, -, hlt⟩ := parseDecimalAddress_digits h
  rw [← toHex_padded]
  exact parseHexAddress_padded n hlt

end

section
variable {v : Binary64}

theorem ratioScan_digits {ds : Text} (hds : ∀ c ∈ ds, isDigit c = true) (seenDot seenDigit : Bool)
    (r : Text) : ratioScan seenDot seenDigit (ds ++ r) =
      ratioScan seenDot (seenDigit || !ds.isEmpty) r := by
  induction ds generalizing seenDigit with
  | nil => rw [List.nil_append, List.isEmpty_nil, Bool.not_true, Bool.or_false]
  | cons d ds ih =>
    obtain ⟨hd, hrest⟩ := List.forall_mem_cons.mp hds
    have hpoint : d ≠ 46 := by
      rintro rfl
      cases hd
    rw [List.cons_append, ratioScan, if_neg hpoint, hd, Bool.true_and, ih hrest, Bool.true_or,
      List.isEmpty_cons, Bool.not_false, Bool.or_true]

/-- Digits, a point and digits again pass the scan. -/
theorem ratioScan_placePoint (k places : Nat) :
    ratioScan false false (placePoint (decimal k) places) = true := by
  have hdigit := padded_digit k places
  have hlength := padded_length places (decimal k)
  rw [placePoint_eq]
  generalize padded (decimal k) places = ds at hdigit hlength
  have hfront : (ds.take (ds.length-places)).isEmpty = false := by
    rw [List.isEmpty_eq_false_iff, ← List.length_pos_iff_ne_nil, List.length_take]
    omega
  have hback := @ratioScan_digits (ds.drop (ds.length-places))
    (fun c hc => hdigit c (List.mem_of_mem_drop hc)) true true []
  rw [List.append_nil, ratioScan, Bool.true_or] at hback
  rw [ratioScan_digits fun c hc => hdigit c (List.mem_of_mem_take hc), hfront, ratioScan, if_pos rfl]
  simpa using hback

/-- A ratio is read as the double nearest to its seven decimals, which are the nearest ones to it. -/
theorem parseRatio_formatRatio7 (hv : InUnit v) : ∃ (k : Nat) (x : Binary64),
    parseRatio (formatRatio7 v) = some x ∧
      RoundsTo (fun k : Nat => (k : ℚ)*(1/10^7)) (grid v.magnitude) k ∧ Rounds false (k/10^7) x := by
  obtain ⟨hnan, hinf⟩ := hv.finite.not_special
  obtain ⟨x, hread, hround⟩ := pyFloat_placePoint false (scaledInteger v 7).toNat 7
  have hformat : formatRatio7 v = placePoint (decimal (scaledInteger v 7).toNat) 7 := by
    have hdecimals : ¬ ((7 : Int) < 1 ∨ 9 < (7 : Int)) := by omega
    rw [formatRatio7, formatFixedExact, if_neg hdecimals, hnan, hinf, if_neg Bool.false_ne_true,
      if_neg Bool.false_ne_true, hv.sign]
    exact congrArg (placePoint · 7) (Json.BigUInt.toDecimal_eq _)
  have hscan := ratioScan_placePoint (scaledInteger v 7).toNat 7
  have hempty : (placePoint (decimal (scaledInteger v 7).toNat) 7).isEmpty = false := by
    rw [placePoint_eq, List.isEmpty_eq_false_iff]
    simp
  refine ⟨(scaledInteger v 7).toNat, x, ?_, scaledInteger_roundsTo v (by omega), hround⟩
  rw [hformat, parseRatio, hempty, hscan]
  rw [if_neg Bool.false_ne_true, Json.pyFloat] at hread
  split_ifs at hread
  exact Except.ok.inj hread

end

/-- The number an address stands for. -/
def eaOf (ea : Option Text) : Nat := (ea.bind parseDecimalAddress).getD 0

/-- An item of two addresses that the database side takes, with a ratio of the unit interval. -/
structure Formattable (it : Item) : Prop where
  main : ∃ a n, it.ea1 = some a ∧ parseDecimalAddress a = some n
  diff : ∃ a n, it.ea2 = some a ∧ parseDecimalAddress a = some n
  ratio : InUnit it.ratio

/-- The row of a formattable item. -/
def writtenRow (type : Text) (n : Nat) (it : Item) : ResultsRowText where
  type := type
  line := formatLine05 n
  address := hexEa (eaOf it.ea1)
  name := it.name1
  address2 := hexEa (eaOf it.ea2)
  name2 := it.name2
  ratio := formatRatio7 it.ratio
  nodes1 := decimalInt it.nodes1
  nodes2 := decimalInt it.nodes2
  description := it.desc

/-- The proposal of a row that is read without a refusal. -/
def proposalOf (stored : ResultsRowText × Nat) : LabelProposal Binary64 where
  sourceRow := stored.2
  category := stored.1.type
  line := stored.1.line
  description := stored.1.description
  ratioText := stored.1.ratio
  ratio := (parseRatio stored.1.ratio).getD .zero
  referenceEa := (parseHexAddress stored.1.address).getD 0
  targetEa := (parseHexAddress stored.1.address2).getD 0
  referenceName := stored.1.name
  targetName := stored.1.name2

/-- What a proposal keeps of the item whose row it was read from. -/
structure ReadBack (type : Text) (it : Item) (p : LabelProposal Binary64) : Prop where
  category : p.category = type
  description : p.description = it.desc
  referenceName : p.referenceName = it.name1
  targetName : p.targetName = it.name2
  referenceEa : it.ea1.bind parseDecimalAddress = some p.referenceEa
  targetEa : it.ea2.bind parseDecimalAddress = some p.targetEa
  ratio : ∃ k : Nat, RoundsTo (fun k : Nat => (k : ℚ)*(1/10^7)) (grid it.ratio.magnitude) k ∧
    Rounds false (k/10^7) p.ratio

section
variable {ea : Option Text} {type : Text} {it : Item} {final : FinalChoosers}

theorem eaOf_spec (h : ∃ a n, ea = some a ∧ parseDecimalAddress a = some n) :
    ea.bind parseDecimalAddress = some (eaOf ea) ∧
      (∀ site, formatEa ea site = .ok (hexEa (eaOf ea))) ∧
      parseHexAddress (hexEa (eaOf ea)) = some (eaOf ea) := by
  obtain ⟨a, n, rfl, hn⟩ := h
  have hea : eaOf (some a) = n := by rw [eaOf, Option.bind_some, hn, Option.getD_some]
  rw [hea]
  refine ⟨hn, fun site => ?_, parseHexAddress_hexEa hn⟩
  rw [formatEa, formatAddr08x_parsed hn]

theorem Formattable.formatItem (h : Formattable it) (n : Nat) :
    formatItem type n it = .ok (writtenRow type n it) := by
  rw [Port.formatItem, (eaOf_spec h.main).2.1, (eaOf_spec h.diff).2.1]
  rfl

/-- A stored row of a known category is read back. -/
theorem Formattable.readBack (h : Formattable it) (htype : type ∈ knownCategories) (n rowid : Nat) :
    readResultsRow (writtenRow type n it,rowid) = .ok (proposalOf (writtenRow type n it,rowid)) ∧
      ReadBack type it (proposalOf (writtenRow type n it,rowid)) := by
  obtain ⟨hmain, -, hhex⟩ := eaOf_spec h.main
  obtain ⟨hdiff, -, hhex2⟩ := eaOf_spec h.diff
  obtain ⟨k, x, hread, hplaces, hround⟩ := parseRatio_formatRatio7 h.ratio
  constructor
  · simp only [readResultsRow, proposalOf, writtenRow, hhex, hhex2, hread, htype, not_true_eq_false,
      if_false, Option.getD_some]
  · refine ⟨rfl, rfl, rfl, rfl, ?_, ?_, k, hplaces, ?_⟩
    · simp only [proposalOf, writtenRow, hhex, Option.getD_some, hmain]
    · simp only [proposalOf, writtenRow, hhex2, Option.getD_some, hdiff]
    · simp only [proposalOf, writtenRow, hread, Option.getD_some]
      exact hround

/-- Every row that is written, in front of the unique index. -/
def writtenRows (final : FinalChoosers) : List ResultsRowText :=
  ((categoryItems final).map fun c => c.2.zipIdx.map fun e => writtenRow c.1 e.2 e.1).flatten

theorem mem_writtenRows {row : ResultsRowText} :
    row ∈ writtenRows final ↔ ∃ c ∈ categoryItems final, ∃ e ∈ c.2.zipIdx,
      writtenRow c.1 e.2 e.1 = row := by
  simp only [writtenRows, List.mem_flatten, List.mem_map]
  constructor
  · rintro ⟨l, ⟨c, hc, rfl⟩, hrow⟩
    obtain ⟨e, he, rfl⟩ := List.mem_map.mp hrow
    exact ⟨c, hc, e, he, rfl⟩
  · rintro ⟨c, hc, e, he, rfl⟩
    exact ⟨_, ⟨c, hc, rfl⟩, List.mem_map_of_mem he⟩

theorem resultsTable_formattable (h : ∀ c ∈ categoryItems final, ∀ it ∈ c.2, Formattable it) :
    resultsTable final = .ok ((writtenRows final).foldl insertOrIgnore []) := by
  have hformat : (categoryItems final).mapM (fun c => formatChooser c.1 c.2) =
      .ok ((categoryItems final).map fun c => c.2.zipIdx.map fun e => writtenRow c.1 e.2 e.1) :=
    mapM_ok fun c hc => mapM_ok fun e he =>
      (h c hc e.1 (List.fst_mem_of_mem_zipIdx he)).formatItem e.2
  rw [resultsTable, hformat]
  rfl

/-- Unmatched functions of such addresses are written, each with its name. -/
theorem formatUnmatched_formattable {rows : Option (List UnmatchedRow)}
    (h : ∀ row ∈ rows.getD [], ∃ a n, row.ea = some a ∧ parseDecimalAddress a = some n) :
    ∃ written, formatUnmatched type rows = .ok written ∧
      written.map (·.name) = (rows.getD []).map (·.name) := by
  have hrow : ∀ e ∈ (rows.getD []).zipIdx, formatUnmatchedRow type e.2 e.1 =
      .ok ⟨type,formatLine05 e.2,hexEa (eaOf e.1.ea),e.1.name⟩ := by
    intro e he
    rw [formatUnmatchedRow, (eaOf_spec (h e.1 (List.fst_mem_of_mem_zipIdx he))).2.1]
    rfl
  refine ⟨_, mapM_ok hrow, ?_⟩
  conv_rhs => rw [← List.zipIdx_map_fst 0 (rows.getD []), List.map_map]
  rw [List.map_map]
  rfl

end

/-- The columns of the unique index. -/
def ResultsRowText.pair (row : ResultsRowText) : Text × Text := (row.address, row.address2)

/-- One row: the pairs stay distinct, nothing but the row comes in, and its pair is there. -/
theorem insertOrIgnore_step (table : List ResultsRowText) (row : ResultsRowText)
    (hnodup : (table.map ResultsRowText.pair).Nodup) :
    ((insertOrIgnore table row).map ResultsRowText.pair).Nodup ∧
      (∀ r ∈ insertOrIgnore table row, r ∈ table ∨ r = row) ∧
      ∀ r, r ∈ table ∨ r = row → r.pair ∈ (insertOrIgnore table row).map ResultsRowText.pair := by
  by_cases hold : row.pair ∈ table.map ResultsRowText.pair
  · have hinsert : insertOrIgnore table row = table := if_pos hold
    rw [hinsert]
    refine ⟨hnodup, fun r hr => .inl hr, fun r hr => ?_⟩
    rcases hr with hr | rfl
    · exact List.mem_map_of_mem hr
    · exact hold
  · have hinsert : insertOrIgnore table row = table ++ [row] := if_neg hold
    rw [hinsert]
    refine ⟨?_, fun r hr => ?_, fun r hr => List.mem_map_of_mem ?_⟩
    · rw [List.map_append, List.map_singleton]
      refine List.Nodup.append hnodup (List.nodup_singleton _) ?_
      rw [List.disjoint_singleton]
      exact hold
    · exact (List.mem_append.mp hr).imp_right List.mem_singleton.mp
    · exact List.mem_append.mpr (hr.imp_right List.mem_singleton.mpr)

/-- The index keeps one row of each pair, and loses no pair. -/
theorem insertOrIgnore_run (table rows : List ResultsRowText)
    (hnodup : (table.map ResultsRowText.pair).Nodup) :
    let kept := rows.foldl insertOrIgnore table
    (kept.map ResultsRowText.pair).Nodup ∧ (∀ row ∈ kept, row ∈ table ∨ row ∈ rows) ∧
      ∀ row, row ∈ table ∨ row ∈ rows → row.pair ∈ kept.map ResultsRowText.pair := by
  induction rows generalizing table with
  | nil =>
    refine ⟨hnodup, fun row hrow => .inl hrow, fun row hrow => ?_⟩
    exact List.mem_map_of_mem (hrow.resolve_right List.not_mem_nil)
  | cons row rows ih =>
    obtain ⟨hstep, hfrom, hinto⟩ := insertOrIgnore_step table row hnodup
    obtain ⟨hkept, hsub, hcover⟩ := ih (insertOrIgnore table row) hstep
    refine ⟨hkept, fun r hr => ?_, fun r hr => ?_⟩
    · rcases hsub r hr with hr | hr
      · rcases hfrom r hr with hr | rfl
        · exact .inl hr
        · exact .inr List.mem_cons_self
      · exact .inr (List.mem_cons_of_mem _ hr)
    · rw [List.mem_cons, ← or_assoc] at hr
      rcases hr with hr | hr
      · obtain ⟨r', hr', hpair⟩ := List.mem_map.mp (hinto r hr)
        exact hpair ▸ hcover r' (.inl hr')
      · exact hcover r (.inr hr)

/-- The address pair a proposal is about. -/
def eaPair (p : LabelProposal Binary64) : Nat × Nat := (p.referenceEa, p.targetEa)

/-- What comes back of the results that were written: every proposal is a row of its category, no two
are about one pair of addresses, and no pair is lost. -/
structure RoundTrip (final : FinalChoosers) (ps : List (LabelProposal Binary64)) : Prop where
  distinct : (ps.map eaPair).Nodup
  rows : ∀ p ∈ ps, ∃ c ∈ categoryItems final, ∃ it ∈ c.2, ReadBack c.1 it p
  pairs : ∀ c ∈ categoryItems final, ∀ it ∈ c.2, ∃ p ∈ ps,
    it.ea1.bind parseDecimalAddress = some p.referenceEa ∧
      it.ea2.bind parseDecimalAddress = some p.targetEa

/-- A results file that is written of two exports is read without a refusal. -/
theorem readResultsFile_written {final : FinalChoosers}
    (hitems : ∀ c ∈ categoryItems final, ∀ it ∈ c.2, Formattable it) :
    ∃ table ps, resultsTable final = .ok table ∧ readResultsFile (rowids table) = .ok ps ∧
      RoundTrip final ps := by
  obtain ⟨hnodup, hsub, hcover⟩ := insertOrIgnore_run [] (writtenRows final) List.nodup_nil
  refine ⟨_, (rowids ((writtenRows final).foldl insertOrIgnore [])).map proposalOf,
    resultsTable_formattable hitems, ?_⟩
  generalize (writtenRows final).foldl insertOrIgnore [] = kept at hnodup hsub hcover
  -- every kept row was written of an item, and is read back to it
  have hrows : ∀ stored ∈ rowids kept, ∃ c ∈ categoryItems final, ∃ it ∈ c.2,
      readResultsRow stored = .ok (proposalOf stored) ∧ ReadBack c.1 it (proposalOf stored) ∧
        stored.1.pair = (hexEa (eaOf it.ea1), hexEa (eaOf it.ea2)) := by
    rintro ⟨row, rowid⟩ hstored
    obtain ⟨c, hc, e, he, rfl⟩ := mem_writtenRows.mp
      ((hsub row (List.fst_mem_of_mem_zipIdx hstored)).resolve_left List.not_mem_nil)
    have hit := List.fst_mem_of_mem_zipIdx he
    obtain ⟨hread, hback⟩ := (hitems c hc e.1 hit).readBack
      (List.mem_map_of_mem (f := Prod.fst) hc) e.2 rowid
    exact ⟨c, hc, e.1, hit, hread, hback, rfl⟩
  have hpair : ∀ stored ∈ rowids kept, stored.1.pair =
      (hexEa (proposalOf stored).referenceEa, hexEa (proposalOf stored).targetEa) := by
    intro stored hstored
    obtain ⟨c, hc, it, hit, -, hback, hwritten⟩ := hrows stored hstored
    have hmain := (eaOf_spec (hitems c hc it hit).main).1.symm.trans hback.referenceEa
    have hdiff := (eaOf_spec (hitems c hc it hit).diff).1.symm.trans hback.targetEa
    rw [hwritten, Option.some.inj hmain, Option.some.inj hdiff]
  have hkept : (rowids kept).map (fun stored => stored.1.pair) = kept.map ResultsRowText.pair := by
    have hfst : (rowids kept).map Prod.fst = kept := List.zipIdx_map_fst ..
    conv_rhs => rw [← hfst, List.map_map]
    rfl
  refine ⟨mapM_ok fun stored hstored => ?_, ?_, fun p hp => ?_, fun c hc it hit => ?_⟩
  · obtain ⟨-, -, -, -, hread, -⟩ := hrows stored hstored
    exact hread
  · rw [← hkept, List.map_congr_left hpair] at hnodup
    rw [List.map_map]
    refine List.Nodup.of_map (fun e : Nat × Nat => (hexEa e.1, hexEa e.2)) ?_
    rw [List.map_map]
    exact hnodup
  · obtain ⟨stored, hstored, rfl⟩ := List.mem_map.mp hp
    obtain ⟨c, hc, it, hit, -, hback, -⟩ := hrows stored hstored
    exact ⟨c, hc, it, hit, hback⟩
  · obtain ⟨n, hn⟩ := List.mem_iff_getElem?.mp hit
    have hwritten := mem_writtenRows.mpr ⟨c, hc, (it,n), List.mem_zipIdx_iff_getElem?.mpr hn, rfl⟩
    have hcovered := hcover _ (.inr hwritten)
    rw [← hkept] at hcovered
    obtain ⟨stored, hstored, hsame⟩ := List.mem_map.mp hcovered
    refine ⟨proposalOf stored, List.mem_map_of_mem hstored, ?_⟩
    have hformattable := hitems c hc it hit
    obtain ⟨hmain, -, hhex⟩ := eaOf_spec hformattable.main
    obtain ⟨hdiff, -, hhex2⟩ := eaOf_spec hformattable.diff
    obtain ⟨haddress, haddress2⟩ := Prod.mk.inj hsame
    have hea : stored.1.address = hexEa (eaOf it.ea1) := haddress
    have hea2 : stored.1.address2 = hexEa (eaOf it.ea2) := haddress2
    simp only [proposalOf, hea, hea2, hhex, hhex2, Option.getD_some]
    exact ⟨hmain, hdiff⟩

theorem mem_categoryItems {final : FinalChoosers} {c : Text × List Item}
    (hc : c ∈ categoryItems final) :
    (∃ chooser, c.2 = final.items chooser) ∨ c = (text "multimatch",final.multimatch) := by
  simp only [categoryItems, List.mem_cons, List.not_mem_nil, or_false] at hc
  rcases hc with rfl | rfl | rfl | rfl
  · exact .inl ⟨.best, rfl⟩
  · exact .inl ⟨.partials, rfl⟩
  · exact .inl ⟨.unreliable, rfl⟩
  · exact .inr rfl

/-- Unless multimatches are selected too, a selected row is one of the three choosers. -/
theorem ReadBack.chosen {final : FinalChoosers} {c : Text × List Item} {it : Item}
    {p : LabelProposal Binary64} {args : PortFromResultsArgs} (h : ReadBack c.1 it p)
    (hc : c ∈ categoryItems final) (hit : it ∈ c.2) (hargs : args.includeMultimatch = false)
    (hselected : (selectRow args p).selected = true) : ∃ chooser, it ∈ final.items chooser := by
  rcases mem_categoryItems hc with ⟨chooser, hitems⟩ | rfl
  · exact ⟨chooser, hitems ▸ hit⟩
  · have hnot : (selectRow args p).selected = false := by
      rw [selectRow, h.category, hargs, Bool.and_false, Bool.or_false]
      rfl
    rw [hnot] at hselected
    cases hselected

/-- The ratios of a port are doubles. -/
instance : Zero Binary64 := ⟨.zero⟩

instance : One Binary64 := ⟨.one⟩

instance : Mul Binary64 := ⟨Binary64.mul⟩

section
variable {ρ : Type} {reference target : LabelTable}

/-- A proposal about two functions of its databases, under a name that each of them has. -/
structure DescribesTables (reference target : LabelTable) (p : LabelProposal ρ) : Prop where
  reference : ∃ row ∈ reference.rows, parseDecimalAddress row.address = some p.referenceEa ∧
    nameMatchesRow p.referenceName row = true
  target : ∃ row ∈ target.rows, parseDecimalAddress row.address = some p.targetEa ∧
    nameMatchesRow p.targetName row = true

/-- The row that a name was matched with is the one found at its address. -/
theorem byEa_described {table : LabelTable} {ea : Nat} {name : Option Text}
    (h : ∃ row ∈ table.rows, parseDecimalAddress row.address = some ea ∧
      nameMatchesRow name row = true) :
    ∃ i, table.byEa ea = some i ∧ nameMatchesRow name (table.rows.get i) = true := by
  obtain ⟨row, hrow, hea, hname⟩ := h
  obtain ⟨ea', i, hea', hi, hget⟩ := table.byEa_of_mem hrow
  obtain rfl := Option.some.inj (hea'.symm.trans hea)
  exact ⟨i, hi, hget ▸ hname⟩

theorem resolveProposal_described {p : LabelProposal ρ} (h : DescribesTables reference target p) :
    ∃ r, resolveProposal reference target p = .ok r := by
  obtain ⟨i, hi, hname⟩ := byEa_described h.reference
  obtain ⟨j, hj, hname2⟩ := byEa_described h.target
  exact ⟨⟨p,i,j⟩, by simp only [resolveProposal, hi, hj, hname, hname2, Bool.not_true,
    Bool.false_eq_true, if_false]⟩

/-- Proposals about the two databases are never refused. -/
theorem resolveProposals_described {ps : List (LabelProposal ρ)}
    (h : ∀ p ∈ ps, DescribesTables reference target p) :
    ∃ rs, resolveProposals reference target ps = .ok rs := by
  induction ps with
  | nil => exact ⟨[], rfl⟩
  | cons p ps ih =>
    obtain ⟨hp, hps⟩ := List.forall_mem_cons.mp h
    obtain ⟨r, hr⟩ := resolveProposal_described hp
    obtain ⟨rs, hrs⟩ := ih hps
    exact ⟨r::rs, by rw [resolveProposals, hr, hrs]⟩

theorem resolveProposal_target {p : LabelProposal ρ} {r : ResolvedProposal ρ reference target}
    (h : resolveProposal reference target p = .ok r) :
    target.byEa r.proposal.targetEa = some r.targetIndex := by
  unfold resolveProposal at h
  split at h
  · cases h
  split at h
  · cases h
  next j hj =>
    split_ifs at h
    obtain rfl := Except.ok.inj h
    exact hj

/-- A resolved proposal has the target row of its address. -/
theorem resolveProposals_target {ps : List (LabelProposal ρ)}
    {rs : List (ResolvedProposal ρ reference target)}
    (h : resolveProposals reference target ps = .ok rs) :
    ∀ r ∈ rs, parseDecimalAddress r.targetRow.address = some r.proposal.targetEa := by
  induction ps generalizing rs with
  | nil =>
    obtain rfl := Except.ok.inj h
    exact fun _ hr => absurd hr List.not_mem_nil
  | cons p ps ih =>
    unfold resolveProposals at h
    split at h
    · cases h
    next r hr =>
      split at h
      · cases h
      next rs' hrs =>
        obtain rfl := Except.ok.inj h
        exact List.forall_mem_cons.mpr ⟨target.byEa_address (resolveProposal_target hr), ih hrs⟩

section
variable [Zero ρ] [One ρ] [Mul ρ] [LT ρ] [DecidableLT ρ]
variable (options : PlanOptions ρ) (origins : List (NameOrigin ρ)) (appliedAt : Text)

/-- A conflict is a target row that an earlier selected proposal has claimed. -/
theorem planEntry_unclaimed {claimed : List (Fin target.rows.length)}
    {r : ResolvedProposal ρ reference target}
    (h : r.proposal.selected = true → r.targetIndex ∉ claimed) :
    (planEntry options origins appliedAt claimed r).decision.action ≠ .skippedConflict := by
  cases hs : r.proposal.selected with
  | false => simp [planEntry, hs, openDecision]
  | true =>
    have hfree := h hs
    cases hn : r.referenceRow.name with
    | none => simp [planEntry, hs, hfree, hn]
    | some name =>
      cases hp : isPortableSymbol name with
      | false => simp [planEntry, hs, hfree, hn, hp]
      | true =>
        simpa [planEntry, hs, hfree, hn, hp] using
          (nameEntry_action options origins appliedAt r name).2.2

/-- The target rows of the selected proposals. -/
def selectedTargets (rs : List (ResolvedProposal ρ reference target)) :
    List (Fin target.rows.length) :=
  (rs.filter (·.proposal.selected)).map (·.targetIndex)

/-- Where the selected proposals have different target rows, none is passed over for a conflict. -/
theorem decisionPass_unclaimed (claimed : List (Fin target.rows.length))
    (rs : List (ResolvedProposal ρ reference target)) (hnodup : (selectedTargets rs).Nodup)
    (hfree : ∀ i ∈ selectedTargets rs, i ∉ claimed) :
    ∀ e ∈ decisionPass options origins appliedAt claimed rs,
      e.decision.action ≠ .skippedConflict := by
  induction rs generalizing claimed with
  | nil => exact fun _ he => absurd he List.not_mem_nil
  | cons r rs ih =>
    rw [decisionPass]
    cases hs : r.proposal.selected with
    | false =>
      have hrest : selectedTargets (r::rs) = selectedTargets rs := by
        rw [selectedTargets, List.filter_cons_of_neg (by simp [hs]), selectedTargets]
      rw [hrest] at hnodup hfree
      refine List.forall_mem_cons.mpr ⟨?_, ih claimed hnodup hfree⟩
      exact planEntry_unclaimed options origins appliedAt fun h => absurd h (by simp [hs])
    | true =>
      have hfirst : selectedTargets (r::rs) = r.targetIndex::selectedTargets rs := by
        simp only [selectedTargets, List.filter_cons, hs, if_true, List.map_cons]
      rw [hfirst] at hnodup hfree
      obtain ⟨hnew, hnodup'⟩ := List.nodup_cons.mp hnodup
      obtain ⟨hunclaimed, hfree'⟩ := List.forall_mem_cons.mp hfree
      refine List.forall_mem_cons.mpr ⟨?_, ih (r.targetIndex::claimed) hnodup' fun i hi => ?_⟩
      · exact planEntry_unclaimed options origins appliedAt fun _ => hunclaimed
      · rw [List.mem_cons, not_or]
        refine ⟨?_, hfree' i hi⟩
        rintro rfl
        exact hnew hi

end

/-- One target row has one selected proposal, where its address decides the pair. -/
theorem selectedTargets_nodup {ps : List (LabelProposal Binary64)}
    {rs : List (ResolvedProposal Binary64 reference target)}
    (h : resolveProposals reference target ps = .ok rs) (hdistinct : (ps.map eaPair).Nodup)
    (hone : ∀ p ∈ ps, ∀ p' ∈ ps, p.selected = true → p'.selected = true →
      p.targetEa = p'.targetEa → p.referenceEa = p'.referenceEa) : (selectedTargets rs).Nodup := by
  have hps := resolveProposals_proposals reference target ps rs h
  rw [← hps, List.map_map] at hdistinct
  refine List.Nodup.map_on (fun r hr r' hr' hindex => ?_) (hdistinct.of_map.filter _)
  obtain ⟨hmem, hs⟩ := List.mem_filter.mp hr
  obtain ⟨hmem', hs'⟩ := List.mem_filter.mp hr'
  have htarget : r.proposal.targetEa = r'.proposal.targetEa := by
    have hea := resolveProposals_target h r hmem
    rw [ResolvedProposal.targetRow, hindex] at hea
    exact Option.some.inj (hea.symm.trans (resolveProposals_target h r' hmem'))
  have hreference := hone r.proposal (hps ▸ List.mem_map_of_mem hmem) r'.proposal
    (hps ▸ List.mem_map_of_mem hmem') hs hs' htarget
  refine List.inj_on_of_nodup_map hdistinct hmem hmem' ?_
  exact Prod.ext hreference htarget

end

end DSigMatcher.Port
