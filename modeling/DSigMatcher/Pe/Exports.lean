import DSigMatcher.Framework.Buckets
import DSigMatcher.Pe.ParseSafe

namespace DSigMatcher.Pe
open DSigMatcher.Base DSigMatcher.Framework

namespace ExportTables

/-- What the three tables say. -/
def nameRva (t : ExportTables) (b : Text) (j : Nat) : UInt32 := (u32 b (t.namesOffset+j*4)).getD 0

def slot (t : ExportTables) (b : Text) (j : Nat) : UInt16 := (u16 b (t.ordinalsOffset+j*2)).getD 0

def functionRva (t : ExportTables) (b : Text) (i : Nat) : UInt32 :=
  (u32 b (t.functionsOffset+i*4)).getD 0

end ExportTables

/-- An export directory whose tables and strings can all be read. -/
structure ExportsReadable (image : PeImage) (directory : PeDataDirectory) (header : ExportHeader)
    (tables : ExportTables) : Prop where
  declared : image.headers.directory peDirectoryEntryExport = some directory
  nonzero : directory.rva ≠ 0 ∧ directory.size ≠ 0
  fields : ∃ headerOffset,
    image.mapRvaRange directory.rva exportDirectoryHeaderSize = some headerOffset ∧
    (parseExportHeader image.buffer headerOffset).result = .ok header
  limit : header.numberOfFunctions ≤ maximumExportEntries ∧ header.numberOfNames ≤ maximumExportEntries
  filled : header.numberOfFunctions ≠ 0 ∨ header.numberOfNames ≠ 0
  nonnull : header.functionsRva ≠ 0 ∧ header.namesRva ≠ 0 ∧ header.ordinalsRva ≠ 0
  functions : image.mapRvaRange header.functionsRva (header.numberOfFunctions.toNat*4) =
    some tables.functionsOffset
  names : image.mapRvaRange header.namesRva (header.numberOfNames.toNat*4) = some tables.namesOffset
  ordinals : image.mapRvaRange header.ordinalsRva (header.numberOfNames.toNat*2) =
    some tables.ordinalsOffset
  slots : ∀ j < header.numberOfNames.toNat,
    (tables.slot image.buffer j).toNat < header.numberOfFunctions.toNat
  dllName : header.nameRva ≠ 0 → (image.readMappedString header.nameRva).isSome
  nameStrings : ∀ j < header.numberOfNames.toNat, tables.nameRva image.buffer j ≠ 0 →
    (image.readMappedString (tables.nameRva image.buffer j)).isSome
  forwarders : ∀ i < header.numberOfFunctions.toNat,
    directory.rva.toNat ≤ (tables.functionRva image.buffer i).toNat →
    (tables.functionRva image.buffer i).toNat < exportDirectoryEnd directory →
    (image.readMappedString (tables.functionRva image.buffer i)).isSome

/-- The debug directory is absent or empty, or its entries are in the file. -/
def DebugAccepted (image : PeImage) : Prop :=
  match image.headers.directory peDirectoryEntryDebug with
  | none => True
  | some directory =>
    (directory.rva = 0 ∧ directory.size = 0) ∨
      (directory.rva ≠ 0 ∧ directory.size ≠ 0 ∧
        (directory.size.toNat/debugDirectoryEntrySize = 0 ∨
          (directory.size.toNat/debugDirectoryEntrySize ≤ maximumDebugEntries ∧
            (image.mapRvaRange directory.rva
              (directory.size.toNat/debugDirectoryEntrySize*debugDirectoryEntrySize)).isSome)))

namespace PeImage

/-- An entry with its forwarder, where its rva lies in the directory. -/
def forwarded (image : PeImage) (directory : PeDataDirectory) (entry : PeExport) : PeExport :=
  if directory.rva.toNat ≤ entry.rva.toNat ∧ entry.rva.toNat < exportDirectoryEnd directory then
    { entry with
      isForwarder := true
      forwarderName := (image.readMappedString entry.rva).getD {} }
  else entry

/-- The entry of the j-th name, with the slot it refers to. -/
def namedExport (image : PeImage) (directory : PeDataDirectory) (header : ExportHeader)
    (tables : ExportTables) (j : Nat) : PeExport :=
  let slot := (tables.slot image.buffer j).toUInt32
  let nameRva := tables.nameRva image.buffer j
  image.forwarded directory
    { name := if nameRva ≠ 0 then (image.readMappedString nameRva).getD {} else {}
      isNamed := nameRva ≠ 0
      ordinal := header.ordinalBase+slot
      addressIndex := slot
      rva := tables.functionRva image.buffer (tables.slot image.buffer j).toNat }

/-- The entry of a slot without a name. -/
def unnamedExport (image : PeImage) (directory : PeDataDirectory) (header : ExportHeader)
    (tables : ExportTables) (i : Nat) : PeExport :=
  image.forwarded directory
    { ordinal := header.ordinalBase+UInt32.ofNat i
      addressIndex := UInt32.ofNat i
      rva := tables.functionRva image.buffer i }

/-- The exports of a slot: one for each name that refers to it; or one without a name, where its rva
is not zero. -/
def slotExports (image : PeImage) (directory : PeDataDirectory) (header : ExportHeader)
    (tables : ExportTables) (i : Nat) : List PeExport :=
  let names := (List.range header.numberOfNames.toNat).filter fun j =>
    (tables.slot image.buffer j).toNat = i
  if names = [] then
    if tables.functionRva image.buffer i = 0 then []
    else [image.unnamedExport directory header tables i]
  else names.map (image.namedExport directory header tables)

end PeImage

section
variable {image : PeImage} {directory : PeDataDirectory} {header : ExportHeader}
  {tables : ExportTables}

theorem parseTableEntry_gives {α : Type} {read : Text → Nat → Option α} {b : Text}
    {offset index width : Nat} {error : Text} {a : α} (h : read b (offset+index*width) = some a) :
    (parseTableEntry read b offset index width error).Gives (· = a) :=
  .bind sum_gives fun _ heq => tested_gives (heq ▸ h)

theorem u32_some {b : Text} {offset : Nat} (h : offset+4 ≤ b.length) :
    u32 b offset = some ((u32 b offset).getD 0) := by
  rw [u32, if_pos (fits_iff.mpr h), Option.getD_some]

theorem u16_some {b : Text} {offset : Nat} (h : offset+2 ≤ b.length) :
    u16 b offset = some ((u16 b offset).getD 0) := by
  rw [u16, if_pos (fits_iff.mpr h), Option.getD_some]

theorem parseMappedString_gives (image : PeImage) {rva : UInt32} {error : Text}
    (h : (image.readMappedString rva).isSome) :
    (parseMappedString image rva error).Gives (· = (image.readMappedString rva).getD {}) := by
  obtain ⟨v, hv⟩ := Option.isSome_iff_exists.mp h
  rw [hv, Option.getD_some]
  exact .bind (tested_gives hv) fun a ha => ha ▸ keep_gives

/-- The image while its export tables are read. -/
def withExports (image : PeImage) (directory : PeDataDirectory) (header : ExportHeader) (v : View) :
    PeImage :=
  { image with
    exportDirectory :=
      { (withExportHeader image directory header (exportDirectoryEnd directory)).exportDirectory with
        dllName := v } }

theorem isInsideExportDirectory_withExports (hnonzero : directory.rva ≠ 0) {v : View} {rva : UInt32} :
    (withExports image directory header v).isInsideExportDirectory rva = true ↔
      directory.rva.toNat ≤ rva.toNat ∧ rva.toNat < exportDirectoryEnd directory := by
  have hend : exportDirectoryEnd directory ≠ 0 := by
    rw [exportDirectoryEnd, exportDirectoryHeaderSize]
    split_ifs <;> omega
  show (if directory.rva = 0 ∨ exportDirectoryEnd directory = 0 then false
    else directory.rva ≤ rva && rva.toNat < exportDirectoryEnd directory) = true ↔ _
  rw [if_neg (not_or.mpr ⟨hnonzero, hend⟩), Bool.and_eq_true, decide_eq_true_iff,
    decide_eq_true_iff, UInt32.le_iff_toNat_le]

theorem parseForwarder_gives (hnonzero : directory.rva ≠ 0) {v : View} {entry : PeExport}
    (h : directory.rva.toNat ≤ entry.rva.toNat → entry.rva.toNat < exportDirectoryEnd directory →
      (image.readMappedString entry.rva).isSome) :
    (parseForwarder (withExports image directory header v) entry).Gives
      (· = image.forwarded directory entry) := by
  rw [parseForwarder, PeImage.forwarded]
  by_cases hinside : directory.rva.toNat ≤ entry.rva.toNat ∧
      entry.rva.toNat < exportDirectoryEnd directory
  · rw [if_pos ((isInsideExportDirectory_withExports hnonzero).mpr hinside), if_pos hinside]
    refine .bind (parseMappedString_gives (withExports image directory header v)
      (h hinside.1 hinside.2)) fun name hname => .pure ?_
    rw [hname]
    rfl
  · rw [if_neg (mt (isInsideExportDirectory_withExports hnonzero).mp hinside), if_neg hinside]
    exact .pure rfl

theorem parseExportName_gives {v : View} {nameRva : UInt32} {entry : PeExport}
    (hunnamed : entry.name = {} ∧ entry.isNamed = false)
    (h : nameRva ≠ 0 → (image.readMappedString nameRva).isSome) :
    (parseExportName (withExports image directory header v) nameRva entry).Gives
      (· = { entry with
        name := if nameRva ≠ 0 then (image.readMappedString nameRva).getD {} else {}
        isNamed := nameRva ≠ 0 }) := by
  rw [parseExportName]
  by_cases hzero : nameRva ≠ 0
  · rw [if_pos hzero, if_pos hzero, decide_eq_true hzero]
    refine .bind (parseMappedString_gives (withExports image directory header v) (h hzero))
      fun name hname => .pure ?_
    rw [hname]
    rfl
  · rw [if_neg hzero, if_neg hzero, decide_eq_false hzero, ← hunnamed.1, ← hunnamed.2]
    exact .pure rfl

/-- A round of the names. -/
def namedRound (image : PeImage) (directory : PeDataDirectory) (header : ExportHeader)
    (tables : ExportTables) (scan : ExportScan) (j : Nat) : ExportScan :=
  ⟨scan.referenced.set (tables.slot image.buffer j).toNat true,
    scan.exports ++ [image.namedExport directory header tables j]⟩

/-- A round of the slots. -/
def slotRound (image : PeImage) (directory : PeDataDirectory) (header : ExportHeader)
    (tables : ExportTables) (scan : ExportScan) (i : Nat) : ExportScan :=
  if scan.referenced.getD i false then scan
  else if tables.functionRva image.buffer i = 0 then scan
  else ⟨scan.referenced, scan.exports ++ [image.unnamedExport directory header tables i]⟩

theorem parseNamedExport_gives (h : ExportsReadable image directory header tables) {v : View}
    {scan : ExportScan} {j : Nat} (hj : j < header.numberOfNames.toNat) :
    (parseNamedExport (withExports image directory header v) header tables scan j).Gives
      (· = namedRound image directory header tables scan j) := by
  have hnames := (mapRvaRange_fits h.names).2
  have hordinals := (mapRvaRange_fits h.ordinals).2
  have hfunctions := (mapRvaRange_fits h.functions).2
  have hslot := h.slots j hj
  refine .bind (parseTableEntry_gives (u32_some (b := image.buffer) (by omega)))
    fun entryNameRva hname => ?_
  refine .bind (parseTableEntry_gives (u16_some (b := image.buffer) (by omega)))
    fun addressIndex haddress => ?_
  change addressIndex = tables.slot image.buffer j at haddress
  rw [haddress]
  refine .bind (require_gives hslot) fun _ _ => ?_
  refine .bind (parseTableEntry_gives (u32_some (b := image.buffer) (by omega)))
    fun functionRva hfunction => ?_
  rw [hname, hfunction]
  refine .bind (parseExportName_gives ⟨rfl, rfl⟩ (h.nameStrings j hj)) fun entry hentry => ?_
  rw [hentry]
  refine .bind (parseForwarder_gives h.nonzero.1 (h.forwarders _ hslot)) fun entry hentry => ?_
  rw [hentry]
  exact .pure rfl

theorem parseUnnamedExport_gives (h : ExportsReadable image directory header tables) {v : View}
    {scan : ExportScan} {i : Nat} (hi : i < header.numberOfFunctions.toNat) :
    (parseUnnamedExport (withExports image directory header v) header tables scan i).Gives
      (· = slotRound image directory header tables scan i) := by
  have hfunctions := (mapRvaRange_fits h.functions).2
  rw [parseUnnamedExport, slotRound]
  by_cases href : scan.referenced.getD i false = true
  · rw [if_pos href, if_pos href]
    exact .pure rfl
  · rw [if_neg href, if_neg href]
    refine .bind (parseTableEntry_gives (u32_some (b := image.buffer) (by omega)))
      fun functionRva hfunction => ?_
    change functionRva = tables.functionRva image.buffer i at hfunction
    rw [hfunction]
    by_cases hzero : tables.functionRva image.buffer i = 0
    · rw [if_pos hzero, if_pos hzero]
      exact .pure rfl
    · rw [if_neg hzero, if_neg hzero]
      refine .bind (parseForwarder_gives h.nonzero.1 (h.forwarders i hi)) fun entry hentry => ?_
      rw [hentry]
      exact .pure rfl

theorem namedRounds (scan : ExportScan) (js : List Nat) :
    js.foldl (namedRound image directory header tables) scan =
      ⟨js.foldl (fun referenced j => referenced.set (tables.slot image.buffer j).toNat true)
          scan.referenced,
        scan.exports ++ js.map (image.namedExport directory header tables)⟩ := by
  induction js generalizing scan with
  | nil =>
    rw [List.map_nil, List.append_nil]
    rfl
  | cons j js ih =>
    rw [List.foldl_cons, ih, List.map_cons, namedRound, List.append_assoc]
    rfl

theorem slotRounds (scan : ExportScan) (is : List Nat) :
    is.foldl (slotRound image directory header tables) scan =
      ⟨scan.referenced, scan.exports ++ (is.filter fun i => !scan.referenced.getD i false &&
        tables.functionRva image.buffer i ≠ 0).map (image.unnamedExport directory header tables)⟩ := by
  induction is generalizing scan with
  | nil =>
    rw [List.filter_nil, List.map_nil, List.append_nil]
    rfl
  | cons i is ih =>
    rw [List.foldl_cons, ih, slotRound]
    by_cases href : scan.referenced.getD i false = true
    · rw [if_pos href, List.filter_cons_of_neg (by rw [href, Bool.not_true, Bool.false_and]; decide)]
    · rw [if_neg href]
      rw [Bool.not_eq_true] at href
      by_cases hzero : tables.functionRva image.buffer i = 0
      · rw [if_pos hzero, List.filter_cons_of_neg (by rw [hzero, Bool.and_eq_true]; simp)]
      · rw [if_neg hzero, List.filter_cons_of_pos (by rw [href, decide_eq_true hzero]; rfl),
          List.map_cons, List.append_assoc]
        rfl

/-- After the names the slots they refer to are marked. -/
theorem referenced_iff (slot : Nat → Nat) {i : Nat} (js : List Nat) (referenced : List Bool)
    (hi : i < referenced.length) :
    (js.foldl (fun r j => r.set (slot j) true) referenced).getD i false = true ↔
      referenced.getD i false = true ∨ ∃ j ∈ js, slot j = i := by
  induction js generalizing referenced with
  | nil =>
    rw [List.foldl_nil]
    refine (or_iff_left ?_).symm
    rintro ⟨j, hj, -⟩
    exact absurd hj List.not_mem_nil
  | cons j js ih =>
    rw [List.foldl_cons, ih _ (by rwa [List.length_set]), List.exists_mem_cons_iff, ← or_assoc]
    refine or_congr_left ?_
    rw [List.getD_eq_getElem?_getD, List.getD_eq_getElem?_getD]
    by_cases hslot : slot j = i
    · rw [hslot, List.getElem?_set_self hi]
      exact iff_of_true rfl (.inr rfl)
    · rw [List.getElem?_set_ne hslot, or_iff_left hslot]

/-- The names that refer to a slot. -/
def slotNames (image : PeImage) (header : ExportHeader) (tables : ExportTables) (i : Nat) : List Nat :=
  (List.range header.numberOfNames.toNat).filter fun j => (tables.slot image.buffer j).toNat = i

/-- `Referenced` after the names. -/
def referencedSlots (image : PeImage) (header : ExportHeader) (tables : ExportTables) : List Bool :=
  (List.range header.numberOfNames.toNat).foldl
    (fun referenced j => referenced.set (tables.slot image.buffer j).toNat true)
    (List.replicate header.numberOfFunctions.toNat false)

theorem referencedSlots_getD {i : Nat} (hi : i < header.numberOfFunctions.toNat) :
    (referencedSlots image header tables).getD i false = !(slotNames image header tables i).isEmpty := by
  have href := referenced_iff (fun j => (tables.slot image.buffer j).toNat) (i := i)
    (List.range header.numberOfNames.toNat) (List.replicate header.numberOfFunctions.toNat false)
    (by rwa [List.length_replicate])
  rw [Bool.eq_iff_iff, referencedSlots, href, Bool.not_eq_true', ← Bool.not_eq_true,
    List.isEmpty_iff, slotNames, List.filter_eq_nil_iff, List.getD_replicate _ hi]
  rw [or_iff_right (by decide)]
  simp only [decide_eq_true_eq, not_forall, not_not, exists_prop]

/-- The two passes list the exports of every slot, in another order. -/
theorem exports_perm (h : ExportsReadable image directory header tables) :
    ((List.range header.numberOfNames.toNat).map (image.namedExport directory header tables) ++
      ((List.range header.numberOfFunctions.toNat).filter fun i =>
        !(referencedSlots image header tables).getD i false &&
          tables.functionRva image.buffer i ≠ 0).map
        (image.unnamedExport directory header tables)).Perm
      ((List.range header.numberOfFunctions.toNat).flatMap
        (image.slotExports directory header tables)) := by
  have hsplit : (List.range header.numberOfFunctions.toNat).flatMap
        (image.slotExports directory header tables) =
      (List.range header.numberOfFunctions.toNat).flatMap fun i =>
        (slotNames image header tables i).map (image.namedExport directory header tables) ++
        if !(referencedSlots image header tables).getD i false &&
            tables.functionRva image.buffer i ≠ 0 then
          [image.unnamedExport directory header tables i] else [] := by
    refine List.flatMap_congr fun i hi => ?_
    have hslot : image.slotExports directory header tables i =
        if slotNames image header tables i = [] then
          if tables.functionRva image.buffer i = 0 then []
          else [image.unnamedExport directory header tables i]
        else (slotNames image header tables i).map (image.namedExport directory header tables) := rfl
    rw [hslot, referencedSlots_getD (List.mem_range.mp hi), Bool.not_not]
    cases slotNames image header tables i with
    | nil =>
      rw [if_pos rfl, List.map_nil, List.nil_append, List.isEmpty_nil, Bool.true_and]
      by_cases hzero : tables.functionRva image.buffer i = 0
      · rw [if_pos hzero, if_neg (by rw [decide_eq_true_iff]; exact not_not.mpr hzero)]
      · rw [if_neg hzero, if_pos (decide_eq_true hzero)]
    | cons j js =>
      rw [if_neg (List.cons_ne_nil j js), List.isEmpty_cons, Bool.false_and, if_neg Bool.false_ne_true,
        List.append_nil]
  rw [hsplit]
  refine List.Perm.trans ?_ (List.flatMap_append_perm _ _ _)
  rw [Buckets.flatMap_ite_singleton, ← List.map_flatMap]
  refine List.Perm.append_right _ (List.Perm.map _ (Buckets.flatMap_filter_perm _ _ _ ?_).symm)
  intro j hj
  exact h.slots j (List.mem_range.mp hj)

theorem PeExport.le_iff (e f : PeExport) : e.le f = true ↔ e.ordinal.toNat < f.ordinal.toNat ∨
    e.ordinal.toNat = f.ordinal.toNat ∧ e.addressIndex.toNat ≤ f.addressIndex.toNat := by
  rw [PeExport.le]
  split_ifs with h
  · rw [Ne, ← UInt32.toNat_inj] at h
    rw [decide_eq_true_iff, UInt32.lt_iff_toNat_lt, or_iff_left (fun hand => h hand.1)]
  · rw [Ne, not_not, ← UInt32.toNat_inj] at h
    rw [decide_eq_true_iff, UInt32.le_iff_toNat_le]
    omega

/-- The finished exports are in ascending order of their ordinals. -/
theorem finishExports_sorted (image : PeImage) (exports : List PeExport) :
    (finishExports image exports).exports.Pairwise fun e f => e.ordinal ≤ f.ordinal := by
  have hsorted : (exports.mergeSort PeExport.le).Pairwise fun e f => e.le f = true := by
    refine List.pairwise_mergeSort ?_ ?_ exports
    · intro e f g hef hfg
      rw [PeExport.le_iff] at hef hfg ⊢
      omega
    · intro e f
      rw [Bool.or_eq_true, PeExport.le_iff, PeExport.le_iff]
      omega
  refine hsorted.imp fun {e f} hle => ?_
  rw [PeExport.le_iff] at hle
  rw [UInt32.le_iff_toNat_le]
  omega

theorem parseExportTables_gives (h : ExportsReadable image directory header tables) {v : View} :
    (parseExportTables (withExports image directory header v) header).Gives (· = tables) := by
  refine .bind (require_gives h.nonnull) fun _ _ => ?_
  refine .bind sum_gives fun functionsLength hlength => ?_
  rw [hlength]
  refine .bind (tested_gives h.functions) fun functionsOffset hfunctions => ?_
  refine .bind sum_gives fun namesLength hlength => ?_
  rw [hlength]
  refine .bind (tested_gives h.names) fun namesOffset hnames => ?_
  refine .bind sum_gives fun ordinalsLength hlength => ?_
  rw [hlength]
  refine .bind (tested_gives h.ordinals) fun ordinalsOffset hordinals => ?_
  rw [hfunctions, hnames, hordinals]
  exact .pure rfl

/-- What the list of exports is owed. -/
structure ExportsComplete (image : PeImage) (directory : PeDataDirectory) (header : ExportHeader)
    (tables : ExportTables) (exports : List PeExport) : Prop where
  slots : exports.Perm ((List.range header.numberOfFunctions.toNat).flatMap
    (image.slotExports directory header tables))
  sorted : exports.Pairwise fun e f => e.ordinal ≤ f.ordinal
  forwarders : ∀ e ∈ exports, e.isForwarder = true ↔
    directory.rva.toNat ≤ e.rva.toNat ∧ e.rva.toNat < exportDirectoryEnd directory

theorem forwarded_isForwarder {entry : PeExport} (h : entry.isForwarder = false) :
    (image.forwarded directory entry).isForwarder = true ↔
      directory.rva.toNat ≤ (image.forwarded directory entry).rva.toNat ∧
        (image.forwarded directory entry).rva.toNat < exportDirectoryEnd directory := by
  rw [PeImage.forwarded]
  split_ifs with hinside
  · exact iff_of_true rfl hinside
  · refine iff_of_false ?_ hinside
    rw [h]
    exact Bool.false_ne_true

theorem slotExports_isForwarder {i : Nat} :
    ∀ e ∈ image.slotExports directory header tables i, e.isForwarder = true ↔
      directory.rva.toNat ≤ e.rva.toNat ∧ e.rva.toNat < exportDirectoryEnd directory := by
  intro e he
  rw [PeImage.slotExports] at he
  split_ifs at he
  · cases he
  · rw [List.mem_singleton.mp he]
    exact forwarded_isForwarder rfl
  · obtain ⟨j, -, rfl⟩ := List.mem_map.mp he
    exact forwarded_isForwarder rfl

theorem parseExports_gives (h : ExportsReadable image directory header tables) {v : View} :
    (parseExports (withExports image directory header v) header).Gives fun i =>
      i.buffer = image.buffer ∧ i.headers = image.headers ∧ i.sections = image.sections ∧
        ExportsComplete image directory header tables i.exports := by
  have hfilled : ¬ (header.numberOfFunctions = 0 ∧ header.numberOfNames = 0) :=
    not_and_or.mpr h.filled
  rw [parseExports, if_neg hfilled]
  refine .bind (parseExportTables_gives h) fun t ht => ?_
  rw [ht]
  refine .bind (.thread (g := namedRound image directory header tables) fun scan j hj =>
    parseNamedExport_gives h (List.mem_range.mp hj)) fun scan hscan => ?_
  refine .bind (.thread (g := slotRound image directory header tables) fun scan i hi =>
    parseUnnamedExport_gives h (List.mem_range.mp hi)) fun scan' hscan' => .pure ?_
  rw [hscan, namedRounds, slotRounds] at hscan'
  have hperm : scan'.exports.Perm ((List.range header.numberOfFunctions.toNat).flatMap
      (image.slotExports directory header tables)) := by
    rw [hscan', List.nil_append]
    exact exports_perm h
  have hslots := (List.mergeSort_perm scan'.exports PeExport.le).trans hperm
  refine ⟨rfl, rfl, rfl, hslots, finishExports_sorted _ _, fun e he => ?_⟩
  obtain ⟨i, -, hin⟩ := List.mem_flatMap.mp (hslots.subset he)
  exact slotExports_isForwarder e hin

theorem parseExportDirectory_gives (h : ExportsReadable image directory header tables) :
    (parseExportDirectory image).Gives fun i =>
      i.buffer = image.buffer ∧ i.headers = image.headers ∧ i.sections = image.sections ∧
        ExportsComplete image directory header tables i.exports := by
  rw [parseExportDirectory, h.declared]
  dsimp only
  rw [if_neg fun hzero => h.nonzero.1 hzero.1]
  refine .bind (require_gives h.nonzero) fun _ _ => ?_
  obtain ⟨headerOffset, hoffset, hheader⟩ := h.fields
  refine .bind (tested_gives hoffset) fun offset heq => ?_
  rw [heq]
  refine .bind (P := (· = header)) ⟨header, hheader, rfl⟩ fun _ heq => ?_
  rw [heq]
  refine .bind (require_gives h.limit) fun _ _ => ?_
  refine .bind sum_gives fun rvaEnd hend => ?_
  rw [hend]
  refine .bind (P := fun i => ∃ v, i = withExports image directory header v) ?_ fun i hi => ?_
  · rw [parseDllName]
    split_ifs with hname
    · exact .bind (parseMappedString_gives
        (withExportHeader image directory header (exportDirectoryEnd directory)) (h.dllName hname))
        fun v _ => .pure ⟨v, rfl⟩
    · exact .pure ⟨image.exportDirectory.dllName, rfl⟩
  · obtain ⟨v, rfl⟩ := hi
    exact parseExports_gives h

end

section
variable {image : PeImage}

theorem DebugAccepted.of_layout {image' : PeImage} (h : DebugAccepted image)
    (hbuffer : image'.buffer = image.buffer) (hheaders : image'.headers = image.headers)
    (hsections : image'.sections = image.sections) : DebugAccepted image' := by
  obtain ⟨buffer, headers, sections, _, _, _, _⟩ := image
  obtain ⟨buffer', headers', sections', _, _, _, _⟩ := image'
  dsimp only at hbuffer hheaders hsections
  subst hbuffer hheaders hsections
  exact h

theorem parseDebugEntry_gives {b : Text} {baseOffset index : Nat} :
    (parseDebugEntry b baseOffset index).Gives fun _ => True := by
  refine .bind sum_gives fun base _ => ?_
  refine .bind untested_gives fun characteristics _ => ?_
  refine .bind untested_gives fun timeDateStamp _ => ?_
  refine .bind untested_gives fun majorVersion _ => ?_
  refine .bind untested_gives fun minorVersion _ => ?_
  refine .bind untested_gives fun type _ => ?_
  refine .bind untested_gives fun sizeOfData _ => ?_
  refine .bind untested_gives fun addressOfRawData _ => ?_
  exact .bind untested_gives fun pointerToRawData _ => .pure trivial

theorem parseDebugDirectory_gives (h : DebugAccepted image) :
    (parseDebugDirectory image).Gives fun i => i.exports = image.exports := by
  rw [DebugAccepted] at h
  rw [parseDebugDirectory]
  split
  · exact .pure rfl
  · next directory hdirectory =>
    rw [hdirectory] at h
    refine .ite (fun _ => .pure rfl) fun hpresent => ?_
    obtain ⟨hrva, hsize, hentries⟩ := h.resolve_left hpresent
    refine .bind (require_gives ⟨hrva, hsize⟩) fun _ _ => ?_
    refine .ite (fun _ => .pure rfl) fun hcount => ?_
    obtain ⟨hlimit, hmapped⟩ := hentries.resolve_left hcount
    obtain ⟨start, hstart⟩ := Option.isSome_iff_exists.mp hmapped
    refine .bind (require_gives hlimit) fun _ _ => ?_
    refine .bind sum_gives fun length hlength => ?_
    rw [hlength]
    refine .bind (tested_gives hstart) fun baseOffset _ => ?_
    exact .bind (.collect fun index _ => parseDebugEntry_gives) fun debugEntries _ => .pure rfl

theorem parseRsdsRecord_gives {b : Text} {record : PeCodeViewRecord} {blobOffset rawLength : Nat} :
    (parseRsdsRecord b record blobOffset rawLength).Gives fun _ => True := by
  refine .bind keep_gives fun signature _ => ?_
  refine .bind untested_gives fun data1 _ => ?_
  refine .bind untested_gives fun data2 _ => ?_
  refine .bind untested_gives fun data3 _ => ?_
  refine .bind sum_gives fun guidOffset _ => ?_
  split
  · exact .pure trivial
  · refine .bind untested_gives fun age _ => ?_
    refine .bind sum_gives fun pathOffset _ => ?_
    exact .bind keep_gives fun pdbPath _ => .pure trivial

theorem parseCodeViewEntry_gives {record : PeCodeViewRecord} {entry : PeDebugEntry} :
    (parseCodeViewEntry image record entry).Gives fun _ => True := by
  refine .ite (fun _ => .pure trivial) fun _ => ?_
  refine .ite (fun _ => .pure trivial) fun _ => ?_
  refine .ite (fun _ => .pure trivial) fun _ => ?_
  split
  · exact .pure trivial
  · split
    · exact .pure trivial
    · refine .bind (P := fun _ => True) (.note trivial) fun signature _ => ?_
      exact .ite (fun _ => .pure trivial) fun _ => parseRsdsRecord_gives

theorem parseCodeViewEntries_gives {record : PeCodeViewRecord} {entries : List PeDebugEntry} :
    (parseCodeViewEntries image record entries).Gives fun _ => True := by
  induction entries generalizing record with
  | nil => exact .pure trivial
  | cons entry entries ih =>
    refine .bind parseCodeViewEntry_gives fun record' _ => ?_
    exact .ite (fun _ => .pure trivial) fun _ => ih

theorem parseCodeViewRecord_gives :
    (parseCodeViewRecord image).Gives fun i => i.exports = image.exports :=
  .bind parseCodeViewEntries_gives fun _ _ => .pure rfl

/-- Where the export directory is readable and the debug directory is accepted, the parse succeeds
and its list of exports is complete. -/
theorem parse_exportsComplete {b : Text} {directory : PeDataDirectory} {header : ExportHeader}
    {tables : ExportTables} (himage : (parseImage b).result = .ok image)
    (hexports : ExportsReadable image directory header tables) (hdebug : DebugAccepted image) :
    ∃ i, (parse b).result = .ok i ∧ ExportsComplete image directory header tables i.exports := by
  have hparse : (parse b).Gives fun i => ExportsComplete image directory header tables i.exports := by
    refine .bind (P := fun i => ExportsComplete image directory header tables i.exports) ?_ fun i hi => ?_
    · refine .bind (P := (· = image)) ⟨image, himage, rfl⟩ fun _ heq => ?_
      rw [heq]
      refine .bind (parseExportDirectory_gives hexports) fun i hi => ?_
      obtain ⟨hbuffer, hheaders, hsections, hcomplete⟩ := hi
      refine (parseDebugDirectory_gives (hdebug.of_layout hbuffer hheaders hsections)).mono
        fun i' heq => ?_
      rw [heq]
      exact hcomplete
    · refine parseCodeViewRecord_gives.mono fun i' heq => ?_
      rw [heq]
      exact hi
  exact hparse

end

/-- A file of 256 bytes and some more, without sections, whose export directory is at 240. -/
def exportFileWith (more size debugRva : UInt8) (directory : Text) : Text :=
  [77,90] ++ List.replicate 58 0 ++ [64,0,0,0] ++ [80,69,0,0] ++
    [0x4c,1,0,0] ++ List.replicate 12 0 ++ [152,0,0,0] ++
    [0x0b,1] ++ List.replicate 58 0 ++ [more,1,0,0] ++ List.replicate 28 0 ++ [7,0,0,0] ++
    [240,0,0,0] ++ [size,0,0,0] ++ List.replicate 40 0 ++ [debugRva,0,0,0] ++ [0,0,0,0] ++ directory

def exportImageWith (more size debugRva : UInt8) (directory : Text) : PeImage :=
  { buffer := exportFileWith more size debugRva directory
    headers :=
      { ntHeaderOffset := 64
        machine := 0x14c
        sizeOfOptionalHeader := 152
        optionalMagic := peOptionalMagicPe32
        sizeOfHeaders := 256+more.toUInt32
        declaredDataDirectories := 7
        dataDirectories := [{ rva := 240, size := size.toUInt32 }] ++ List.replicate 5 {} ++
          [{ rva := debugRva.toUInt32 }] } }

/-- Three slots, of which the first has two names, the second no name and the third nothing. -/
def sharedSlotDirectory : Text :=
  List.replicate 16 0 ++ [1,0,0,0] ++ [3,0,0,0] ++ [2,0,0,0] ++
    [24,1,0,0] ++ [36,1,0,0] ++ [44,1,0,0] ++
    [64,0,0,0] ++ [66,0,0,0] ++ [0,0,0,0] ++ [50,1,0,0] ++ [48,1,0,0] ++ [0,0] ++ [0,0] ++
    [102,0] ++ [103,0]

def sharedSlotHeader : ExportHeader :=
  { nameRva := 0
    ordinalBase := 1
    numberOfFunctions := 3
    numberOfNames := 2
    functionsRva := 280
    namesRva := 292
    ordinalsRva := 300 }

theorem sharedSlot_readable :
    ExportsReadable (exportImageWith 52 68 0 sharedSlotDirectory) { rva := 240, size := 68 }
      sharedSlotHeader ⟨280,292,300⟩ where
  declared := by decide +kernel
  nonzero := by decide +kernel
  fields := ⟨240, by decide +kernel, by decide +kernel⟩
  limit := by decide +kernel
  filled := by decide +kernel
  nonnull := by decide +kernel
  functions := by decide +kernel
  names := by decide +kernel
  ordinals := by decide +kernel
  slots := by decide +kernel
  dllName := by decide +kernel
  nameStrings := by decide +kernel
  forwarders := by decide +kernel

/-- The first slot has an entry for either name, the second one without a name. -/
theorem parse_exportsComplete_shared :
    ∃ i, (parse (exportFileWith 52 68 0 sharedSlotDirectory)).result = .ok i ∧
      ExportsComplete (exportImageWith 52 68 0 sharedSlotDirectory) { rva := 240, size := 68 }
        sharedSlotHeader ⟨280,292,300⟩ i.exports ∧
      i.exports.Perm [{ name := ⟨306,1⟩, isNamed := true, ordinal := 1, rva := 64 },
        { name := ⟨304,1⟩, isNamed := true, ordinal := 1, rva := 64 },
        { ordinal := 2, addressIndex := 1, rva := 66 }] := by
  have himage : (parseImage (exportFileWith 52 68 0 sharedSlotDirectory)).result =
      .ok (exportImageWith 52 68 0 sharedSlotDirectory) := by decide +kernel
  obtain ⟨i, hi, hcomplete⟩ := parse_exportsComplete himage sharedSlot_readable (.inl (by decide +kernel))
  have hslots : (List.range 3).flatMap ((exportImageWith 52 68 0 sharedSlotDirectory).slotExports
      { rva := 240, size := 68 } sharedSlotHeader ⟨280,292,300⟩) =
      [{ name := ⟨306,1⟩, isNamed := true, ordinal := 1, rva := 64 },
        { name := ⟨304,1⟩, isNamed := true, ordinal := 1, rva := 64 },
        { ordinal := 2, addressIndex := 1, rva := 66 }] := by decide +kernel
  exact ⟨i, hi, hcomplete, hslots ▸ hcomplete.slots⟩

/-- An export directory of one slot and one name pointer. -/
def exportFile (size functionRva namePointer debugRva : UInt8) : Text :=
  exportFileWith 36 size debugRva <|
    List.replicate 16 0 ++ [1,0,0,0] ++ [1,0,0,0] ++ [1,0,0,0] ++
    [24,1,0,0] ++ [28,1,0,0] ++ [32,1,0,0] ++
    [functionRva,0,0,0] ++ [namePointer,0,0,0] ++ [0,0] ++ [102,0]

def exportFileImage (size functionRva namePointer debugRva : UInt8) : PeImage :=
  { exportImageWith 36 size debugRva [] with
    buffer := exportFile size functionRva namePointer debugRva }

def exportFileHeader : ExportHeader :=
  { nameRva := 0
    ordinalBase := 1
    numberOfFunctions := 1
    numberOfNames := 1
    functionsRva := 280
    namesRva := 284
    ordinalsRva := 288 }

theorem exportFile_readable :
    ExportsReadable (exportFileImage 52 64 65 1) { rva := 240, size := 52 }
      exportFileHeader ⟨280,284,288⟩ where
  declared := by decide +kernel
  nonzero := by decide +kernel
  fields := ⟨240, by decide +kernel, by decide +kernel⟩
  limit := by decide +kernel
  filled := by decide +kernel
  nonnull := by decide +kernel
  functions := by decide +kernel
  names := by decide +kernel
  ordinals := by decide +kernel
  slots := by decide +kernel
  dllName := by decide +kernel
  nameStrings := by decide +kernel
  forwarders := by decide +kernel

/-- A readable export directory beside a debug directory that is refused; a name pointer that is zero,
where there is a string, makes no name; and a directory that declares one byte has a forwarder
behind it. -/
theorem exportFile_not_complete :
    ((parseImage (exportFile 52 64 65 1)).result = .ok (exportFileImage 52 64 65 1) ∧
      ExportsReadable (exportFileImage 52 64 65 1) { rva := 240, size := 52 } exportFileHeader
        ⟨280,284,288⟩ ∧
      (parse (exportFile 52 64 65 1)).result =
        .error (text "debug directory has a zero RVA or a zero size")) ∧
    ((exportFileImage 52 64 0 0).readMappedString 0 = some ⟨0,2⟩ ∧
      ((parse (exportFile 52 64 0 0)).result.toOption.map (·.exports)) =
        some [{ ordinal := 1, rva := 64 }]) ∧
    (240+1 < 250 ∧ ((parse (exportFile 1 250 65 0)).result.toOption.map (·.exports)) =
      some [{ name := ⟨65,1⟩, isNamed := true, ordinal := 1, rva := 250, isForwarder := true,
              forwarderName := ⟨250,0⟩ }]) := by
  refine ⟨⟨by decide +kernel, exportFile_readable, by decide +kernel⟩, ?_, ?_⟩
  · decide +kernel
  · decide +kernel

end DSigMatcher.Pe
