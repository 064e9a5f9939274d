import DSigMatcher.Pe.Parse

namespace DSigMatcher.Pe
open DSigMatcher.Base DSigMatcher.Framework

section
variable {b : Text}

theorem parseDosHeader_runs : (parseDosHeader b).Runs (PeEvent.Good b.length) fun p =>
    p.2 = p.1.toNat+4 ∧ p.2+coffHeaderSize ≤ b.length := by
  refine .bind require_runs fun _ _ => ?_
  refine .bind require_runs fun _ _ => ?_
  refine .bind require_runs fun _ _ => ?_
  refine .bind tested_runs fun lfanew _ => ?_
  refine .bind require_runs fun _ _ => ?_
  refine .bind tested_runs fun signature _ => ?_
  refine .bind require_runs fun _ _ => ?_
  have hlfanew := lfanew.toNat_lt
  refine .bind (sum_runs (by rw [ntSignatureSize]; omega)) fun coffOffset hcoff => ?_
  refine .bind require_runs fun _ hfits => .pure ?_
  exact ⟨hcoff, fits_iff.mp hfits⟩

theorem parseCoffHeader_runs {lfanew : UInt32} {coffOffset : Nat}
    (hfits : coffOffset+coffHeaderSize ≤ b.length) (hbound : coffOffset < 2^33) :
    (parseCoffHeader b lfanew coffOffset).Runs (PeEvent.Good b.length) fun _ => True := by
  rw [coffHeaderSize] at hfits
  refine .bind (untested_runs (by omega) (by omega)) fun machine _ => ?_
  refine .bind (untested_runs (by omega) (by omega)) fun numberOfSections _ => ?_
  refine .bind (untested_runs (by omega) (by omega)) fun timeDateStamp _ => ?_
  refine .bind (untested_runs (by omega) (by omega)) fun pointerToSymbolTable _ => ?_
  refine .bind (untested_runs (by omega) (by omega)) fun numberOfSymbols _ => ?_
  refine .bind (untested_runs (by omega) (by omega)) fun sizeOfOptionalHeader _ => ?_
  exact .bind (untested_runs (by omega) (by omega)) fun characteristics _ => .pure trivial

theorem parseOptionalMagic_runs {optionalOffset optionalSize : Nat} :
    (parseOptionalMagic b optionalOffset optionalSize).Runs (PeEvent.Good b.length) fun magic =>
      optionalHeaderSize (magic = peOptionalMagicPe32Plus) ≤ optionalSize ∧
        optionalOffset+optionalSize ≤ b.length := by
  refine .bind require_runs fun _ _ => ?_
  refine .bind require_runs fun _ hfits => ?_
  refine .bind tested_runs fun magic _ => ?_
  refine .bind require_runs fun _ _ => ?_
  exact .bind require_runs fun _ hsize => .pure ⟨hsize, fits_iff.mp hfits⟩

theorem parseImageBase_runs {optionalOffset : Nat} {isPe32Plus : Bool}
    (hfits : optionalOffset+32 ≤ b.length) (hbound : optionalOffset < 2^33) :
    (parseImageBase b optionalOffset isPe32Plus).Runs (PeEvent.Good b.length) fun _ => True := by
  refine .ite (fun _ => ?_) fun _ => ?_
  · exact (untested_runs (by omega) (by omega)).mono fun _ _ => trivial
  · exact .bind (untested_runs (by omega) (by omega)) fun narrowImageBase _ => .pure trivial

theorem parseOptionalHeader_runs {headers : PeHeaders} {optionalOffset : Nat} {magic : UInt16}
    (hfits : optionalOffset+optionalHeaderSize (magic = peOptionalMagicPe32Plus) ≤ b.length)
    (hbound : optionalOffset < 2^33) :
    (parseOptionalHeader b headers optionalOffset magic).Runs (PeEvent.Good b.length) fun h =>
      h.isPe32Plus = decide (magic = peOptionalMagicPe32Plus) := by
  rw [parseOptionalHeader]
  generalize decide (magic = peOptionalMagicPe32Plus) = isPe32Plus at hfits ⊢
  have hwidth : 96 ≤ optionalHeaderSize isPe32Plus := by
    cases isPe32Plus <;> decide
  refine .bind (untested_runs (by omega) (by omega)) fun majorLinkerVersion _ => ?_
  refine .bind (untested_runs (by omega) (by omega)) fun minorLinkerVersion _ => ?_
  refine .bind (untested_runs (by omega) (by omega)) fun sizeOfCode _ => ?_
  refine .bind (untested_runs (by omega) (by omega)) fun sizeOfInitializedData _ => ?_
  refine .bind (untested_runs (by omega) (by omega)) fun sizeOfUninitializedData _ => ?_
  refine .bind (untested_runs (by omega) (by omega)) fun addressOfEntryPoint _ => ?_
  refine .bind (untested_runs (by omega) (by omega)) fun baseOfCode _ => ?_
  refine .bind (parseImageBase_runs (by omega) (by omega)) fun imageBase _ => ?_
  refine .bind (untested_runs (by omega) (by omega)) fun sectionAlignment _ => ?_
  refine .bind (untested_runs (by omega) (by omega)) fun fileAlignment _ => ?_
  refine .bind (untested_runs (by omega) (by omega)) fun subsystem _ => ?_
  refine .bind (untested_runs (by omega) (by omega)) fun dllCharacteristics _ => ?_
  refine .bind (untested_runs (by omega) (by omega)) fun sizeOfImage _ => ?_
  refine .bind (untested_runs (by omega) (by omega)) fun sizeOfHeaders _ => ?_
  refine .bind (untested_runs (by omega) (by omega)) fun checkSum _ => ?_
  refine .bind (untested_runs ?_ ?_) fun declaredDataDirectories _ => .pure rfl
  · cases isPe32Plus
    · exact hfits
    · exact hfits
  · cases isPe32Plus
    · show optionalOffset+92 < 2^64
      omega
    · show optionalOffset+108 < 2^64
      omega

theorem parseDataDirectory_runs {directoryOffset index : Nat}
    (hfits : directoryOffset+(index+1)*dataDirectoryEntrySize ≤ b.length)
    (hbound : directoryOffset+(index+1)*dataDirectoryEntrySize < 2^64) :
    (parseDataDirectory b directoryOffset index).Runs (PeEvent.Good b.length) fun _ => True := by
  rw [dataDirectoryEntrySize] at hfits hbound
  refine .bind (sum_runs (by rw [dataDirectoryEntrySize]; omega)) fun base hbase => ?_
  rw [dataDirectoryEntrySize] at hbase
  refine .bind (untested_runs (by omega) (by omega)) fun rva _ => ?_
  exact .bind (untested_runs (by omega) (by omega)) fun size _ => .pure trivial

theorem parseHeaders_runs : (parseHeaders b).Runs (PeEvent.Good b.length) fun p =>
    p.2 < 2^33 := by
  refine .bind parseDosHeader_runs fun p hdos => ?_
  obtain ⟨lfanew, coffOffset⟩ := p
  obtain ⟨hcoff, hcoffFits⟩ := hdos
  have hlfanew := lfanew.toNat_lt
  dsimp only at hcoff hcoffFits
  refine .bind (parseCoffHeader_runs hcoffFits (by omega)) fun headers _ => ?_
  refine .bind (sum_runs (by rw [coffHeaderSize]; omega)) fun optionalOffset hoptional => ?_
  rw [coffHeaderSize] at hoptional
  have hsize := headers.sizeOfOptionalHeader.toNat_lt
  refine .bind parseOptionalMagic_runs fun magic hmagic => ?_
  obtain ⟨hwidth, hfits⟩ := hmagic
  refine .bind (parseOptionalHeader_runs (by omega) (by omega)) fun h hplus => ?_
  rw [← hplus] at hwidth
  refine .bind (sum_runs (by omega)) fun directoryOffset hdirectory => ?_
  refine .bind (P := fun _ => True) ?_ fun dataDirectories _ => ?_
  · refine (Traced.Runs.collect (Q := fun _ => True) fun index hindex => ?_).mono fun _ _ => trivial
    have hroom : (index+1)*dataDirectoryEntrySize ≤
        headers.sizeOfOptionalHeader.toNat-optionalHeaderSize h.isPe32Plus := by
      rw [← Nat.le_div_iff_mul_le (by decide)]
      exact (List.mem_range.mp hindex).trans_le (min_le_right _ _)
    exact parseDataDirectory_runs (by omega) (by omega)
  exact .bind (sum_runs (by omega)) fun sectionTableOffset htable => .pure (by omega)

/-- What is known of a section that was accepted. -/
def PeSection.Sound (size : Nat) (s : PeSection) : Prop :=
  s.name.Inside size ∧ (s.sizeOfRawData ≠ 0 → s.rawEnd ≤ size)

theorem parseSection_runs {sectionTableOffset index : Nat}
    (hfits : sectionTableOffset+(index+1)*sectionHeaderSize ≤ b.length)
    (hbound : sectionTableOffset+(index+1)*sectionHeaderSize < 2^64) :
    (parseSection b sectionTableOffset index).Runs (PeEvent.Good b.length)
      (PeSection.Sound b.length) := by
  rw [sectionHeaderSize] at hfits hbound
  refine .bind (sum_runs (by rw [sectionHeaderSize]; omega)) fun base hbase => ?_
  rw [sectionHeaderSize] at hbase
  refine .bind tested_runs fun nameBytes hname => ?_
  have hlength : (nameBytes.takeWhile (· ≠ 0)).length ≤ peSectionNameLength := by
    rw [bytes] at hname
    split_ifs at hname
    cases hname
    refine (List.takeWhile_prefix _).length_le.trans ?_
    rw [List.length_take]
    exact min_le_left _ _
  rw [peSectionNameLength] at hlength
  have hinside : View.Inside b.length ⟨base,(nameBytes.takeWhile (· ≠ 0)).length⟩ := by
    rw [View.Inside]
    dsimp only
    omega
  refine .bind (keep_runs hinside) fun name hv => ?_
  refine .bind (untested_runs (by omega) (by omega)) fun virtualSize _ => ?_
  refine .bind (untested_runs (by omega) (by omega)) fun virtualAddress _ => ?_
  refine .bind (untested_runs (by omega) (by omega)) fun sizeOfRawData _ => ?_
  refine .bind (untested_runs (by omega) (by omega)) fun pointerToRawData _ => ?_
  refine .bind (untested_runs (by omega) (by omega)) fun pointerToRelocations _ => ?_
  refine .bind (untested_runs (by omega) (by omega)) fun pointerToLinenumbers _ => ?_
  refine .bind (untested_runs (by omega) (by omega)) fun numberOfRelocations _ => ?_
  refine .bind (untested_runs (by omega) (by omega)) fun numberOfLinenumbers _ => ?_
  refine .bind (untested_runs (by omega) (by omega)) fun characteristics _ => ?_
  refine .bind require_runs fun _ hraw => .pure ⟨?_, fun hne => ?_⟩
  · rw [hv]
    exact hinside
  · exact fits_iff.mp (hraw.resolve_left hne)

theorem parseSectionTable_runs {numberOfSections : UInt16} {sectionTableOffset : Nat}
    (hbound : sectionTableOffset < 2^33) :
    (parseSectionTable b numberOfSections sectionTableOffset).Runs (PeEvent.Good b.length)
      fun sections => ∀ s ∈ sections, s.Sound b.length := by
  have hcount := numberOfSections.toNat_lt
  refine .bind (sum_runs (by rw [sectionHeaderSize]; omega)) fun requiredBytes hrequired => ?_
  refine .bind require_runs fun _ hfits => .collect fun index hindex => ?_
  have hindex := List.mem_range.mp hindex
  rw [fits_iff, hrequired, sectionHeaderSize] at hfits
  refine parseSection_runs ?_ ?_ <;> rw [sectionHeaderSize] <;> omega

end

/-- What the steps of the directories leave of an image. -/
structure SameLayout (image image' : PeImage) : Prop where
  buffer : image'.buffer = image.buffer
  headers : image'.headers = image.headers
  sections : image'.sections = image.sections
  present : image'.codeView.present = image.codeView.present

theorem SameLayout.refl (image : PeImage) : SameLayout image image := ⟨rfl, rfl, rfl, rfl⟩

theorem SameLayout.trans {image image' image'' : PeImage} (h : SameLayout image image')
    (h' : SameLayout image' image'') : SameLayout image image'' :=
  ⟨h'.buffer.trans h.buffer, h'.headers.trans h.headers, h'.sections.trans h.sections,
    h'.present.trans h.present⟩

def PeExport.Inside (size : Nat) (e : PeExport) : Prop :=
  e.name.Inside size ∧ e.forwarderName.Inside size

def PeCodeViewRecord.Inside (size : Nat) (r : PeCodeViewRecord) : Prop :=
  r.signature.Inside size ∧ r.pdbPath.Inside size

/-- The views of an image besides its section names. -/
structure ViewsInside (image : PeImage) : Prop where
  dllName : image.exportDirectory.dllName.Inside image.buffer.length
  exports : ∀ e ∈ image.exports, e.Inside image.buffer.length
  codeView : image.codeView.Inside image.buffer.length

theorem View.inside_default (size : Nat) : View.Inside size {} := Nat.zero_le size

section
variable {image : PeImage}

theorem parseMappedString_runs {rva : UInt32} {error : Text} :
    (parseMappedString image rva error).Runs (PeEvent.Good image.buffer.length) fun v =>
      v.Inside image.buffer.length := by
  refine .bind tested_runs fun v hv => ?_
  have hinside := readMappedString_inside hv
  exact (keep_runs hinside).mono fun w hw => hw ▸ hinside

theorem parseExportName_runs {entryNameRva : UInt32} {entry : PeExport}
    (h : entry.Inside image.buffer.length) :
    (parseExportName image entryNameRva entry).Runs (PeEvent.Good image.buffer.length)
      (PeExport.Inside image.buffer.length) := by
  refine .ite (fun _ => ?_) fun _ => .pure h
  exact .bind parseMappedString_runs fun name hname => .pure ⟨hname, h.2⟩

theorem parseForwarder_runs {entry : PeExport} (h : entry.Inside image.buffer.length) :
    (parseForwarder image entry).Runs (PeEvent.Good image.buffer.length)
      (PeExport.Inside image.buffer.length) := by
  refine .ite (fun _ => ?_) fun _ => .pure h
  exact .bind parseMappedString_runs fun name hname => .pure ⟨h.1, hname⟩

theorem parseTableEntry_runs {α : Type} {read : Text → Nat → Option α} {b : Text}
    {offset index width : Nat} {error : Text} {size : Nat} (h : offset+index*width < 2^64) :
    (parseTableEntry read b offset index width error).Runs (PeEvent.Good size) fun _ => True :=
  .bind (sum_runs h) fun _ _ => tested_runs.mono fun _ _ => trivial

theorem inside_concat {size : Nat} {exports : List PeExport} {entry : PeExport}
    (h : ∀ e ∈ exports, e.Inside size) (hentry : entry.Inside size) :
    ∀ e ∈ exports ++ [entry], e.Inside size := by
  intro e he
  rcases List.mem_append.mp he with he | he
  · exact h e he
  · rw [List.mem_singleton.mp he]
    exact hentry

/-- The tables start at 32-bit offsets. -/
structure ExportTables.Narrow (t : ExportTables) : Prop where
  functions : t.functionsOffset < 2^32
  names : t.namesOffset < 2^32
  ordinals : t.ordinalsOffset < 2^32

theorem parseNamedExport_runs {header : ExportHeader} {tables : ExportTables} {scan : ExportScan}
    {index : Nat} (htables : tables.Narrow) (hindex : index < 2^32)
    (hscan : ∀ e ∈ scan.exports, e.Inside image.buffer.length) :
    (parseNamedExport image header tables scan index).Runs (PeEvent.Good image.buffer.length)
      fun s => ∀ e ∈ s.exports, e.Inside image.buffer.length := by
  have hnames := htables.names
  have hordinals := htables.ordinals
  have hfunctions := htables.functions
  refine .bind (parseTableEntry_runs (by omega)) fun entryNameRva _ => ?_
  refine .bind (parseTableEntry_runs (by omega)) fun addressIndex _ => ?_
  have haddress := addressIndex.toNat_lt
  refine .bind require_runs fun _ _ => ?_
  refine .bind (parseTableEntry_runs (by omega)) fun functionRva _ => ?_
  refine .bind (parseExportName_runs ⟨View.inside_default _, View.inside_default _⟩) fun entry h => ?_
  exact .bind (parseForwarder_runs h) fun entry h => .pure (inside_concat hscan h)

theorem parseUnnamedExport_runs {header : ExportHeader} {tables : ExportTables} {scan : ExportScan}
    {index : Nat} (htables : tables.Narrow) (hindex : index < 2^32)
    (hscan : ∀ e ∈ scan.exports, e.Inside image.buffer.length) :
    (parseUnnamedExport image header tables scan index).Runs (PeEvent.Good image.buffer.length)
      fun s => ∀ e ∈ s.exports, e.Inside image.buffer.length := by
  have hfunctions := htables.functions
  refine .ite (fun _ => .pure hscan) fun _ => ?_
  refine .bind (parseTableEntry_runs (by omega)) fun functionRva _ => ?_
  refine .ite (fun _ => .pure hscan) fun _ => ?_
  refine .bind (parseForwarder_runs ⟨View.inside_default _, View.inside_default _⟩) fun entry h => ?_
  exact .pure (inside_concat hscan h)

theorem parseExportTables_runs {header : ExportHeader} :
    (parseExportTables image header).Runs (PeEvent.Good image.buffer.length)
      ExportTables.Narrow := by
  have hfunctions := header.numberOfFunctions.toNat_lt
  have hnames := header.numberOfNames.toNat_lt
  refine .bind require_runs fun _ _ => ?_
  refine .bind (sum_runs (by omega)) fun functionsLength _ => ?_
  refine .bind tested_runs fun functionsOffset hf => ?_
  refine .bind (sum_runs (by omega)) fun namesLength _ => ?_
  refine .bind tested_runs fun namesOffset hn => ?_
  refine .bind (sum_runs (by omega)) fun ordinalsLength _ => ?_
  refine .bind tested_runs fun ordinalsOffset ho => .pure ?_
  exact ⟨(mapRvaRange_fits hf).1, (mapRvaRange_fits hn).1, (mapRvaRange_fits ho).1⟩

/-- The step of a directory: it leaves the layout and keeps the views inside. -/
def StepSafe (image : PeImage) (step : PeParser PeImage) : Prop :=
  step.Runs (PeEvent.Good image.buffer.length) fun i => SameLayout image i ∧ ViewsInside i

theorem finishExports_inside {exports : List PeExport} (h : ViewsInside image)
    (hexports : ∀ e ∈ exports, e.Inside image.buffer.length) :
    ViewsInside (finishExports image exports) := by
  refine ⟨h.dllName, ?_, h.codeView⟩
  intro e he
  exact hexports e (List.mem_mergeSort.mp he)

theorem parseExports_runs {header : ExportHeader} (h : ViewsInside image) :
    StepSafe image (parseExports image header) := by
  refine .ite (fun _ => .pure ⟨⟨rfl, rfl, rfl, rfl⟩, h.dllName, h.exports, h.codeView⟩) fun _ => ?_
  refine .bind parseExportTables_runs fun tables htables => ?_
  have hfunctions := header.numberOfFunctions.toNat_lt
  have hnames := header.numberOfNames.toNat_lt
  refine .bind (.thread (fun e he => absurd he List.not_mem_nil) fun scan index hscan hindex =>
    parseNamedExport_runs htables ?_ hscan) fun scan hscan => ?_
  · have := List.mem_range.mp hindex
    omega
  refine .bind (.thread hscan fun scan index hscan hindex =>
    parseUnnamedExport_runs htables ?_ hscan) fun scan hscan => .pure ?_
  · have := List.mem_range.mp hindex
    omega
  exact ⟨⟨rfl, rfl, rfl, rfl⟩, finishExports_inside h hscan⟩

theorem parseExportHeader_runs {b : Text} {headerOffset : Nat}
    (hfits : headerOffset+exportDirectoryHeaderSize ≤ b.length) (hbound : headerOffset < 2^32) :
    (parseExportHeader b headerOffset).Runs (PeEvent.Good b.length) fun _ => True := by
  rw [exportDirectoryHeaderSize] at hfits
  refine .bind (untested_runs (by omega) (by omega)) fun nameRva _ => ?_
  refine .bind (untested_runs (by omega) (by omega)) fun ordinalBase _ => ?_
  refine .bind (untested_runs (by omega) (by omega)) fun numberOfFunctions _ => ?_
  refine .bind (untested_runs (by omega) (by omega)) fun numberOfNames _ => ?_
  refine .bind (untested_runs (by omega) (by omega)) fun functionsRva _ => ?_
  refine .bind (untested_runs (by omega) (by omega)) fun namesRva _ => ?_
  exact .bind (untested_runs (by omega) (by omega)) fun ordinalsRva _ => .pure trivial

theorem parseDllName_runs {nameRva : UInt32} (h : ViewsInside image) :
    StepSafe image (parseDllName image nameRva) := by
  refine .ite (fun _ => ?_) fun _ => .pure ⟨.refl image, h⟩
  refine .bind parseMappedString_runs fun dllName hname => .pure ?_
  exact ⟨⟨rfl, rfl, rfl, rfl⟩, hname, h.exports, h.codeView⟩

theorem exportDirectoryEnd_lt (directory : PeDataDirectory) : exportDirectoryEnd directory < 2^64 := by
  have hrva := directory.rva.toNat_lt
  have hsize := directory.size.toNat_lt
  rw [exportDirectoryEnd, exportDirectoryHeaderSize]
  split_ifs <;> omega

theorem parseExportDirectory_runs (h : ViewsInside image) :
    StepSafe image (parseExportDirectory image) := by
  rw [parseExportDirectory]
  split
  · exact .pure ⟨.refl image, h⟩
  · next directory _ =>
    refine .ite (fun _ => .pure ⟨.refl image, h⟩) fun _ => ?_
    refine .bind require_runs fun _ _ => ?_
    refine .bind tested_runs fun headerOffset hoffset => ?_
    obtain ⟨hbound, hfits⟩ := mapRvaRange_fits hoffset
    refine .bind (parseExportHeader_runs hfits hbound) fun header _ => ?_
    refine .bind require_runs fun _ _ => ?_
    refine .bind (sum_runs (exportDirectoryEnd_lt directory)) fun rvaEnd _ => ?_
    have hviews : ViewsInside (withExportHeader image directory header rvaEnd) :=
      ⟨h.dllName, h.exports, h.codeView⟩
    refine .bind (parseDllName_runs hviews) fun image' hnamed => ?_
    obtain ⟨hsame, hviews'⟩ := hnamed
    have hlayout : SameLayout image image' :=
      ⟨hsame.buffer, hsame.headers, hsame.sections, hsame.present⟩
    have hexports : StepSafe image' (parseExports image' header) := parseExports_runs hviews'
    rw [StepSafe, hlayout.buffer] at hexports
    exact hexports.mono fun image'' h'' => ⟨hlayout.trans h''.1, h''.2⟩

theorem parseDebugEntry_runs {b : Text} {baseOffset index : Nat}
    (hfits : baseOffset+(index+1)*debugDirectoryEntrySize ≤ b.length)
    (hbound : baseOffset+(index+1)*debugDirectoryEntrySize < 2^64) :
    (parseDebugEntry b baseOffset index).Runs (PeEvent.Good b.length) fun _ => True := by
  rw [debugDirectoryEntrySize] at hfits hbound
  refine .bind (sum_runs (by rw [debugDirectoryEntrySize]; omega)) fun base hbase => ?_
  rw [debugDirectoryEntrySize] at hbase
  refine .bind (untested_runs (by omega) (by omega)) fun characteristics _ => ?_
  refine .bind (untested_runs (by omega) (by omega)) fun timeDateStamp _ => ?_
  refine .bind (untested_runs (by omega) (by omega)) fun majorVersion _ => ?_
  refine .bind (untested_runs (by omega) (by omega)) fun minorVersion _ => ?_
  refine .bind (untested_runs (by omega) (by omega)) fun type _ => ?_
  refine .bind (untested_runs (by omega) (by omega)) fun sizeOfData _ => ?_
  refine .bind (untested_runs (by omega) (by omega)) fun addressOfRawData _ => ?_
  exact .bind (untested_runs (by omega) (by omega)) fun pointerToRawData _ => .pure trivial

theorem withCodeViewError_inside {error : Text} (h : ViewsInside image) :
    SameLayout image (withCodeViewError image error) ∧ ViewsInside (withCodeViewError image error) :=
  ⟨⟨rfl, rfl, rfl, rfl⟩, h.dllName, h.exports, h.codeView⟩

theorem parseDebugDirectory_runs (h : ViewsInside image) :
    StepSafe image (parseDebugDirectory image) := by
  rw [parseDebugDirectory]
  split
  · exact .pure (withCodeViewError_inside h)
  · next directory _ =>
    refine .ite (fun _ => .pure (withCodeViewError_inside h)) fun _ => ?_
    refine .bind require_runs fun _ _ => ?_
    refine .ite (fun _ => .pure (withCodeViewError_inside h)) fun _ => ?_
    refine .bind require_runs fun _ hcount => ?_
    rw [maximumDebugEntries] at hcount
    refine .bind (sum_runs (by rw [debugDirectoryEntrySize] at hcount ⊢; omega)) fun length hlength => ?_
    refine .bind tested_runs fun baseOffset hbase => ?_
    obtain ⟨hbound, hfits⟩ := mapRvaRange_fits hbase
    refine .bind (P := fun _ => True) ?_ fun debugEntries _ => .pure ?_
    · refine (Traced.Runs.collect (Q := fun _ => True) fun index hindex => ?_).mono
        fun _ _ => trivial
      have hroom : (index+1)*debugDirectoryEntrySize ≤ length := by
        rw [hlength]
        exact Nat.mul_le_mul_right _ (List.mem_range.mp hindex)
      have hwide : length < 2^33 := by
        rw [hlength]
        rw [debugDirectoryEntrySize] at hcount ⊢
        omega
      exact parseDebugEntry_runs (by omega) (by omega)
    · exact ⟨⟨rfl, rfl, rfl, rfl⟩, h.dllName, h.exports, h.codeView⟩

theorem codeViewBlob_bound {entry : PeDebugEntry} {blobOffset : Nat}
    (h : codeViewBlob image entry = some blobOffset) : blobOffset < 2^32 := by
  rw [codeViewBlob] at h
  split_ifs at h
  · cases h
    exact entry.pointerToRawData.toNat_lt
  · exact (mapRvaRange_fits h).1

theorem codeViewPath_inside {b : Text} {blobOffset rawLength : Nat}
    (hfits : blobOffset+rawLength ≤ b.length) (hlength : codeViewHeaderSize ≤ rawLength) :
    (codeViewPath b (blobOffset+codeViewHeaderSize) rawLength).Inside b.length := by
  rw [codeViewPath]
  split
  · next path hpath => exact cString_inside hpath
  · rw [View.Inside]
    dsimp only
    omega

theorem parseRsdsRecord_runs {b : Text} {record : PeCodeViewRecord} {blobOffset rawLength : Nat}
    (h : record.Inside b.length) (hbound : blobOffset < 2^32)
    (hfits : blobOffset+rawLength ≤ b.length) (hlength : codeViewHeaderSize ≤ rawLength) :
    (parseRsdsRecord b record blobOffset rawLength).Runs (PeEvent.Good b.length)
      (PeCodeViewRecord.Inside b.length) := by
  have hpath := codeViewPath_inside hfits hlength
  rw [codeViewHeaderSize] at hlength
  have hsignature : View.Inside b.length ⟨blobOffset,4⟩ := by
    rw [View.Inside]
    dsimp only
    omega
  refine .bind (keep_runs hsignature) fun signature hs => ?_
  refine .bind (untested_runs (by omega) (by omega)) fun data1 _ => ?_
  refine .bind (untested_runs (by omega) (by omega)) fun data2 _ => ?_
  refine .bind (untested_runs (by omega) (by omega)) fun data3 _ => ?_
  refine .bind (sum_runs (by omega)) fun guidOffset _ => ?_
  split
  · exact .pure ⟨View.inside_default _, h.2⟩
  · next data4 _ =>
    refine .bind (untested_runs (by omega) (by omega)) fun age _ => ?_
    refine .bind (sum_runs (by rw [codeViewHeaderSize]; omega)) fun pathOffset hoffset => ?_
    rw [hoffset]
    refine .bind (keep_runs hpath) fun pdbPath hp => .pure ⟨?_, ?_⟩
    · rw [hs]
      exact hsignature
    · rw [hp]
      exact hpath

theorem parseCodeViewEntry_runs {record : PeCodeViewRecord} {entry : PeDebugEntry}
    (h : record.Inside image.buffer.length) :
    (parseCodeViewEntry image record entry).Runs (PeEvent.Good image.buffer.length)
      (PeCodeViewRecord.Inside image.buffer.length) := by
  refine .ite (fun _ => .pure h) fun _ => ?_
  refine .ite (fun _ => .pure h) fun hsmall => ?_
  refine .ite (fun _ => .pure h) fun _ => ?_
  split
  · exact .pure h
  · next blobOffset hblob =>
    split
    · exact .pure h
    · next blob hbytes =>
      have hlength := not_lt.mp hsmall
      have hfits : blobOffset+entry.sizeOfData.toNat ≤ image.buffer.length := by
        rw [bytes] at hbytes
        split_ifs at hbytes with hfits
        exact fits_iff.mp hfits
      have hread : PeEvent.Good image.buffer.length (.read blobOffset 4) := by
        rw [codeViewHeaderSize] at hlength
        show blobOffset+4 ≤ image.buffer.length
        omega
      refine .bind (P := fun _ => True) (.note hread trivial) fun signature _ => ?_
      refine .ite (fun _ => .pure h) fun _ => ?_
      exact parseRsdsRecord_runs h (codeViewBlob_bound hblob) hfits hlength

theorem parseCodeViewEntries_runs {record : PeCodeViewRecord} {entries : List PeDebugEntry}
    (h : record.Inside image.buffer.length) :
    (parseCodeViewEntries image record entries).Runs (PeEvent.Good image.buffer.length)
      (PeCodeViewRecord.Inside image.buffer.length) := by
  induction entries generalizing record with
  | nil =>
    rw [parseCodeViewEntries]
    refine .pure ?_
    split_ifs
    · exact h
    · exact h
  | cons entry entries ih =>
    refine .bind (parseCodeViewEntry_runs h) fun record' h' => ?_
    exact .ite (fun _ => .pure h') fun _ => ih h'

theorem parseCodeViewRecord_runs (h : ViewsInside image) :
    (parseCodeViewRecord image).Runs (PeEvent.Good image.buffer.length) fun i =>
      i.buffer = image.buffer ∧ i.sections = image.sections ∧ ViewsInside i :=
  .bind (parseCodeViewEntries_runs h.codeView) fun _ hcode =>
    .pure ⟨rfl, rfl, h.dllName, h.exports, hcode⟩

end

/-- What is known of an image that was parsed from a buffer. -/
structure ParsedFrom (b : Text) (image : PeImage) : Prop where
  buffer : image.buffer = b
  sections : ∀ s ∈ image.sections, s.Sound b.length
  views : ViewsInside image

theorem parseImage_runs (b : Text) : (parseImage b).Runs (PeEvent.Good b.length) fun image =>
    ParsedFrom b image ∧ image.codeView.present = false := by
  refine .bind parseHeaders_runs fun p hbound => ?_
  obtain ⟨headers, sectionTableOffset⟩ := p
  refine .bind (parseSectionTable_runs hbound) fun sections hsections => .pure ⟨⟨rfl, hsections, ?_⟩, rfl⟩
  exact ⟨View.inside_default _, fun e he => absurd he List.not_mem_nil,
    View.inside_default _, View.inside_default _⟩

theorem ParsedFrom.step {b : Text} {image : PeImage} {step : PeParser PeImage}
    (h : ParsedFrom b image) (hstep : StepSafe image step) (hpresent : image.codeView.present = false) :
    step.Runs (PeEvent.Good b.length) fun i => ParsedFrom b i ∧ i.codeView.present = false := by
  rw [StepSafe, h.buffer] at hstep
  refine hstep.mono fun i hi => ?_
  obtain ⟨hsame, hviews⟩ := hi
  refine ⟨⟨hsame.buffer.trans h.buffer, ?_, hviews⟩, hsame.present.trans hpresent⟩
  rw [hsame.sections]
  exact h.sections

theorem parseDirectories_runs (b : Text) :
    (parseDirectories b).Runs (PeEvent.Good b.length) fun image =>
      ParsedFrom b image ∧ image.codeView.present = false := by
  refine .bind (parseImage_runs b) fun image himage => ?_
  refine .bind (himage.1.step (parseExportDirectory_runs himage.1.views) himage.2) fun image himage => ?_
  exact himage.1.step (parseDebugDirectory_runs himage.1.views) himage.2

theorem parse_runs (b : Text) : (parse b).Runs (PeEvent.Good b.length) (ParsedFrom b) := by
  refine .bind (parseDirectories_runs b) fun image himage => ?_
  have hrecord := parseCodeViewRecord_runs himage.1.views
  rw [himage.1.buffer] at hrecord
  refine hrecord.mono fun i hi => ⟨hi.1, ?_, hi.2.2⟩
  rw [hi.2.1]
  exact himage.1.sections

/-- Every untested read is of bytes of the file, every view of the result is inside it, and no
offset leaves 64 bits, those of the sections' own arithmetic included. -/
theorem parse_reads_file (b : Text) :
    (∀ e ∈ (parse b).events, PeEvent.Good b.length e) ∧
      (∀ image, (parse b).result = .ok image → ViewsInside image ∧ image.buffer = b ∧
        ∀ s ∈ image.sections, s.name.Inside b.length) ∧
      ∀ (s : PeSection) (rva offset : UInt32), s.virtualEnd < 2^64 ∧ s.rawEnd < 2^64 ∧
        s.pointerToRawData.toNat+(rva.toNat-s.virtualAddress.toNat) < 2^64 ∧
        s.virtualAddress.toNat+(offset.toNat-s.pointerToRawData.toNat) < 2^64 := by
  refine ⟨(parse_runs b).events, ?_, ?_⟩
  · intro image h
    have hparsed := (parse_runs b).result image h
    exact ⟨hparsed.views, hparsed.buffer, fun s hs => (hparsed.sections s hs).1⟩
  · intro s rva offset
    have hva := s.virtualAddress.toNat_lt
    have hvs := s.virtualSize.toNat_lt
    have hraw := s.sizeOfRawData.toNat_lt
    have hpointer := s.pointerToRawData.toNat_lt
    have hrva := rva.toNat_lt
    have hoffset := offset.toNat_lt
    rw [PeSection.virtualEnd, PeSection.rawEnd]
    refine ⟨?_, by omega, by omega, by omega⟩
    split_ifs <;> omega

end DSigMatcher.Pe
