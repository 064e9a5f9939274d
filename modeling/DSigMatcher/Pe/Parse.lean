import DSigMatcher.Pe.PeImage

namespace DSigMatcher.Pe
open DSigMatcher.Base DSigMatcher.Framework

def dosHeaderMinimumSize : Nat := 64
def dosHeaderLfanewOffset : Nat := 0x3c
def ntSignatureSize : Nat := 4
def coffHeaderSize : Nat := 20
def sectionHeaderSize : Nat := 40
def exportDirectoryHeaderSize : Nat := 40
def debugDirectoryEntrySize : Nat := 28
def codeViewHeaderSize : Nat := 24
def dataDirectoryEntrySize : Nat := 8
def dosMagic : UInt16 := 0x5a4d
def ntSignature : UInt32 := 0x00004550
def maximumExportEntries : UInt32 := 4000000
def maximumDebugEntries : Nat := 4096
def maximumCodeViewPathLength : Nat := 4096
def symbolServerRoot : Text := text "https://msdl.microsoft.com/download/symbols"
def peDataDirectoryCount : Nat := 16
def peDirectoryEntryExport : Nat := 0
def peDirectoryEntryDebug : Nat := 6
def peDebugTypeCodeView : UInt32 := 2
def peOptionalMagicPe32 : UInt16 := 0x10b
def peOptionalMagicPe32Plus : UInt16 := 0x20b
def peSectionNameLength : Nat := 8

/-- `OptionalHeaderPe32Size`, which is also where the data directories start. -/
def optionalHeaderSize (isPe32Plus : Bool) : Nat := if isPe32Plus then 112 else 96

/-- The first checks of `Parse`, up to where the COFF header starts. -/
def parseDosHeader (b : Text) : PeParser (UInt32 × Nat) := do
  require (2 ≤ b.length) (text "file is smaller than a DOS header")
  require (u16 b 0 = some dosMagic) (text "missing MZ signature; not a PE image")
  require (dosHeaderMinimumSize ≤ b.length) (text "DOS header is truncated")
  let lfanew ← tested (u32 b dosHeaderLfanewOffset) (text "DOS header is truncated before e_lfanew")
  require (dosHeaderMinimumSize ≤ lfanew.toNat) (text "e_lfanew points inside the DOS header")
  let signature ← tested (u32 b lfanew.toNat) (text "file ends before the NT headers")
  require (signature = ntSignature) (text "missing PE signature at e_lfanew")
  let coffOffset ← sum (lfanew.toNat+ntSignatureSize)
  require (fits b coffOffset coffHeaderSize) (text "COFF file header is truncated")
  pure (lfanew,coffOffset)

def parseCoffHeader (b : Text) (lfanew : UInt32) (coffOffset : Nat) : PeParser PeHeaders := do
  let machine ← read16 b coffOffset 0
  let numberOfSections ← read16 b coffOffset 2
  let timeDateStamp ← read32 b coffOffset 4
  let pointerToSymbolTable ← read32 b coffOffset 8
  let numberOfSymbols ← read32 b coffOffset 12
  let sizeOfOptionalHeader ← read16 b coffOffset 16
  let characteristics ← read16 b coffOffset 18
  pure
    { ntHeaderOffset := lfanew
      machine, numberOfSections, timeDateStamp, pointerToSymbolTable, numberOfSymbols,
      sizeOfOptionalHeader, characteristics }

/-- What is tested before the fields of the optional header are read. -/
def parseOptionalMagic (b : Text) (optionalOffset optionalSize : Nat) : PeParser UInt16 := do
  require (2 ≤ optionalSize) (text "optional header is missing")
  require (fits b optionalOffset optionalSize)
    (text "optional header extends past the end of the file")
  let magic ← tested (u16 b optionalOffset) (text "optional header magic is unreadable")
  require (magic = peOptionalMagicPe32 ∨ magic = peOptionalMagicPe32Plus)
    (text "unknown optional header magic")
  require (optionalHeaderSize (magic = peOptionalMagicPe32Plus) ≤ optionalSize)
    (text "optional header is truncated before the data directory count")
  pure magic

def parseImageBase (b : Text) (optionalOffset : Nat) (isPe32Plus : Bool) : PeParser UInt64 :=
  if isPe32Plus then read64 b optionalOffset 24
  else do
    let narrowImageBase ← read32 b optionalOffset 28
    pure narrowImageBase.toUInt64

def parseOptionalHeader (b : Text) (headers : PeHeaders) (optionalOffset : Nat) (magic : UInt16) :
    PeParser PeHeaders := do
  let isPe32Plus : Bool := magic = peOptionalMagicPe32Plus
  let majorLinkerVersion ← read8 b optionalOffset 2
  let minorLinkerVersion ← read8 b optionalOffset 3
  let sizeOfCode ← read32 b optionalOffset 4
  let sizeOfInitializedData ← read32 b optionalOffset 8
  let sizeOfUninitializedData ← read32 b optionalOffset 12
  let addressOfEntryPoint ← read32 b optionalOffset 16
  let baseOfCode ← read32 b optionalOffset 20
  let imageBase ← parseImageBase b optionalOffset isPe32Plus
  let sectionAlignment ← read32 b optionalOffset 32
  let fileAlignment ← read32 b optionalOffset 36
  let subsystem ← read16 b optionalOffset 68
  let dllCharacteristics ← read16 b optionalOffset 70
  let sizeOfImage ← read32 b optionalOffset 56
  let sizeOfHeaders ← read32 b optionalOffset 60
  let checkSum ← read32 b optionalOffset 64
  let declaredDataDirectories ← read32 b optionalOffset (if isPe32Plus then 108 else 92)
  pure
    { headers with
      optionalMagic := magic
      isPe32Plus, majorLinkerVersion, minorLinkerVersion, sizeOfCode, sizeOfInitializedData,
      sizeOfUninitializedData, addressOfEntryPoint, baseOfCode, imageBase, sectionAlignment,
      fileAlignment, subsystem, dllCharacteristics, sizeOfImage, sizeOfHeaders, checkSum,
      declaredDataDirectories }

/-- The directories that are declared, at most sixteen, and have room in the optional header. -/
def directoryCount (headers : PeHeaders) (optionalSize : Nat) : Nat :=
  min (min headers.declaredDataDirectories.toNat peDataDirectoryCount)
    ((optionalSize-optionalHeaderSize headers.isPe32Plus)/dataDirectoryEntrySize)

def parseDataDirectory (b : Text) (directoryOffset index : Nat) : PeParser PeDataDirectory := do
  let base ← sum (directoryOffset+index*dataDirectoryEntrySize)
  let rva ← read32 b base 0
  let size ← read32 b base 4
  pure { rva, size }

/-- The headers, and where the section table starts. -/
def parseHeaders (b : Text) : PeParser (PeHeaders × Nat) := do
  let (lfanew,coffOffset) ← parseDosHeader b
  let headers ← parseCoffHeader b lfanew coffOffset
  let optionalOffset ← sum (coffOffset+coffHeaderSize)
  let optionalSize := headers.sizeOfOptionalHeader.toNat
  let magic ← parseOptionalMagic b optionalOffset optionalSize
  let headers ← parseOptionalHeader b headers optionalOffset magic
  let directoryOffset ← sum (optionalOffset+optionalHeaderSize headers.isPe32Plus)
  let dataDirectories ← Traced.collect (parseDataDirectory b directoryOffset)
    (List.range (directoryCount headers optionalSize))
  let sectionTableOffset ← sum (optionalOffset+optionalSize)
  pure ({ headers with dataDirectories },sectionTableOffset)

def parseSection (b : Text) (sectionTableOffset index : Nat) : PeParser PeSection := do
  let base ← sum (sectionTableOffset+index*sectionHeaderSize)
  let nameBytes ← tested (bytes b base peSectionNameLength) (text "section header is truncated")
  let name ← keep ⟨base,(nameBytes.takeWhile (· ≠ 0)).length⟩
  let virtualSize ← read32 b base 8
  let virtualAddress ← read32 b base 12
  let sizeOfRawData ← read32 b base 16
  let pointerToRawData ← read32 b base 20
  let pointerToRelocations ← read32 b base 24
  let pointerToLinenumbers ← read32 b base 28
  let numberOfRelocations ← read16 b base 32
  let numberOfLinenumbers ← read16 b base 34
  let characteristics ← read32 b base 36
  require (sizeOfRawData = 0 ∨ fits b pointerToRawData.toNat sizeOfRawData.toNat)
    (text "section '" ++ name.bytes b ++ text "' claims raw data past the end of the file")
  pure
    { name, virtualSize, virtualAddress, sizeOfRawData, pointerToRawData, pointerToRelocations,
      pointerToLinenumbers, numberOfRelocations, numberOfLinenumbers, characteristics }

def parseSectionTable (b : Text) (numberOfSections : UInt16) (sectionTableOffset : Nat) :
    PeParser (List PeSection) := do
  let requiredBytes ← sum (numberOfSections.toNat*sectionHeaderSize)
  require (fits b sectionTableOffset requiredBytes)
    (text "section table extends past the end of the file")
  Traced.collect (parseSection b sectionTableOffset) (List.range numberOfSections.toNat)

/-- The fields of the export directory's header that are used. -/
structure ExportHeader where
  nameRva : UInt32
  ordinalBase : UInt32
  numberOfFunctions : UInt32
  numberOfNames : UInt32
  functionsRva : UInt32
  namesRva : UInt32
  ordinalsRva : UInt32
  deriving DecidableEq

def parseExportHeader (b : Text) (headerOffset : Nat) : PeParser ExportHeader := do
  let nameRva ← read32 b headerOffset 12
  let ordinalBase ← read32 b headerOffset 16
  let numberOfFunctions ← read32 b headerOffset 20
  let numberOfNames ← read32 b headerOffset 24
  let functionsRva ← read32 b headerOffset 28
  let namesRva ← read32 b headerOffset 32
  let ordinalsRva ← read32 b headerOffset 36
  pure { nameRva, ordinalBase, numberOfFunctions, numberOfNames, functionsRva, namesRva, ordinalsRva }

def parseMappedString (image : PeImage) (rva : UInt32) (error : Text) : PeParser View := do
  let v ← tested (image.readMappedString rva) error
  keep v

/-- The name of an entry, where its name pointer is not zero. -/
def parseExportName (image : PeImage) (entryNameRva : UInt32) (entry : PeExport) :
    PeParser PeExport :=
  if entryNameRva ≠ 0 then do
    let name ← parseMappedString image entryNameRva (text "export name is not readable")
    pure { entry with name, isNamed := true }
  else pure entry

/-- The forwarder of an entry, where its rva lies in the export directory. -/
def parseForwarder (image : PeImage) (entry : PeExport) : PeParser PeExport :=
  if image.isInsideExportDirectory entry.rva then do
    let forwarderName ← parseMappedString image entry.rva
      (text "forwarded export string is not readable")
    pure { entry with forwarderName, isForwarder := true }
  else pure entry

/-- Where the three tables are. -/
structure ExportTables where
  functionsOffset : Nat
  namesOffset : Nat
  ordinalsOffset : Nat

/-- `Referenced` and `Exports` while they are filled. -/
structure ExportScan where
  referenced : List Bool
  exports : List PeExport := []

def parseTableEntry {α : Type} (read : Text → Nat → Option α) (b : Text) (offset index width : Nat)
    (error : Text) : PeParser α := do
  let entryOffset ← sum (offset+index*width)
  tested (read b entryOffset) error

/-- An element of the name pointer table, with the slot its ordinal refers to. -/
def parseNamedExport (image : PeImage) (header : ExportHeader) (tables : ExportTables)
    (scan : ExportScan) (index : Nat) : PeParser ExportScan := do
  let entryNameRva ← parseTableEntry u32 image.buffer tables.namesOffset index 4
    (text "export name pointer table is truncated")
  let addressIndex ← parseTableEntry u16 image.buffer tables.ordinalsOffset index 2
    (text "export ordinal table is truncated")
  require (addressIndex.toNat < header.numberOfFunctions.toNat)
    (text "export ordinal is outside the export address table")
  let functionRva ← parseTableEntry u32 image.buffer tables.functionsOffset addressIndex.toNat 4
    (text "export address table is truncated")
  let entry : PeExport :=
    { addressIndex := addressIndex.toUInt32
      ordinal := header.ordinalBase+addressIndex.toUInt32
      rva := functionRva }
  let entry ← parseExportName image entryNameRva entry
  let entry ← parseForwarder image entry
  pure ⟨scan.referenced.set addressIndex.toNat true,scan.exports ++ [entry]⟩

/-- A slot that no name referred to. -/
def parseUnnamedExport (image : PeImage) (header : ExportHeader) (tables : ExportTables)
    (scan : ExportScan) (index : Nat) : PeParser ExportScan :=
  if scan.referenced.getD index false then pure scan
  else do
    let functionRva ← parseTableEntry u32 image.buffer tables.functionsOffset index 4
      (text "export address table is truncated")
    if functionRva = 0 then pure scan
    else do
      let entry ← parseForwarder image
        { addressIndex := UInt32.ofNat index
          ordinal := header.ordinalBase+UInt32.ofNat index
          rva := functionRva }
      pure { scan with exports := scan.exports ++ [entry] }

/-- The order of the sort, by ordinal and then by slot. -/
def PeExport.le (left right : PeExport) : Bool :=
  if left.ordinal ≠ right.ordinal then left.ordinal < right.ordinal
  else left.addressIndex ≤ right.addressIndex

/-- The sort of the exports and what is counted of them. -/
def finishExports (image : PeImage) (exports : List PeExport) : PeImage :=
  let exports := exports.mergeSort PeExport.le
  let counted := exports.filter fun e => !e.isForwarder
  { image with
    exports
    exportDirectory :=
      { image.exportDirectory with
        forwarderCount := UInt32.ofNat (exports.countP (·.isForwarder))
        namedExportCount := UInt32.ofNat (counted.countP (·.isNamed))
        unnamedExportCount := UInt32.ofNat (counted.countP fun e => !e.isNamed)
        distinctAddressCount := UInt32.ofNat (counted.map (·.rva)).dedup.length
        present := true } }

def parseExportTables (image : PeImage) (header : ExportHeader) : PeParser ExportTables := do
  require (header.functionsRva ≠ 0 ∧ header.namesRva ≠ 0 ∧ header.ordinalsRva ≠ 0)
    (text "export directory declares entries but has a null array RVA")
  let functionsLength ← sum (header.numberOfFunctions.toNat*4)
  let functionsOffset ← tested (image.mapRvaRange header.functionsRva functionsLength)
    (text "export address table does not map into the file")
  let namesLength ← sum (header.numberOfNames.toNat*4)
  let namesOffset ← tested (image.mapRvaRange header.namesRva namesLength)
    (text "export name pointer table does not map into the file")
  let ordinalsLength ← sum (header.numberOfNames.toNat*2)
  let ordinalsOffset ← tested (image.mapRvaRange header.ordinalsRva ordinalsLength)
    (text "export ordinal table does not map into the file")
  pure { functionsOffset, namesOffset, ordinalsOffset }

def parseExports (image : PeImage) (header : ExportHeader) : PeParser PeImage :=
  if header.numberOfFunctions = 0 ∧ header.numberOfNames = 0 then
    pure { image with exportDirectory := { image.exportDirectory with present := true } }
  else do
    let tables ← parseExportTables image header
    let scan ← Traced.thread (parseNamedExport image header tables)
      ⟨List.replicate header.numberOfFunctions.toNat false,[]⟩
      (List.range header.numberOfNames.toNat)
    let scan ← Traced.thread (parseUnnamedExport image header tables) scan
      (List.range header.numberOfFunctions.toNat)
    pure (finishExports image scan.exports)

/-- The end of the directory's range: it holds its header whatever size it declares. -/
def exportDirectoryEnd (directory : PeDataDirectory) : Nat :=
  directory.rva.toNat +
    (if exportDirectoryHeaderSize ≤ directory.size.toNat then directory.size.toNat
      else exportDirectoryHeaderSize)

def withExportHeader (image : PeImage) (directory : PeDataDirectory) (header : ExportHeader)
    (rvaEnd : Nat) : PeImage :=
  { image with
    exportDirectory :=
      { image.exportDirectory with
        rva := directory.rva
        size := directory.size
        rvaEnd
        ordinalBase := header.ordinalBase
        numberOfFunctions := header.numberOfFunctions
        numberOfNames := header.numberOfNames } }

def parseDllName (image : PeImage) (nameRva : UInt32) : PeParser PeImage :=
  if nameRva ≠ 0 then do
    let dllName ← parseMappedString image nameRva (text "export directory DLL name is not readable")
    pure { image with exportDirectory := { image.exportDirectory with dllName } }
  else pure image

def parseExportDirectory (image : PeImage) : PeParser PeImage :=
  match image.headers.directory peDirectoryEntryExport with
  | none => pure image
  | some directory =>
    if directory.rva = 0 ∧ directory.size = 0 then pure image
    else do
      require (directory.rva ≠ 0 ∧ directory.size ≠ 0)
        (text "export directory has a zero RVA or a zero size")
      let headerOffset ← tested (image.mapRvaRange directory.rva exportDirectoryHeaderSize)
        (text "export directory does not map into the file")
      let header ← parseExportHeader image.buffer headerOffset
      require (header.numberOfFunctions ≤ maximumExportEntries ∧
          header.numberOfNames ≤ maximumExportEntries)
        (text "export directory claims an implausible number of entries")
      let rvaEnd ← sum (exportDirectoryEnd directory)
      let image ← parseDllName (withExportHeader image directory header rvaEnd) header.nameRva
      parseExports image header

def parseDebugEntry (b : Text) (baseOffset index : Nat) : PeParser PeDebugEntry := do
  let base ← sum (baseOffset+index*debugDirectoryEntrySize)
  let characteristics ← read32 b base 0
  let timeDateStamp ← read32 b base 4
  let majorVersion ← read16 b base 8
  let minorVersion ← read16 b base 10
  let type ← read32 b base 12
  let sizeOfData ← read32 b base 16
  let addressOfRawData ← read32 b base 20
  let pointerToRawData ← read32 b base 24
  pure
    { characteristics, timeDateStamp, majorVersion, minorVersion, type, sizeOfData,
      addressOfRawData, pointerToRawData }

def withCodeViewError (image : PeImage) (error : Text) : PeImage :=
  { image with codeView := { image.codeView with error } }

def parseDebugDirectory (image : PeImage) : PeParser PeImage :=
  match image.headers.directory peDirectoryEntryDebug with
  | none => pure (withCodeViewError image (text "image has no debug directory"))
  | some directory =>
    if directory.rva = 0 ∧ directory.size = 0 then
      pure (withCodeViewError image (text "image has no debug directory"))
    else do
      require (directory.rva ≠ 0 ∧ directory.size ≠ 0)
        (text "debug directory has a zero RVA or a zero size")
      let entryCount := directory.size.toNat/debugDirectoryEntrySize
      if entryCount = 0 then
        pure (withCodeViewError image (text "debug directory is smaller than one entry"))
      else do
        require (entryCount ≤ maximumDebugEntries)
          (text "debug directory claims an implausible number of entries")
        let length ← sum (entryCount*debugDirectoryEntrySize)
        let baseOffset ← tested (image.mapRvaRange directory.rva length)
          (text "debug directory does not map into the file")
        let debugEntries ← Traced.collect (parseDebugEntry image.buffer baseOffset)
          (List.range entryCount)
        pure { image with debugEntries }

def hexDigit (d : Nat) : UInt8 := UInt8.ofNat (if d < 10 then 48+d else 55+d)

/-- `%0*X`. -/
def upperHex (width n : Nat) : Text :=
  let digits := ((Nat.digits 16 n).map hexDigit).reverse
  List.replicate (width-digits.length) 48 ++ digits

/-- What follows the last separator. -/
def baseNameOfSymbolPath (path : Text) : Text :=
  (path.reverse.takeWhile fun c => c ≠ 92 ∧ c ≠ 47).reverse

/-- Where the blob of a record is: at its file pointer, else at its address. -/
def codeViewBlob (image : PeImage) (entry : PeDebugEntry) : Option Nat :=
  let rawStart := entry.pointerToRawData.toNat
  let rawLength := entry.sizeOfData.toNat
  if rawStart ≠ 0 ∧ rawLength ≤ image.buffer.length ∧ rawStart ≤ image.buffer.length-rawLength then
    some rawStart
  else image.mapRvaRange entry.addressOfRawData rawLength

/-- The path of a record: up to the next zero of the file, else the rest of the record. -/
def codeViewPath (b : Text) (pathOffset rawLength : Nat) : View :=
  match cString b pathOffset with
  | some path => path
  | none => ⟨pathOffset,rawLength-codeViewHeaderSize⟩

/-- What is derived from the fields of a record. -/
def finishCodeView (b : Text) (record : PeCodeViewRecord) : PeCodeViewRecord :=
  let pdbName := baseNameOfSymbolPath (record.pdbPath.bytes b)
  let guid := upperHex 8 record.data1.toNat ++ upperHex 4 record.data2.toNat ++
    upperHex 4 record.data3.toNat ++ record.data4.flatMap fun c => upperHex 2 c.toNat
  let symbolKey := guid ++ upperHex 1 record.age.toNat
  { record with
    pdbName, guid, symbolKey
    symbolUrl := symbolServerRoot ++ text "/" ++ pdbName ++ text "/" ++ symbolKey ++ text "/" ++ pdbName
    present := true
    error := [] }

def parseRsdsRecord (b : Text) (record : PeCodeViewRecord) (blobOffset rawLength : Nat) :
    PeParser PeCodeViewRecord := do
  let signature ← keep ⟨blobOffset,4⟩
  let data1 ← read32 b blobOffset 4
  let data2 ← read16 b blobOffset 8
  let data3 ← read16 b blobOffset 10
  let guidOffset ← sum (blobOffset+12)
  match bytes b guidOffset 8 with
  | none =>
    pure { record with
      error := text "CodeView record is truncated inside the GUID"
      data1, data2, data3
      signature := {} }
  | some data4 => do
    let age ← read32 b blobOffset 20
    let pathOffset ← sum (blobOffset+codeViewHeaderSize)
    let pdbPath ← keep (codeViewPath b pathOffset rawLength)
    pure (finishCodeView b { record with signature, data1, data2, data3, data4, age, pdbPath })

/-- One entry of the loop of `ParseCodeViewRecord`. -/
def parseCodeViewEntry (image : PeImage) (record : PeCodeViewRecord) (entry : PeDebugEntry) :
    PeParser PeCodeViewRecord :=
  let rawLength := entry.sizeOfData.toNat
  if entry.type ≠ peDebugTypeCodeView then pure record
  else if rawLength < codeViewHeaderSize then
    pure { record with error := text "CodeView debug entry is too small to hold an RSDS record" }
  else if rawLength > maximumCodeViewPathLength*4 then
    pure { record with error := text "CodeView debug entry is implausibly large" }
  else
    match codeViewBlob image entry with
    | none => pure { record with error := text "CodeView blob is not reachable from the file" }
    | some blobOffset =>
      match bytes image.buffer blobOffset rawLength with
      | none => pure { record with error := text "CodeView blob is not reachable from the file" }
      | some blob => do
        let signature ← Traced.note (.read blobOffset 4) (blob.take 4)
        if signature ≠ text "RSDS" then
          pure { record with error := text "CodeView record is not an RSDS record" }
        else parseRsdsRecord image.buffer record blobOffset rawLength

/-- The first record that is present ends the loop. -/
def parseCodeViewEntries (image : PeImage) (record : PeCodeViewRecord) :
    List PeDebugEntry → PeParser PeCodeViewRecord
  | [] =>
    pure (if !record.present && record.error = [] then
      { record with error := text "image has no CodeView debug entry" } else record)
  | entry::entries => do
    let record ← parseCodeViewEntry image record entry
    if record.present then pure record else parseCodeViewEntries image record entries

def parseCodeViewRecord (image : PeImage) : PeParser PeImage := do
  let codeView ← parseCodeViewEntries image image.codeView image.debugEntries
  pure { image with codeView }

/-- The image with its headers and sections. -/
def parseImage (b : Text) : PeParser PeImage := do
  let (headers,sectionTableOffset) ← parseHeaders b
  let sections ← parseSectionTable b headers.numberOfSections sectionTableOffset
  pure { buffer := b, headers, sections }

/-- The image with its directories. -/
def parseDirectories (b : Text) : PeParser PeImage := do
  let image ← parseImage b
  let image ← parseExportDirectory image
  parseDebugDirectory image

def parse (b : Text) : PeParser PeImage := do
  let image ← parseDirectories b
  parseCodeViewRecord image

end DSigMatcher.Pe
