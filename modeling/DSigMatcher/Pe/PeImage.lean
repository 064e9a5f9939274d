import DSigMatcher.Pe.ByteReader

namespace DSigMatcher.Pe
open DSigMatcher.Base DSigMatcher.Framework

structure PeDataDirectory where
  rva : UInt32 := 0
  size : UInt32 := 0
  deriving DecidableEq

structure PeSection where
  name : View := {}
  virtualSize : UInt32 := 0
  virtualAddress : UInt32 := 0
  sizeOfRawData : UInt32 := 0
  pointerToRawData : UInt32 := 0
  pointerToRelocations : UInt32 := 0
  pointerToLinenumbers : UInt32 := 0
  numberOfRelocations : UInt16 := 0
  numberOfLinenumbers : UInt16 := 0
  characteristics : UInt32 := 0
  deriving DecidableEq

namespace PeSection

def virtualEnd (s : PeSection) : Nat :=
  s.virtualAddress.toNat + (if s.virtualSize ≠ 0 then s.virtualSize.toNat else s.sizeOfRawData.toNat)

def rawEnd (s : PeSection) : Nat := s.pointerToRawData.toNat + s.sizeOfRawData.toNat

def holdsRva (s : PeSection) (rva : UInt32) : Bool :=
  s.virtualAddress ≤ rva && rva.toNat < s.virtualEnd

def holdsOffset (s : PeSection) (offset : UInt32) : Bool :=
  s.sizeOfRawData ≠ 0 && s.pointerToRawData ≤ offset && offset.toNat < s.rawEnd

end PeSection

structure PeExport where
  name : View := {}
  ordinal : UInt32 := 0
  addressIndex : UInt32 := 0
  rva : UInt32 := 0
  isForwarder : Bool := false
  isNamed : Bool := false
  forwarderName : View := {}
  deriving DecidableEq

structure PeExportDirectoryInfo where
  present : Bool := false
  dllName : View := {}
  rva : UInt32 := 0
  size : UInt32 := 0
  ordinalBase : UInt32 := 0
  numberOfFunctions : UInt32 := 0
  numberOfNames : UInt32 := 0
  namedExportCount : UInt32 := 0
  unnamedExportCount : UInt32 := 0
  forwarderCount : UInt32 := 0
  distinctAddressCount : UInt32 := 0
  rvaEnd : Nat := 0
  deriving DecidableEq

structure PeDebugEntry where
  characteristics : UInt32 := 0
  timeDateStamp : UInt32 := 0
  majorVersion : UInt16 := 0
  minorVersion : UInt16 := 0
  type : UInt32 := 0
  sizeOfData : UInt32 := 0
  addressOfRawData : UInt32 := 0
  pointerToRawData : UInt32 := 0
  deriving DecidableEq

structure PeCodeViewRecord where
  present : Bool := false
  error : Text := []
  signature : View := {}
  data1 : UInt32 := 0
  data2 : UInt16 := 0
  data3 : UInt16 := 0
  data4 : Text := List.replicate 8 0
  age : UInt32 := 0
  pdbPath : View := {}
  pdbName : Text := []
  guid : Text := []
  symbolKey : Text := []
  symbolUrl : Text := []
  deriving DecidableEq

structure PeHeaders where
  ntHeaderOffset : UInt32 := 0
  machine : UInt16 := 0
  numberOfSections : UInt16 := 0
  timeDateStamp : UInt32 := 0
  pointerToSymbolTable : UInt32 := 0
  numberOfSymbols : UInt32 := 0
  sizeOfOptionalHeader : UInt16 := 0
  characteristics : UInt16 := 0
  optionalMagic : UInt16 := 0
  isPe32Plus : Bool := false
  majorLinkerVersion : UInt8 := 0
  minorLinkerVersion : UInt8 := 0
  sizeOfCode : UInt32 := 0
  sizeOfInitializedData : UInt32 := 0
  sizeOfUninitializedData : UInt32 := 0
  addressOfEntryPoint : UInt32 := 0
  baseOfCode : UInt32 := 0
  imageBase : UInt64 := 0
  sectionAlignment : UInt32 := 0
  fileAlignment : UInt32 := 0
  subsystem : UInt16 := 0
  dllCharacteristics : UInt16 := 0
  sizeOfImage : UInt32 := 0
  sizeOfHeaders : UInt32 := 0
  checkSum : UInt32 := 0
  declaredDataDirectories : UInt32 := 0
  dataDirectories : List PeDataDirectory := []
  deriving DecidableEq

def PeHeaders.directory (h : PeHeaders) (index : Nat) : Option PeDataDirectory :=
  h.dataDirectories[index]?

structure PeImage where
  buffer : Text
  headers : PeHeaders := {}
  sections : List PeSection := []
  exportDirectory : PeExportDirectoryInfo := {}
  exports : List PeExport := []
  debugEntries : List PeDebugEntry := []
  codeView : PeCodeViewRecord := {}
  deriving DecidableEq

namespace PeImage

def sectionContainingRva (image : PeImage) (rva : UInt32) : Option PeSection :=
  image.sections.find? (·.holdsRva rva)

def sectionContainingOffset (image : PeImage) (offset : UInt32) : Option PeSection :=
  image.sections.find? (·.holdsOffset offset)

/-- Where `RvaToOffset` takes the headers to end. -/
def rvaHeaderLimit (image : PeImage) : UInt32 :=
  match image.sections with
  | [] => image.headers.sizeOfHeaders
  | s::_ => s.virtualAddress

/-- Where `OffsetToRva` does. -/
def offsetHeaderLimit (image : PeImage) : UInt32 :=
  match image.sections with
  | [] => image.headers.sizeOfHeaders
  | s::_ => s.pointerToRawData

def rvaToOffset (image : PeImage) (rva : UInt32) : Option UInt32 :=
  match image.sectionContainingRva rva with
  | some owner =>
    let delta := rva.toNat-owner.virtualAddress.toNat
    if delta > owner.sizeOfRawData.toNat then none
    else
      let offset := owner.pointerToRawData.toNat+delta
      if offset ≥ image.buffer.length then none else some (UInt32.ofNat offset)
  | none =>
    if rva < image.rvaHeaderLimit ∧ rva.toNat < image.buffer.length then some rva else none

def offsetToRva (image : PeImage) (offset : UInt32) : Option UInt32 :=
  match image.sectionContainingOffset offset with
  | some owner =>
    let rva := owner.virtualAddress.toNat+(offset.toNat-owner.pointerToRawData.toNat)
    if rva > 0xffffffff then none else some (UInt32.ofNat rva)
  | none =>
    if offset < image.offsetHeaderLimit ∧ offset.toNat < image.buffer.length then some offset else none

def mapRvaRange (image : PeImage) (rva : UInt32) (length : Nat) : Option Nat :=
  match image.rvaToOffset rva with
  | none => none
  | some offset =>
    if length > image.buffer.length then none
    else if offset.toNat > image.buffer.length-length then none
    else some offset.toNat

def rvaRangeToOffset (image : PeImage) (rva : UInt32) (length : Nat) : Option UInt32 :=
  (image.mapRvaRange rva length).map UInt32.ofNat

def readMappedString (image : PeImage) (rva : UInt32) : Option View :=
  match image.mapRvaRange rva 1 with
  | none => none
  | some offset => cString image.buffer offset

def isInsideExportDirectory (image : PeImage) (rva : UInt32) : Bool :=
  if image.exportDirectory.rva = 0 ∨ image.exportDirectory.rvaEnd = 0 then false
  else image.exportDirectory.rva ≤ rva && rva.toNat < image.exportDirectory.rvaEnd

end PeImage

section
variable {s : PeSection} {image : PeImage} {rva offset : UInt32} {length start : Nat}

theorem holdsRva_iff :
    s.holdsRva rva = true ↔ s.virtualAddress.toNat ≤ rva.toNat ∧ rva.toNat < s.virtualEnd := by
  rw [PeSection.holdsRva, Bool.and_eq_true, decide_eq_true_iff, decide_eq_true_iff,
    UInt32.le_iff_toNat_le]

theorem holdsOffset_iff :
    s.holdsOffset offset = true ↔
      s.pointerToRawData.toNat ≤ offset.toNat ∧ offset.toNat < s.rawEnd := by
  rw [PeSection.holdsOffset, Bool.and_eq_true, Bool.and_eq_true, decide_eq_true_iff,
    decide_eq_true_iff, decide_eq_true_iff, UInt32.le_iff_toNat_le, and_assoc,
    and_iff_right_of_imp]
  rintro ⟨hle, hlt⟩ hzero
  rw [PeSection.rawEnd, hzero] at hlt
  exact absurd hlt (by rw [UInt32.toNat_zero]; omega)

theorem mapRvaRange_iff : image.mapRvaRange rva length = some start ↔
    ∃ offset, image.rvaToOffset rva = some offset ∧ offset.toNat = start ∧
      start+length ≤ image.buffer.length := by
  rw [PeImage.mapRvaRange]
  cases image.rvaToOffset rva with
  | none =>
    refine iff_of_false (fun h => ?_) ?_
    · cases h
    · rintro ⟨offset, h, -⟩
      cases h
  | some offset =>
    dsimp only
    constructor
    · intro h
      split_ifs at h with hlength hstart
      cases h
      exact ⟨offset, rfl, rfl, by omega⟩
    · rintro ⟨offset', h, rfl, hfits⟩
      cases h
      rw [if_neg (by omega), if_neg (by omega)]

/-- A range that is mapped starts at a 32-bit offset and ends in the file. -/
theorem mapRvaRange_fits (h : image.mapRvaRange rva length = some start) :
    start < 2^32 ∧ start+length ≤ image.buffer.length := by
  obtain ⟨offset, -, rfl, hfits⟩ := mapRvaRange_iff.mp h
  exact ⟨offset.toNat_lt, hfits⟩

theorem readMappedString_inside {v : View} (h : image.readMappedString rva = some v) :
    v.Inside image.buffer.length := by
  rw [PeImage.readMappedString] at h
  cases hmap : image.mapRvaRange rva 1 with
  | none =>
    rw [hmap] at h
    cases h
  | some start =>
    rw [hmap] at h
    exact cString_inside h

end

end DSigMatcher.Pe
