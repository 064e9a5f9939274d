import DSigMatcher.Pe.ParseSafe

namespace DSigMatcher.Pe
open DSigMatcher.Base DSigMatcher.Framework

namespace PeImage

/-- No rva lies in two sections. -/
def VirtualApart (image : PeImage) : Prop :=
  image.sections.Pairwise fun s t => ∀ rva, s.holdsRva rva → ¬ t.holdsRva rva

/-- No offset lies in the raw data of two sections. -/
def RawApart (image : PeImage) : Prop :=
  image.sections.Pairwise fun s t => ∀ offset, s.holdsOffset offset → ¬ t.holdsOffset offset

/-- An offset that is a byte of the headers and of no section's raw data. -/
def HeaderByte (image : PeImage) (offset : UInt32) : Prop :=
  offset < image.headers.sizeOfHeaders ∧ ∀ s ∈ image.sections, ¬ s.holdsOffset offset

/-- What the two conversions owe each other at an rva and its offset. -/
def Agree (image : PeImage) (rva offset : UInt32) : Prop :=
  (∀ s ∈ image.sections, s.holdsRva rva →
      s.holdsOffset offset ∧ offset.toNat < image.buffer.length ∧
        image.offsetToRva offset = some rva) ∧
    ((∀ s ∈ image.sections, ¬ s.holdsRva rva) → image.HeaderByte offset)

/-- In a section the rva is one of its raw data, at an offset of 32 bits; in none it is, read as an
offset, a byte of the headers. -/
def Convertible (image : PeImage) (rva : UInt32) : Prop :=
  match image.sectionContainingRva rva with
  | some s =>
    rva.toNat-s.virtualAddress.toNat < s.sizeOfRawData.toNat ∧
      s.pointerToRawData.toNat+(rva.toNat-s.virtualAddress.toNat) < 2^32
  | none => image.HeaderByte rva

end PeImage

/-- Where no two elements are looked for, the one that is there is found. -/
theorem find?_of_apart {α : Type*} {p : α → Bool} {l : List α} {a : α}
    (h : l.Pairwise fun a b => p a → ¬ p b) (ha : a ∈ l) (hp : p a) : l.find? p = some a := by
  induction l with
  | nil => cases ha
  | cons b l ih =>
    rw [List.pairwise_cons] at h
    rcases List.mem_cons.mp ha with rfl | ha
    · exact List.find?_cons_of_pos hp
    · have hb : ¬ p b := fun hb => h.1 a ha hb hp
      rw [List.find?_cons_of_neg hb]
      exact ih h.2 ha

section
variable {image : PeImage} {rva offset : UInt32} {s : PeSection}

theorem sectionContainingRva_eq (h : image.VirtualApart) (hs : s ∈ image.sections)
    (hholds : s.holdsRva rva) : image.sectionContainingRva rva = some s :=
  find?_of_apart (List.Pairwise.imp (fun hst => hst rva) h) hs hholds

theorem sectionContainingOffset_eq (h : image.RawApart) (hs : s ∈ image.sections)
    (hholds : s.holdsOffset offset) : image.sectionContainingOffset offset = some s :=
  find?_of_apart (List.Pairwise.imp (fun hst => hst offset) h) hs hholds

theorem sectionContainingRva_none :
    image.sectionContainingRva rva = none ↔ ∀ s ∈ image.sections, ¬ s.holdsRva rva := by
  rw [PeImage.sectionContainingRva, List.find?_eq_none]

theorem sectionContainingRva_some (h : image.sectionContainingRva rva = some s) :
    s ∈ image.sections ∧ s.virtualAddress.toNat ≤ rva.toNat ∧ rva.toNat < s.virtualEnd := by
  rw [PeImage.sectionContainingRva] at h
  have hholds := List.find?_some h
  exact ⟨List.mem_of_find?_eq_some h, holdsRva_iff.mp hholds⟩

/-- What the conversion of an rva gives in a section. -/
theorem rvaToOffset_some (h : image.sectionContainingRva rva = some s)
    (hoffset : image.rvaToOffset rva = some offset) :
    rva.toNat-s.virtualAddress.toNat ≤ s.sizeOfRawData.toNat ∧
      s.pointerToRawData.toNat+(rva.toNat-s.virtualAddress.toNat) < image.buffer.length ∧
      offset.toNat = (s.pointerToRawData.toNat+(rva.toNat-s.virtualAddress.toNat))%2^32 := by
  rw [PeImage.rvaToOffset, h] at hoffset
  dsimp only at hoffset
  split_ifs at hoffset with hdelta hend
  cases hoffset
  exact ⟨not_lt.mp hdelta, not_le.mp hend, UInt32.toNat_ofNat'⟩

/-- And outside all sections. -/
theorem rvaToOffset_none (h : image.sectionContainingRva rva = none) :
    image.rvaToOffset rva = some offset ↔
      offset = rva ∧ rva < image.rvaHeaderLimit ∧ rva.toNat < image.buffer.length := by
  rw [PeImage.rvaToOffset, h]
  dsimp only
  split_ifs with hlimit
  · rw [Option.some_inj, eq_comm (a := rva)]
    exact (and_iff_left hlimit).symm
  · refine iff_of_false (fun heq => ?_) fun hand => hlimit hand.2
    cases heq

/-- The offset of a byte of raw data converts back. -/
theorem offsetToRva_eq (h : image.sectionContainingOffset offset = some s)
    (hrva : rva.toNat = s.virtualAddress.toNat+(offset.toNat-s.pointerToRawData.toNat)) :
    image.offsetToRva offset = some rva := by
  rw [PeImage.offsetToRva, h]
  dsimp only
  rw [← hrva, if_neg (by have := rva.toNat_lt; omega), UInt32.ofNat_toNat]

theorem offsetToRva_some (h : image.sectionContainingOffset offset = some s)
    (hrva : image.offsetToRva offset = some rva) :
    rva.toNat = s.virtualAddress.toNat+(offset.toNat-s.pointerToRawData.toNat) := by
  rw [PeImage.offsetToRva, h] at hrva
  dsimp only at hrva
  split_ifs at hrva with hlimit
  cases hrva
  refine UInt32.toNat_ofNat_of_lt' ?_
  show _ < 2^32
  omega

/-- In the section that holds the rva, the conversions agree when the rva is one of its raw data. -/
theorem agree_in_section (hraw : image.RawApart) (hs : image.sectionContainingRva rva = some s)
    (hoffset : image.rvaToOffset rva = some offset) :
    (s.holdsOffset offset ∧ image.offsetToRva offset = some rva) ↔
      rva.toNat-s.virtualAddress.toNat < s.sizeOfRawData.toNat ∧
        s.pointerToRawData.toNat+(rva.toNat-s.virtualAddress.toNat) < 2^32 := by
  obtain ⟨hmem, hstart, -⟩ := sectionContainingRva_some hs
  obtain ⟨hdelta, -, heq⟩ := rvaToOffset_some hs hoffset
  constructor
  · rintro ⟨hholds, hback⟩
    have hsection := sectionContainingOffset_eq hraw hmem hholds
    have hrva := offsetToRva_some hsection hback
    rw [holdsOffset_iff, PeSection.rawEnd] at hholds
    have hlt := offset.toNat_lt
    omega
  · rintro ⟨hlt, hnarrow⟩
    rw [Nat.mod_eq_of_lt hnarrow] at heq
    have hholds : s.holdsOffset offset := by
      rw [holdsOffset_iff, PeSection.rawEnd]
      omega
    exact ⟨hholds, offsetToRva_eq (sectionContainingOffset_eq hraw hmem hholds) (by omega)⟩

/-- The conversions of an image with sections apart agree at an rva exactly when it is convertible. -/
theorem agree_iff {b : Text} (hparse : (parse b).result = .ok image) (hvirtual : image.VirtualApart)
    (hraw : image.RawApart) (hoffset : image.rvaToOffset rva = some offset) :
    image.Agree rva offset ↔ image.Convertible rva := by
  rw [PeImage.Convertible]
  cases hs : image.sectionContainingRva rva with
  | none =>
    obtain ⟨rfl, -, -⟩ := (rvaToOffset_none hs).mp hoffset
    have hnone := sectionContainingRva_none.mp hs
    constructor
    · intro h
      exact h.2 hnone
    · intro h
      exact ⟨fun s hmem hholds => absurd hholds (hnone s hmem), fun _ => h⟩
  | some s =>
    obtain ⟨hmem, hheld⟩ := sectionContainingRva_some hs
    have hholds : s.holdsRva rva := holdsRva_iff.mpr hheld
    dsimp only
    rw [← agree_in_section hraw hs hoffset]
    constructor
    · intro h
      obtain ⟨hin, -, hback⟩ := h.1 s hmem hholds
      exact ⟨hin, hback⟩
    · rintro ⟨hin, hback⟩
      refine ⟨?_, fun hnone => absurd hholds (hnone s hmem)⟩
      intro t ht htholds
      have heq := sectionContainingRva_eq hvirtual ht htholds
      rw [hs] at heq
      cases heq
      have hend := ((parse_runs b).result image hparse).sections s hmem
      rw [holdsOffset_iff] at hin
      refine ⟨holdsOffset_iff.mpr hin, ?_, hback⟩
      rw [((parse_runs b).result image hparse).buffer]
      refine hin.2.trans_le (hend.2 ?_)
      rintro hzero
      rw [PeSection.rawEnd, hzero, UInt32.toNat_zero] at hin
      omega

end

/-- A file of 256 bytes with one section at 0x1000: 32 bytes, of which 16 are in the file, at 224. -/
def shortSectionFile : Text :=
  [77,90] ++ List.replicate 58 0 ++ [64,0,0,0] ++ [80,69,0,0] ++
    [0x4c,1,1,0] ++ List.replicate 12 0 ++ [96,0,0,0] ++
    [0x0b,1] ++ List.replicate 58 0 ++ [224,0,0,0] ++ List.replicate 32 0 ++
    List.replicate 8 0 ++ [32,0,0,0] ++ [0,16,0,0] ++ [16,0,0,0] ++ [224,0,0,0] ++
    List.replicate 16 0 ++ List.replicate 32 0

def shortSectionImage : PeImage :=
  { buffer := shortSectionFile
    headers :=
      { ntHeaderOffset := 64
        machine := 0x14c
        numberOfSections := 1
        sizeOfOptionalHeader := 96
        optionalMagic := peOptionalMagicPe32
        sizeOfHeaders := 224 }
    sections :=
      [{ name := ⟨184,0⟩
         virtualSize := 32
         virtualAddress := 0x1000
         sizeOfRawData := 16
         pointerToRawData := 224 }]
    codeView := { error := text "image has no debug directory" } }

theorem parse_shortSectionFile : (parse shortSectionFile).result = .ok shortSectionImage := by
  decide +kernel

theorem agree_iff_short_section :
    shortSectionImage.Agree 0x1004 228 ↔ shortSectionImage.Convertible 0x1004 :=
  agree_iff parse_shortSectionFile (List.pairwise_singleton _ _) (List.pairwise_singleton _ _)
    (by decide +kernel)

/-- The rva just behind the raw data converts to an offset that is no byte of the section. -/
theorem not_agree_short_section : (parse shortSectionFile).result = .ok shortSectionImage ∧
    shortSectionImage.VirtualApart ∧ shortSectionImage.RawApart ∧
      shortSectionImage.rvaToOffset 0x1010 = some 240 ∧ ¬ shortSectionImage.Agree 0x1010 240 := by
  refine ⟨parse_shortSectionFile, List.pairwise_singleton _ _, List.pairwise_singleton _ _,
    by decide +kernel, ?_⟩
  intro h
  have hin := (h.1 _ List.mem_cons_self (by decide +kernel)).1
  exact absurd hin (by decide +kernel)

namespace PeImage

/-- The i-th byte of a range. -/
def byteAfter (start : UInt32) (i : Nat) : UInt32 := UInt32.ofNat (start.toNat+i)

/-- What a range owes its offset, byte by byte. -/
structure MappedTo (image : PeImage) (rva : UInt32) (length : Nat) (offset : UInt32) : Prop where
  narrow : ∀ i < length, rva.toNat+i < 2^32 ∧ offset.toNat+i < 2^32
  bytes : ∀ i < length, image.rvaToOffset (byteAfter rva i) = some (byteAfter offset i)
  source : (∃ s ∈ image.sections, ∀ i < length,
      image.sectionContainingRva (byteAfter rva i) = some s ∧ s.holdsOffset (byteAfter offset i)) ∨
    ∀ i < length, image.sectionContainingRva (byteAfter rva i) = none ∧
      byteAfter offset i < image.headers.sizeOfHeaders
  inside : offset.toNat+length ≤ image.buffer.length

end PeImage

/-- A section and a range of rvas have a byte in common. -/
def PeSection.meets (s : PeSection) (rva length : Nat) : Prop :=
  max s.virtualAddress.toNat rva < min s.virtualEnd (rva+length)

/-- The range ends where the section or the headers it starts in do, and nothing before them in the
table meets it. -/
def PeImage.OneSource (image : PeImage) (rva : UInt32) (length : Nat) : Prop :=
  length = 0 ∨
    match image.sectionContainingRva rva with
    | some s =>
      rva.toNat+length ≤ min s.virtualEnd (2^32) ∧
        rva.toNat-s.virtualAddress.toNat+length ≤ s.sizeOfRawData.toNat ∧
        s.pointerToRawData.toNat+(rva.toNat-s.virtualAddress.toNat)+length ≤ 2^32 ∧
        ∀ t ∈ image.sections.takeWhile fun t => !t.holdsRva rva, ¬ t.meets rva.toNat length
    | none =>
      rva.toNat+length ≤ min image.rvaHeaderLimit.toNat image.headers.sizeOfHeaders.toNat ∧
        ∀ t ∈ image.sections, ¬ t.meets rva.toNat length

/-- An element that one test finds is found by another when it passes and none before it does. -/
theorem find?_eq_iff_of_find? {α : Type*} {p q : α → Bool} {l : List α} {a : α}
    (h : l.find? p = some a) :
    l.find? q = some a ↔ q a ∧ ∀ b ∈ l.takeWhile (!p ·), ¬ q b := by
  induction l with
  | nil => cases h
  | cons b l ih =>
    by_cases hb : p b
    · rw [List.find?_cons_of_pos hb] at h
      cases h
      rw [List.takeWhile_cons_of_neg (by rw [hb]; decide)]
      constructor
      · intro hfound
        exact ⟨List.find?_some hfound, fun c hc => absurd hc List.not_mem_nil⟩
      · rintro ⟨hq, -⟩
        exact List.find?_cons_of_pos hq
    · rw [List.find?_cons_of_neg hb] at h
      rw [List.takeWhile_cons_of_pos (by rw [Bool.not_eq_true] at hb; rw [hb]; rfl)]
      by_cases hq : q b
      · rw [List.find?_cons_of_pos hq]
        refine iff_of_false (fun heq => ?_) fun hnone => hnone.2 b List.mem_cons_self hq
        cases heq
        exact hb (List.find?_some h)
      · rw [List.find?_cons_of_neg hq, ih h]
        refine and_congr_right fun _ => ?_
        rw [List.forall_mem_cons]
        exact (and_iff_right hq).symm

section
variable {image : PeImage} {rva offset : UInt32} {s : PeSection} {length i : Nat}

theorem byteAfter_toNat (h : rva.toNat+i < 2^32) :
    (PeImage.byteAfter rva i).toNat = rva.toNat+i := UInt32.toNat_ofNat_of_lt' h

theorem byteAfter_zero : PeImage.byteAfter rva 0 = rva := UInt32.ofNat_toNat

theorem holdsRva_byteAfter (h : rva.toNat+i < 2^32) :
    s.holdsRva (PeImage.byteAfter rva i) ↔
      s.virtualAddress.toNat ≤ rva.toNat+i ∧ rva.toNat+i < s.virtualEnd := by
  rw [holdsRva_iff, byteAfter_toNat h]

theorem meets_iff (h : rva.toNat+length ≤ 2^32) :
    s.meets rva.toNat length ↔ ∃ i < length, s.holdsRva (PeImage.byteAfter rva i) := by
  rw [PeSection.meets, max_lt_iff, lt_min_iff, lt_min_iff]
  constructor
  · rintro ⟨⟨hva, hvaEnd⟩, hrva, hlength⟩
    refine ⟨max s.virtualAddress.toNat rva.toNat-rva.toNat, by omega, ?_⟩
    rw [holdsRva_byteAfter (by omega)]
    omega
  · rintro ⟨i, hi, hholds⟩
    rw [holdsRva_byteAfter (by omega)] at hholds
    omega

theorem rvaToOffset_eq (h : image.sectionContainingRva rva = some s)
    (hdelta : rva.toNat-s.virtualAddress.toNat ≤ s.sizeOfRawData.toNat)
    (hend : s.pointerToRawData.toNat+(rva.toNat-s.virtualAddress.toNat) < image.buffer.length) :
    image.rvaToOffset rva =
      some (UInt32.ofNat (s.pointerToRawData.toNat+(rva.toNat-s.virtualAddress.toNat))) := by
  rw [PeImage.rvaToOffset, h]
  dsimp only
  rw [if_neg (by omega), if_neg (by omega)]

theorem rvaRangeToOffset_some (h : image.rvaRangeToOffset rva length = some offset) :
    image.rvaToOffset rva = some offset ∧ offset.toNat+length ≤ image.buffer.length := by
  rw [PeImage.rvaRangeToOffset, Option.map_eq_some_iff] at h
  obtain ⟨start, hmap, rfl⟩ := h
  obtain ⟨offset, hoffset, rfl, hfits⟩ := mapRvaRange_iff.mp hmap
  rw [UInt32.ofNat_toNat]
  exact ⟨hoffset, hfits⟩

/-- A range in a section is mapped byte by byte exactly when it stays in the section's raw data. -/
theorem mappedTo_section_iff (hs : image.sectionContainingRva rva = some s) (hpos : 0 < length)
    (h : image.rvaRangeToOffset rva length = some offset) :
    image.MappedTo rva length offset ↔
      rva.toNat+length ≤ min s.virtualEnd (2^32) ∧
        rva.toNat-s.virtualAddress.toNat+length ≤ s.sizeOfRawData.toNat ∧
        s.pointerToRawData.toNat+(rva.toNat-s.virtualAddress.toNat)+length ≤ 2^32 ∧
        ∀ t ∈ image.sections.takeWhile fun t => !t.holdsRva rva, ¬ t.meets rva.toNat length := by
  obtain ⟨hoffset, hfits⟩ := rvaRangeToOffset_some h
  obtain ⟨hmem, hstart, -⟩ := sectionContainingRva_some hs
  obtain ⟨-, -, heq⟩ := rvaToOffset_some hs hoffset
  have hpointer := s.pointerToRawData.toNat_lt
  have hrva := rva.toNat_lt
  constructor
  · intro hmapped
    have hsource : ∀ i < length, image.sectionContainingRva (PeImage.byteAfter rva i) = some s ∧
        s.holdsOffset (PeImage.byteAfter offset i) := by
      rcases hmapped.source with ⟨t, -, ht⟩ | hnone
      · have hfirst := (ht 0 hpos).1
        rw [byteAfter_zero, hs] at hfirst
        cases hfirst
        exact ht
      · have hfirst := (hnone 0 hpos).1
        rw [byteAfter_zero, hs] at hfirst
        cases hfirst
    have hnarrow := hmapped.narrow (length-1) (by omega)
    have hlast := (sectionContainingRva_some (hsource (length-1) (by omega)).1).2.2
    rw [byteAfter_toNat hnarrow.1] at hlast
    have hraw := holdsOffset_iff.mp (hsource (length-1) (by omega)).2
    have hrawFirst := holdsOffset_iff.mp (hsource 0 hpos).2
    rw [byteAfter_toNat hnarrow.2, PeSection.rawEnd] at hraw
    rw [byteAfter_zero] at hrawFirst
    refine ⟨by omega, by omega, by omega, ?_⟩
    intro t ht hmeets
    obtain ⟨i, hi, hholds⟩ := (meets_iff (by omega)).mp hmeets
    have hfound := (hsource i hi).1
    rw [PeImage.sectionContainingRva, find?_eq_iff_of_find? hs] at hfound
    exact hfound.2 t ht hholds
  · rintro ⟨hend, hdelta, hnarrow, hbefore⟩
    rw [Nat.mod_eq_of_lt (by omega)] at heq
    have hfound : ∀ i < length, image.sectionContainingRva (PeImage.byteAfter rva i) = some s := by
      intro i hi
      rw [PeImage.sectionContainingRva, find?_eq_iff_of_find? hs]
      refine ⟨(holdsRva_byteAfter (by omega)).mpr (by omega), fun t ht hholds => ?_⟩
      exact hbefore t ht ((meets_iff (by omega)).mpr ⟨i, hi, hholds⟩)
    refine ⟨fun i hi => by omega, fun i hi => ?_, .inl ⟨s, hmem, fun i hi => ⟨hfound i hi, ?_⟩⟩, hfits⟩
    · rw [rvaToOffset_eq (hfound i hi), byteAfter_toNat (by omega), PeImage.byteAfter, heq]
      · congr 2
        omega
      · rw [byteAfter_toNat (by omega)]
        omega
      · rw [byteAfter_toNat (by omega)]
        omega
    · rw [holdsOffset_iff, byteAfter_toNat (by omega), PeSection.rawEnd]
      omega

/-- A range outside the sections is when it stays among the headers. -/
theorem mappedTo_headers_iff (hs : image.sectionContainingRva rva = none) (hpos : 0 < length)
    (h : image.rvaRangeToOffset rva length = some offset) :
    image.MappedTo rva length offset ↔
      rva.toNat+length ≤ min image.rvaHeaderLimit.toNat image.headers.sizeOfHeaders.toNat ∧
        ∀ t ∈ image.sections, ¬ t.meets rva.toNat length := by
  obtain ⟨hoffset, hfits⟩ := rvaRangeToOffset_some h
  obtain ⟨rfl, -, -⟩ := (rvaToOffset_none hs).mp hoffset
  have hsize := image.headers.sizeOfHeaders.toNat_lt
  constructor
  · intro hmapped
    have hsource : ∀ i < length, image.sectionContainingRva (PeImage.byteAfter offset i) = none ∧
        PeImage.byteAfter offset i < image.headers.sizeOfHeaders := by
      rcases hmapped.source with ⟨t, -, ht⟩ | hnone
      · have hfirst := (ht 0 hpos).1
        rw [byteAfter_zero, hs] at hfirst
        cases hfirst
      · exact hnone
    have hnarrow := (hmapped.narrow (length-1) (by omega)).1
    obtain ⟨hnone, hheaders⟩ := hsource (length-1) (by omega)
    have hlimit := ((rvaToOffset_none hnone).mp (hmapped.bytes (length-1) (by omega))).2.1
    rw [UInt32.lt_iff_toNat_lt, byteAfter_toNat hnarrow] at hheaders hlimit
    refine ⟨by omega, ?_⟩
    intro t ht hmeets
    obtain ⟨i, hi, hholds⟩ := (meets_iff (by omega)).mp hmeets
    exact sectionContainingRva_none.mp (hsource i hi).1 t ht hholds
  · rintro ⟨hend, hapart⟩
    have hnone : ∀ i < length, image.sectionContainingRva (PeImage.byteAfter offset i) = none := by
      intro i hi
      refine sectionContainingRva_none.mpr fun t ht hholds => ?_
      exact hapart t ht ((meets_iff (by omega)).mpr ⟨i, hi, hholds⟩)
    refine ⟨fun i hi => by omega, fun i hi => ?_, .inr fun i hi => ⟨hnone i hi, ?_⟩, hfits⟩
    · rw [rvaToOffset_none (hnone i hi), UInt32.lt_iff_toNat_lt, byteAfter_toNat (by omega)]
      exact ⟨rfl, by omega, by omega⟩
    · rw [UInt32.lt_iff_toNat_lt, byteAfter_toNat (by omega)]
      omega

/-- A range that is given an offset is mapped byte by byte exactly when it has one source. -/
theorem mappedTo_iff (h : image.rvaRangeToOffset rva length = some offset) :
    image.MappedTo rva length offset ↔ image.OneSource rva length := by
  obtain ⟨hoffset, hfits⟩ := rvaRangeToOffset_some h
  rw [PeImage.OneSource]
  rcases Nat.eq_zero_or_pos length with rfl | hpos
  · refine iff_of_true ?_ (.inl rfl)
    exact ⟨fun i hi => absurd hi i.not_lt_zero, fun i hi => absurd hi i.not_lt_zero,
      .inr fun i hi => absurd hi i.not_lt_zero, hfits⟩
  · rw [or_iff_right hpos.ne']
    cases hs : image.sectionContainingRva rva with
    | some s => exact mappedTo_section_iff hs hpos h
    | none => exact mappedTo_headers_iff hs hpos h

theorem mappedTo_iff_short_section :
    shortSectionImage.MappedTo 0x1004 12 228 ↔ shortSectionImage.OneSource 0x1004 12 :=
  mappedTo_iff (by decide +kernel)

/-- A range of 32 bytes is given an offset where the file has 16 bytes of the section. -/
theorem not_mappedTo_short_section : (parse shortSectionFile).result = .ok shortSectionImage ∧
    shortSectionImage.rvaRangeToOffset 0x1000 32 = some 224 ∧
      shortSectionImage.rvaToOffset (PeImage.byteAfter 0x1000 20) = none ∧
        ¬ shortSectionImage.MappedTo 0x1000 32 224 := by
  refine ⟨parse_shortSectionFile, by decide +kernel, by decide +kernel, ?_⟩
  intro h
  have hbyte := h.bytes 20 (by decide)
  exact absurd hbyte (by decide +kernel)

end

end DSigMatcher.Pe
