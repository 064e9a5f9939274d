import DSigMatcher.Base.Utf8Replace
import DSigMatcher.Framework.Fallible
import DSigMatcher.Framework.Unpack

namespace DSigMatcher.Export
open DSigMatcher.Base DSigMatcher.Framework

/-- What `ReadPe` keeps of a section header. -/
structure PeSection where
  virtualAddress : Nat
  size : Nat
  rawPointer : Nat
  rawSize : Nat
  deriving DecidableEq

structure PeHeaders where
  data : Text
  machine : Nat
  directories : List (Nat × Nat)
  sections : List PeSection
  deriving DecidableEq

/-- The identity in a CodeView record: the strings of Python as their characters. -/
structure CodeViewRecord where
  pdbPath : List Char
  pdbName : List Char
  guid : Text
  age : Nat
  deriving DecidableEq

/-- `%x`. -/
def hexLower (n : Nat) : Text := (Nat.toDigits 16 n).map fun c => UInt8.ofNat c.toNat

/-- `%0*X`. -/
def hexUpper (width n : Nat) : Text :=
  let digits := (hexLower n).map fun c => if 97 ≤ c then c-32 else c
  List.replicate (width-digits.length) 48 ++ digits

/-- `"<II"`. -/
def readDirectory (bytes : Text) : Nat × Nat := (field bytes 0 4,field bytes 4 4)

/-- `"<8sIIII"`. -/
def readSection (bytes : Text) : PeSection where
  virtualAddress := field bytes 12 4
  size := max (field bytes 8 4) (field bytes 16 4)
  rawPointer := field bytes 20 4
  rawSize := field bytes 16 4

/-- Where the data directories start, by the magic of the optional header. -/
def directoryOffset (magic optional : Nat) : Option Nat :=
  if magic = 0x10B then some (optional+96)
  else if magic = 0x20B then some (optional+112)
  else none

/-- `ReadPe` of a file's content. -/
def readPe (data : Text) : Except (Stop Text) PeHeaders :=
  if data.length < 0x40 ∨ bytesAt data 0 2 ≠ text "MZ" then
    .error (.reason (text "no MZ header"))
  else do
    let peOffset := field (← unpackFrom 4 data 0x3C) 0 4
    if peOffset+24 > data.length ∨ bytesAt data peOffset 4 ≠ text "PE" ++ [0,0] then
      .error (.reason (text "no PE signature"))
    else
      -- "<HHIIIHH"
      let header ← unpackFrom 20 data (peOffset+4)
      let optional := peOffset+24
      if optional+2 > data.length then .error (.reason (text "truncated optional header"))
      else
        let magic := field (← unpackFrom 2 data optional) 0 2
        match directoryOffset magic optional with
        | none => .error (.reason (text "unknown optional header magic 0x" ++ hexLower magic))
        | some offset =>
          let directoryCount := field (← unpackFrom 4 data (offset-4)) 0 4
          let directories ← tableRows 8 8 readDirectory data offset (min directoryCount 16) 0
          let sections ← tableRows 40 24 readSection data (optional+field header 16 2)
            (field header 2 2) 0
          pure { data, machine := field header 0 2, directories, sections }

def machoMagics : List Text :=
  [[0xFE,0xED,0xFA,0xCE], [0xFE,0xED,0xFA,0xCF], [0xCE,0xFA,0xED,0xFE], [0xCF,0xFA,0xED,0xFE],
    [0xCA,0xFE,0xBA,0xBE]]

/-- `InputKind` of a file's content. -/
def inputKind (data : Text) : Except (Stop Text) Text :=
  let head := bytesAt data 0 4
  if bytesAt head 0 2 = text "MZ" then
    match readPe data with
    | .ok _ => .ok (text "pe")
    | .error (.reason _) => .ok (text "mz")
    | .error .raised => .error .raised
  else if head = 0x7F::text "ELF" then .ok (text "elf")
  else if head ∈ machoMagics then .ok (text "macho")
  else .ok (text "other")

/-- `RvaToOffset`. -/
def rvaToOffset (pe : PeHeaders) (rva : Nat) : Option Nat :=
  pe.sections.findSome? fun s =>
    if s.virtualAddress ≤ rva ∧ rva < s.virtualAddress+s.size ∧ rva-s.virtualAddress < s.rawSize then
      some (s.rawPointer+(rva-s.virtualAddress))
    else none

/-- Where the data of a debug entry starts; an entry is `"<IIHHIIII"`. -/
def codeViewStart (pe : PeHeaders) (entry : Text) : Option Nat :=
  if field entry 24 4 ≠ 0 then some (field entry 24 4) else rvaToOffset pe (field entry 20 4)

section
variable (basename : List Char → List Char)

/-- The record of a blob that starts with `RSDS`; `basename` is that of the platform's `os.path`. -/
def codeViewRecord (blob : Text) : Except (Stop Text) CodeViewRecord := do
  let data ← unpackFrom 8 blob 4
  let age := field (← unpackFrom 4 blob 20) 0 4
  let rawName := decodeReplace none ((blob.drop 24).takeWhile (· ≠ 0))
  pure {
    pdbPath := rawName
    pdbName := basename (rawName.map fun c => if c = '\\' then '/' else c)
    guid := hexUpper 8 (field data 0 4) ++ hexUpper 4 (field data 4 2) ++ hexUpper 4 (field data 6 2) ++
      (bytesAt blob 12 8).flatMap fun b => hexUpper 2 b.toNat
    age }

/-- One round of the loop over the debug entries; nothing where it continues. -/
def debugEntry (pe : PeHeaders) (entry : Text) : Except (Stop Text) (Option CodeViewRecord) :=
  let size := field entry 16 4
  if field entry 12 4 ≠ 2 ∨ size < 24 then pure none
  else
    match codeViewStart pe entry with
    | none => pure none
    | some start =>
      if start+size > pe.data.length then pure none
      else
        let blob := bytesAt pe.data start size
        if bytesAt blob 0 4 ≠ text "RSDS" then pure none
        else do
          let record ← codeViewRecord basename blob
          pure (some record)

def debugEntries (pe : PeHeaders) (debugOffset : Nat) : Nat → Nat → Except (Stop Text) CodeViewRecord
  | 0, _ => .error (.reason (text "the PE has no RSDS CodeView record"))
  | n+1, index =>
    let offset := debugOffset+28*index
    if offset+28 > pe.data.length then .error (.reason (text "the PE has no RSDS CodeView record"))
    else do
      let entry ← unpackFrom 28 pe.data offset
      match ← debugEntry basename pe entry with
      | some record => pure record
      | none => debugEntries pe debugOffset n (index+1)

/-- `ReadCodeView` of a file's content. -/
def readCodeView (data : Text) : Except (Stop Text) CodeViewRecord :=
  match readPe data with
  | .error .raised => .error .raised
  | .error (.reason why) => .error (.reason (text "not a PE file (" ++ why ++ text ")"))
  | .ok pe =>
    match pe.directories[6]? with
    | none => .error (.reason (text "the PE has no debug directory"))
    | some (debugRva,debugSize) =>
      if debugSize = 0 then .error (.reason (text "the PE has no debug directory"))
      else
        match rvaToOffset pe debugRva with
        | none => .error (.reason (text "the debug directory is outside every section"))
        | some debugOffset => debugEntries basename pe debugOffset (debugSize/28) 0

end

section
variable (data : Text)

/-- Where the file says its PE header is. -/
def peOffset : Nat := field data 0x3C 4

def optionalOffset : Nat := peOffset data+24

def optionalMagic : Nat := field data (optionalOffset data) 2

/-- The file holds its headers up to the magic of the optional header. -/
structure HasHeaders : Prop where
  size : 0x40 ≤ data.length
  mz : bytesAt data 0 2 = text "MZ"
  signature : bytesAt data (peOffset data) 4 = text "PE" ++ [0,0]
  magic : optionalOffset data+2 ≤ data.length

/-- The file ends between the magic of its optional header and its data directories. -/
structure CutOptionalHeader : Prop extends HasHeaders data where
  cut : ∃ offset, directoryOffset (optionalMagic data) (optionalOffset data) = some offset ∧
    data.length < offset

/-- Every field of the headers is that of the file at its place, and the place is in the file. -/
structure PeHeaders.ReadFrom (pe : PeHeaders) : Prop where
  content : pe.data = data
  headers : HasHeaders data
  machine : pe.machine = field data (peOffset data+4) 2
  directories : ∃ offset, directoryOffset (optionalMagic data) (optionalOffset data) = some offset ∧
    RowsFrom 8 8 readDirectory data offset 0 pe.directories
  sections : RowsFrom 40 24 readSection data (optionalOffset data+field data (peOffset data+20) 2) 0
    pe.sections

/-- Every field of the record is that of a blob of the file, which a debug entry of the file names. -/
structure CodeViewRecord.ReadFrom (basename : List Char → List Char) (record : CodeViewRecord)
    (pe : PeHeaders) (entry start : Nat) : Prop where
  entryInside : entry+28 ≤ data.length
  kind : field data (entry+12) 4 = 2
  startsAt : codeViewStart pe (bytesAt data entry 28) = some start
  headerInside : 24 ≤ field data (entry+16) 4
  blobInside : start+field data (entry+16) 4 ≤ data.length
  signature : bytesAt data start 4 = text "RSDS"
  guid : record.guid = hexUpper 8 (field data (start+4) 4) ++ hexUpper 4 (field data (start+8) 2) ++
    hexUpper 4 (field data (start+10) 2) ++
    (bytesAt data (start+12) 8).flatMap fun b => hexUpper 2 b.toNat
  age : record.age = field data (start+20) 4
  pdbPath : record.pdbPath = decodeReplace none
    ((bytesAt data (start+24) (field data (entry+16) 4-24)).takeWhile (· ≠ 0))
  pdbName : record.pdbName = basename (record.pdbPath.map fun c => if c = '\\' then '/' else c)

end

section
variable {data : Text}

theorem readPe_raised (h : CutOptionalHeader data) : readPe data = .error .raised := by
  obtain ⟨⟨hsize, hmz, hsignature, hmagic⟩, offset, hoffset, hcut⟩ := h
  have hpe : field (bytesAt data 0x3C 4) 0 4 = peOffset data := field_bytesAt (by decide)
  have hword : field (bytesAt data (optionalOffset data) 2) 0 2 = optionalMagic data :=
    field_bytesAt (by decide)
  have hdirectories : optionalOffset data+96 ≤ offset := by
    rw [directoryOffset] at hoffset
    split_ifs at hoffset <;> cases hoffset <;> omega
  unfold optionalOffset at hmagic hword hoffset hdirectories
  rw [readPe, if_neg (by simp [hmz]; omega), unpackFrom_ok (by omega)]
  dsimp only [ok_bind]
  rw [hpe, if_neg (by simp [hsignature]; omega), unpackFrom_ok (by omega), ok_bind,
    if_neg (by omega), unpackFrom_ok (by omega), ok_bind, hword, hoffset]
  dsimp only
  rw [unpackFrom_raised (by omega), error_bind]

theorem readPe_answers (h : ¬ CutOptionalHeader data) :
    Answers (readPe data) (PeHeaders.ReadFrom data) := by
  rw [readPe]
  refine .ite (fun _ => .reason) fun hfirst => ?_
  obtain ⟨hsize, hmz⟩ := not_or.mp hfirst
  rw [not_not] at hmz
  refine .bind (unpackFrom_answers (by omega)) fun word hword => ?_
  have hpe : field word 0 4 = peOffset data := by
    rw [hword, field_bytesAt (by decide)]
    rfl
  rw [hpe]
  refine .ite (fun _ => .reason) fun hsecond => ?_
  obtain ⟨hheader, hsignature⟩ := not_or.mp hsecond
  rw [not_not] at hsignature
  refine .bind (unpackFrom_answers (by omega)) fun header hread => ?_
  refine .ite (fun _ => .reason) fun hoptional => ?_
  have hheaders : HasHeaders data := ⟨by omega, hmz, hsignature, by unfold optionalOffset; omega⟩
  refine .bind (unpackFrom_answers (by omega)) fun word hword => ?_
  have hmagic : field word 0 2 = optionalMagic data := by
    rw [hword, field_bytesAt (by decide)]
    rfl
  have hfields (place width : Nat) (hplace : place+width ≤ 20) :
      field header place width = field data (peOffset data+4+place) width := by
    rw [hread, field_bytesAt hplace]
  rw [hmagic]
  dsimp only
  cases hoffset : directoryOffset (optionalMagic data) (peOffset data+24) with
  | none => exact .reason
  | some offset =>
    -- the count in front of the directories is there, since the file is not cut before them
    have hwhole : ¬ data.length < offset := fun hcut => h ⟨hheaders, offset, hoffset, hcut⟩
    have hfour : 4 ≤ offset := by
      rw [directoryOffset] at hoffset
      split_ifs at hoffset <;> cases hoffset <;> omega
    refine .bind (unpackFrom_answers (by omega)) fun count _ => ?_
    refine .bind (tableRows_answers (by decide) _ 0) fun directories hdirectories => ?_
    refine .bind (tableRows_answers (by decide) _ 0) fun sections hsections => .pure ?_
    rw [hfields 16 2 (by decide)] at hsections
    exact ⟨rfl, hheaders, hfields 0 2 (by decide), ⟨offset, hoffset, hdirectories⟩, hsections⟩

theorem inputKind_answers (h : readPe data ≠ .error .raised) :
    Answers (inputKind data) fun _ => True := by
  rw [inputKind]
  refine .ite (fun _ => ?_) fun _ => .ite (fun _ => .pure trivial) fun _ =>
    .ite (fun _ => .pure trivial) fun _ => .pure trivial
  cases hread : readPe data with
  | ok pe => exact .pure trivial
  | error stop =>
    cases stop with
    | reason why => exact .pure trivial
    | raised => exact absurd hread h

variable {basename : List Char → List Char} {pe : PeHeaders}

/-- The fields of a blob of the file are those of the file. -/
theorem codeViewRecord_answers {entry start : Nat} (hentry : entry+28 ≤ data.length)
    (hkind : field data (entry+12) 4 = 2)
    (hstart : codeViewStart pe (bytesAt data entry 28) = some start)
    (hheader : 24 ≤ field data (entry+16) 4) (hblob : start+field data (entry+16) 4 ≤ data.length)
    (hsignature : bytesAt data start 4 = text "RSDS") :
    Answers (codeViewRecord basename (bytesAt data start (field data (entry+16) 4))) fun record =>
      record.ReadFrom data basename pe entry start := by
  have hlength := bytesAt_length hblob
  generalize hsize : field data (entry+16) 4 = size at *
  refine .bind (unpackFrom_answers (by omega)) fun fields hfields => ?_
  refine .bind (unpackFrom_answers (by omega)) fun age hage => .pure ?_
  have hfield (place width : Nat) (hplace : place+width ≤ 8) :
      field fields place width = field data (start+4+place) width := by
    rw [hfields, bytesAt_bytesAt (by omega), field_bytesAt hplace]
  have hread : field age 0 4 = field data (start+20) 4 := by
    rw [hage, bytesAt_bytesAt (by omega), field_bytesAt (by decide)]
  have hname : (bytesAt data start size).drop 24 = bytesAt data (start+24) (size-24) := by
    rw [bytesAt, bytesAt, List.drop_take, List.drop_drop]
  have hrest : bytesAt (bytesAt data start size) 12 8 = bytesAt data (start+12) 8 :=
    bytesAt_bytesAt (by omega)
  refine ⟨hentry, hkind, hstart, ?_, ?_, hsignature, ?_, hread, ?_, rfl⟩
  · rwa [hsize]
  · rwa [hsize]
  · rw [hfield 0 4 (by decide), hfield 4 2 (by decide), hfield 6 2 (by decide), hrest]
  · rw [hname, hsize]

theorem debugEntry_answers {entry : Nat} (hpe : pe.data = data) (hentry : entry+28 ≤ data.length) :
    Answers (debugEntry basename pe (bytesAt data entry 28)) fun found =>
      ∀ record ∈ found, ∃ start, record.ReadFrom data basename pe entry start := by
  have hnone : Answers (pure none : Except (Stop Text) (Option CodeViewRecord)) fun found =>
      ∀ record ∈ found, ∃ start, record.ReadFrom data basename pe entry start := by
    refine .pure ?_
    intro record hrecord
    cases hrecord
  rw [debugEntry, field_bytesAt (by decide), field_bytesAt (by decide), hpe]
  refine .ite (fun _ => hnone) fun hkind => ?_
  obtain ⟨htype, hheader⟩ := not_or.mp hkind
  cases hstart : codeViewStart pe (bytesAt data entry 28) with
  | none => exact hnone
  | some start =>
    refine .ite (fun _ => hnone) fun hblob => .ite (fun _ => hnone) fun hsignature => ?_
    rw [not_not, bytesAt_bytesAt (by omega)] at hsignature
    refine .bind (codeViewRecord_answers hentry (not_not.mp htype) hstart (by omega) (by omega)
      hsignature) fun record hrecord => .pure ?_
    rintro _ ⟨⟩
    exact ⟨start, hrecord⟩

theorem debugEntries_answers (hpe : pe.data = data) (debugOffset n index : Nat) :
    Answers (debugEntries basename pe debugOffset n index) fun record =>
      ∃ entry start, record.ReadFrom data basename pe entry start := by
  induction n generalizing index with
  | zero => exact .reason
  | succ n ih =>
    rw [debugEntries, hpe]
    refine .ite (fun _ => .reason) fun hinside => ?_
    refine .bind (unpackFrom_answers (by omega)) fun bytes hbytes => ?_
    rw [hbytes]
    refine .bind (debugEntry_answers hpe (by omega)) fun found hfound => ?_
    cases found with
    | none => exact ih (index+1)
    | some record => exact .pure ⟨_, hfound record rfl⟩

theorem readCodeView_answers (h : ¬ CutOptionalHeader data) :
    Answers (readCodeView basename data) fun record =>
      ∃ pe entry start, readPe data = .ok pe ∧ record.ReadFrom data basename pe entry start := by
  have hanswers := readPe_answers h
  rw [readCodeView]
  cases hread : readPe data with
  | error stop =>
    cases stop with
    | reason why => exact .reason
    | raised => exact absurd hread hanswers.answers
  | ok pe =>
    dsimp only
    cases pe.directories[6]? with
    | none => exact .reason
    | some directory =>
      refine .ite (fun _ => .reason) fun _ => ?_
      cases rvaToOffset pe directory.1 with
      | none => exact .reason
      | some debugOffset =>
        refine .mono (debugEntries_answers (hanswers.value pe hread).content debugOffset _ 0) ?_
        rintro record ⟨entry, start, hrecord⟩
        exact ⟨pe, entry, start, rfl, hrecord⟩

end

/-- None of the three readers raises, and what they report was read from inside the file. -/
structure ReadersAnswer (basename : List Char → List Char) (data : Text) : Prop where
  kind : inputKind data ≠ .error .raised
  headers : readPe data ≠ .error .raised
  record : readCodeView basename data ≠ .error .raised
  headersRead : ∀ pe, readPe data = .ok pe → pe.ReadFrom data
  recordRead : ∀ record, readCodeView basename data = .ok record →
    ∃ pe entry start, readPe data = .ok pe ∧ record.ReadFrom data basename pe entry start

/-- The count of the directories is read before any check asks for it: the readers answer on every
file but one that ends between the magic and the directories. -/
theorem readers_answer_iff (basename : List Char → List Char) (data : Text) :
    ReadersAnswer basename data ↔ ¬ CutOptionalHeader data := by
  constructor
  · intro h hcut
    exact h.headers (readPe_raised hcut)
  · intro h
    have hpe := readPe_answers h
    have hrecord := @readCodeView_answers data basename h
    exact ⟨(inputKind_answers hpe.answers).answers, hpe.answers, hrecord.answers, hpe.value,
      hrecord.value⟩

/-- A file that ends right behind the magic. -/
def cutFile : Text :=
  text "MZ" ++ List.replicate 58 0 ++ [0x40,0,0,0] ++ text "PE" ++ List.replicate 22 0 ++ [0x0B,1]

/-- All three raise there. -/
theorem cutFile_raises : inputKind cutFile = .error .raised ∧ readPe cutFile = .error .raised ∧
    (∀ basename, readCodeView basename cutFile = .error .raised) ∧
      ∀ basename, ¬ ReadersAnswer basename cutFile := by
  have hpe : readPe cutFile = .error .raised := by decide
  refine ⟨by decide, hpe, ?_, ?_⟩
  · intro basename
    rw [readCodeView, hpe]
  · intro basename h
    exact h.headers hpe

end DSigMatcher.Export
