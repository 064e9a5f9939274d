import DSigMatcher.Pe.ParseSafe

namespace DSigMatcher.Pe
open DSigMatcher.Base DSigMatcher.Framework

/-- A string ends at its first zero. -/
theorem length_takeWhile_le_iff {l : Text} {n : Nat} (h : 0 ∈ l) :
    (l.takeWhile (· ≠ 0)).length ≤ n ↔ 0 ∈ l.take (n+1) := by
  induction l generalizing n with
  | nil => cases h
  | cons c l ih =>
    rw [List.take_succ_cons]
    by_cases hc : c = 0
    · rw [List.takeWhile_cons_of_neg (by rw [hc]; decide), hc]
      exact iff_of_true n.zero_le List.mem_cons_self
    · rw [List.takeWhile_cons_of_pos (by rwa [decide_eq_true_iff]), List.length_cons, List.mem_cons,
        or_iff_right (Ne.symm hc)]
      have hl : 0 ∈ l := (List.mem_cons.mp h).resolve_left (Ne.symm hc)
      cases n with
      | zero =>
        refine iff_of_false (Nat.not_succ_le_zero _) ?_
        rw [List.take_zero]
        exact List.not_mem_nil
      | succ n => rw [Nat.succ_le_succ_iff, ih hl]

theorem length_takeWhile_lt_iff {l : Text} :
    (l.takeWhile (· ≠ 0)).length < l.length ↔ 0 ∈ l := by
  induction l with
  | nil => exact iff_of_false (Nat.lt_irrefl 0) List.not_mem_nil
  | cons c l ih =>
    by_cases hc : c = 0
    · rw [List.takeWhile_cons_of_neg (by rw [hc]; decide), hc]
      exact iff_of_true (Nat.succ_pos _) List.mem_cons_self
    · rw [List.takeWhile_cons_of_pos (by rwa [decide_eq_true_iff]), List.length_cons, List.length_cons,
        Nat.succ_lt_succ_iff, ih, List.mem_cons, or_iff_right (Ne.symm hc)]

/-- All of a view's bytes are among those of a range. -/
def View.Within (v : View) (start length : Nat) : Prop :=
  start ≤ v.offset ∧ v.offset+v.length ≤ start+length

instance (v : View) (start length : Nat) : Decidable (v.Within start length) :=
  inferInstanceAs (Decidable (_ ∧ _))

/-- The first zero behind a record's header is in the record or the byte behind it; or there is none. -/
def ZeroInRecord (b : Text) (blobOffset rawLength : Nat) : Prop :=
  let rest := b.drop (blobOffset+codeViewHeaderSize)
  0 ∈ rest → 0 ∈ rest.take (rawLength-codeViewHeaderSize+1)

section
variable {b : Text} {blobOffset rawLength : Nat}

theorem codeViewPath_within_iff (hlength : codeViewHeaderSize ≤ rawLength) :
    (codeViewPath b (blobOffset+codeViewHeaderSize) rawLength).Within blobOffset rawLength ↔
      ZeroInRecord b blobOffset rawLength := by
  have hrest : (b.drop (blobOffset+codeViewHeaderSize)).length =
      b.length-(blobOffset+codeViewHeaderSize) := List.length_drop
  rw [ZeroInRecord]
  generalize hr : b.drop (blobOffset+codeViewHeaderSize) = rest at hrest ⊢
  by_cases hzero : 0 ∈ rest
  · have hlt := length_takeWhile_lt_iff.mpr hzero
    have hpath : codeViewPath b (blobOffset+codeViewHeaderSize) rawLength =
        ⟨blobOffset+codeViewHeaderSize,(rest.takeWhile (· ≠ 0)).length⟩ := by
      rw [codeViewPath, cString, hr, if_pos (fits_iff.mpr (by omega))]
      dsimp only
      rw [if_pos (by omega)]
    rw [hpath, View.Within, ← length_takeWhile_le_iff hzero]
    dsimp only
    constructor
    · rintro ⟨-, hend⟩ -
      omega
    · intro h
      have hend := h hzero
      omega
  · have hpath : codeViewPath b (blobOffset+codeViewHeaderSize) rawLength =
        ⟨blobOffset+codeViewHeaderSize,rawLength-codeViewHeaderSize⟩ := by
      rw [codeViewPath, cString, hr]
      have hge := mt length_takeWhile_lt_iff.mp hzero
      dsimp only
      rw [hrest] at hge
      split_ifs <;> rfl
    rw [hpath]
    refine iff_of_true ?_ fun h => absurd h hzero
    rw [View.Within]
    dsimp only
    omega

theorem parseRsdsRecord_path {record record' : PeCodeViewRecord}
    (h : (parseRsdsRecord b record blobOffset rawLength).result = .ok record')
    (hfresh : record.present = false) (hpresent : record'.present = true) :
    record'.pdbPath = codeViewPath b (blobOffset+codeViewHeaderSize) rawLength := by
  rw [parseRsdsRecord] at h
  obtain ⟨signature, -, h⟩ := Traced.bind_ok_iff.mp h
  obtain ⟨data1, -, h⟩ := Traced.bind_ok_iff.mp h
  obtain ⟨data2, -, h⟩ := Traced.bind_ok_iff.mp h
  obtain ⟨data3, -, h⟩ := Traced.bind_ok_iff.mp h
  obtain ⟨guidOffset, -, h⟩ := Traced.bind_ok_iff.mp h
  split at h
  · cases h
    dsimp only at hpresent
    rw [hfresh] at hpresent
    cases hpresent
  · obtain ⟨age, -, h⟩ := Traced.bind_ok_iff.mp h
    obtain ⟨pathOffset, hoffset, h⟩ := Traced.bind_ok_iff.mp h
    obtain ⟨pdbPath, hpath, h⟩ := Traced.bind_ok_iff.mp h
    cases hoffset
    cases hpath
    cases h
    rfl

end

section
variable {image : PeImage} {record record' : PeCodeViewRecord} {entry : PeDebugEntry}

/-- A record that is taken from an entry is at the entry's blob, and its path is read from there. -/
theorem parseCodeViewEntry_path
    (h : (parseCodeViewEntry image record entry).result = .ok record')
    (hfresh : record.present = false) (hpresent : record'.present = true) :
    ∃ blobOffset, codeViewBlob image entry = some blobOffset ∧
      codeViewHeaderSize ≤ entry.sizeOfData.toNat ∧
      record'.pdbPath =
        codeViewPath image.buffer (blobOffset+codeViewHeaderSize) entry.sizeOfData.toNat := by
  have hsame {r : PeCodeViewRecord}
      (heq : (pure r : PeParser PeCodeViewRecord).result = .ok record')
      (hr : r.present = record.present) : False := by
    cases heq
    rw [hr, hfresh] at hpresent
    cases hpresent
  rw [parseCodeViewEntry] at h
  split_ifs at h with htype hsmall hlarge
  · exact (hsame h rfl).elim
  · exact (hsame h rfl).elim
  · exact (hsame h rfl).elim
  · split at h
    · exact (hsame h rfl).elim
    · next blobOffset hblob =>
      split at h
      · exact (hsame h rfl).elim
      · next blob _ =>
        obtain ⟨signature, -, h⟩ := Traced.bind_ok_iff.mp h
        split_ifs at h
        · exact (hsame h rfl).elim
        · exact ⟨blobOffset, hblob, not_lt.mp hsmall, parseRsdsRecord_path h hfresh hpresent⟩

/-- The record of a loop is taken from one of its entries. -/
theorem parseCodeViewEntries_from {entries : List PeDebugEntry}
    (h : (parseCodeViewEntries image record entries).result = .ok record')
    (hfresh : record.present = false) (hpresent : record'.present = true) :
    ∃ entry ∈ entries, ∃ r : PeCodeViewRecord, r.present = false ∧
      (parseCodeViewEntry image r entry).result = .ok record' := by
  induction entries generalizing record with
  | nil =>
    rw [parseCodeViewEntries] at h
    cases h
    split_ifs at hpresent
    · dsimp only at hpresent
      rw [hfresh] at hpresent
      cases hpresent
    · rw [hfresh] at hpresent
      cases hpresent
  | cons entry entries ih =>
    rw [parseCodeViewEntries] at h
    obtain ⟨r, hr, h⟩ := Traced.bind_ok_iff.mp h
    split_ifs at h with hfound
    · cases h
      exact ⟨entry, List.mem_cons_self, record, hfresh, hr⟩
    · obtain ⟨e, he, hfrom⟩ := ih h (Bool.eq_false_iff.mpr hfound)
      exact ⟨e, List.mem_cons_of_mem _ he, hfrom⟩

end

/-- The path of a record consists of bytes of the record exactly when its zero is there. -/
theorem pdbPath_within_iff {b : Text} {image : PeImage} (hparse : (parse b).result = .ok image)
    (hpresent : image.codeView.present = true) :
    ∃ entry ∈ image.debugEntries, ∃ (record : PeCodeViewRecord) (blobOffset : Nat),
      record.present = false ∧
        (parseCodeViewEntry image record entry).result = .ok image.codeView ∧
        codeViewBlob image entry = some blobOffset ∧
        (image.codeView.pdbPath.Within blobOffset entry.sizeOfData.toNat ↔
          ZeroInRecord b blobOffset entry.sizeOfData.toNat) := by
  have hbuffer := ((parse_runs b).result image hparse).buffer
  obtain ⟨image₁, hdirectories, hrecord⟩ := Traced.bind_ok_iff.mp hparse
  have hfresh := ((parseDirectories_runs b).result image₁ hdirectories).2
  obtain ⟨codeView, hloop, heq⟩ := Traced.bind_ok_iff.mp hrecord
  cases heq
  obtain ⟨entry, hentry, r, hr, hfrom⟩ := parseCodeViewEntries_from hloop hfresh hpresent
  obtain ⟨blobOffset, hblob, hlength, hpath⟩ := parseCodeViewEntry_path hfrom hr hpresent
  refine ⟨entry, hentry, r, blobOffset, hr, hfrom, hblob, ?_⟩
  dsimp only at hbuffer ⊢
  rw [hpath, hbuffer]
  exact codeViewPath_within_iff hlength

/-- A file without sections whose debug directory, at 240, has one record of 26 bytes at 268. -/
def recordFile (tail : Text) : Text :=
  [77,90] ++ List.replicate 58 0 ++ [64,0,0,0] ++ [80,69,0,0] ++
    [0x4c,1,0,0] ++ List.replicate 12 0 ++ [152,0,0,0] ++
    [0x0b,1] ++ List.replicate 58 0 ++ [40,1,0,0] ++ List.replicate 28 0 ++ [7,0,0,0] ++
    List.replicate 48 0 ++ [240,0,0,0] ++ [28,0,0,0] ++
    List.replicate 12 0 ++ [2,0,0,0] ++ [26,0,0,0] ++ [0,0,0,0] ++ [12,1,0,0] ++
    text "RSDS" ++ List.replicate 20 0 ++ tail

def recordImage (tail : Text) (pathLength : Nat) (name : Text) : PeImage :=
  { buffer := recordFile tail
    headers :=
      { ntHeaderOffset := 64
        machine := 0x14c
        sizeOfOptionalHeader := 152
        optionalMagic := peOptionalMagicPe32
        sizeOfHeaders := 296
        declaredDataDirectories := 7
        dataDirectories := List.replicate 6 {} ++ [{ rva := 240, size := 28 }] }
    debugEntries := [{ type := 2, sizeOfData := 26, pointerToRawData := 268 }]
    codeView :=
      { present := true
        signature := ⟨268,4⟩
        pdbPath := ⟨292,pathLength⟩
        pdbName := name
        guid := List.replicate 32 48
        symbolKey := List.replicate 33 48
        symbolUrl := symbolServerRoot ++ text "/" ++ name ++ text "/" ++ List.replicate 33 48 ++
          text "/" ++ name } }

theorem pdbPath_within_iff_record :
    ∃ entry ∈ (recordImage [97,0] 1 [97]).debugEntries,
      ∃ (record : PeCodeViewRecord) (blobOffset : Nat), record.present = false ∧
        (parseCodeViewEntry (recordImage [97,0] 1 [97]) record entry).result =
          .ok (recordImage [97,0] 1 [97]).codeView ∧
        codeViewBlob (recordImage [97,0] 1 [97]) entry = some blobOffset ∧
        ((recordImage [97,0] 1 [97]).codeView.pdbPath.Within blobOffset entry.sizeOfData.toNat ↔
          ZeroInRecord (recordFile [97,0]) blobOffset entry.sizeOfData.toNat) :=
  pdbPath_within_iff (by decide +kernel) (by decide +kernel)

/-- A record of 26 bytes whose path goes on behind it. -/
theorem pdbPath_not_within_record :
    (parse (recordFile [97,98,99,0])).result = .ok (recordImage [97,98,99,0] 3 [97,98,99]) ∧
      (recordImage [97,98,99,0] 3 [97,98,99]).debugEntries =
        [{ type := 2, sizeOfData := 26, pointerToRawData := 268 }] ∧
      codeViewBlob (recordImage [97,98,99,0] 3 [97,98,99])
        { type := 2, sizeOfData := 26, pointerToRawData := 268 } = some 268 ∧
      ¬ (recordImage [97,98,99,0] 3 [97,98,99]).codeView.pdbPath.Within 268 26 := by
  decide +kernel

end DSigMatcher.Pe
