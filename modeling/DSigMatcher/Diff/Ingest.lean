import DSigMatcher.Base.Utf8Sequence

namespace DSigMatcher.Diff
open DSigMatcher.Base DSigMatcher.Framework Utf8

/-- The bytes of the fast path as one little-endian word. -/
def packWord (bytes : Text) : UInt64 :=
  (bytes.zipIdx).foldl (fun word b => word ||| b.1.toUInt64 <<< UInt64.ofNat (b.2*8)) 0

/-- The ASCII fast path, eight bytes at a time. -/
def skipAscii : Text → Text
  | b0::b1::b2::b3::b4::b5::b6::b7::r =>
    if packWord [b0, b1, b2, b3, b4, b5, b6, b7] &&& 0x8080808080808080 ≠ 0 then
      b0::b1::b2::b3::b4::b5::b6::b7::r
    else skipAscii r
  | t => t

/-- The least code point of a sequence, by the bytes behind its lead byte. -/
def leastCode : Nat → Nat
  | 1 => 0x80
  | 2 => 0x800
  | _ => 0x10000

def ingestAccepts (need code : Nat) : Bool :=
  !(code < leastCode need || 0x10FFFF < code || (0xD800 ≤ code && code ≤ 0xDFFF))

theorem skipAscii_length (t : Text) : (skipAscii t).length ≤ t.length := by
  fun_induction skipAscii t with
  | case1 b0 b1 b2 b3 b4 b5 b6 b7 r hword => rfl
  | case2 b0 b1 b2 b3 b4 b5 b6 b7 r hword ih =>
    simp only [List.length_cons]
    omega
  | case3 t ht => rfl

/-- `IsValidUtf8` of the ingest. -/
def isValidUtf8 (t : Text) : Bool :=
  match _ht : skipAscii t with
  | [] => true
  | lead::r =>
    if lead < 0x80 then isValidUtf8 r
    else
      match _hr : utf8Sequence ingestAccepts lead r with
      | none => false
      | some rest => isValidUtf8 rest
termination_by t.length
decreasing_by
  all_goals
    have hlength := skipAscii_length t
    rw [_ht, List.length_cons] at hlength
  · omega
  · have := utf8Sequence_length _hr
    omega

theorem ingestAccepts_check : SequenceCheck ingestAccepts where
  two code hlow hhigh := by simp [ingestAccepts, leastCode]; omega
  three code hcode := by simp [ingestAccepts, leastCode]; omega
  four code := by simp [ingestAccepts, leastCode]; omega

/-- The mask of the fast path meets a byte in its top bit. -/
theorem mask_byte (b : UInt8) : ∀ i < 8,
    (b.toUInt64 <<< UInt64.ofNat (i*8)) &&& 0x8080808080808080 = 0 ↔ b < 0x80 := by
  revert b
  decide +kernel

/-- A word meets the mask where one of its bytes is not ASCII. -/
theorem packWord_mask (bytes : Text) (h : bytes.length ≤ 8) :
    packWord bytes &&& 0x8080808080808080 = 0 ↔ ∀ b ∈ bytes, b < 0x80 := by
  have hor (x y : UInt64) : (x ||| y) &&& 0x8080808080808080 = 0 ↔
      x &&& 0x8080808080808080 = 0 ∧ y &&& 0x8080808080808080 = 0 := by
    have hdistrib : (x ||| y) &&& 0x8080808080808080 =
        x &&& 0x8080808080808080 ||| y &&& 0x8080808080808080 :=
      UInt64.toBitVec_inj.mp BitVec.and_or_distrib_right
    rw [hdistrib, UInt64.or_eq_zero_iff]
  have hfold (k : Nat) (word : UInt64) (hk : k+bytes.length ≤ 8) :
      (bytes.zipIdx k).foldl (fun word b => word ||| b.1.toUInt64 <<< UInt64.ofNat (b.2*8)) word
        &&& 0x8080808080808080 = 0 ↔
      word &&& 0x8080808080808080 = 0 ∧ ∀ b ∈ bytes, b < 0x80 := by
    clear h
    induction bytes generalizing k word with
    | nil => simp
    | cons b bytes ih =>
      rw [List.length_cons] at hk
      rw [List.zipIdx_cons, List.foldl_cons, ih _ _ (by omega), hor, mask_byte b k (by omega),
        List.forall_mem_cons, and_assoc]
  rw [packWord, hfold 0 0 (by omega)]
  exact and_iff_right rfl

theorem encoded_skipAscii (t : Text) :
    (∃ cs, skipAscii t = encode cs) ↔ ∃ cs, t = encode cs := by
  fun_induction skipAscii t with
  | case1 b0 b1 b2 b3 b4 b5 b6 b7 r hword => rfl
  | case2 b0 b1 b2 b3 b4 b5 b6 b7 r hword ih =>
    rw [not_not, packWord_mask [b0, b1, b2, b3, b4, b5, b6, b7] (Nat.le_refl 8)] at hword
    simp only [List.forall_mem_cons] at hword
    obtain ⟨h0, h1, h2, h3, h4, h5, h6, h7, -⟩ := hword
    rw [ih, encoded_ascii h0, encoded_ascii h1, encoded_ascii h2, encoded_ascii h3,
      encoded_ascii h4, encoded_ascii h5, encoded_ascii h6, encoded_ascii h7]
  | case3 t ht => rfl

/-- The ingest admits encoded texts and no others. -/
theorem isValidUtf8_encoded (t : Text) : isValidUtf8 t = true ↔ ∃ cs, t = encode cs := by
  fun_induction isValidUtf8 t with
  | case1 t ht =>
    rw [← encoded_skipAscii, ht]
    exact iff_of_true rfl ⟨[], rfl⟩
  | case2 t lead r ht hlead ih => rw [ih, ← encoded_skipAscii t, ht, encoded_ascii hlead]
  | case3 t lead r ht hlead hr =>
    rw [← encoded_skipAscii t, ht, encoded_sequence ingestAccepts_check hlead]
    simp [hr]
  | case4 t lead r ht hlead rest hr ih =>
    rw [ih, ← encoded_skipAscii t, ht, encoded_sequence ingestAccepts_check hlead]
    simp [hr]

end DSigMatcher.Diff
