import DSigMatcher.Diff.Ingest

namespace DSigMatcher.Export
open DSigMatcher.Base DSigMatcher.Framework Utf8

def bridgeAccepts (extra code : Nat) : Bool :=
  !(extra = 2 && (code < 0x800 || (0xD800 ≤ code && code ≤ 0xDFFF))) &&
    !(extra = 3 && (code < 0x10000 || 0x10FFFF < code))

/-- `IsValidUtf8` of the export bridge. -/
def isValidUtf8 : Text → Bool
  | [] => true
  | lead::r =>
    if lead < 0x80 then isValidUtf8 r
    else
      match _hr : utf8Sequence bridgeAccepts lead r with
      | none => false
      | some rest => isValidUtf8 rest
termination_by t => t.length
decreasing_by
  · exact Nat.lt_succ_self _
  · exact Nat.lt_succ_of_le (utf8Sequence_length _hr)

theorem bridgeAccepts_check : SequenceCheck bridgeAccepts where
  two code hlow hhigh := rfl
  three code hcode := by simp [bridgeAccepts]
  four code := by simp [bridgeAccepts]; omega

theorem isValidUtf8_encoded (t : Text) : isValidUtf8 t = true ↔ ∃ cs, t = encode cs := by
  fun_induction isValidUtf8 t with
  | case1 => exact iff_of_true rfl ⟨[], rfl⟩
  | case2 lead r hlead ih => rw [ih, encoded_ascii hlead]
  | case3 lead r hlead hr =>
    rw [encoded_sequence bridgeAccepts_check hlead]
    simp [hr]
  | case4 lead r hlead rest hr ih =>
    rw [ih, encoded_sequence bridgeAccepts_check hlead]
    simp [hr]

/-- Both validators admit the texts that are characters in UTF-8, and no others. -/
theorem validUtf8_agree (t : Text) :
    (Diff.isValidUtf8 t = true ↔ ∃ cs : List Char, t = cs.flatMap String.utf8EncodeChar) ∧
    (isValidUtf8 t = true ↔ ∃ cs : List Char, t = cs.flatMap String.utf8EncodeChar) ∧
    Diff.isValidUtf8 t = isValidUtf8 t := by
  have hingest := Diff.isValidUtf8_encoded t
  have hbridge := isValidUtf8_encoded t
  refine ⟨hingest, hbridge, ?_⟩
  rw [Bool.eq_iff_iff, hingest, hbridge]

end DSigMatcher.Export
