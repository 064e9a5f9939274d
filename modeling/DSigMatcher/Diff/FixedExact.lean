import DSigMatcher.Framework.LimbBits
import DSigMatcher.Framework.FloatOps
import DSigMatcher.Json.PyFloat
import Mathlib

namespace DSigMatcher.Diff
open DSigMatcher.Base DSigMatcher.Framework DSigMatcher.Json
open JsonValue (digitsValue)
open Binary64 (exponent grid mantissa Rounds)

/-- `BigNat`: limbs that are trimmed after every step; `ToDecimal` is that of `BigUInt`. -/
abbrev BigNat := BigUInt

/-- The loop of `FromU64`. -/
def wordLimbs : Nat → UInt64 → List UInt32
  | 0, _ => []
  | fuel+1, value => if value ≠ 0 then value.toUInt32::wordLimbs fuel (value >>> 32) else []

theorem wordLimbs_spec (fuel : Nat) (value : UInt64) (h : value.toNat < 2^(32*fuel)) :
    Limbs.value (wordLimbs fuel value) = value.toNat ∧ Limbs.Trimmed (wordLimbs fuel value) := by
  induction fuel generalizing value with
  | zero => exact ⟨(Nat.lt_one_iff.mp h).symm, Limbs.trimmed_nil⟩
  | succ fuel ih =>
    have hnext : (value >>> 32).toNat = value.toNat/2^32 := by
      rw [UInt64.toNat_shiftRight, Nat.shiftRight_eq_div_pow]
      rfl
    have hpow : 2^(32*(fuel+1)) = 2^32*2^(32*fuel) := by
      rw [← pow_add]
      congr 1
      omega
    obtain ⟨hvalue, htrimmed⟩ := ih (value >>> 32) (by
      rw [hnext]
      exact Nat.div_lt_of_lt_mul (hpow ▸ h))
    rw [hnext] at hvalue
    rw [wordLimbs]
    split_ifs with hzero
    · refine ⟨?_, ?_⟩
      · rw [Limbs.value_cons, hvalue, UInt64.toNat_toUInt32]
        exact Nat.mod_add_div _ _
      · by_cases hnil : wordLimbs fuel (value >>> 32) = []
        · rw [hnil, Limbs.Trimmed, List.getLast?_singleton, ne_eq, Option.some.injEq]
          intro hlow
          have hlimb := congrArg UInt32.toNat hlow
          rw [UInt64.toNat_toUInt32, UInt32.toNat_zero] at hlimb
          rw [hnil, Limbs.value_nil] at hvalue
          exact hzero (UInt64.toNat_inj.mp (by rw [UInt64.toNat_zero]; omega))
        · rwa [Limbs.Trimmed, List.getLast?_cons_of_ne_nil hnil]
    · rw [not_not.mp hzero]
      exact ⟨rfl, Limbs.trimmed_nil⟩

namespace BigNat

def fromU64 (value : UInt64) : BigNat where
  limbs := wordLimbs 2 value
  trimmed := (wordLimbs_spec 2 value value.toNat_lt).2

def mulAdd (n : BigNat) (mul add : UInt32) : BigNat where
  limbs := Limbs.trim (Limbs.mulAdd mul add.toUInt64 n.limbs)
  trimmed := Limbs.trim_trimmed _

def shiftLeft (n : BigNat) (bits : Nat) : BigNat where
  limbs := Limbs.trim (Limbs.shiftLeft bits n.limbs)
  trimmed := Limbs.trim_trimmed _

def shiftRight (n : BigNat) (bits : Nat) : BigNat where
  limbs := Limbs.shiftRight bits n.limbs
  trimmed := Limbs.shiftRight_trimmed _ _

def bit (n : BigNat) (index : Nat) : Bool := Limbs.bit index n.limbs

def anyBelow (n : BigNat) (index : Nat) : Bool := Limbs.anyBelow index n.limbs

theorem toNat_fromU64 (value : UInt64) : (fromU64 value).toNat = value.toNat :=
  (wordLimbs_spec 2 value value.toNat_lt).1

theorem toNat_mulAdd (n : BigNat) (mul add : UInt32) :
    (mulAdd n mul add).toNat = n.toNat*mul.toNat+add.toNat := by
  have hcarry : add.toUInt64.toNat < 2^32 := by
    rw [UInt32.toNat_toUInt64]
    exact add.toNat_lt
  rw [BigUInt.toNat, mulAdd, Limbs.value_trim, Limbs.value_mulAdd mul n.limbs _ hcarry,
    UInt32.toNat_toUInt64, BigUInt.toNat]

theorem toNat_shiftLeft (n : BigNat) (bits : Nat) : (shiftLeft n bits).toNat = n.toNat*2^bits := by
  rw [BigUInt.toNat, shiftLeft, Limbs.value_trim, (Limbs.shiftLeft_spec bits n.trimmed).1,
    BigUInt.toNat]

theorem toNat_shiftRight (n : BigNat) (bits : Nat) : (shiftRight n bits).toNat = n.toNat/2^bits :=
  Limbs.value_shiftRight bits n.limbs

/-- The quotient by a power of two to the nearest integer, a tie to the even one. -/
def roundedShift (n : BigNat) (shift : Nat) : BigNat :=
  let halfBit := bit n (shift-1)
  let below := anyBelow n (shift-1)
  let quotient := shiftRight n shift
  if halfBit && (below || bit quotient 0) then mulAdd quotient 1 1 else quotient

end BigNat

/-- The quotient by `2^shift`, by the highest bit that is dropped and those below it. -/
theorem halfEven_bits (n : Nat) {shift : Nat} (hshift : 0 < shift) :
    halfEven n (2^shift) =
      if n/2^(shift-1)%2 = 1 ∧ (n%2^(shift-1) ≠ 0 ∨ n/2^shift%2 = 1) then n/2^shift+1
      else n/2^shift := by
  have hpow : 2^shift = 2^(shift-1)*2 := by
    rw [← pow_succ, Nat.sub_add_cancel hshift]
  have hmod : n%2^shift = n%2^(shift-1)+2^(shift-1)*(n/2^(shift-1)%2) := by rw [hpow, Nat.mod_mul]
  have hlow := Nat.mod_lt n (Nat.two_pow_pos (shift-1))
  have hbit := Nat.mod_two_eq_zero_or_one (n/2^(shift-1))
  have hcond : (2^shift < 2*(n%2^shift) ∨ 2*(n%2^shift) = 2^shift ∧ n/2^shift%2 = 1) ↔
      n/2^(shift-1)%2 = 1 ∧ (n%2^(shift-1) ≠ 0 ∨ n/2^shift%2 = 1) := by
    rw [hmod, hpow]
    rcases hbit with hbit | hbit
    · rw [hbit, Nat.mul_zero, Nat.add_zero]
      omega
    · rw [hbit, Nat.mul_one]
      omega
  rw [halfEven]
  simp only [hcond]

theorem toNat_roundedShift (n : BigNat) {shift : Nat} (hshift : 0 < shift) :
    (BigNat.roundedShift n shift).toNat = halfEven n.toNat (2^shift) := by
  have hcond : (BigNat.bit n (shift-1) &&
      (BigNat.anyBelow n (shift-1) || BigNat.bit (BigNat.shiftRight n shift) 0)) = true ↔
      n.toNat/2^(shift-1)%2 = 1 ∧ (n.toNat%2^(shift-1) ≠ 0 ∨ n.toNat/2^shift%2 = 1) := by
    rw [Bool.and_eq_true, Bool.or_eq_true, BigNat.bit, BigNat.anyBelow, BigNat.bit, Limbs.bit_iff,
      Limbs.anyBelow_iff, Limbs.bit_iff, pow_zero, Nat.div_one, ← BigUInt.toNat, ← BigUInt.toNat,
      BigNat.toNat_shiftRight]
  rw [halfEven_bits _ hshift]
  unfold BigNat.roundedShift
  dsimp only
  rw [apply_ite BigUInt.toNat, BigNat.toNat_mulAdd, BigNat.toNat_shiftRight, UInt32.toNat_one,
    Nat.mul_one]
  simp only [hcond]

/-- `std::invalid_argument`. -/
structure InvalidArgument where
  what : Text
  deriving DecidableEq

/-- The digits in front of the point and behind it, zeros in front where there are too few. -/
def placePoint (digits : Text) (places : Nat) : Text :=
  let digits :=
    if digits.length < places+1 then List.replicate (places+1-digits.length) 48 ++ digits else digits
  digits.take (digits.length-places) ++ 46::digits.drop (digits.length-places)

/-- The value times so many powers of ten, rounded half to even. -/
def scaledInteger (value : Binary64) (places : Nat) : BigNat :=
  let exp2 := exponent value.magnitude
  let scale := BigUInt.smallPower 10 places
  let n := BigNat.mulAdd (BigNat.fromU64 (UInt64.ofNat (mantissa value.magnitude))) scale 0
  if 0 ≤ exp2 then BigNat.shiftLeft n exp2.toNat else BigNat.roundedShift n (-exp2).toNat

/-- `FormatFixedExact`. -/
def formatFixedExact (value : Binary64) (decimals : Int) : Except InvalidArgument Text :=
  if decimals < 1 ∨ 9 < decimals then
    .error ⟨text "FormatFixedExact: decimals must be 1..9"⟩
  else if value.isNaN then .ok (text "nan")
  else if value.isInfinite then .ok (if value.negative then text "-inf" else text "inf")
  else
    let digits := placePoint (scaledInteger value decimals.toNat).toDecimal decimals.toNat
    .ok (if value.negative then 45::digits else digits)

/-- Digits with zeros in front, one more than there are places at least. -/
def padded (digits : Text) (places : Nat) : Text :=
  List.replicate (places+1-digits.length) 48 ++ digits

theorem placePoint_eq (digits : Text) (places : Nat) :
    placePoint digits places =
      (padded digits places).take ((padded digits places).length-places) ++
        46::(padded digits places).drop ((padded digits places).length-places) := by
  have hpadded : (if digits.length < places+1 then
      List.replicate (places+1-digits.length) 48 ++ digits else digits) = padded digits places := by
    split_ifs with hshort
    · rfl
    · rw [padded, Nat.sub_eq_zero_of_le (Nat.le_of_not_lt hshort), List.replicate_zero,
        List.nil_append]
  rw [placePoint, hpadded]

section
variable (negative : Bool) (n places : Nat)

theorem padded_digit : ∀ c ∈ padded (decimal n) places, Json.isDigit c = true := by
  intro c hc
  rcases List.mem_append.mp hc with hc | hc
  · rw [List.eq_of_mem_replicate hc]
    rfl
  · exact (digitsValue_decimal n).2.1 c hc

theorem padded_value : digitsValue (padded (decimal n) places) = n := by
  rw [padded, digitsValue_join, digitsValue_replicate, (digitsValue_decimal n).1, Nat.zero_mul,
    Nat.zero_add]

theorem padded_length (digits : Text) : places < (padded digits places).length := by
  rw [padded, List.length_append, List.length_replicate]
  omega

/-- An integer written out as so many places behind the point. -/
def fixedWritten : Written where
  negative := negative
  integer := (padded (decimal n) places).take ((padded (decimal n) places).length-places)
  fraction := some ((padded (decimal n) places).drop ((padded (decimal n) places).length-places))
  exponent := none
  digit := by
    rw [Option.getD_some, List.take_append_drop]
    exact padded_digit n places
  nonempty := by
    rw [Option.getD_some, List.take_append_drop]
    exact List.length_pos_iff_ne_nil.mp (Nat.zero_lt_of_lt (padded_length places (decimal n)))
  exponentDigit := by simp

theorem fixedWritten_text : (fixedWritten negative n places).text =
    if negative then 45::placePoint (decimal n) places else placePoint (decimal n) places := by
  rw [placePoint_eq]
  simp only [Written.text, Written.unsigned, Written.fractionText, Written.exponentText, fixedWritten,
    List.append_nil]

/-- The text of an integer and its places is read as the nearest double. -/
theorem pyFloat_placePoint : ∃ x : Binary64,
    pyFloat (if negative then 45::placePoint (decimal n) places else placePoint (decimal n) places) =
      .ok (some x) ∧ Rounds negative (n/10^places) x := by
  have hdigits : (fixedWritten negative n places).digits = padded (decimal n) places := by
    simp only [Written.digits, fixedWritten, Option.getD_some, List.take_append_drop]
  have hexp : (fixedWritten negative n places).exp10 = -(places : Int) := by
    have hlength := padded_length places (decimal n)
    simp only [Written.exp10, Written.exponentValue, fixedWritten, Option.getD_some, List.length_drop]
    omega
  have hquotient : decimalRat (padded (decimal n) places) (-(places : Int)) = n/10^places := by
    rw [decimalRat, padded_value, zpow_neg, zpow_natCast, div_eq_mul_inv]
  have hread := (fixedWritten negative n places).pyFloat_text
  rw [fixedWritten_text, hdigits, hexp] at hread
  refine ⟨_, hread, ?_⟩
  rw [← hquotient]
  exact BigUInt.decimalToDouble_rounds _ _ (padded_digit n places)

end

/-- A value below the integers, by its mantissa times the powers of ten. -/
theorem roundsTo_places {m : Nat} (places : Nat) (h : exponent m < 0) :
    RoundsTo (fun k : Nat => (k : ℚ)*(1/10^places)) (grid m)
      (halfEven (mantissa m*10^places) (2^(-exponent m).toNat)) := by
  have hexp : exponent m = -((-exponent m).toNat : Int) := by omega
  have hgrid : grid m =
      ((mantissa m*10^places : Nat) : ℚ)/((2^(-exponent m).toNat : Nat) : ℚ)*(1/10^places) := by
    rw [grid]
    conv_lhs => rw [hexp]
    rw [zpow_neg, zpow_natCast]
    push_cast
    field_simp
  rw [hgrid]
  exact halfEven_roundsTo (Nat.two_pow_pos _) (by positivity)

/-- A value that is an integer has all its places. -/
theorem grid_places {m : Nat} (places : Nat) (h : 0 ≤ exponent m) :
    grid m = ((mantissa m*10^places*2^(exponent m).toNat : Nat) : ℚ)*(1/10^places) := by
  have hexp : exponent m = ((exponent m).toNat : Int) := by omega
  rw [grid]
  conv_lhs => rw [hexp]
  rw [zpow_natCast]
  push_cast
  field_simp

theorem strictMono_places (places : Nat) :
    StrictMono fun k : Nat => (k : ℚ)*(1/10^places) := strictMono_multiples (by positivity)

theorem scaledInteger_roundsTo (value : Binary64) {places : Nat} (hplaces : places < 10) :
    RoundsTo (fun k : Nat => (k : ℚ)*(1/10^places)) (grid value.magnitude)
      (scaledInteger value places).toNat := by
  have hscale := BigUInt.pow10_toNat places hplaces
  have hmantissa : (UInt64.ofNat (mantissa value.magnitude)).toNat = mantissa value.magnitude :=
    UInt64.toNat_ofNat_of_lt' ((Binary64.mantissa_lt _).trans (by norm_num))
  unfold scaledInteger
  dsimp only
  rw [apply_ite BigUInt.toNat, BigNat.toNat_shiftLeft]
  split_ifs with hexp
  · rw [BigNat.toNat_mulAdd, BigNat.toNat_fromU64, hmantissa, hscale, UInt32.toNat_zero, Nat.add_zero,
      grid_places places hexp]
    exact RoundsTo.self (strictMono_places places) _
  · rw [toNat_roundedShift _ (by omega), BigNat.toNat_mulAdd, BigNat.toNat_fromU64, hmantissa, hscale,
      UInt32.toNat_zero, Nat.add_zero]
    exact roundsTo_places places (Int.not_le.mp hexp)

/-- The text of a finite value is that of the nearest number of so many places, a tie to the even
one, and is read as the double nearest to it. -/
theorem formatFixedExact_rounds {value : Binary64} (hv : value.Finite) {decimals : Int}
    (hlow : 1 ≤ decimals) (hhigh : decimals ≤ 9) :
    ∃ t k x, formatFixedExact value decimals = .ok t ∧ pyFloat t = .ok (some x) ∧
      RoundsTo (fun k : Nat => (k : ℚ)*(1/10^decimals.toNat)) (grid value.magnitude) k ∧
      Rounds value.negative (k/10^decimals.toNat) x := by
  obtain ⟨hnan, hinf⟩ := hv.not_special
  obtain ⟨x, hread, hround⟩ := pyFloat_placePoint value.negative
    (scaledInteger value decimals.toNat).toNat decimals.toNat
  have hformat : formatFixedExact value decimals = .ok (if value.negative then
      45::placePoint (decimal (scaledInteger value decimals.toNat).toNat) decimals.toNat
      else placePoint (decimal (scaledInteger value decimals.toNat).toNat) decimals.toNat) := by
    rw [formatFixedExact, if_neg (by omega), hnan, hinf, if_neg Bool.false_ne_true,
      if_neg Bool.false_ne_true, BigUInt.toDecimal_eq]
  exact ⟨_, _, x, hformat, hread, scaledInteger_roundsTo value (by omega), hround⟩

example : formatFixedExact ⟨true, 1015*2^52, by decide⟩ 7 = .ok (text "-0.0039062") := by
  decide +kernel

end DSigMatcher.Diff
