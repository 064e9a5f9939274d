import DSigMatcher.Diff.FixedExact
import DSigMatcher.Diff.U128
import Mathlib

namespace DSigMatcher.Diff
open DSigMatcher.Base DSigMatcher.Framework DSigMatcher.Json
open Binary64 (exponent grid mantissa Nearest Rounds)

/-- `kMutRoundHalfUp`; no mutation is set outside the tests. -/
def mutRoundHalfUp : UInt32 := (1 : UInt32) <<< 0

def mutNoRounding : UInt32 := (1 : UInt32) <<< 1

/-- The quotient by `2^shift`, its remainder compared with half of it. -/
def roundedQuotient (numerator : U128) (shift : Nat) (mutations : UInt32) : U128 :=
  let quotient := numerator.shiftRight shift
  let remainder := numerator.subtract (quotient.shiftLeft shift)
  let half := U128.shiftLeft ⟨0, 1⟩ (shift-1)
  let cmp := remainder.compare half
  let odd := quotient.lo &&& 1 ≠ 0
  if 0 < cmp ∨ cmp = 0 ∧ (mutations &&& mutRoundHalfUp ≠ 0 ∨ odd) then
    ⟨if quotient.lo+1 = 0 then quotient.hi+1 else quotient.hi, quotient.lo+1⟩
  else quotient

/-- The quotient over 10^7: a division where it is exact in a double, else its text is read. -/
def scaledResult (quotient : U128) : Except PyLoadsError (Option Binary64) :=
  if quotient.hi = 0 ∧ quotient.lo < (1 : UInt64) <<< 53 then
    .ok (some ((Binary64.ofNat quotient.lo.toNat).div (Binary64.ofNat 10000000)))
  else pyFloat (quotient.toDecimal ++ text "e-7")

/-- `RoundDecimal7`. -/
def roundDecimal7 (v : Binary64) (mutations : UInt32) : Except PyLoadsError (Option Binary64) :=
  if mutations &&& mutNoRounding ≠ 0 then .ok (some v)
  else if ¬ v.Finite ∨ v.isZero then .ok (some v)
  else
    let exp2 := exponent v.magnitude
    if 0 ≤ exp2 then .ok (some v)
    else
      let shift := (-exp2).toNat
      let numerator := mul64 (UInt64.ofNat (mantissa v.magnitude)) 10000000
      -- from 128 bits on the value is far below half of the last place
      let quotient := if shift < 128 then roundedQuotient numerator shift mutations else ⟨0, 0⟩
      (scaledResult quotient).map fun result =>
        result.map fun x => if v.negative then { x with negative := !x.negative } else x

theorem toNat_increment (q : U128) (h : q.toNat+1 < 2^128) :
    U128.toNat ⟨if q.lo+1 = 0 then q.hi+1 else q.hi, q.lo+1⟩ = q.toNat+1 := by
  have hhi := q.hi.toNat_lt
  have hlo := q.lo.toNat_lt
  have hnext : (q.lo+1).toNat = (q.lo.toNat+1)%2^64 := by
    rw [UInt64.toNat_add, UInt64.toNat_one]
  unfold U128.toNat at h ⊢
  dsimp only
  rw [hnext]
  split_ifs with hcarry
  · rw [← UInt64.toNat_inj, hnext, UInt64.toNat_zero] at hcarry
    rw [UInt64.toNat_add, UInt64.toNat_one]
    omega
  · rw [← UInt64.toNat_inj, hnext, UInt64.toNat_zero] at hcarry
    omega

theorem odd_iff (x : UInt64) : x &&& 1 ≠ 0 ↔ x.toNat%2 = 1 := by
  have hlow : (x &&& 1).toNat = x.toNat%2 := by
    rw [UInt64.toNat_and]
    exact Nat.and_one_is_mod _
  rw [ne_eq, ← UInt64.toNat_inj, hlow, UInt64.toNat_zero]
  omega

theorem roundedQuotient_toNat (numerator : U128) {shift : Nat} (hpos : 0 < shift)
    (hshift : shift < 128) :
    (roundedQuotient numerator shift 0).toNat = halfEven numerator.toNat (2^shift) := by
  have hlt := numerator.toNat_lt
  have hpow := Nat.two_pow_pos shift
  have hquotient := numerator.shiftRight_toNat hshift
  have hdivmod := Nat.div_add_mod numerator.toNat (2^shift)
  have hback : ((numerator.shiftRight shift).shiftLeft shift).toNat =
      2^shift*(numerator.toNat/2^shift) := by
    rw [U128.shiftLeft_toNat _ hshift, hquotient, Nat.mul_comm]
    rw [hquotient, Nat.mul_comm]
    omega
  have hremainder : (numerator.subtract ((numerator.shiftRight shift).shiftLeft shift)).toNat =
      numerator.toNat%2^shift := by
    rw [U128.subtract_toNat, hback]
    · omega
    · rw [hback]
      omega
  have hone : U128.toNat ⟨0, 1⟩ = 1 := rfl
  have hhalf : (U128.shiftLeft ⟨0, 1⟩ (shift-1)).toNat = 2^(shift-1) := by
    rw [U128.shiftLeft_toNat _ (by omega), hone, Nat.one_mul]
    rw [hone, Nat.one_mul]
    exact Nat.pow_lt_pow_right one_lt_two (by omega)
  have hdouble : 2^shift = 2*2^(shift-1) := by
    rw [← pow_succ', Nat.sub_add_cancel hpos]
  have hodd : (numerator.shiftRight shift).lo &&& 1 ≠ 0 ↔ numerator.toNat/2^shift%2 = 1 := by
    rw [odd_iff, ← hquotient, U128.toNat]
    omega
  obtain ⟨hmore, htie⟩ := U128.compare_spec
    (numerator.subtract ((numerator.shiftRight shift).shiftLeft shift))
    (U128.shiftLeft ⟨0, 1⟩ (shift-1))
  rw [hremainder, hhalf] at hmore htie
  have hcond : (0 < (numerator.subtract ((numerator.shiftRight shift).shiftLeft shift)).compare
        (U128.shiftLeft ⟨0, 1⟩ (shift-1)) ∨
      (numerator.subtract ((numerator.shiftRight shift).shiftLeft shift)).compare
        (U128.shiftLeft ⟨0, 1⟩ (shift-1)) = 0 ∧
      ((0 : UInt32) &&& mutRoundHalfUp ≠ 0 ∨ (numerator.shiftRight shift).lo &&& 1 ≠ 0)) ↔
      2^shift < 2*(numerator.toNat%2^shift) ∨
        2*(numerator.toNat%2^shift) = 2^shift ∧ numerator.toNat/2^shift%2 = 1 := by
    have hnone : ¬ (0 : UInt32) &&& mutRoundHalfUp ≠ 0 := by decide
    rw [hmore, htie, hodd, or_iff_right hnone]
    omega
  have hnext : (numerator.shiftRight shift).toNat+1 < 2^128 := by
    have hsmall : numerator.toNat/2^shift ≤ numerator.toNat/2^1 :=
      Nat.div_le_div_left (Nat.pow_le_pow_right two_pos hpos) (by norm_num)
    rw [hquotient]
    omega
  unfold roundedQuotient halfEven
  dsimp only
  rw [apply_ite U128.toNat, toNat_increment _ hnext, hquotient]
  simp only [hcond]

theorem halfEven_small {n d : Nat} (h : 2*n < d) : halfEven n d = 0 := by
  have hdiv : n/d = 0 := Nat.div_eq_of_lt (by omega)
  have hmod : n%d = n := Nat.mod_eq_of_lt (by omega)
  rw [halfEven, hdiv, hmod, if_neg (by omega)]

/-- The integer in front of `e-7`. -/
def scaledWritten (n : Nat) : Written where
  negative := false
  integer := decimal n
  fraction := none
  exponent := some (true, [55])
  digit := by
    rw [Option.getD_none, List.append_nil]
    exact (digitsValue_decimal n).2.1
  nonempty := by
    rw [Option.getD_none, List.append_nil]
    exact decimal_ne_nil n
  exponentDigit := by
    simp [Json.isDigit]

/-- Both ways lead to the double nearest to the quotient. -/
theorem scaledResult_rounds (q : U128) : ∃ x : Binary64,
    scaledResult q = .ok (some x) ∧ Rounds false (q.toNat/10^7) x := by
  unfold scaledResult
  split_ifs with hsmall
  · have hbound : ((1 : UInt64) <<< 53).toNat = 2^53 := rfl
    have hlow : q.lo.toNat < 2^53 := hbound ▸ UInt64.lt_iff_toNat_lt.mp hsmall.2
    have hwhole : q.toNat = q.lo.toNat := by
      rw [U128.toNat, hsmall.1, UInt64.toNat_zero, Nat.zero_mul, Nat.zero_add]
    have hround := Binary64.div_ofNat_rounds (b := 10000000) hlow (by norm_num) (by norm_num)
    have hten : ((10000000 : Nat) : ℚ) = 10^7 := by norm_num
    rw [hten] at hround
    rw [hwhole]
    exact ⟨_, rfl, hround⟩
  · have hread := (scaledWritten q.toNat).pyFloat_text
    have htext : (scaledWritten q.toNat).text = q.toDecimal ++ text "e-7" := by
      rw [U128.toDecimal_eq]
      rfl
    have hdigits : (scaledWritten q.toNat).digits = decimal q.toNat := List.append_nil _
    have hexp : (scaledWritten q.toNat).exp10 = -7 := rfl
    have hquotient : decimalRat (decimal q.toNat) (-7) = q.toNat/10^7 := by
      rw [decimalRat, (digitsValue_decimal _).1, zpow_neg, div_eq_mul_inv]
      norm_num
    rw [htext, hdigits, hexp] at hread
    refine ⟨_, hread, ?_⟩
    rw [← hquotient]
    exact BigUInt.decimalToDouble_rounds _ _ (digitsValue_decimal _).2.1

/-- A value of seven places is its own rounding. -/
theorem rounds_places {v : Binary64} (hv : v.Finite) {k : Nat}
    (h : grid v.magnitude = (k : ℚ)*(1/10^7)) :
    RoundsTo (fun k : Nat => (k : ℚ)*(1/10^7)) (grid v.magnitude) k ∧
      Rounds v.negative (k/10^7) v := by
  refine ⟨?_, ?_⟩
  · rw [h]
    exact RoundsTo.self (strictMono_places 7) k
  · have hself := Rounds.self hv
    rwa [h, mul_one_div] at hself

/-- The quotient is the value times 10^7 to the nearest integer, whatever the shift. -/
theorem scaledQuotient_toNat {m : Nat} (h : exponent m < 0) :
    (if (-exponent m).toNat < 128 then
      roundedQuotient (mul64 (UInt64.ofNat (mantissa m)) 10000000) (-exponent m).toNat 0
      else ⟨0, 0⟩).toNat = halfEven (mantissa m*10^7) (2^(-exponent m).toNat) := by
  have hmantissa := Binary64.mantissa_lt m
  have hword : (UInt64.ofNat (mantissa m)).toNat = mantissa m :=
    UInt64.toNat_ofNat_of_lt' (hmantissa.trans (by norm_num))
  have hten : (10000000 : UInt64).toNat = 10^7 := rfl
  split_ifs with hshift
  · rw [roundedQuotient_toNat _ (by omega) hshift, mul64_toNat, hword, hten]
  · have hpow : 2^128 ≤ 2^(-exponent m).toNat := Nat.pow_le_pow_right two_pos (by omega)
    rw [halfEven_small]
    · rfl
    · omega

theorem roundDecimal7_rounds {v : Binary64} (hv : v.Finite) :
    ∃ k x, roundDecimal7 v 0 = .ok (some x) ∧
      RoundsTo (fun k : Nat => (k : ℚ)*(1/10^7)) (grid v.magnitude) k ∧
      Rounds v.negative (k/10^7) x := by
  have hnone : ¬ (0 : UInt32) &&& mutNoRounding ≠ 0 := by simp
  unfold roundDecimal7
  dsimp only
  rw [if_neg hnone]
  by_cases hzero : ¬ v.Finite ∨ v.isZero
  · have hmagnitude : v.magnitude = 0 := of_decide_eq_true (hzero.resolve_left (not_not.mpr hv))
    rw [if_pos hzero]
    refine ⟨0, v, rfl, rounds_places hv ?_⟩
    rw [hmagnitude, Binary64.grid_zero, Nat.cast_zero, zero_mul]
  · rw [if_neg hzero]
    by_cases hinteger : 0 ≤ exponent v.magnitude
    · rw [if_pos hinteger]
      exact ⟨_, v, rfl, rounds_places hv (grid_places 7 hinteger)⟩
    · have hexp : exponent v.magnitude < 0 := Int.not_le.mp hinteger
      obtain ⟨x, hresult, hround⟩ := scaledResult_rounds (if (-exponent v.magnitude).toNat < 128 then
        roundedQuotient (mul64 (UInt64.ofNat (mantissa v.magnitude)) 10000000)
          (-exponent v.magnitude).toNat 0 else ⟨0, 0⟩)
      have hsign : x.negative = false := hround.nearest.sign
      have hsigned : (if v.negative then { x with negative := !x.negative } else x) =
          ⟨v.negative, x.magnitude, x.bounded⟩ := by
        cases v.negative with
        | true => rw [if_pos rfl, hsign, Bool.not_false]
        | false => exact Binary64.ext hsign rfl
      rw [scaledQuotient_toNat hexp] at hround
      rw [if_neg hinteger, hresult]
      refine ⟨_, _, congrArg (fun y => Except.ok (some y)) hsigned, roundsTo_places 7 hexp,
        hround.signed v.negative⟩

/-- A finite value is rounded to what the text of its seven decimals is read as: the number of seven
decimals that is nearest to it, a tie to the even one, and the double nearest to that, with the sign
of the value. -/
theorem roundDecimal7_exact (v : Binary64) (hv : v.Finite) :
    ∃ (t : Text) (k : Nat) (x : Binary64), formatFixedExact v 7 = .ok t ∧ pyFloat t = .ok (some x) ∧
      roundDecimal7 v 0 = .ok (some x) ∧
      RoundsTo (fun k : Nat => (k : ℚ)/10^7) (grid v.magnitude) k ∧
      Nearest v.negative (k/10^7) x := by
  obtain ⟨t, k, x, hformat, hread, hplaces, hround⟩ := formatFixedExact_rounds hv
    (show (1 : Int) ≤ 7 by norm_num) (by norm_num)
  obtain ⟨k', x', hresult, hplaces', hround'⟩ := roundDecimal7_rounds hv
  have hk : k' = k := hplaces'.unique (strictMono_places 7) hplaces
  rw [hk] at hround' hplaces'
  have hx : x' = x := hround'.unique hround
  simp only [mul_one_div] at hplaces'
  rw [hx] at hresult
  exact ⟨t, k, x, hformat, hread, hresult, hplaces', hround.nearest⟩

/-- A negative value halfway between two numbers of seven decimals. -/
theorem roundDecimal7_exact_tie :
    let v : Binary64 := ⟨true, 1015*2^52, by decide⟩
    ∃ (t : Text) (k : Nat) (x : Binary64), formatFixedExact v 7 = .ok t ∧ pyFloat t = .ok (some x) ∧
      roundDecimal7 v 0 = .ok (some x) ∧
      RoundsTo (fun k : Nat => (k : ℚ)/10^7) (grid v.magnitude) k ∧
      Nearest v.negative (k/10^7) x :=
  roundDecimal7_exact ⟨true, 1015*2^52, by decide⟩ (by decide)

end DSigMatcher.Diff
