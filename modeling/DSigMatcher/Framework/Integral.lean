import DSigMatcher.Framework.FloatOps
import Mathlib

namespace DSigMatcher.Framework
namespace Binary64

/-- The conversion to an unsigned integer, which cuts off the fraction. -/
def truncate (m : Nat) : Nat := units m/oneUnits

/-- The magnitude of the integer below a finite word. -/
def floorMagnitude (x : Binary64) : Nat :=
  if x.negative then (units x.magnitude+(oneUnits-1))/oneUnits else truncate x.magnitude

/-- `std::floor`. -/
def floor (x : Binary64) : Binary64 :=
  if x.isNaN || x.isInfinite then x
  else ofMagnitude x.negative (ratioMagnitude (floorMagnitude x) 1)

/-- A finite word without a fraction. -/
def Integral (x : Binary64) : Prop := x.Finite ∧ oneUnits ∣ units x.magnitude

/-- The integer that an integral word is. -/
def integer (x : Binary64) : Int :=
  if x.negative then -(truncate x.magnitude : Int) else truncate x.magnitude

section
variable {x y : Binary64}

theorem finite_iff : x.Finite ↔ (!x.isNaN && !x.isInfinite) = true := by
  have hlt : x.Finite ↔ x.magnitude < infinityMagnitude := Iff.rfl
  rw [hlt, isNaN, isInfinite]
  simp
  omega

/-- A word with a fraction lies below `2^52`. -/
theorem units_lt_of_fraction {m : Nat} (h : ¬ oneUnits ∣ units m) : units m < 2^52*oneUnits := by
  have hmantissa := mantissa_lt m
  rcases Int.lt_or_le (exponent m) 0 with hneg | hpos
  · have hpow : 2*2^(exponent m+1074).toNat ≤ oneUnits := by
      rw [← pow_succ', oneUnits]
      apply Nat.pow_le_pow_right two_pos
      omega
    have hlt : units m < 2^53*2^(exponent m+1074).toNat :=
      Nat.mul_lt_mul_of_pos_right hmantissa (Nat.two_pow_pos _)
    omega
  · refine absurd ?_ h
    have hexp : (exponent m+1074).toNat = 1074+(exponent m).toNat := by omega
    rw [units, hexp, pow_add, oneUnits]
    exact Dvd.dvd.mul_left (Nat.dvd_mul_right _ _) _

@[simp] theorem truncate_zero : truncate 0 = 0 := by
  have hmantissa : mantissa 0 = 0 := rfl
  rw [truncate, units, hmantissa, Nat.zero_mul, Nat.zero_div]

theorem grid_eq_truncate {m : Nat} (h : oneUnits ∣ units m) : grid m = truncate m := by
  obtain ⟨n, hn⟩ := h
  have hone : (oneUnits : ℚ) ≠ 0 := Nat.cast_ne_zero.mpr (Nat.ne_of_gt oneUnits_pos)
  rw [grid_eq_units, truncate, hn, Nat.mul_div_cancel_left n oneUnits_pos, Nat.cast_mul]
  exact mul_div_cancel_left₀ _ hone

theorem dvd_of_grid {m n : Nat} (h : grid m = n) : oneUnits ∣ units m := by
  have hone : (oneUnits : ℚ) ≠ 0 := Nat.cast_ne_zero.mpr (Nat.ne_of_gt oneUnits_pos)
  rw [grid_eq_units, div_eq_iff hone] at h
  refine ⟨n, ?_⟩
  rw [Nat.mul_comm]
  exact_mod_cast h

theorem Integral.value_eq (h : x.Integral) : x.value = x.integer := by
  rw [value, integer, grid_eq_truncate h.2]
  split_ifs <;> simp

theorem integral_of_value {n : Int} (hx : x.Finite) (h : x.value = n) : x.Integral := by
  refine ⟨hx, ?_⟩
  have hgrid : grid x.magnitude = (n.natAbs : ℚ) := by
    have hnonneg := grid_nonneg x.magnitude
    rw [value] at h
    rw [Nat.cast_natAbs, Int.cast_abs, ← h]
    split_ifs
    · rw [abs_neg, abs_of_nonneg hnonneg]
    · rw [abs_of_nonneg hnonneg]
  exact dvd_of_grid hgrid

/-- An integer that is a value is rounded to itself. -/
theorem ratioMagnitude_of_grid {m n : Nat} (h : grid m = n) : ratioMagnitude n 1 = m := by
  have hround := ratioMagnitude_roundsTo n Nat.one_pos
  rw [Nat.cast_one, div_one, ← h] at hround
  exact hround.unique grid_strictMono (.self grid_strictMono m)

theorem floorMagnitude_of_dvd (h : oneUnits ∣ units x.magnitude) :
    floorMagnitude x = truncate x.magnitude := by
  obtain ⟨n, hn⟩ := h
  have hpos := oneUnits_pos
  rw [floorMagnitude, truncate, hn, Nat.mul_div_cancel_left n hpos, Nat.mul_add_div hpos,
    Nat.div_eq_of_lt (Nat.sub_lt hpos Nat.one_pos), Nat.add_zero]
  exact ite_self n

theorem floorMagnitude_lt (h : ¬ oneUnits ∣ units x.magnitude) : floorMagnitude x < 2^53 := by
  have hlt := units_lt_of_fraction h
  have hpos := oneUnits_pos
  rw [floorMagnitude, truncate]
  split_ifs
  · rw [Nat.div_lt_iff_lt_mul hpos]
    omega
  · rw [Nat.div_lt_iff_lt_mul hpos]
    omega

theorem magnitude_eq_of_key (h : x.key = y.key) : x.magnitude = y.magnitude := by
  rw [key, key] at h
  split_ifs at h <;> omega

theorem Integral.of_key (hx : x.Integral) (h : x.key = y.key) : y.Integral := by
  rw [Integral, Finite, ← magnitude_eq_of_key h]
  exact hx

theorem integral_of_key_zero (h : x.key = 0) : x.Integral := by
  have hzero : zero.Integral := by
    refine ⟨by decide, ?_⟩
    have hunits : units zero.magnitude = 0 := by
      have hmantissa : mantissa zero.magnitude = 0 := rfl
      rw [units, hmantissa, Nat.zero_mul]
    rw [hunits]
    exact dvd_zero _
  exact hzero.of_key h.symm

/-- Words of the same key are words of the same value. -/
theorem key_eq_iff_value : x.key = y.key ↔ x.value = y.value := by
  have hinj : ∀ m n : Nat, grid m = grid n ↔ m = n := fun m n => grid_strictMono.injective.eq_iff
  have hopposite : ∀ m n : Nat, -grid m = grid n ↔ m = 0 ∧ n = 0 := by
    intro m n
    have hm := grid_nonneg m
    have hn := grid_nonneg n
    rw [← hinj m 0, ← hinj n 0, grid_zero]
    constructor
    · intro h
      exact ⟨by linarith, by linarith⟩
    · rintro ⟨hm, hn⟩
      rw [hm, hn, neg_zero]
  rw [key, key, value, value]
  cases x.negative <;> cases y.negative
  · simp [hinj]
  · have hsame := hopposite y.magnitude x.magnitude
    simp only [Bool.false_eq_true, if_false, if_true, eq_comm (b := -grid y.magnitude), hsame]
    omega
  · simp only [Bool.false_eq_true, if_false, if_true, hopposite]
    omega
  · simp [hinj]

theorem key_ofMagnitude (negative : Bool) {m : Nat} (hm : m < infinityMagnitude) :
    (ofMagnitude negative m).key = if negative then -(m : Int) else m := by
  have hmin : (ofMagnitude negative m).magnitude = m := Nat.min_eq_left (Nat.le_of_lt hm)
  rw [key, hmin]
  rfl

/-- A finite word is its own floor exactly when it is integral. -/
theorem floor_eq_iff (hx : x.Finite) : (floor x).eq x = true ↔ x.Integral := by
  obtain ⟨hnan, hinf⟩ := hx.not_special
  have hfloor : floor x = ofMagnitude x.negative (ratioMagnitude (floorMagnitude x) 1) := by
    rw [floor, hnan, hinf]
    rfl
  rw [hfloor, eq_iff _ _ (ofMagnitude_not_nan _ _) hnan]
  constructor
  · intro hkey
    refine ⟨hx, ?_⟩
    by_contra hfraction
    obtain ⟨m, hm, hgrid⟩ := exists_grid_eq (floorMagnitude_lt hfraction)
    rw [ratioMagnitude_of_grid hgrid, key_ofMagnitude _ hm, key] at hkey
    have hsame : m = x.magnitude := by
      cases hneg : x.negative <;> simp [hneg] at hkey <;> omega
    exact hfraction (hsame ▸ dvd_of_grid hgrid)
  · intro h
    rw [floorMagnitude_of_dvd h.2, ratioMagnitude_of_grid (grid_eq_truncate h.2),
      key_ofMagnitude _ hx, key]

end

end Binary64
end DSigMatcher.Framework
