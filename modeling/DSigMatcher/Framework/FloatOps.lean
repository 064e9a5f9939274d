import DSigMatcher.Framework.Rounding
import Mathlib

namespace DSigMatcher.Framework
namespace Binary64

def isInfinite (x : Binary64) : Bool := x.magnitude = infinityMagnitude

def isZero (x : Binary64) : Bool := x.magnitude = 0

/-- The quiet NaN of an invalid operation. -/
def nan : Binary64 := ⟨false, infinityMagnitude+2^51, by decide⟩

/-- The value of a magnitude in units of the smallest one. -/
def units (m : Nat) : Nat := mantissa m*2^(exponent m+1074).toNat

/-- `<=`: false on NaN. -/
instance : LE Binary64 := ⟨fun x y => x.isNaN = false ∧ y.isNaN = false ∧ x.key ≤ y.key⟩

instance : DecidableLE Binary64 := fun x y =>
  inferInstanceAs (Decidable (x.isNaN = false ∧ y.isNaN = false ∧ x.key ≤ y.key))

/-- The units that make one. -/
def oneUnits : Nat := 2^1074

/-- The conversion of an unsigned integer. -/
def ofNat (n : Nat) : Binary64 := ofMagnitude false (ratioMagnitude n 1)

def mul (x y : Binary64) : Binary64 :=
  let negative := x.negative != y.negative
  if x.isNaN || y.isNaN || x.isInfinite && y.isZero || x.isZero && y.isInfinite then nan
  else if x.isInfinite || y.isInfinite then ofMagnitude negative infinityMagnitude
  else ofMagnitude negative
    (ratioMagnitude (units x.magnitude*units y.magnitude) (oneUnits*oneUnits))

def div (x y : Binary64) : Binary64 :=
  let negative := x.negative != y.negative
  if x.isNaN || y.isNaN || x.isInfinite && y.isInfinite || x.isZero && y.isZero then nan
  else if x.isInfinite || y.isZero then ofMagnitude negative infinityMagnitude
  else if y.isInfinite then ofMagnitude negative 0
  else ofMagnitude negative (ratioMagnitude (units x.magnitude) (units y.magnitude))

/-- The value in units of the smallest one, under its sign. -/
def signedUnits (x : Binary64) : Int :=
  if x.negative then -(units x.magnitude : Int) else units x.magnitude

def add (x y : Binary64) : Binary64 :=
  if x.isNaN || y.isNaN || x.isInfinite && y.isInfinite && x.negative != y.negative then nan
  else if x.isInfinite then x
  else if y.isInfinite then y
  else
    let sum := x.signedUnits+y.signedUnits
    -- a sum of zero is negative only where both numbers are
    let negative := if sum = 0 then x.negative && y.negative else decide (sum < 0)
    ofMagnitude negative (ratioMagnitude sum.natAbs oneUnits)

def sub (x y : Binary64) : Binary64 := add x { y with negative := !y.negative }

/-- `std::fabs`. -/
def abs (x : Binary64) : Binary64 := { x with negative := false }

theorem exponent_ge (m : Nat) : -1074 ≤ exponent m := by
  unfold exponent
  split_ifs <;> omega

theorem oneUnits_pos : 0 < oneUnits := by
  unfold oneUnits
  apply pow_pos
  decide

theorem grid_eq_units (m : Nat) : grid m = units m/oneUnits := by
  have hexp : exponent m = ((exponent m+1074).toNat : Int)-1074 := by
    have hge := exponent_ge m
    omega
  have hpow : (2 : ℚ)^exponent m = 2^(exponent m+1074).toNat/2^1074 := by
    rw [← unit_eq, ← hexp]
  rw [grid, units, oneUnits, hpow, Nat.cast_mul, Nat.cast_pow, Nat.cast_pow, Nat.cast_ofNat,
    mul_div_assoc]

theorem units_pos {m : Nat} (hm : m ≠ 0) : 0 < units m := by
  apply Nat.mul_pos _ (Nat.two_pow_pos _)
  unfold mantissa
  split_ifs <;> omega

section
variable {x y : Binary64}

theorem Finite.not_special (hx : x.Finite) : x.isNaN = false ∧ x.isInfinite = false := by
  have hlt : x.magnitude < infinityMagnitude := hx
  unfold isNaN isInfinite
  simp
  omega

theorem mul_rounds (hx : x.Finite) (hy : y.Finite) :
    Rounds (x.negative != y.negative) (grid x.magnitude*grid y.magnitude) (mul x y) := by
  obtain ⟨hxn, hxi⟩ := hx.not_special
  obtain ⟨hyn, hyi⟩ := hy.not_special
  have hq : grid x.magnitude*grid y.magnitude =
      ((units x.magnitude*units y.magnitude : Nat) : ℚ)/((oneUnits*oneUnits : Nat) : ℚ) := by
    rw [grid_eq_units, grid_eq_units, div_mul_div_comm, Nat.cast_mul, Nat.cast_mul]
  refine ⟨ratioMagnitude (units x.magnitude*units y.magnitude) (oneUnits*oneUnits), ?_, ?_⟩
  · rw [hq]
    exact ratioMagnitude_roundsTo _ (Nat.mul_pos oneUnits_pos oneUnits_pos)
  · simp [mul, hxn, hxi, hyn, hyi]

theorem div_rounds (hx : x.Finite) (hy : y.Finite) (hzero : y.magnitude ≠ 0) :
    Rounds (x.negative != y.negative) (grid x.magnitude/grid y.magnitude) (div x y) := by
  obtain ⟨hxn, hxi⟩ := hx.not_special
  obtain ⟨hyn, hyi⟩ := hy.not_special
  have hq : grid x.magnitude/grid y.magnitude =
      (units x.magnitude : ℚ)/(units y.magnitude : ℚ) := by
    rw [grid_eq_units, grid_eq_units,
      div_div_div_cancel_right₀ (Nat.cast_ne_zero.mpr (Nat.ne_of_gt oneUnits_pos))]
  have hyz : y.isZero = false := decide_eq_false hzero
  refine ⟨ratioMagnitude (units x.magnitude) (units y.magnitude), ?_, ?_⟩
  · rw [hq]
    exact ratioMagnitude_roundsTo _ (units_pos hzero)
  · simp [div, hxn, hxi, hyn, hyi, hyz]

end

/-- An integer of at most 53 bits is a value. -/
theorem exists_grid_eq {n : Nat} (hn : n < 2^53) : ∃ m < infinityMagnitude, grid m = n := by
  rcases Nat.eq_zero_or_pos n with rfl | hpos
  · exact ⟨0, by decide, by simp⟩
  · have hlog : Nat.log2 n ≤ 52 := Nat.le_of_lt_succ ((Nat.log2_lt (Nat.ne_of_gt hpos)).mpr hn)
    have hlow := Nat.log2_self_le (Nat.ne_of_gt hpos)
    have hhigh := Nat.lt_log2_self (n := n)
    generalize Nat.log2 n = l at hlog hlow hhigh
    have hk : 2^52 ≤ n*2^(52-l) := by
      calc 2^52 = 2^l*2^(52-l) := by rw [← pow_add, Nat.add_sub_cancel' hlog]
        _ ≤ n*2^(52-l) := Nat.mul_le_mul_right _ hlow
    have hk' : n*2^(52-l) ≤ 2^53 := by
      calc n*2^(52-l) ≤ 2^(l+1)*2^(52-l) := Nat.mul_le_mul_right _ (Nat.le_of_lt hhigh)
        _ = 2^53 := by rw [← pow_add, show l+1+(52-l) = 53 by omega]
    refine ⟨(1022+l)*2^52+n*2^(52-l), ?_, ?_⟩
    · rw [infinityMagnitude]
      omega
    · have hexp : ((1022+l : Nat) : Int)-1074 = -((52-l : Nat) : Int) := by omega
      rw [grid_binade hk' (.inr hk), hexp, zpow_neg, zpow_natCast, Nat.cast_mul, Nat.cast_pow,
        Nat.cast_ofNat]
      exact mul_inv_cancel_right₀ (pow_ne_zero _ two_ne_zero) _

theorem ofNat_exact {n : Nat} (hn : n < 2^53) :
    (ofNat n).Finite ∧ grid (ofNat n).magnitude = n := by
  obtain ⟨m, hm, hgrid⟩ := exists_grid_eq hn
  have hround := ratioMagnitude_roundsTo n Nat.one_pos
  rw [Nat.cast_one, div_one, ← hgrid] at hround
  have hsame := hround.unique grid_strictMono (.self grid_strictMono m)
  have hmag : (ofNat n).magnitude = m := by
    show min (ratioMagnitude n 1) infinityMagnitude = m
    omega
  rw [Finite, hmag]
  exact ⟨hm, hgrid⟩

/-- The quotient of two integers that are values. -/
theorem div_ofNat_rounds {a b : Nat} (ha : a < 2^53) (hb : b < 2^53) (hpos : b ≠ 0) :
    Rounds false ((a : ℚ)/b) (div (ofNat a) (ofNat b)) := by
  obtain ⟨hfinite, hgrid⟩ := ofNat_exact ha
  obtain ⟨hfinite', hgrid'⟩ := ofNat_exact hb
  have hne : (ofNat b).magnitude ≠ 0 := by
    intro hzero
    rw [hzero, grid_zero] at hgrid'
    exact hpos (Nat.cast_eq_zero.mp hgrid'.symm)
  have hround := div_rounds hfinite hfinite' hne
  rwa [hgrid, hgrid'] at hround

theorem ofMagnitude_not_nan (negative : Bool) (m : Nat) : (ofMagnitude negative m).isNaN = false :=
  decide_eq_false (Nat.not_lt.mpr (Nat.min_le_right m infinityMagnitude))

/-- Rounded numbers compare as the numbers do. -/
theorem Rounds.le {q q' : ℚ} {x y : Binary64} (h : Rounds false q x) (h' : Rounds false q' y)
    (hq : q ≤ q') : x ≤ y := by
  have hmag := h.mono h' hq
  obtain ⟨m, -, rfl⟩ := h
  obtain ⟨m', -, rfl⟩ := h'
  exact ⟨ofMagnitude_not_nan _ _, ofMagnitude_not_nan _ _, Int.ofNat_le.mpr hmag⟩

end Binary64
end DSigMatcher.Framework
