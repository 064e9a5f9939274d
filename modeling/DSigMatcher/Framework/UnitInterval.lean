import DSigMatcher.Framework.FloatOps
import Mathlib

namespace DSigMatcher.Framework
namespace Binary64

/-- A number of the unit interval, and not the negative zero. -/
structure InUnit (x : Binary64) : Prop where
  sign : x.negative = false
  bound : x.magnitude ≤ one.magnitude

theorem grid_magnitude_one : grid one.magnitude = 1 := by
  have hgrid := grid_binade (b := 1022) (k := 2^52) (by norm_num) (.inr (le_refl _))
  have hexp : ((1022 : Nat) : Int)-1074 = -(52 : Nat) := by norm_num
  rw [hexp, zpow_neg, zpow_natCast] at hgrid
  norm_num at hgrid
  exact hgrid

theorem grid_magnitude_zero : grid zero.magnitude = 0 := grid_zero

section
variable {x y : Binary64}

theorem one_finite : one.Finite := by decide

theorem eq_one_iff : x.eq one = true ↔ x = one := by
  constructor
  · exact eq_one x
  · intro hx
    rw [hx]
    decide

theorem rounds_one : Rounds false 1 one := by
  have h := Rounds.self one_finite
  rwa [grid_magnitude_one] at h

namespace InUnit

theorem zero : InUnit .zero := ⟨rfl, by decide⟩

theorem one : InUnit .one := ⟨rfl, le_refl _⟩

theorem finite (h : InUnit x) : x.Finite := Nat.lt_of_le_of_lt h.bound one_finite

theorem not_nan (h : InUnit x) : x.isNaN = false := h.finite.not_special.1

theorem key (h : InUnit x) : x.key = x.magnitude := by
  rw [Binary64.key, h.sign, if_neg Bool.false_ne_true]

theorem lt_iff (h : InUnit x) (h' : InUnit y) : x < y ↔ x.magnitude < y.magnitude := by
  rw [Binary64.lt_iff x y h.not_nan h'.not_nan, h.key, h'.key, Int.ofNat_lt]

/-- What is not one is below it. -/
theorem lt_one_iff (h : InUnit x) : x < Binary64.one ↔ x ≠ .one := by
  rw [h.lt_iff InUnit.one]
  constructor
  · intro hlt heq
    exact absurd hlt (by rw [heq]; exact Nat.lt_irrefl _)
  · intro hne
    apply Nat.lt_of_le_of_ne h.bound
    intro heq
    exact hne (Binary64.ext h.sign heq)

theorem grid_le (h : InUnit x) : grid x.magnitude ≤ 1 := by
  rw [← grid_magnitude_one]
  exact grid_strictMono.monotone h.bound

theorem of_rounds {q : ℚ} (h : Rounds false q x) (hq : q ≤ 1) : InUnit x :=
  ⟨h.nearest.sign, h.mono rounds_one hq⟩

theorem of_lt_one (hsign : x.negative = false) (h : x < Binary64.one) : InUnit x := by
  have hlt := (Binary64.lt_iff x .one h.1 h.2.1).mp h
  rw [Binary64.key, hsign, if_neg Bool.false_ne_true] at hlt
  exact ⟨hsign, Nat.le_of_lt (Int.ofNat_lt.mp hlt)⟩

end InUnit

theorem signedUnits_nonneg (hx : x.negative = false) : x.signedUnits = units x.magnitude := by
  rw [signedUnits, hx, if_neg Bool.false_ne_true]

/-- Two numbers without a sign have a sum without one. -/
theorem add_sign (hx : x.negative = false) (hy : y.negative = false) :
    (x.add y).negative = false := by
  unfold add
  split_ifs
  · rfl
  · exact hx
  · exact hy
  · rw [signedUnits_nonneg hx, signedUnits_nonneg hy, hx, hy]
    show (if ((units x.magnitude : Int)+units y.magnitude) = 0 then false && false
      else decide (((units x.magnitude : Int)+units y.magnitude) < 0)) = false
    split_ifs
    · rfl
    · exact decide_eq_false (by omega)

theorem mul_sign (hx : x.negative = false) (hy : y.negative = false) :
    (x.mul y).negative = false := by
  unfold mul
  rw [hx, hy]
  split_ifs <;> rfl

theorem add_rounds (hx : x.Finite) (hy : y.Finite) (hxs : x.negative = false)
    (hys : y.negative = false) : Rounds false (grid x.magnitude+grid y.magnitude) (x.add y) := by
  obtain ⟨hxn, hxi⟩ := hx.not_special
  obtain ⟨hyn, hyi⟩ := hy.not_special
  have hsum :
      x.add y = ofMagnitude false (ratioMagnitude (units x.magnitude+units y.magnitude) oneUnits) := by
    have hsign := add_sign hxs hys
    unfold add at hsign ⊢
    simp only [hxn, hyn, hxi, hyi, Bool.false_eq_true, Bool.or_false, Bool.false_and, if_false,
      signedUnits_nonneg hxs, signedUnits_nonneg hys] at hsign ⊢
    refine Binary64.ext hsign ?_
    congr 2
  have hpos := oneUnits_pos
  have hround := ratioMagnitude_roundsTo (units x.magnitude+units y.magnitude) hpos
  rw [hsum, grid_eq_units, grid_eq_units, ← add_div, ← Nat.cast_add]
  exact ⟨_, hround, rfl⟩

theorem add_zero (hx : x.Finite) (hxs : x.negative = false) : x.add zero = x := by
  have hsum := add_rounds hx (y := zero) (by decide) hxs rfl
  have hplus : grid x.magnitude+0 = grid x.magnitude := by ring
  rw [grid_magnitude_zero, hplus] at hsum
  have hself := Rounds.self hx
  rw [hxs] at hself
  exact hsum.unique hself

/-- What is at most a word of the grid rounds to what is at most that word. -/
theorem Rounds.grid_le_word {q : ℚ} {m : Nat} (h : Rounds false q x) (hm : m < infinityMagnitude)
    (hq : q ≤ grid m) : x.Finite ∧ grid x.magnitude ≤ grid m := by
  have hself : Rounds false (grid m) (ofMagnitude false m) := ⟨m, RoundsTo.self grid_strictMono m, rfl⟩
  have hle := h.mono hself hq
  have hword : (ofMagnitude false m).magnitude = m := Nat.min_eq_left (Nat.le_of_lt hm)
  rw [hword] at hle
  exact ⟨Nat.lt_of_le_of_lt hle hm, grid_strictMono.monotone hle⟩

/-- What is at most a small integer rounds to what is at most that integer. -/
theorem Rounds.grid_le {q : ℚ} {n : Nat} (h : Rounds false q x) (hq : q ≤ n) (hn : n < 2^53) :
    x.Finite ∧ grid x.magnitude ≤ n := by
  obtain ⟨hfinite, hgrid⟩ := ofNat_exact hn
  have hle := h.grid_le_word hfinite (by rwa [hgrid])
  rwa [hgrid] at hle

/-- What is at most an integer times the unit of a binade rounds to what is at most that. -/
theorem Rounds.grid_le_binade {q : ℚ} {b k : Nat} (h : Rounds false q x) (hb : b < 2045)
    (hlow : 2^52 ≤ k) (hhigh : k ≤ 2^53) (hq : q ≤ k*2^((b : Int)-1074)) :
    x.Finite ∧ grid x.magnitude ≤ k*2^((b : Int)-1074) := by
  rw [← grid_binade hhigh (.inr hlow)] at hq ⊢
  apply h.grid_le_word _ hq
  rw [infinityMagnitude]
  omega

end

end Binary64
end DSigMatcher.Framework
