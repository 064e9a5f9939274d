import DSigMatcher.Framework.Binary64
import DSigMatcher.Framework.Nearest
import Mathlib

namespace DSigMatcher.Framework
namespace Binary64

/-- The integer part of the value of a magnitude, and the power of two it is taken times. -/
def mantissa (m : Nat) : Nat := if m/2^52 = 0 then m%2^52 else 2^52+m%2^52

def exponent (m : Nat) : Int := if m/2^52 = 0 then -1074 else (m/2^52 : Nat)-1075

theorem mantissa_lt (m : Nat) : mantissa m < 2^53 := by
  unfold mantissa
  split_ifs <;> omega

/-- The value of a magnitude; past the finite ones the exponents go on. -/
def grid (m : Nat) : ℚ := mantissa m*2^exponent m

/-- The value of a finite word. -/
def value (x : Binary64) : ℚ := if x.negative then -grid x.magnitude else grid x.magnitude

/-- Halfway from the largest finite value to the next power of two. -/
def overflowPoint : ℚ := 2^1024-2^970

/-- The word of a sign that is nearest to a number, a tie to the even one; infinity from the
overflow point on. -/
structure Nearest (negative : Bool) (q : ℚ) (x : Binary64) : Prop where
  sign : x.negative = negative
  bounded : x.magnitude ≤ infinityMagnitude
  overflow : x.magnitude = infinityMagnitude ↔ overflowPoint ≤ q
  nearest : x.magnitude < infinityMagnitude → ∀ m < infinityMagnitude,
    |grid x.magnitude-q| ≤ |grid m-q| ∧
    (|grid m-q| = |grid x.magnitude-q| → m ≠ x.magnitude → x.magnitude%2 = 0)

/-- The word of a sign and a magnitude, infinity for those past the finite ones. -/
def ofMagnitude (negative : Bool) (m : Nat) : Binary64 where
  negative := negative
  magnitude := min m infinityMagnitude
  bounded := Nat.lt_of_le_of_lt (Nat.min_le_right m _) (by decide)

theorem ofMagnitude_min (negative : Bool) (m : Nat) :
    ofMagnitude negative (min m infinityMagnitude) = ofMagnitude negative m := by
  ext
  · rfl
  · exact Nat.min_eq_left (Nat.min_le_right m infinityMagnitude)

theorem ofMagnitude_of_le {negative : Bool} {m : Nat} (hm : infinityMagnitude ≤ m) :
    ofMagnitude negative infinityMagnitude = ofMagnitude negative m := by
  rw [← ofMagnitude_min negative m, Nat.min_eq_right hm]

/-- The magnitude of an integer times the unit of a binade. -/
theorem grid_binade {b k : Nat} (hk : k ≤ 2^53) (hb : b = 0 ∨ 2^52 ≤ k) :
    grid (b*2^52+k) = k*2^((b : Int)-1074) := by
  unfold grid mantissa exponent
  rcases Nat.lt_or_ge k (2^52) with hsmall | hbig
  · obtain rfl : b = 0 := by omega
    have hdiv : (0*2^52+k)/2^52 = 0 := by omega
    have hmod : (0*2^52+k)%2^52 = k := by omega
    rw [hdiv, hmod, if_pos rfl, if_pos rfl]
    simp
  · rcases Nat.lt_or_eq_of_le hk with hlt | rfl
    · have hdiv : (b*2^52+k)/2^52 = b+1 := by omega
      have hmod : 2^52+(b*2^52+k)%2^52 = k := by omega
      rw [hdiv, hmod, if_neg (Nat.succ_ne_zero b), if_neg (Nat.succ_ne_zero b)]
      congr 2
      push_cast
      ring
    · have hdiv : (b*2^52+2^53)/2^52 = b+2 := by omega
      have hmod : 2^52+(b*2^52+2^53)%2^52 = 2^52 := by omega
      have hexp : ((b+2 : Nat) : Int)-1075 = ((b : Int)-1074)+1 := by
        push_cast
        ring
      rw [hdiv, hmod, if_neg (Nat.succ_ne_zero _), if_neg (Nat.succ_ne_zero _), hexp,
        zpow_add_one₀ (by norm_num)]
      push_cast
      ring

/-- Every magnitude lies in a binade. -/
theorem exists_binade (m : Nat) : ∃ b k, m = b*2^52+k ∧ k < 2^53 ∧ (b = 0 ∨ 2^52 ≤ k) := by
  rcases Nat.lt_or_ge m (2^53) with hlt | hge
  · exact ⟨0, m, by omega, hlt, .inl rfl⟩
  · exact ⟨m/2^52-1, 2^52+m%2^52, by omega, by omega, .inr (by omega)⟩

theorem unit_pos (b : Nat) : (0 : ℚ) < 2^((b : Int)-1074) := zpow_pos (by norm_num) _

theorem unit_eq (b : Nat) : (2 : ℚ)^((b : Int)-1074) = 2^b/2^1074 := by
  rw [zpow_sub₀ two_ne_zero, zpow_natCast, zpow_ofNat]

theorem grid_strictMono : StrictMono grid := by
  apply strictMono_nat_of_lt_succ
  intro m
  obtain ⟨b, k, rfl, hk, hb⟩ := exists_binade m
  have hb' : b = 0 ∨ 2^52 ≤ k+1 := by omega
  rw [Nat.add_assoc, grid_binade (Nat.le_of_lt hk) hb, grid_binade hk hb']
  exact mul_lt_mul_of_pos_right (Nat.cast_lt.mpr (Nat.lt_succ_self k)) (unit_pos b)

@[simp] theorem grid_zero : grid 0 = 0 := by simp [grid, mantissa]

theorem grid_nonneg (m : Nat) : 0 ≤ grid m := by
  rw [← grid_zero]
  exact grid_strictMono.monotone (Nat.zero_le m)

/-- The units that a number of a binade rounds to are those of its words, or of the next one. -/
theorem units_bounds {b k : Nat} {q : ℚ} (hq : q < 2^53*2^((b : Int)-1074))
    (hb : b = 0 ∨ 2^52*2^((b : Int)-1074) ≤ q)
    (h : RoundsTo (fun k : Nat => (k : ℚ)*2^((b : Int)-1074)) q k) :
    k ≤ 2^53 ∧ (b = 0 ∨ 2^52 ≤ k) := by
  have hmono := strictMono_multiples (unit_pos b)
  constructor
  · have htop := RoundsTo.self hmono (2^53)
    refine h.mono hmono htop ?_
    push_cast
    linarith
  · refine hb.imp_right fun hlow => ?_
    have hbottom := RoundsTo.self hmono (2^52)
    refine hbottom.mono hmono h ?_
    push_cast
    linarith

/-- The smallest value above zero. -/
theorem grid_one : grid 1 = 1/2^1074 := by
  have hgrid := grid_binade (b := 0) (k := 1) (by norm_num) (.inl rfl)
  rw [unit_eq, pow_zero, Nat.cast_one, one_mul, Nat.zero_mul, Nat.zero_add] at hgrid
  exact hgrid

theorem grid_one_pos : 0 < grid 1 := by
  rw [← grid_zero]
  exact grid_strictMono Nat.one_pos

/-- A number that rounds to `k` units of its binade rounds to that magnitude. -/
theorem roundsTo_binade {b k : Nat} {q : ℚ} (hq : q < 2^53*2^((b : Int)-1074))
    (hb : b = 0 ∨ 2^52*2^((b : Int)-1074) ≤ q)
    (h : RoundsTo (fun k : Nat => (k : ℚ)*2^((b : Int)-1074)) q k) :
    RoundsTo grid q (b*2^52+k) := by
  have hpos := unit_pos b
  obtain ⟨hk, hk'⟩ := units_bounds hq hb h
  have hgrid := grid_binade hk hk'
  have hparity : (b*2^52+k)%2 = k%2 := by omega
  constructor
  · intro j hj
    rw [hparity, hgrid]
    rcases Nat.eq_zero_or_pos k with rfl | hkpos
    · omega
    · by_cases hedge : k = 2^52 ∧ 0 < b
      · -- below the binade the steps are halved
        obtain ⟨rfl, hbpos⟩ := hedge
        obtain ⟨c, rfl⟩ := Nat.exists_eq_succ_of_ne_zero (Nat.ne_of_gt hbpos)
        have hj' : j = c*2^52+(2^53-1) := by omega
        have hexp : ((c+1 : Nat) : Int)-1074 = ((c : Int)-1074)+1 := by
          push_cast
          ring
        have hunit := unit_pos c
        rw [hj', grid_binade (by omega) (.inr (by omega))]
        have hlow : (2:ℚ)^52*(2^((c : Int)-1074)*2) ≤ q := by
          rcases hb with hb | hb
          · omega
          · rwa [Nat.succ_eq_add_one, hexp, zpow_add_one₀ (by norm_num)] at hb
        rw [Nat.succ_eq_add_one, hexp, zpow_add_one₀ (by norm_num)]
        left
        push_cast
        linarith
      · have hj' : j = b*2^52+(k-1) := by omega
        rw [hj', grid_binade (by omega) (by omega)]
        exact h.lower (k-1) (Nat.sub_add_cancel hkpos)
  · rw [hparity, hgrid]
    rcases Nat.lt_or_eq_of_le hk with hlt | rfl
    · rw [Nat.add_assoc, grid_binade (k := k+1) hlt (by omega)]
      exact h.upper
    · left
      have hnext := grid_strictMono (Nat.lt_succ_self (b*2^52+2^53))
      rw [Nat.succ_eq_add_one, hgrid] at hnext
      push_cast at hnext ⊢
      linarith

/-- The magnitude just below one. -/
theorem grid_pred {b k j : Nat} (hk : k < 2^53) (hb : b = 0 ∨ 2^52 ≤ k) (hj : j+1 = b*2^52+k) :
    grid j = ((k : ℚ)-1)*2^((b : Int)-1074) ∨
      k = 2^52 ∧ grid j = ((k : ℚ)-1/2)*2^((b : Int)-1074) := by
  by_cases hedge : k = 2^52 ∧ 0 < b
  · -- below the binade the steps are halved
    right
    obtain ⟨rfl, hbpos⟩ := hedge
    obtain ⟨c, rfl⟩ := Nat.exists_eq_succ_of_ne_zero (Nat.ne_of_gt hbpos)
    have hj' : j = c*2^52+(2^53-1) := by omega
    have hexp : ((c+1 : Nat) : Int)-1074 = ((c : Int)-1074)+1 := by
      push_cast
      ring
    refine ⟨rfl, ?_⟩
    rw [hj', grid_binade (by omega) (.inr (by omega)), Nat.succ_eq_add_one, hexp,
      zpow_add_one₀ (by norm_num)]
    push_cast
    ring
  · left
    obtain ⟨k', rfl⟩ := Nat.exists_eq_succ_of_ne_zero (show k ≠ 0 by omega)
    have hj' : j = b*2^52+k' := by omega
    rw [hj', grid_binade (by omega) (by omega)]
    push_cast
    ring

/-- A number nearer to a value than the 2^54th of it rounds to the value. -/
theorem roundsTo_near {m : Nat} {q : ℚ} (h : 2^54*|q-grid m| < grid m) : RoundsTo grid q m := by
  obtain ⟨b, k, rfl, hk, hb⟩ := exists_binade m
  have hunit := unit_pos b
  have hvalue := grid_binade (Nat.le_of_lt hk) hb
  have hcast : (k : ℚ) < 2^53 := by exact_mod_cast hk
  have hle := neg_abs_le (q-grid (b*2^52+k))
  have hge := le_abs_self (q-grid (b*2^52+k))
  constructor
  · intro j hj
    left
    rcases grid_pred hk hb hj with hpred | ⟨rfl, hpred⟩
    · rw [hpred]
      rw [hvalue] at h hle ⊢
      nlinarith
    · rw [hpred]
      rw [hvalue] at h hle ⊢
      push_cast at h hle ⊢
      nlinarith
  · left
    rw [Nat.add_assoc, grid_binade hk (hb.imp_right fun h => Nat.le_succ_of_le h)]
    rw [hvalue] at h hge ⊢
    push_cast
    nlinarith

theorem grid_infinity : grid infinityMagnitude = 2^1024 := by
  have hgrid := grid_binade (b := 2045) (k := 2^53) (le_refl _) (.inr (by norm_num))
  have hexp : ((2045 : Nat) : Int)-1074 = (971 : Nat) := by norm_num
  rw [hexp, zpow_natCast, Nat.cast_pow, Nat.cast_ofNat, ← pow_add] at hgrid
  exact hgrid

theorem grid_max : grid (infinityMagnitude-1) = 2^1024-2^971 := by
  have hgrid := grid_binade (b := 2045) (k := 2^53-1) (by norm_num) (.inr (by norm_num))
  have hexp : ((2045 : Nat) : Int)-1074 = (971 : Nat) := by norm_num
  rw [hexp, zpow_natCast, Nat.cast_sub (by norm_num), Nat.cast_pow, Nat.cast_ofNat, Nat.cast_one,
    sub_mul, one_mul, ← pow_add] at hgrid
  exact hgrid

/-- The magnitudes past the finite ones are those of the numbers from the overflow point on. -/
theorem overflow_iff {q : ℚ} {m : Nat} (h : RoundsTo grid q m) :
    infinityMagnitude ≤ m ↔ overflowPoint ≤ q := by
  have hpos : infinityMagnitude-1+1 = infinityMagnitude := by decide
  have hmid : grid (infinityMagnitude-1)+grid infinityMagnitude = 2*overflowPoint := by
    have hhalf : (2 : ℚ)^971 = 2^970*2 := pow_succ _ _
    rw [grid_max, grid_infinity, overflowPoint, hhalf]
    generalize (2 : ℚ)^1024 = t
    generalize (2 : ℚ)^970 = u
    ring
  constructor
  · intro hm
    obtain ⟨k, rfl⟩ := Nat.exists_eq_succ_of_ne_zero (show m ≠ 0 by omega)
    have hk : grid (infinityMagnitude-1) ≤ grid k := grid_strictMono.monotone (by omega)
    have hm' : grid infinityMagnitude ≤ grid (k+1) := grid_strictMono.monotone hm
    rcases h.lower k rfl with hlow | ⟨hlow, -⟩ <;> linarith
  · intro hq
    refine RoundsTo.mono grid_strictMono (q := overflowPoint) ⟨?_, ?_⟩ h hq
    · intro k hk
      obtain rfl : k = infinityMagnitude-1 := by omega
      exact .inr ⟨hmid, by decide⟩
    · have hup := grid_strictMono (Nat.lt_succ_self infinityMagnitude)
      have hdown := grid_strictMono (show infinityMagnitude-1 < infinityMagnitude by decide)
      left
      rw [← hmid]
      linarith

/-- The word a nonnegative number rounds to, under a sign. -/
def Rounds (negative : Bool) (q : ℚ) (x : Binary64) : Prop :=
  ∃ m, RoundsTo grid q m ∧ x = ofMagnitude negative m

section
variable {negative : Bool} {q q' : ℚ} {x y : Binary64}

theorem Rounds.unique (h : Rounds negative q x) (h' : Rounds negative q y) : x = y := by
  obtain ⟨m, hm, rfl⟩ := h
  obtain ⟨m', hm', rfl⟩ := h'
  rw [hm.unique grid_strictMono hm']

theorem Rounds.mono (h : Rounds negative q x) (h' : Rounds negative q' y) (hq : q ≤ q') :
    x.magnitude ≤ y.magnitude := by
  obtain ⟨m, hm, rfl⟩ := h
  obtain ⟨m', hm', rfl⟩ := h'
  have hmm := hm.mono grid_strictMono hm' hq
  show min m infinityMagnitude ≤ min m' infinityMagnitude
  omega

/-- What lies between two numbers of one word rounds to it. -/
theorem Rounds.between {q'' : ℚ} (h : Rounds negative q x) (h' : Rounds negative q'' x)
    (hy : Rounds negative q' y) (hq : q ≤ q') (hq' : q' ≤ q'') : y = x := by
  have hlow := h.mono hy hq
  have hhigh := hy.mono h' hq'
  obtain ⟨m, -, rfl⟩ := h
  obtain ⟨m', -, rfl⟩ := hy
  exact Binary64.ext rfl (Nat.le_antisymm hhigh hlow)

/-- The sign goes with the number. -/
theorem Rounds.signed {sign : Bool} (h : Rounds sign q x) (negative : Bool) :
    Rounds negative q ⟨negative, x.magnitude, x.bounded⟩ := by
  obtain ⟨m, hm, rfl⟩ := h
  exact ⟨m, hm, rfl⟩

/-- A word that is neither infinity nor a NaN. -/
def Finite (x : Binary64) : Prop := x.magnitude < infinityMagnitude

instance : DecidablePred Finite := fun x =>
  inferInstanceAs (Decidable (x.magnitude < infinityMagnitude))

theorem Rounds.self (hx : x.Finite) : Rounds x.negative (grid x.magnitude) x := by
  refine ⟨x.magnitude, RoundsTo.self grid_strictMono _, ?_⟩
  ext
  · rfl
  · exact (Nat.min_eq_left (Nat.le_of_lt hx)).symm

/-- Rounding is to the nearest word. -/
theorem Rounds.nearest (h : Rounds negative q x) : Nearest negative q x := by
  obtain ⟨m, hm, rfl⟩ := h
  have hoverflow := overflow_iff hm
  refine ⟨rfl, Nat.min_le_right _ _, ?_, ?_⟩
  · rw [← hoverflow]
    exact min_eq_right_iff
  · intro hfinite k hk
    have hmin : (ofMagnitude negative m).magnitude = m := by
      have hfinite' : min m infinityMagnitude < infinityMagnitude := hfinite
      show min m infinityMagnitude = m
      omega
    rw [hmin]
    exact hm.nearest grid_strictMono k

end

/-- The magnitude nearest to a quotient of integers. -/
def ratioMagnitude (n d : Nat) : Nat :=
  let b := Nat.log2 (n*2^1074/d)-52
  b*2^52+halfEven (n*2^1074) (d*2^b)

theorem ratioMagnitude_roundsTo (n : Nat) {d : Nat} (hd : 0 < d) :
    RoundsTo grid ((n : ℚ)/d) (ratioMagnitude n d) := by
  have hd' : (0 : ℚ) < d := Nat.cast_pos.mpr hd
  have hunits : (0 : ℚ) < 2^1074 := pow_pos two_pos 1074
  generalize hb : Nat.log2 (n*2^1074/d)-52 = b
  have hmag : ratioMagnitude n d = b*2^52+halfEven (n*2^1074) (d*2^b) := by
    unfold ratioMagnitude
    rw [hb]
  have hscale : (n : ℚ)/d = ((n*2^1074 : Nat) : ℚ)/((d*2^b : Nat) : ℚ)*2^((b : Int)-1074) := by
    rw [unit_eq, Nat.cast_mul, Nat.cast_mul, Nat.cast_pow, Nat.cast_pow, Nat.cast_ofNat]
    field_simp
  rw [hmag]
  apply roundsTo_binade
  · have hlog : n*2^1074/d < 2^(53+b) :=
      Nat.lt_of_lt_of_le Nat.lt_log2_self (Nat.pow_le_pow_right (by norm_num) (by omega))
    have hnum : n*2^1074 < 2^(53+b)*d := (Nat.div_lt_iff_lt_mul hd).mp hlog
    have hnum' : (n : ℚ)*2^1074 < 2^53*2^b*d := by
      rw [← pow_add]
      exact_mod_cast hnum
    rw [unit_eq, div_lt_iff₀ hd', mul_div_assoc', div_mul_eq_mul_div, lt_div_iff₀ hunits]
    exact hnum'
  · rcases Nat.eq_zero_or_pos b with hzero | hpos
    · exact .inl hzero
    · right
      have hne : n*2^1074/d ≠ 0 := by
        intro hzero
        rw [hzero, Nat.log2_zero] at hb
        omega
      have hlog : 2^(52+b) ≤ n*2^1074/d :=
        Nat.le_trans (Nat.pow_le_pow_right (by norm_num) (by omega)) (Nat.log2_self_le hne)
      have hnum : 2^(52+b)*d ≤ n*2^1074 := (Nat.le_div_iff_mul_le hd).mp hlog
      have hnum' : (2 : ℚ)^52*2^b*d ≤ n*2^1074 := by
        rw [← pow_add]
        exact_mod_cast hnum
      rw [unit_eq, le_div_iff₀ hd', mul_div_assoc', div_mul_eq_mul_div, div_le_iff₀ hunits]
      exact hnum'
  · rw [hscale]
    exact halfEven_roundsTo (Nat.mul_pos hd (Nat.two_pow_pos b)) (unit_pos b)

end Binary64
end DSigMatcher.Framework
