import Mathlib

namespace DSigMatcher.Framework

section
variable {K : Type*} [Field K] [LinearOrder K] [IsStrictOrderedRing K]

/-- A number goes to an index of an ascending grid: it lies between the midpoints around it, and
on one of them only where the index is even. -/
structure RoundsTo (grid : Nat → K) (q : K) (m : Nat) : Prop where
  lower : ∀ k, k+1 = m → grid k+grid m < 2*q ∨ grid k+grid m = 2*q ∧ m%2 = 0
  upper : 2*q < grid m+grid (m+1) ∨ 2*q = grid m+grid (m+1) ∧ m%2 = 0

variable {grid : Nat → K} {q q' : K} {m m' : Nat}

/-- Rounding keeps the order. -/
theorem RoundsTo.mono (hgrid : StrictMono grid) (h : RoundsTo grid q m) (h' : RoundsTo grid q' m')
    (hq : q ≤ q') : m ≤ m' := by
  by_contra hlt
  obtain ⟨k, rfl⟩ := Nat.exists_eq_succ_of_ne_zero (show m ≠ 0 by omega)
  have hk : grid m' ≤ grid k := hgrid.monotone (by omega)
  have hk' : grid (m'+1) ≤ grid (k+1) := hgrid.monotone (by omega)
  rcases h.lower k rfl with hlow | ⟨hlow, heven⟩
  · rcases h'.upper with hup | ⟨hup, -⟩ <;> linarith
  · rcases h'.upper with hup | ⟨hup, heven'⟩
    · linarith
    · -- both midpoints are the number, so the two even indices are neighbours
      have hsame : grid m' = grid k := le_antisymm hk (by linarith)
      have hindex := hgrid.injective hsame
      omega

theorem RoundsTo.unique (hgrid : StrictMono grid) (h : RoundsTo grid q m)
    (h' : RoundsTo grid q m') : m = m' :=
  Nat.le_antisymm (h.mono hgrid h' (le_refl q)) (h'.mono hgrid h (le_refl q))

/-- A number of the grid goes to itself. -/
theorem RoundsTo.self (hgrid : StrictMono grid) (m : Nat) : RoundsTo grid (grid m) m where
  lower := by
    rintro k rfl
    have hlt := hgrid (Nat.lt_succ_self k)
    left
    linarith
  upper := by
    have hlt := hgrid (Nat.lt_succ_self m)
    left
    linarith

/-- Numbers with no midpoint between them round alike. -/
theorem RoundsTo.between (h : RoundsTo grid q m) (lo hi : K) (hq : lo < q ∧ q < hi)
    (hq' : lo < q' ∧ q' < hi)
    (hgap : ∀ j, grid j+grid (j+1) ≤ 2*lo ∨ 2*hi ≤ grid j+grid (j+1)) : RoundsTo grid q' m where
  lower := by
    rintro k rfl
    have hside := h.lower k rfl
    left
    rcases hgap k with hgap | hgap
    · linarith
    · rcases hside with hside | ⟨hside, -⟩ <;> linarith
  upper := by
    have hside := h.upper
    left
    rcases hgap m with hgap | hgap
    · rcases hside with hside | ⟨hside, -⟩ <;> linarith
    · linarith

/-- No number of the grid is nearer, and one as near only where the index is even. -/
theorem RoundsTo.nearest (hgrid : StrictMono grid) (h : RoundsTo grid q m) (k : Nat) :
    |grid m-q| ≤ |grid k-q| ∧ (|grid k-q| = |grid m-q| → k ≠ m → m%2 = 0) := by
  rcases Nat.lt_trichotomy k m with hlt | rfl | hgt
  · obtain ⟨p, rfl⟩ := Nat.exists_eq_succ_of_ne_zero (show m ≠ 0 by omega)
    have hkp : grid k ≤ grid p := hgrid.monotone (by omega)
    have hpm : grid p < grid (p+1) := hgrid (Nat.lt_succ_self p)
    have hkq : grid k ≤ q := by
      rcases h.lower p rfl with hlow | ⟨hlow, -⟩ <;> linarith
    rw [abs_of_nonpos (sub_nonpos.mpr hkq)]
    rcases h.lower p rfl with hlow | ⟨hlow, heven⟩
    · have hstrict : |grid (p+1)-q| < -(grid k-q) := abs_lt.mpr ⟨by linarith, by linarith⟩
      exact ⟨le_of_lt hstrict, fun heq => absurd heq (ne_of_gt hstrict)⟩
    · exact ⟨abs_le.mpr ⟨by linarith, by linarith⟩, fun _ _ => heven⟩
  · exact ⟨le_refl _, fun _ hne => absurd rfl hne⟩
  · have hmk : grid (m+1) ≤ grid k := hgrid.monotone hgt
    have hpm : grid m < grid (m+1) := hgrid (Nat.lt_succ_self m)
    have hkq : q ≤ grid k := by
      rcases h.upper with hup | ⟨hup, -⟩ <;> linarith
    rw [abs_of_nonneg (sub_nonneg.mpr hkq)]
    rcases h.upper with hup | ⟨hup, heven⟩
    · have hstrict : |grid m-q| < grid k-q := abs_lt.mpr ⟨by linarith, by linarith⟩
      exact ⟨le_of_lt hstrict, fun heq => absurd heq (ne_of_gt hstrict)⟩
    · exact ⟨abs_le.mpr ⟨by linarith, by linarith⟩, fun _ _ => heven⟩

end

/-- The integer nearest to a quotient, a tie to the even one. -/
def halfEven (n d : Nat) : Nat :=
  if d < 2*(n%d) ∨ 2*(n%d) = d ∧ n/d%2 = 1 then n/d+1 else n/d

example : halfEven 5 2 = 2 ∧ halfEven 7 2 = 4 ∧ halfEven 8 3 = 3 := by decide

section
variable {K : Type*} [Field K] [LinearOrder K] [IsStrictOrderedRing K]

theorem strictMono_multiples {s : K} (hs : 0 < s) : StrictMono fun k : Nat => (k : K)*s := by
  intro a b hab
  exact mul_lt_mul_of_pos_right (Nat.cast_lt.mpr hab) hs

/-- What rounds to `k` among the integers, from comparisons of integers. -/
theorem roundsTo_multiples {n d k : Nat} {s : K} (hd : 0 < d) (hs : 0 < s)
    (hlower : ∀ j, j+1 = k → (2*j+1)*d < 2*n ∨ (2*j+1)*d = 2*n ∧ k%2 = 0)
    (hupper : 2*n < (2*k+1)*d ∨ 2*n = (2*k+1)*d ∧ k%2 = 0) :
    RoundsTo (fun k : Nat => (k : K)*s) ((n : K)/d*s) k := by
  have hd' : (0 : K) < d := Nat.cast_pos.mpr hd
  have hmid : ∀ j : Nat, (j : K)*s+((j+1 : Nat) : K)*s = ((2*j+1)*d : Nat)/d*s := by
    intro j
    rw [Nat.cast_mul, mul_div_cancel_right₀ _ (ne_of_gt hd')]
    push_cast
    ring
  have hq : 2*((n : K)/d*s) = ((2*n : Nat) : K)/d*s := by
    push_cast
    ring
  have hlt : ∀ x y : Nat, x < y → (x : K)/d*s < (y : K)/d*s := fun x y hxy =>
    mul_lt_mul_of_pos_right (div_lt_div_of_pos_right (Nat.cast_lt.mpr hxy) hd') hs
  constructor
  · rintro j rfl
    show (j : K)*s+((j+1 : Nat) : K)*s < _ ∨ (j : K)*s+((j+1 : Nat) : K)*s = _ ∧ _
    rw [hmid, hq]
    rcases hlower j rfl with hless | ⟨hsame, heven⟩
    · exact .inl (hlt _ _ hless)
    · exact .inr ⟨by rw [hsame], heven⟩
  · show _ < (k : K)*s+((k+1 : Nat) : K)*s ∨ _ = (k : K)*s+((k+1 : Nat) : K)*s ∧ _
    rw [hmid, hq]
    rcases hupper with hless | ⟨hsame, heven⟩
    · exact .inl (hlt _ _ hless)
    · exact .inr ⟨by rw [hsame], heven⟩

theorem halfEven_roundsTo {n d : Nat} {s : K} (hd : 0 < d) (hs : 0 < s) :
    RoundsTo (fun k : Nat => (k : K)*s) ((n : K)/d*s) (halfEven n d) := by
  have hdiv := Nat.div_add_mod n d
  have hmod := Nat.mod_lt n hd
  generalize hk : n/d = k at hdiv
  generalize hr : n%d = r at hdiv hmod
  unfold halfEven
  rw [hk, hr]
  split_ifs with hup
  · refine roundsTo_multiples hd hs ?_ ?_
    · intro j hj
      obtain rfl : j = k := by omega
      rcases hup with hup | ⟨hup, hodd⟩
      · exact .inl (by nlinarith)
      · exact .inr ⟨by nlinarith, by omega⟩
    · exact .inl (by nlinarith)
  · refine roundsTo_multiples hd hs ?_ ?_
    · rintro j rfl
      exact .inl (by nlinarith)
    · rcases Nat.lt_or_ge (2*r) d with hlt | hge
      · exact .inl (by nlinarith)
      · have htie : 2*r = d := by omega
        exact .inr ⟨by nlinarith, by omega⟩

end

end DSigMatcher.Framework
