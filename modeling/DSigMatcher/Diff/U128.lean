import DSigMatcher.Base.Text
import DSigMatcher.Framework.Limbs
import Mathlib

namespace DSigMatcher.Diff
open DSigMatcher.Base DSigMatcher.Framework

/-- 128 bits as two words. -/
structure U128 where
  hi : UInt64 := 0
  lo : UInt64 := 0
  deriving DecidableEq

/-- The full product of two words, by their halves. -/
def mul64 (a b : UInt64) : U128 :=
  let aLo := a &&& 0xFFFFFFFF
  let aHi := a >>> 32
  let bLo := b &&& 0xFFFFFFFF
  let bHi := b >>> 32
  let loLo := aLo*bLo
  let hiLo := aHi*bLo
  let loHi := aLo*bHi
  let hiHi := aHi*bHi
  let cross := (loLo >>> 32)+(hiLo &&& 0xFFFFFFFF)+loHi
  ⟨hiHi+(hiLo >>> 32)+(cross >>> 32), (cross <<< 32) ||| (loLo &&& 0xFFFFFFFF)⟩

namespace U128

def toNat (v : U128) : Nat := v.hi.toNat*2^64+v.lo.toNat

/-- By fewer than 128 bits. -/
def shiftRight (v : U128) (s : Nat) : U128 :=
  if s = 0 then v
  else if 64 ≤ s then ⟨0, v.hi >>> UInt64.ofNat (s-64)⟩
  else ⟨v.hi >>> UInt64.ofNat s, (v.lo >>> UInt64.ofNat s) ||| (v.hi <<< UInt64.ofNat (64-s))⟩

def shiftLeft (v : U128) (s : Nat) : U128 :=
  if s = 0 then v
  else if 64 ≤ s then ⟨v.lo <<< UInt64.ofNat (s-64), 0⟩
  else ⟨(v.hi <<< UInt64.ofNat s) ||| (v.lo >>> UInt64.ofNat (64-s)), v.lo <<< UInt64.ofNat s⟩

def subtract (a b : U128) : U128 := ⟨a.hi-b.hi-(if a.lo < b.lo then 1 else 0), a.lo-b.lo⟩

def compare (a b : U128) : Int :=
  if a.hi ≠ b.hi then if a.hi < b.hi then -1 else 1
  else if a.lo ≠ b.lo then if a.lo < b.lo then -1 else 1
  else 0

/-- The four limbs of 32 bits, the lowest first. -/
def limbs (v : U128) : List UInt32 :=
  [v.lo.toUInt32, (v.lo >>> 32).toUInt32, v.hi.toUInt32, (v.hi >>> 32).toUInt32]

/-- Long division by 10 until nothing is left; the last digit comes first. -/
def reversedDigits : Nat → List UInt32 → Text
  | 0, _ => []
  | fuel+1, l =>
    if l.all (· = 0) then []
    else UInt8.ofNat (48+(Limbs.divLimbs 10 l).2.toNat)::reversedDigits fuel (Limbs.divLimbs 10 l).1

/-- `ToDecimal`; 39 digits are enough. -/
def toDecimal (v : U128) : Text :=
  if v.hi = 0 then decimal v.lo.toNat else (reversedDigits 39 v.limbs).reverse

theorem toNat_lt (v : U128) : v.toNat < 2^128 := by
  have hhi := v.hi.toNat_lt
  have hlo := v.lo.toNat_lt
  unfold toNat
  omega

end U128

theorem toNat_low (x : UInt64) : (x &&& 0xFFFFFFFF).toNat = x.toNat%2^32 := by
  rw [UInt64.toNat_and]
  exact Nat.and_two_pow_sub_one_eq_mod x.toNat 32

theorem toNat_shiftDown (x : UInt64) {n : Nat} (hn : n < 64) :
    (x >>> UInt64.ofNat n).toNat = x.toNat/2^n := by
  rw [UInt64.toNat_shiftRight, UInt64.toNat_ofNat_of_lt' (hn.trans (by decide)), Nat.mod_eq_of_lt hn,
    Nat.shiftRight_eq_div_pow]

theorem toNat_shiftUp (x : UInt64) {n : Nat} (hn : n < 64) :
    (x <<< UInt64.ofNat n).toNat = x.toNat*2^n%2^64 := by
  rw [UInt64.toNat_shiftLeft, UInt64.toNat_ofNat_of_lt' (hn.trans (by decide)), Nat.mod_eq_of_lt hn,
    Nat.shiftLeft_eq]

/-- Bits above and bits below do not meet. -/
theorem toNat_or {x y : UInt64} {n : Nat} (hx : 2^n ∣ x.toNat) (hy : y.toNat < 2^n) :
    (x ||| y).toNat = x.toNat+y.toNat := by
  obtain ⟨k, hk⟩ := hx
  rw [UInt64.toNat_or, hk, Nat.mul_comm, ← Nat.shiftLeft_eq, Nat.shiftLeft_add_eq_or_of_lt hy]

theorem dvd_shiftUp (x : UInt64) {n : Nat} (hn : n < 64) : 2^n ∣ (x <<< UInt64.ofNat n).toNat := by
  rw [toNat_shiftUp x hn, Nat.dvd_mod_iff (pow_dvd_pow 2 (le_of_lt hn))]
  exact Nat.dvd_mul_left _ _

/-- A product of two halves of a word fits into a word, with room for two halves more. -/
theorem toNat_halfMul {x y : UInt64} (hx : x.toNat < 2^32) (hy : y.toNat < 2^32) :
    (x*y).toNat = x.toNat*y.toNat ∧ x.toNat*y.toNat ≤ (2^32-1)*(2^32-1) := by
  have hle : x.toNat*y.toNat ≤ (2^32-1)*(2^32-1) :=
    Nat.mul_le_mul (Nat.le_pred_of_lt hx) (Nat.le_pred_of_lt hy)
  refine ⟨?_, hle⟩
  rw [UInt64.toNat_mul]
  exact Nat.mod_eq_of_lt (Nat.lt_of_le_of_lt hle (by norm_num))

theorem toNat_high (x : UInt64) : (x >>> 32).toNat = x.toNat/2^32 := toNat_shiftDown x (by decide)

/-- The four products of halves are joined without a carry out. -/
theorem join_products {loLo hiLo loHi hiHi cross : UInt64} (hLoLo : loLo.toNat ≤ (2^32-1)*(2^32-1))
    (hHiLo : hiLo.toNat ≤ (2^32-1)*(2^32-1)) (hLoHi : loHi.toNat ≤ (2^32-1)*(2^32-1))
    (hHiHi : hiHi.toNat ≤ (2^32-1)*(2^32-1))
    (hcross : cross = (loLo >>> 32)+(hiLo &&& 0xFFFFFFFF)+loHi) :
    U128.toNat ⟨hiHi+(hiLo >>> 32)+(cross >>> 32), (cross <<< 32) ||| (loLo &&& 0xFFFFFFFF)⟩ =
      hiHi.toNat*2^64+(hiLo.toNat+loHi.toNat)*2^32+loLo.toNat := by
  have hsum : cross.toNat = loLo.toNat/2^32+hiLo.toNat%2^32+loHi.toNat := by
    rw [hcross, UInt64.toNat_add, UInt64.toNat_add, toNat_high, toNat_low]
    omega
  have hup : (cross <<< 32).toNat = cross.toNat*2^32%2^64 := toNat_shiftUp (n := 32) cross (by decide)
  have hlow : (loLo &&& 0xFFFFFFFF).toNat < 2^32 := by
    rw [toNat_low]
    exact Nat.mod_lt _ (by norm_num)
  have hdvd : 2^32 ∣ (cross <<< 32).toNat := dvd_shiftUp (n := 32) cross (by decide)
  rw [U128.toNat]
  dsimp only
  rw [toNat_or hdvd hlow, hup, toNat_low, UInt64.toNat_add, UInt64.toNat_add, toNat_high, toNat_high,
    hsum]
  omega

theorem mul64_toNat (a b : UInt64) : (mul64 a b).toNat = a.toNat*b.toNat := by
  have hlow (x : UInt64) : (x &&& 0xFFFFFFFF).toNat < 2^32 := by
    rw [toNat_low]
    exact Nat.mod_lt _ (by norm_num)
  have hhigh (x : UInt64) : (x >>> 32).toNat < 2^32 := by
    rw [toNat_high]
    exact Nat.div_lt_of_lt_mul x.toNat_lt
  have hLoLo := toNat_halfMul (hlow a) (hlow b)
  have hHiLo := toNat_halfMul (hhigh a) (hlow b)
  have hLoHi := toNat_halfMul (hlow a) (hhigh b)
  have hHiHi := toNat_halfMul (hhigh a) (hhigh b)
  have hjoin := join_products (hLoLo.1 ▸ hLoLo.2) (hHiLo.1 ▸ hHiLo.2) (hLoHi.1 ▸ hLoHi.2)
    (hHiHi.1 ▸ hHiHi.2) rfl
  rw [hLoLo.1, hHiLo.1, hLoHi.1, hHiHi.1, toNat_high, toNat_high, toNat_low, toNat_low] at hjoin
  refine Eq.trans hjoin ?_
  conv_rhs => rw [← Nat.div_add_mod a.toNat (2^32), ← Nat.div_add_mod b.toNat (2^32)]
  ring

/-- A word shifted up falls into what leaves it and what stays. -/
theorem shift_split (x : Nat) {s : Nat} (hs : s ≤ 64) :
    x/2^s*2^64+x*2^(64-s)%2^64 = x*2^(64-s) := by
  have hpow : 2^s*2^(64-s) = 2^64 := by rw [← pow_add, Nat.add_sub_cancel' hs]
  have hdiv : x*2^(64-s)/2^64 = x/2^s := by
    rw [← hpow]
    exact Nat.mul_div_mul_right _ _ (Nat.two_pow_pos _)
  rw [← hdiv, Nat.mul_comm]
  exact Nat.div_add_mod _ _

namespace U128

theorem shiftRight_toNat (v : U128) {s : Nat} (hs : s < 128) : (v.shiftRight s).toNat = v.toNat/2^s := by
  have hhi := v.hi.toNat_lt
  have hlo := v.lo.toNat_lt
  unfold shiftRight
  split_ifs with hzero hlarge
  · rw [hzero, pow_zero, Nat.div_one]
  · have hpow : 2^s = 2^64*2^(s-64) := by rw [← pow_add, Nat.add_sub_cancel' hlarge]
    have hfirst : (v.hi.toNat*2^64+v.lo.toNat)/2^64 = v.hi.toNat := by omega
    rw [toNat, toNat, toNat_shiftDown _ (by omega), hpow, ← Nat.div_div_eq_div_mul, hfirst,
      UInt64.toNat_zero, Nat.zero_mul, Nat.zero_add]
  · have hlt : s < 64 := Nat.lt_of_not_le hlarge
    have hpow : 2^64 = 2^s*2^(64-s) := by rw [← pow_add, Nat.add_sub_cancel' (le_of_lt hlt)]
    have hdown : (v.lo >>> UInt64.ofNat s).toNat < 2^(64-s) := by
      rw [toNat_shiftDown _ hlt]
      exact Nat.div_lt_of_lt_mul (hpow ▸ hlo)
    have hsplit := shift_split v.hi.toNat (le_of_lt hlt)
    have hdiv : (v.hi.toNat*2^64+v.lo.toNat)/2^s = v.hi.toNat*2^(64-s)+v.lo.toNat/2^s := by
      rw [hpow, ← Nat.mul_assoc, Nat.mul_right_comm, Nat.mul_comm _ (2^s),
        Nat.mul_add_div (Nat.two_pow_pos s)]
    rw [toNat, toNat, UInt64.or_comm, toNat_or (dvd_shiftUp v.hi (by omega)) hdown,
      toNat_shiftDown _ hlt, toNat_shiftDown _ hlt, toNat_shiftUp _ (by omega), hdiv]
    linarith

/-- Nothing is shifted out of a number that keeps below 2^128. -/
theorem shiftLeft_toNat (v : U128) {s : Nat} (hs : s < 128) (hv : v.toNat*2^s < 2^128) :
    (v.shiftLeft s).toNat = v.toNat*2^s := by
  have hlo := v.lo.toNat_lt
  unfold shiftLeft
  split_ifs with hzero hlarge
  · rw [hzero, pow_zero, Nat.mul_one]
  · have hpow : 2^s = 2^(s-64)*2^64 := by rw [← pow_add, Nat.sub_add_cancel hlarge]
    have hpos := Nat.two_pow_pos (s-64)
    rw [toNat, hpow] at hv ⊢
    have hhigh : v.hi.toNat = 0 := by
      by_contra hne
      nlinarith [Nat.pos_of_ne_zero hne]
    have hfit : v.lo.toNat*2^(s-64) < 2^64 := by
      rw [hhigh] at hv
      nlinarith
    rw [toNat, toNat_shiftUp _ (by omega), hhigh, Nat.mod_eq_of_lt hfit, UInt64.toNat_zero]
    ring
  · have hlt : s < 64 := Nat.lt_of_not_le hlarge
    have hsplit := shift_split v.lo.toNat (s := 64-s) (by omega)
    rw [Nat.sub_sub_self (le_of_lt hlt)] at hsplit
    rw [toNat] at hv ⊢
    have hfit : v.hi.toNat*2^s < 2^64 := by
      refine Nat.lt_of_mul_lt_mul_right (a := 2^64) (Nat.lt_of_le_of_lt ?_ hv)
      rw [Nat.mul_right_comm]
      exact Nat.mul_le_mul_right _ (Nat.le_add_right _ _)
    have hdown : (v.lo >>> UInt64.ofNat (64-s)).toNat < 2^s := by
      rw [toNat_shiftDown _ (by omega)]
      refine Nat.div_lt_of_lt_mul ?_
      rwa [← pow_add, Nat.sub_add_cancel (le_of_lt hlt)]
    rw [toNat, toNat_or (dvd_shiftUp v.hi hlt) hdown, toNat_shiftDown _ (by omega), toNat_shiftUp _ hlt,
      toNat_shiftUp _ hlt, Nat.mod_eq_of_lt hfit]
    nlinarith

theorem subtract_toNat {a b : U128} (h : b.toNat ≤ a.toNat) :
    (a.subtract b).toNat = a.toNat-b.toNat := by
  have hahi := a.hi.toNat_lt
  have halo := a.lo.toNat_lt
  have hbhi := b.hi.toNat_lt
  have hblo := b.lo.toNat_lt
  unfold toNat at h ⊢
  rw [subtract]
  dsimp only
  rw [UInt64.toNat_sub, UInt64.toNat_sub, UInt64.toNat_sub]
  split_ifs with hborrow
  · rw [UInt64.lt_iff_toNat_lt] at hborrow
    rw [UInt64.toNat_one]
    omega
  · rw [UInt64.lt_iff_toNat_lt] at hborrow
    rw [UInt64.toNat_zero]
    omega

theorem compare_spec (a b : U128) :
    (0 < a.compare b ↔ b.toNat < a.toNat) ∧ (a.compare b = 0 ↔ a.toNat = b.toNat) := by
  have halo := a.lo.toNat_lt
  have hblo := b.lo.toNat_lt
  unfold compare toNat
  simp only [ne_eq, ← UInt64.toNat_inj, UInt64.lt_iff_toNat_lt]
  split_ifs <;> grind

theorem value_limbs (v : U128) : Limbs.value v.limbs = v.toNat := by
  have hhi := v.hi.toNat_lt
  have hlo := v.lo.toNat_lt
  simp only [limbs, Limbs.value_cons, Limbs.value_nil, UInt64.toNat_toUInt32, toNat_high]
  unfold toNat
  omega

theorem all_zero_iff (l : List UInt32) : l.all (· = 0) = true ↔ Limbs.value l = 0 := by
  induction l with
  | nil => simp
  | cons x l ih =>
    rw [List.all_cons, Bool.and_eq_true, ih, decide_eq_true_iff, Limbs.value_cons, ← UInt32.toNat_inj,
      UInt32.toNat_zero]
    omega

theorem reversedDigits_eq (fuel : Nat) (l : List UInt32) (hl : Limbs.value l < 10^fuel)
    (hpos : 0 < Limbs.value l) : (reversedDigits fuel l).reverse = decimal (Limbs.value l) := by
  induction fuel generalizing l with
  | zero => omega
  | succ fuel ih =>
    obtain ⟨hdiv, hmod⟩ := Limbs.value_divLimbs (show (10 : UInt32) ≠ 0 by decide) l
    have hten : (10 : UInt32).toNat = 10 := rfl
    rw [hten] at hdiv hmod
    have hsome : ¬ l.all (· = 0) = true := by
      rw [all_zero_iff]
      omega
    rw [reversedDigits, if_neg hsome, List.reverse_cons, hmod]
    rcases Nat.lt_or_ge (Limbs.value l) 10 with hlast | hmore
    · have hnone : reversedDigits fuel (Limbs.divLimbs 10 l).1 = [] := by
        have hzero : (Limbs.divLimbs 10 l).1.all (· = 0) = true := by
          rw [all_zero_iff, hdiv]
          omega
        cases fuel with
        | zero => rfl
        | succ fuel => rw [reversedDigits, if_pos hzero]
      rw [hnone, List.reverse_nil, List.nil_append, Nat.mod_eq_of_lt hlast, decimal_of_lt _ hlast]
    · rw [ih _ (by rw [hdiv]; omega) (by rw [hdiv]; omega), hdiv, decimal_of_le _ hmore]

theorem toDecimal_eq (v : U128) : v.toDecimal = decimal v.toNat := by
  unfold toDecimal
  split_ifs with hhi
  · rw [toNat, hhi, UInt64.toNat_zero, Nat.zero_mul, Nat.zero_add]
  · have hpos : 0 < v.hi.toNat := Nat.pos_of_ne_zero fun h => hhi (UInt64.toNat_inj.mp h)
    have hlt := v.toNat_lt
    rw [reversedDigits_eq, value_limbs]
    · rw [value_limbs]
      exact hlt.trans (by norm_num)
    · rw [value_limbs, toNat]
      omega

end U128

end DSigMatcher.Diff
