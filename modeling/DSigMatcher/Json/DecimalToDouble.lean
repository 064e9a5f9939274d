import DSigMatcher.Framework.Rounding
import DSigMatcher.Json.BigUInt
import DSigMatcher.Json.PyJson
import Mathlib

namespace DSigMatcher.Json
open DSigMatcher.Base DSigMatcher.Framework JsonValue
open Binary64 (grid infinityMagnitude overflowPoint ofMagnitude Rounds)

theorem signed_eq {negative : Bool} {m : Nat} (hm : m ≤ infinityMagnitude) :
    signed negative m = ofMagnitude negative m := by
  have hinf : infinityMagnitude < 2^63 := by decide
  ext
  · cases negative <;> simp [signed, Binary64.ofBits, ofMagnitude] <;> omega
  · show _ = min m infinityMagnitude
    cases negative <;> simp [signed, Binary64.ofBits] <;> omega

theorem lt_bitLength (n : Nat) : n < 2^bitLength n := by
  unfold bitLength
  split_ifs with h
  · rw [h]
    exact Nat.one_pos
  · exact Nat.lt_log2_self

theorem bitLength_le {n : Nat} (hn : n ≠ 0) : 1 ≤ bitLength n ∧ 2^(bitLength n-1) ≤ n := by
  unfold bitLength
  rw [if_neg hn, Nat.add_sub_cancel]
  exact ⟨Nat.le_add_left _ _, Nat.log2_self_le hn⟩

theorem bitLength_eq {n k : Nat} (hlow : 2^k ≤ n) (hhigh : n < 2^(k+1)) : bitLength n = k+1 := by
  have hn : n ≠ 0 := Nat.ne_of_gt (Nat.lt_of_lt_of_le (Nat.two_pow_pos k) hlow)
  rw [bitLength, if_neg hn, (Nat.log2_eq_iff hn).mpr ⟨hlow, hhigh⟩]

/-- The division loop finds quotient and remainder. -/
theorem quotientBits_spec {d : Nat} (hd : 0 < d) (bits : Nat) :
    ∀ n, n < 2^bits*d → quotientBits bits n d = (n/d,n%d) := by
  induction bits with
  | zero =>
    intro n hn
    rw [pow_zero, one_mul] at hn
    rw [quotientBits, Nat.div_eq_of_lt hn, Nat.mod_eq_of_lt hn]
  | succ bits ih =>
    intro n hn
    have hdouble : 2^(bits+1)*d = d*2^bits+2^bits*d := by rw [pow_succ]; ring
    rw [quotientBits]
    dsimp only
    split_ifs with hstep
    · have hsub : n-d*2^bits < 2^bits*d := by omega
      rw [ih _ hsub]
      dsimp only
      have hn' : n = n-d*2^bits+d*2^bits := by omega
      have hdiv : n/d = (n-d*2^bits)/d+2^bits := by
        conv_lhs => rw [hn', Nat.add_mul_div_left _ _ hd]
      have hmod : n%d = (n-d*2^bits)%d := by
        conv_lhs => rw [hn', Nat.add_mul_mod_self_left]
      rw [hdiv, hmod, Nat.add_comm]
    · apply ih
      rw [Nat.mul_comm]
      omega

/-- A multiple and a remainder against a multiple. -/
theorem scaled_compare {d h x r : Nat} (hr : r < d) :
    (d*h < d*x+r ↔ h < x ∨ x = h ∧ r ≠ 0) ∧ (d*x+r = d*h ↔ x = h ∧ r = 0) := by
  rcases Nat.lt_trichotomy h x with hlt | rfl | hgt
  · have hmul : d*(h+1) ≤ d*x := Nat.mul_le_mul_left d hlt
    rw [Nat.mul_add, Nat.mul_one] at hmul
    omega
  · omega
  · have hmul : d*(x+1) ≤ d*h := Nat.mul_le_mul_left d hgt
    rw [Nat.mul_add, Nat.mul_one] at hmul
    omega

/-- Rounding to a multiple of `2^shift`, from the bits below it and whether anything is left. -/
theorem halfEven_dropped {quotient shift d rest : Nat} (hd : 0 < d) (hrest : rest < d)
    (hshift : 0 < shift) :
    halfEven (d*quotient+rest) (d*2^shift) =
      if 2^(shift-1) < quotient%2^shift ∨
        quotient%2^shift = 2^(shift-1) ∧ (rest ≠ 0 ∨ quotient/2^shift%2 = 1)
      then quotient/2^shift+1 else quotient/2^shift := by
  have hdiv : (d*quotient+rest)/(d*2^shift) = quotient/2^shift := by
    rw [← Nat.div_div_eq_div_mul, Nat.mul_add_div hd, Nat.div_eq_of_lt hrest, Nat.add_zero]
  have hmod : (d*quotient+rest)%(d*2^shift) = d*(quotient%2^shift)+rest := by
    rw [Nat.mod_mul, Nat.mul_add_mod, Nat.mod_eq_of_lt hrest, Nat.mul_add_div hd,
      Nat.div_eq_of_lt hrest, Nat.add_zero, Nat.add_comm]
  have hpow : d*2^shift = 2*(d*2^(shift-1)) := by
    conv_lhs => rw [show shift = shift-1+1 by omega, pow_succ]
    ring
  obtain ⟨hless, hsame⟩ := scaled_compare (h := 2^(shift-1)) (x := quotient%2^shift) hrest
  rw [halfEven, hdiv, hmod]
  have hcond : (d*2^shift < 2*(d*(quotient%2^shift)+rest) ∨
      2*(d*(quotient%2^shift)+rest) = d*2^shift ∧ quotient/2^shift%2 = 1) ↔
      (2^(shift-1) < quotient%2^shift ∨
        quotient%2^shift = 2^(shift-1) ∧ (rest ≠ 0 ∨ quotient/2^shift%2 = 1)) := by
    rw [hpow, Nat.mul_lt_mul_left two_pos, Nat.mul_right_inj two_ne_zero, hless, hsame]
    tauto
  simp only [hcond]

/-- The rounding of a quotient to its first bits is that of the fraction. -/
theorem roundQuotient_eq {quotient shift d rest : Nat} (hd : 0 < d) (hrest : rest < d)
    (hquotient : quotient < 2^64) (hshift : 0 < shift) :
    roundQuotient quotient shift (decide (rest ≠ 0)) =
      halfEven (d*quotient+rest) (d*2^shift) := by
  rw [halfEven_dropped hd hrest hshift, roundQuotient]
  rcases Nat.lt_trichotomy shift 64 with hlt | rfl | hgt
  · rw [if_pos hlt]
    simp
  · rw [if_neg (Nat.lt_irrefl 64), Nat.mod_eq_of_lt hquotient, Nat.div_eq_of_lt hquotient]
    simp
  · -- all the bits of the quotient are below half of the last bit kept
    have hhalf : 2^64 ≤ 2^(shift-1) := Nat.pow_le_pow_right (by norm_num) (by omega)
    have hfull : quotient < 2^shift :=
      Nat.lt_of_lt_of_le hquotient (Nat.pow_le_pow_right (by norm_num) (Nat.le_of_lt hgt))
    rw [if_neg (by omega), if_neg (by omega), Nat.mod_eq_of_lt hfull, Nat.div_eq_of_lt hfull,
      if_neg (by omega)]

/-- `ldexp` of what is left of a mantissa, in units of its binade. -/
theorem ldexp_eq {kept b : Nat} (hkept : kept ≤ 2^53) (hb : b = 0 ∨ 2^52 ≤ kept) :
    ldexp kept ((b : Int)-1074) = min (b*2^52+kept) infinityMagnitude := by
  have hinf : infinityMagnitude = 2047*2^52 := rfl
  rw [hinf]
  rcases Nat.lt_or_ge kept (2^52) with hsmall | hbig
  · obtain rfl : b = 0 := by omega
    rcases Nat.eq_zero_or_pos kept with rfl | hpos
    · simp [ldexp]
    · obtain ⟨hone, hlow⟩ := bitLength_le (Nat.ne_of_gt hpos)
      have hlen : bitLength kept ≤ 52 := by
        by_contra hlen
        have hpow : 2^52 ≤ 2^(bitLength kept-1) := Nat.pow_le_pow_right (by norm_num) (by omega)
        omega
      have htop : ¬ 1023 < (bitLength kept : Int)-1+((0 : Nat)-1074) := by omega
      have htop' : ¬ -1022 ≤ (bitLength kept : Int)-1+((0 : Nat)-1074) := by omega
      rw [ldexp]
      rw [if_neg (Nat.ne_of_gt hpos), if_neg htop, if_neg htop']
      norm_num
      omega
  · rcases Nat.lt_or_eq_of_le hkept with hlt | rfl
    · have hlen := bitLength_eq hbig hlt
      rw [ldexp, hlen]
      rw [if_neg (by omega), Nat.mul_div_cancel _ (Nat.two_pow_pos _)]
      split_ifs <;> omega
    · have hlen := bitLength_eq (k := 53) (le_refl _) (by norm_num)
      rw [ldexp, hlen]
      rw [if_neg (by norm_num)]
      split_ifs <;> omega

/-- Scaling by a power of two gives a quotient of 63 or 64 bits. -/
theorem scaled_bounds {n d : Nat} {k : Int} (hn : n ≠ 0) (hd : d ≠ 0)
    (hk : k = 63-((bitLength n : Int)-bitLength d)) :
    2^62*(d*2^(-k).toNat) ≤ n*2^k.toNat ∧ n*2^k.toNat < 2^64*(d*2^(-k).toNat) := by
  obtain ⟨hn1, hnlow⟩ := bitLength_le hn
  obtain ⟨hd1, hdlow⟩ := bitLength_le hd
  have hnhigh := lt_bitLength n
  have hdhigh := lt_bitLength d
  generalize bitLength n = a at hk hn1 hnlow hnhigh
  generalize bitLength d = b at hk hd1 hdlow hdhigh
  constructor
  · calc 2^62*(d*2^(-k).toNat) ≤ 2^62*(2^b*2^(-k).toNat) := by gcongr
      _ = 2^(a-1)*2^k.toNat := by
        rw [← pow_add, ← pow_add, ← pow_add]
        congr 1
        omega
      _ ≤ n*2^k.toNat := by gcongr
  · calc n*2^k.toNat < 2^a*2^k.toNat := by gcongr
      _ = 2^64*(2^(b-1)*2^(-k).toNat) := by
        rw [← pow_add, ← pow_add, ← pow_add]
        congr 1
        omega
      _ ≤ 2^64*(d*2^(-k).toNat) := by gcongr

theorem scaled_value (n d : Nat) (k : Int) :
    (n : ℚ)/d = ((n*2^k.toNat : Nat) : ℚ)/((d*2^(-k).toNat : Nat) : ℚ)*2^(-k) := by
  have hk : -k = ((-k).toNat : Int)-(k.toNat : Int) := by omega
  have hpow : (2 : ℚ)^(-k) = 2^(-k).toNat/2^k.toNat := by
    conv_lhs => rw [hk, zpow_sub₀ two_ne_zero, zpow_natCast, zpow_natCast]
  rw [hpow]
  push_cast
  field_simp

/-- The last part of `decimalToDouble`: from a quotient of 63 or 64 bits, whether anything remains
and the power of two that the fraction was scaled by. -/
def quotientToDouble (negative : Bool) (quotient : Nat) (sticky : Bool) (k : Int) : Binary64 :=
  let bits := bitLength quotient
  let exp2 := (bits : Int)-1-k
  if 1023 < exp2 then signed negative infinityMagnitude
  else
    let keep := if -1022 ≤ exp2 then 53 else exp2+1075
    let shift := (bits : Int)-keep
    signed negative (ldexp (roundQuotient quotient shift.toNat sticky) (shift-k))

/-- Infinity for the numbers past the overflow point. -/
theorem rounds_overflow (negative : Bool) {n d : Nat} (hd : d ≠ 0)
    (hq : overflowPoint ≤ (n : ℚ)/d) :
    Rounds negative ((n : ℚ)/d) (signed negative infinityMagnitude) := by
  have hround := Binary64.ratioMagnitude_roundsTo n (Nat.pos_of_ne_zero hd)
  refine ⟨_, hround, ?_⟩
  have hmag := (Binary64.overflow_iff hround).mpr hq
  rw [signed_eq (le_refl _), Binary64.ofMagnitude_of_le hmag]

/-- The bits of the quotient, rounded in the binade of the fraction. -/
theorem rounds_kept (negative : Bool) {n d quotient rest shift b : Nat} {k : Int} {q : ℚ}
    (hd : 0 < d) (hrest : rest < d) (hn : n = d*quotient+rest) (hquotient : quotient < 2^64)
    (hshift : 0 < shift) (hb : (shift : Int)-k = (b : Int)-1074) (hq : q = (n : ℚ)/d*2^(-k))
    (hhigh : q < 2^53*2^((b : Int)-1074)) (hlow : b = 0 ∨ 2^52*2^((b : Int)-1074) ≤ q) :
    Rounds negative q
      (signed negative (ldexp (roundQuotient quotient shift (rest ≠ 0)) ((shift : Int)-k))) := by
  have hkept : RoundsTo (fun k : Nat => (k : ℚ)*2^((b : Int)-1074)) q
      (halfEven n (d*2^shift)) := by
    have hsame : q = (n : ℚ)/((d*2^shift : Nat) : ℚ)*2^((b : Int)-1074) := by
      rw [hq, ← hb, zpow_sub₀ two_ne_zero, zpow_neg, zpow_natCast]
      push_cast
      field_simp
    rw [hsame]
    exact halfEven_roundsTo (Nat.mul_pos hd (Nat.two_pow_pos _)) (Binary64.unit_pos b)
  obtain ⟨hle, hge⟩ := Binary64.units_bounds hhigh hlow hkept
  refine ⟨_, Binary64.roundsTo_binade hhigh hlow hkept, ?_⟩
  rw [roundQuotient_eq hd hrest hquotient hshift, ← hn, hb, ldexp_eq hle hge,
    signed_eq (Nat.min_le_right _ _), Binary64.ofMagnitude_min]

/-- A quotient of 63 or 64 bits, from the binade of the fraction. -/
theorem quotientToDouble_rounds (negative : Bool) {n d quotient rest : Nat} {k : Int} {q : ℚ}
    (hd : 0 < d) (hrest : rest < d) (hn : n = d*quotient+rest) (hlow : 2^62 ≤ quotient)
    (hhigh : quotient < 2^64) (hq : q = (n : ℚ)/d*2^(-k))
    (hover : overflowPoint ≤ q → Rounds negative q (signed negative infinityMagnitude)) :
    Rounds negative q (quotientToDouble negative quotient (rest ≠ 0) k) := by
  obtain ⟨l, hl62, hl63, hl, hl'⟩ : ∃ l, 62 ≤ l ∧ l ≤ 63 ∧ 2^l ≤ quotient ∧ quotient < 2^(l+1) := by
    rcases Nat.lt_or_ge quotient (2^63) with hlt | hge
    · exact ⟨62, by omega, by omega, hlow, hlt⟩
    · exact ⟨63, by omega, by omega, hge, hhigh⟩
  have hd' : (0 : ℚ) < d := Nat.cast_pos.mpr hd
  have hpow : (0 : ℚ) < 2^(-k) := zpow_pos two_pos _
  have hqlow : (2 : ℚ)^((l : Int)-k) ≤ q := by
    have hmul : d*2^l ≤ n := by
      rw [hn]
      exact Nat.le_trans (Nat.mul_le_mul_left d hl) (Nat.le_add_right _ _)
    rw [hq, sub_eq_add_neg, zpow_add₀ two_ne_zero, zpow_natCast]
    apply mul_le_mul_of_nonneg_right _ (le_of_lt hpow)
    rw [le_div_iff₀ hd', mul_comm]
    exact_mod_cast hmul
  have hqhigh : q < (2 : ℚ)^((l : Int)+1-k) := by
    have hmul : n < d*2^(l+1) := by
      have hnext : d*(quotient+1) ≤ d*2^(l+1) := Nat.mul_le_mul_left d hl'
      rw [Nat.mul_add, Nat.mul_one] at hnext
      omega
    rw [hq, sub_eq_add_neg, zpow_add₀ two_ne_zero, ← Nat.cast_succ, zpow_natCast]
    apply mul_lt_mul_of_pos_right _ hpow
    rw [div_lt_iff₀ hd', mul_comm]
    exact_mod_cast hmul
  have hmono {x y : Int} (h : x ≤ y) : (2 : ℚ)^x ≤ 2^y := zpow_le_zpow_right₀ one_le_two h
  have hunits (x y : Int) (a : Nat) (h : (a : Int)+x = y) : (2 : ℚ)^a*2^x = 2^y := by
    rw [← h, zpow_add₀ two_ne_zero, zpow_natCast]
  rw [quotientToDouble, bitLength_eq hl hl']
  dsimp only
  split_ifs with hinf hnormal
  · apply hover
    have hbig : (2 : ℚ)^(1024 : Int) ≤ q := le_trans (hmono (by push_cast at hinf; omega)) hqlow
    have hpoint : overflowPoint ≤ 2^(1024 : Int) := by
      rw [overflowPoint, zpow_ofNat]
      exact sub_le_self _ (le_of_lt (pow_pos two_pos 970))
    exact le_trans hpoint hbig
  · obtain ⟨b, hb⟩ : ∃ b : Nat, (b : Int) = (l : Int)-k+1022 :=
      ⟨((l : Int)-k+1022).toNat, by push_cast at hnormal; omega⟩
    obtain ⟨shift, hshift⟩ : ∃ shift : Nat, (shift : Int) = ((l+1 : Nat) : Int)-53 :=
      ⟨(((l+1 : Nat) : Int)-53).toNat, by omega⟩
    rw [← hshift, Int.toNat_natCast]
    refine rounds_kept negative hd hrest hn hhigh (by omega) (b := b) (by push_cast at hshift; omega)
      hq ?_ (.inr ?_)
    · rw [hunits _ ((l : Int)+1-k) 53 (by push_cast; omega)]
      exact hqhigh
    · rw [hunits _ ((l : Int)-k) 52 (by push_cast; omega)]
      exact hqlow
  · -- subnormal: the last bit kept is the smallest unit
    obtain ⟨shift, hshift⟩ : ∃ shift : Nat,
        (shift : Int) = ((l+1 : Nat) : Int)-(((l+1 : Nat) : Int)-1-k+1075) :=
      ⟨(((l+1 : Nat) : Int)-(((l+1 : Nat) : Int)-1-k+1075)).toNat, by push_cast at hnormal ⊢; omega⟩
    rw [← hshift, Int.toNat_natCast]
    refine rounds_kept negative hd hrest hn hhigh (by push_cast at hshift hnormal; omega) (b := 0)
      (by push_cast at hshift ⊢; omega) hq ?_ (.inl rfl)
    rw [hunits _ (-1021) 53 (by norm_num)]
    exact lt_of_lt_of_le hqhigh (hmono (by push_cast at hnormal; omega))

/-- The division of the scaled numerator by the scaled denominator. -/
theorem fraction_rounds (negative : Bool) {n d : Nat} {k : Int} (hn : n ≠ 0) (hd : d ≠ 0)
    (hk : k = 63-((bitLength n : Int)-bitLength d)) :
    n*2^k.toNat < 2^64*(d*2^(-k).toNat) ∧ 0 < d*2^(-k).toNat ∧
    Rounds negative ((n : ℚ)/d) (quotientToDouble negative
      (n*2^k.toNat/(d*2^(-k).toNat)) (n*2^k.toNat%(d*2^(-k).toNat) ≠ 0) k) := by
  obtain ⟨hlow, hhigh⟩ := scaled_bounds hn hd hk
  have hD : 0 < d*2^(-k).toNat := Nat.mul_pos (Nat.pos_of_ne_zero hd) (Nat.two_pow_pos _)
  refine ⟨hhigh, hD, ?_⟩
  exact quotientToDouble_rounds negative hD (Nat.mod_lt _ hD) (Nat.div_add_mod _ _).symm
    ((Nat.le_div_iff_mul_le hD).mpr hlow) ((Nat.div_lt_iff_lt_mul hD).mpr hhigh)
    (scaled_value n d k) (rounds_overflow negative hd)

/-- No midpoint of two words lies between neighbouring decimals of 800 digits. -/
theorem midpoint_gap {t p b k : Nat} (ht : 10^799 ≤ t) (hk : k < 2^53) :
    (2*k+1)*2^b*10^p ≤ t*2^1075 ∨ (t+1)*2^1075 ≤ (2*k+1)*2^b*10^p := by
  have hten : 10^p = 2^p*5^p := by rw [← Nat.mul_pow]
  rcases Nat.lt_or_ge (b+p) 1075 with hlt | hge
  · -- the midpoint has too few digits
    left
    have hfive : 5^p ≤ 5^1074 := pow_le_pow_right₀ (by norm_num) (by omega)
    have hsize : 2^54*5^1074 ≤ 10^799 := by decide +kernel
    have hmid : (2*k+1)*5^p ≤ t :=
      calc (2*k+1)*5^p ≤ 2^54*5^1074 := Nat.mul_le_mul (by omega) hfive
        _ ≤ t := Nat.le_trans hsize ht
    calc (2*k+1)*2^b*10^p = (2*k+1)*5^p*2^(b+p) := by
          rw [hten, pow_add]
          ring
      _ ≤ t*2^1075 :=
        Nat.mul_le_mul hmid (pow_le_pow_right₀ (by norm_num) (Nat.le_of_lt hlt))
  · -- the midpoint is an integer in units of the last digit
    obtain ⟨c, hc⟩ := Nat.exists_eq_add_of_le hge
    have hmid : (2*k+1)*2^b*10^p = (2*k+1)*5^p*2^c*2^1075 := by
      have hpow : 2^b*2^p = 2^c*2^1075 := by
        rw [← pow_add, ← pow_add, hc, Nat.add_comm]
      calc (2*k+1)*2^b*10^p = (2*k+1)*5^p*(2^b*2^p) := by
            rw [hten]
            ring
        _ = (2*k+1)*5^p*2^c*2^1075 := by rw [hpow, ← Nat.mul_assoc]
    rw [hmid]
    rcases Nat.lt_or_ge t ((2*k+1)*5^p*2^c) with hless | hmore
    · exact .inr (Nat.mul_le_mul_right _ hless)
    · exact .inl (Nat.mul_le_mul_right _ hmore)

theorem grid_gap {t : Nat} (ht : 10^799 ≤ t) (p j : Nat) :
    grid j+grid (j+1) ≤ 2*((t : ℚ)/10^p) ∨ 2*((t+1 : Nat)/10^p) ≤ grid j+grid (j+1) := by
  obtain ⟨b, k, rfl, hk, hb⟩ := Binary64.exists_binade j
  have hmid : grid (b*2^52+k)+grid (b*2^52+k+1) = ((2*k+1)*2^b : Nat)/2^1074 := by
    rw [Nat.add_assoc, Binary64.grid_binade (Nat.le_of_lt hk) hb,
      Binary64.grid_binade hk (hb.imp_right fun h => Nat.le_succ_of_le h), Binary64.unit_eq]
    generalize (2 : ℚ)^1074 = u
    push_cast
    ring
  have hunits : (0 : ℚ) < 2^1074 := pow_pos two_pos 1074
  have hten : (0 : ℚ) < 10^p := pow_pos (by norm_num) p
  have hdouble : (2 : ℚ)^1075 = 2^1074*2 := pow_succ _ _
  rw [hmid, ← mul_div_assoc, ← mul_div_assoc, div_le_div_iff₀ hunits hten,
    div_le_div_iff₀ hten hunits]
  rcases midpoint_gap (p := p) (b := b) ht hk with hlow | hhigh
  · left
    have hcast : (((2*k+1)*2^b : Nat) : ℚ)*10^p ≤ t*2^1075 := by exact_mod_cast hlow
    rw [hdouble] at hcast
    generalize (2 : ℚ)^1074 = u at hcast ⊢
    linarith
  · right
    have hcast : ((t+1 : Nat) : ℚ)*2^1075 ≤ (((2*k+1)*2^b : Nat) : ℚ)*10^p := by
      exact_mod_cast hhigh
    rw [hdouble] at hcast
    generalize (2 : ℚ)^1074 = u at hcast ⊢
    linarith

/-- The digits that `decimalToDouble` looks at: a `1` stands for those it leaves out. -/
def shortened (digits : Text) : Text :=
  if maxSignificantDigits < digits.length then digits.take maxSignificantDigits ++ [49] else digits

def shortenedExp (digits : Text) (exp10 : Int) : Int :=
  if maxSignificantDigits < digits.length then
    exp10+(digits.length-maxSignificantDigits-1 : Nat)
  else exp10

theorem shortened_magnitude (digits : Text) (exp10 : Int) :
    (shortened digits).length+shortenedExp digits exp10 = digits.length+exp10 := by
  unfold shortened shortenedExp
  split_ifs with hlong
  · rw [List.length_append, List.length_take, Nat.min_eq_left (Nat.le_of_lt hlong),
      List.length_singleton]
    omega
  · rfl

theorem shortened_digit {digits : Text} (h : ∀ c ∈ digits, isDigit c = true) :
    ∀ c ∈ shortened digits, isDigit c = true := by
  unfold shortened
  split_ifs with hlong
  · intro c hc
    rcases List.mem_append.mp hc with hc | hc
    · exact h c (List.take_subset _ _ hc)
    · rw [List.mem_singleton.mp hc]
      rfl
  · exact h

/-- What is left out does not change the rounding. -/
theorem shortened_rounds {negative : Bool} {digits : Text} {exp10 : Int} {x : Binary64}
    (h : ∀ c ∈ digits, isDigit c = true) (hhead : digits.head? ≠ some 48)
    (hlast : digits.getLast? ≠ some 48) (hmag : digits.length+exp10 ≤ 310)
    (hx : Rounds negative (decimalRat (shortened digits) (shortenedExp digits exp10)) x) :
    Rounds negative (decimalRat digits exp10) x := by
  unfold shortened shortenedExp maxSignificantDigits at hx
  split_ifs at hx with hlong
  · obtain ⟨m, hm, rfl⟩ := hx
    refine ⟨m, ?_, rfl⟩
    -- the exponent of the last digit that is kept is negative
    obtain ⟨p, hp⟩ : ∃ p : Nat, exp10 = -(p : Int)-(digits.length-800 : Nat) :=
      ⟨(-(exp10+(digits.length-800 : Nat))).toNat, by omega⟩
    have hsplit := List.take_append_drop 800 digits
    have hkept : (digits.take 800).length = 800 := by
      rw [List.length_take, Nat.min_eq_left (Nat.le_of_lt hlong)]
    have htail : (digits.drop 800).length = digits.length-800 := List.length_drop
    have htaildigit : ∀ c ∈ digits.drop 800, isDigit c = true := fun c hc =>
      h c (List.drop_subset _ _ hc)
    have hnonempty : digits.drop 800 ≠ [] := by
      rw [← List.length_pos_iff_ne_nil, htail]
      omega
    have hpos : 0 < digitsValue (digits.drop 800) := by
      apply digitsValue_pos htaildigit hnonempty
      rwa [List.getLast?_drop, if_neg (by omega)]
    have hlt := digitsValue_lt htaildigit
    have hfirst : 10^799 ≤ digitsValue (digits.take 800) := by
      have hle := le_digitsValue (t := digits.take 800)
        (fun c hc => h c (List.take_subset _ _ hc)) (by rw [← List.length_pos_iff_ne_nil]; omega)
        (by rwa [List.head?_take, if_neg (by norm_num)])
      simpa only [hkept, Nat.reduceSub] using hle
    rw [htail] at hlt
    have hvalue : digitsValue digits =
        digitsValue (digits.take 800)*10^(digits.length-800)+digitsValue (digits.drop 800) := by
      conv_lhs => rw [← hsplit, digitsValue_join, htail]
    have hmarked : digitsValue (digits.take 800 ++ [49]) =
        digitsValue (digits.take 800)*10+1 := digitsValue_append _ _
    generalize digitsValue (digits.take 800) = t at hfirst hvalue hmarked
    generalize digitsValue (digits.drop 800) = r at hpos hlt hvalue
    have hten (a : Nat) : (0 : ℚ) < 10^a := pow_pos (by norm_num) a
    have hexp : exp10+(digits.length-800-1 : Nat) = -((p+1 : Nat) : Int) := by
      push_cast
      omega
    have hexp' : exp10 = -((p+(digits.length-800) : Nat) : Int) := by
      push_cast
      omega
    have hnear : decimalRat (digits.take 800 ++ [49]) (exp10+(digits.length-800-1 : Nat)) =
        ((t : ℚ)+1/10)/10^p := by
      rw [decimalRat, hmarked, hexp, zpow_neg, zpow_natCast, pow_succ]
      have h10 := hten p
      field_simp
      push_cast
      ring
    have hexact : decimalRat digits exp10 = ((t : ℚ)+r/10^(digits.length-800))/10^p := by
      rw [decimalRat, hvalue]
      conv_lhs => rw [hexp', zpow_neg, zpow_natCast, pow_add]
      have h10 := hten p
      have h10' := hten (digits.length-800)
      push_cast
      field_simp
    rw [hnear] at hm
    rw [hexact]
    have hr : 0 < (r : ℚ)/10^(digits.length-800) ∧ (r : ℚ)/10^(digits.length-800) < 1 := by
      refine ⟨div_pos (Nat.cast_pos.mpr hpos) (hten _), (div_lt_one (hten _)).mpr ?_⟩
      exact_mod_cast hlt
    refine hm.between ((t : ℚ)/10^p) (((t+1 : Nat) : ℚ)/10^p) ⟨?_, ?_⟩ ⟨?_, ?_⟩
      (grid_gap hfirst p) <;> apply div_lt_div_of_pos_right _ (hten p) <;> push_cast <;> linarith
  · exact hx

theorem decimalRat_fraction (digits : Text) (exp10 : Int) :
    decimalRat digits exp10 =
      ((digitsValue digits*10^exp10.toNat : Nat) : ℚ)/((10^(-exp10).toNat : Nat) : ℚ) := by
  have hexp : exp10 = (exp10.toNat : Int)-((-exp10).toNat : Int) := by omega
  have hten : (10 : ℚ) ≠ 0 := by norm_num
  rw [decimalRat]
  conv_lhs => rw [hexp, zpow_sub₀ hten, zpow_natCast, zpow_natCast]
  push_cast
  rw [mul_div_assoc]

/-- The value lies in the decade that length and exponent give. -/
theorem decimalRat_bounds {digits : Text} {exp10 : Int} (h : ∀ c ∈ digits, isDigit c = true)
    (hne : digits ≠ []) (hhead : digits.head? ≠ some 48) :
    10^((digits.length : Int)+exp10-1) ≤ decimalRat digits exp10 ∧
      decimalRat digits exp10 < 10^((digits.length : Int)+exp10) := by
  have hten : (10 : ℚ) ≠ 0 := by norm_num
  have hpow : (0 : ℚ) < 10^exp10 := zpow_pos (by norm_num) _
  have hlength := List.length_pos_iff_ne_nil.mpr hne
  have hlow := le_digitsValue h hne hhead
  have hhigh := digitsValue_lt h
  constructor
  · have hexp : (digits.length : Int)+exp10-1 = ((digits.length-1 : Nat) : Int)+exp10 := by omega
    rw [hexp, zpow_add₀ hten, zpow_natCast]
    apply mul_le_mul_of_nonneg_right _ (le_of_lt hpow)
    exact_mod_cast hlow
  · rw [zpow_add₀ hten, zpow_natCast]
    apply mul_lt_mul_of_pos_right _ hpow
    exact_mod_cast hhigh

theorem huge_rounds (negative : Bool) {digits : Text} {exp10 : Int}
    (hq : (10 : ℚ)^(310 : Int) ≤ decimalRat digits exp10) :
    Rounds negative (decimalRat digits exp10) (signed negative infinityMagnitude) := by
  rw [decimalRat_fraction] at hq ⊢
  apply rounds_overflow negative (pow_ne_zero _ (by norm_num))
  have hsize : 2^1024 ≤ 10^310 := by decide +kernel
  have hpoint : overflowPoint ≤ (10 : ℚ)^(310 : Int) := by
    have hcast : (2 : ℚ)^1024 ≤ 10^310 := by exact_mod_cast hsize
    rw [overflowPoint, zpow_ofNat]
    exact le_trans (sub_le_self _ (le_of_lt (pow_pos two_pos 970))) hcast
  exact le_trans hpoint hq

theorem tiny_rounds (negative : Bool) {q : ℚ} (hq : 2*q < grid 1) :
    Rounds negative q (signed negative 0) := by
  refine ⟨0, ⟨fun k hk => absurd hk (Nat.succ_ne_zero k), ?_⟩, signed_eq (Nat.zero_le _)⟩
  rw [Binary64.grid_zero, zero_add]
  exact .inl hq

/-- A decimal below `10^-324` is below half of the smallest unit. -/
theorem small_rounds (negative : Bool) {q : ℚ} (hq : q < (10 : ℚ)^(-324 : Int)) :
    Rounds negative q (signed negative 0) := by
  have hsize : 2*2^1074 ≤ 10^324 := by decide +kernel
  apply tiny_rounds
  have hcast : 2*(2 : ℚ)^1074 ≤ 10^324 := by exact_mod_cast hsize
  have hten : (10 : ℚ)^(-324 : Int) = 1/10^324 := by
    rw [zpow_neg, zpow_ofNat, one_div]
  have hpos : (0 : ℚ) < 10^324 := pow_pos (by norm_num) _
  have hpos' : (0 : ℚ) < 2^1074 := pow_pos two_pos _
  rw [hten, lt_div_iff₀ hpos] at hq
  rw [Binary64.grid_one, lt_div_iff₀ hpos']
  generalize (10 : ℚ)^324 = t at hq hcast hpos
  generalize (2 : ℚ)^1074 = u at hcast hpos' ⊢
  rcases le_or_gt q 0 with hneg | hnonneg
  · nlinarith
  · nlinarith

section
variable {negative : Bool} {digits : Text} {exp10 : Int}

theorem empty_rounds (hempty : digits = []) :
    Rounds negative (decimalRat digits exp10) (signed negative 0) := by
  apply tiny_rounds
  have hzero : decimalRat ([] : Text) exp10 = 0 := by simp [decimalRat, digitsValue]
  rw [hempty, hzero, mul_zero]
  exact Binary64.grid_one_pos

theorem above_rounds (h : ∀ c ∈ digits, isDigit c = true) (hne : digits ≠ [])
    (hhead : digits.head? ≠ some 48)
    (hmag : 310 < (shortened digits).length+shortenedExp digits exp10) :
    Rounds negative (decimalRat digits exp10) (signed negative infinityMagnitude) := by
  rw [shortened_magnitude] at hmag
  apply huge_rounds
  refine le_trans ?_ (decimalRat_bounds h hne hhead).1
  exact zpow_le_zpow_right₀ (by norm_num) (by omega)

theorem below_rounds (h : ∀ c ∈ digits, isDigit c = true) (hne : digits ≠ [])
    (hhead : digits.head? ≠ some 48)
    (hmag : (shortened digits).length+shortenedExp digits exp10 ≤ -324) :
    Rounds negative (decimalRat digits exp10) (signed negative 0) := by
  rw [shortened_magnitude] at hmag
  apply small_rounds
  refine lt_of_lt_of_le (decimalRat_bounds h hne hhead).2 ?_
  exact zpow_le_zpow_right₀ (by norm_num) hmag

/-- The value of the digits that are looked at is not zero. -/
theorem shortened_pos (h : ∀ c ∈ digits, isDigit c = true) (hne : digits ≠ [])
    (hlast : digits.getLast? ≠ some 48) : 0 < digitsValue (shortened digits) := by
  unfold shortened
  split_ifs
  · rw [digitsValue_append]
    exact Nat.succ_pos _
  · exact digitsValue_pos h hne hlast

/-- The numerator and the denominator, and the division of the one by the other. -/
theorem divided_rounds {n m : Nat} {k : Int} (h : ∀ c ∈ digits, isDigit c = true)
    (hne : digits ≠ []) (hhead : digits.head? ≠ some 48) (hlast : digits.getLast? ≠ some 48)
    (hmag : ¬ 310 < (shortened digits).length+shortenedExp digits exp10)
    (hn : n = digitsValue (shortened digits)*10^(shortenedExp digits exp10).toNat)
    (hm : m = 10^(-shortenedExp digits exp10).toNat)
    (hk : k = 63-((bitLength n : Int)-bitLength m)) :
    n*2^k.toNat < 2^64*(m*2^(-k).toNat) ∧ 0 < m*2^(-k).toNat ∧
    Rounds negative (decimalRat digits exp10) (quotientToDouble negative
      (n*2^k.toNat/(m*2^(-k).toNat)) (n*2^k.toNat%(m*2^(-k).toNat) ≠ 0) k) := by
  have hn0 : n ≠ 0 := by
    rw [hn]
    exact Nat.mul_ne_zero (Nat.ne_of_gt (shortened_pos h hne hlast)) (pow_ne_zero _ (by norm_num))
  have hm0 : m ≠ 0 := by
    rw [hm]
    exact pow_ne_zero _ (by norm_num)
  obtain ⟨hbound, hpos, hround⟩ := fraction_rounds negative hn0 hm0 hk
  refine ⟨hbound, hpos, shortened_rounds h hhead hlast ?_ ?_⟩
  · rw [shortened_magnitude] at hmag
    omega
  · rw [decimalRat_fraction, ← hn, ← hm]
    exact hround

end

theorem decimalToDouble_rounds (negative : Bool) {digits : Text} (exp10 : Int)
    (h : ∀ c ∈ digits, isDigit c = true) :
    Rounds negative (decimalRat digits exp10) (decimalToDouble negative digits exp10) := by
  have hstrip := strip_spec exp10 h
  generalize hq : decimalRat digits exp10 = q
  delta decimalToDouble
  extract_lets front zeros exp10' digits'
  have hstripped : Stripped digits exp10 digits' exp10' := hstrip
  clear_value digits' exp10'
  obtain ⟨hvalue, hdigit, hhead, hlast⟩ := hstripped
  rw [← hq, ← hvalue]
  split_ifs with hempty hbig hsmall
  · exact empty_rounds (List.isEmpty_iff.mp hempty)
  · exact above_rounds hdigit (fun hnil => hempty (List.isEmpty_iff.mpr hnil)) hhead hbig
  · exact below_rounds hdigit (fun hnil => hempty (List.isEmpty_iff.mpr hnil)) hhead hsmall
  · rename_i exponent shown magnitude numerator denominator k
    have hn : numerator =
        digitsValue (shortened digits')*10^(shortenedExp digits' exp10').toNat := rfl
    have hd : denominator = 10^(-shortenedExp digits' exp10').toNat := rfl
    have hk : k = 63-((bitLength numerator : Int)-bitLength denominator) := rfl
    have hmag : ¬ 310 < (shortened digits').length+shortenedExp digits' exp10' := hbig
    clear_value k numerator denominator
    obtain ⟨hbound, hpos, hround⟩ := @divided_rounds negative _ _ _ _ _ hdigit
      (fun hnil => hempty (List.isEmpty_iff.mpr hnil)) hhead hlast hmag hn hd hk
    rw [quotientBits_spec hpos 64 _ hbound]
    exact hround

namespace BigUInt

/-- The limbs are divided as the integers are. -/
theorem longDivide_eq {d : Nat} (bits : Nat) :
    ∀ (numerator step : BigUInt) (quotient : UInt64) (m : Nat), bits ≤ 64 →
      (∀ b, bits = b+1 → step.toNat = d*2^b) → quotient.toNat = 2^bits*m →
      (longDivide bits numerator step quotient).1.toNat =
        quotient.toNat+(quotientBits bits numerator.toNat d).1 ∧
      (longDivide bits numerator step quotient).2.toNat =
        (quotientBits bits numerator.toNat d).2 := by
  induction bits with
  | zero =>
    intro numerator step quotient m _ _ _
    exact ⟨rfl, rfl⟩
  | succ bit ih =>
    intro numerator step quotient m hbits hstep hquotient
    have hstep' := hstep bit rfl
    have hnext : ∀ b, bit = b+1 → step.shiftRightOne.toNat = d*2^b := by
      rintro b rfl
      rw [toNat_shiftRightOne, hstep', pow_succ, ← Nat.mul_assoc, Nat.mul_div_cancel _ two_pos]
    have hone : ((1 : UInt64) <<< UInt64.ofNat bit).toNat = 2^bit := by
      have hbit : (UInt64.ofNat bit).toNat = bit := by
        rw [UInt64.toNat_ofNat', Nat.mod_eq_of_lt (by omega)]
      have hlt : 2^bit < 2^64 := Nat.pow_lt_pow_right (by norm_num) (by omega)
      have hbit' : bit%64 = bit := Nat.mod_eq_of_lt (by omega)
      rw [UInt64.toNat_shiftLeft, hbit, hbit', Nat.shiftLeft_eq, UInt64.toNat_one, Nat.one_mul,
        Nat.mod_eq_of_lt hlt]
    have hset : (quotient ||| 1 <<< UInt64.ofNat bit).toNat = quotient.toNat+2^bit := by
      rw [UInt64.toNat_or, hone, hquotient,
        ← Nat.two_pow_add_eq_or_of_lt (Nat.pow_lt_pow_right (by norm_num) (Nat.lt_succ_self bit))]
    rw [longDivide, quotientBits, compare_eq, hstep']
    by_cases hle : d*2^bit ≤ numerator.toNat
    · have hcompare : Ord.compare numerator.toNat (d*2^bit) ≠ .lt := by
        rw [Ne, Nat.compare_eq_lt]
        omega
      have hsub := toNat_subtract (a := numerator) (b := step) (by rw [hstep']; exact hle)
      rw [hstep'] at hsub
      obtain ⟨hfirst, hrest⟩ := ih (numerator.subtract step) step.shiftRightOne
        (quotient ||| 1 <<< UInt64.ofNat bit) (2*m+1) (by omega) hnext
        (by rw [hset, hquotient, pow_succ]; ring)
      rw [hsub] at hfirst hrest
      rw [if_pos hcompare]
      dsimp only
      rw [if_pos hle, hfirst, hrest, hset]
      exact ⟨Nat.add_assoc _ _ _, rfl⟩
    · have hcompare : ¬ Ord.compare numerator.toNat (d*2^bit) ≠ .lt := by
        rw [not_not, Nat.compare_eq_lt]
        omega
      rw [if_neg hcompare]
      dsimp only
      rw [if_neg hle]
      exact ih numerator step.shiftRightOne quotient (2*m) (by omega) hnext
        (by rw [hquotient, pow_succ]; ring)

/-- `BitLength` counts the bits of the integer. -/
theorem bitLength_eq (a : BigUInt) : a.bitLength = Json.bitLength a.toNat := by
  by_cases hnil : a.limbs = []
  · have hzero : a.toNat = 0 := by rw [toNat, hnil, Limbs.value_nil]
    rw [hzero, bitLength, hnil]
    rfl
  · obtain ⟨hpos, hlow, hhigh⟩ := Limbs.bitLength_spec a.trimmed hnil
    rw [bitLength]
    generalize Limbs.bitLength a.limbs = b at hpos hlow hhigh
    obtain ⟨b, rfl⟩ := Nat.exists_eq_succ_of_ne_zero (Nat.ne_of_gt hpos)
    exact (Json.bitLength_eq hlow hhigh).symm

/-- `DecimalToDouble` on limbs, once the digits are stripped and shortened. -/
def digitsToDouble (negative : Bool) (digits : Text) (exp10 : Int) : Binary64 :=
  -- a power or a shift that is not taken is one by zero
  let numerator := (fromDecimal digits).mulPow10 exp10.toNat
  let denominator := (ofUInt64 1).mulPow10 (-exp10).toNat
  let k : Int := 63-((numerator.bitLength : Int)-denominator.bitLength)
  let numerator := numerator.shiftLeft k.toNat
  let denominator := denominator.shiftLeft (-k).toNat
  let division := longDivide 64 numerator (denominator.shiftLeft 63) 0
  quotientToDouble negative division.1.toNat (!division.2.isZero) k

/-- `DecimalToDouble`, with its big integers. -/
def decimalToDouble (negative : Bool) (digits : Text) (exp10 : Int) : Binary64 :=
  let digits := digits.dropWhile (· = 48)
  let zeros := (digits.reverse.takeWhile (· = 48)).length
  let exp10 := exp10+zeros
  let digits := digits.take (digits.length-zeros)
  if digits.isEmpty then signed negative 0
  else
    let magnitude := (shortened digits).length+shortenedExp digits exp10
    if 310 < magnitude then signed negative infinityMagnitude
    else if magnitude ≤ -324 then signed negative 0
    else digitsToDouble negative (shortened digits) (shortenedExp digits exp10)

theorem digitsToDouble_rounds (negative : Bool) {digits : Text} (exp10 : Int)
    (h : ∀ c ∈ digits, isDigit c = true) (hpos : 0 < digitsValue digits) :
    Rounds negative (decimalRat digits exp10) (digitsToDouble negative digits exp10) := by
  have hn : ((fromDecimal digits).mulPow10 exp10.toNat).toNat =
      digitsValue digits*10^exp10.toNat := by
    rw [toNat_mulPow10, toNat_fromDecimal h]
  have hd : ((ofUInt64 1).mulPow10 (-exp10).toNat).toNat = 10^(-exp10).toNat := by
    rw [toNat_mulPow10, toNat_ofUInt64, UInt64.toNat_one, Nat.one_mul]
  unfold digitsToDouble
  extract_lets numerator denominator k numerator' denominator' division
  have hk : k = 63-((Json.bitLength numerator.toNat : Int)-Json.bitLength denominator.toNat) := by
    rw [← bitLength_eq, ← bitLength_eq]
  have hn' : numerator'.toNat = numerator.toNat*2^k.toNat := toNat_shiftLeft _ _
  have hd' : denominator'.toNat = denominator.toNat*2^(-k).toNat := toNat_shiftLeft _ _
  have hn0 : numerator.toNat ≠ 0 := by
    rw [hn]
    exact Nat.mul_ne_zero (Nat.ne_of_gt hpos) (pow_ne_zero _ (by norm_num))
  have hd0 : denominator.toNat ≠ 0 := by
    rw [hd]
    exact pow_ne_zero _ (by norm_num)
  obtain ⟨hbound, hpos', hround⟩ := fraction_rounds negative hn0 hd0 hk
  have hstep : ∀ b, 64 = b+1 → (denominator'.shiftLeft 63).toNat = denominator'.toNat*2^b := by
    intro b hb
    rw [toNat_shiftLeft, Nat.succ.inj hb]
  obtain ⟨hquotient, hrest⟩ := longDivide_eq 64 numerator' (denominator'.shiftLeft 63) 0 0
    (le_refl 64) hstep rfl
  rw [← hn'] at hbound hround
  rw [← hd'] at hbound hpos' hround
  rw [quotientBits_spec hpos' 64 _ hbound] at hquotient hrest
  change division.2.toNat = numerator'.toNat%denominator'.toNat at hrest
  have hsticky : (!division.2.isZero) = decide (numerator'.toNat%denominator'.toNat ≠ 0) := by
    rw [← hrest, Bool.eq_iff_iff, Bool.not_eq_true', ← Bool.not_eq_true, isZero_iff,
      decide_eq_true_iff]
  have hfirst : division.1.toNat = numerator'.toNat/denominator'.toNat := by
    rw [hquotient, UInt64.toNat_zero, Nat.zero_add]
  rw [hsticky, hfirst, decimalRat_fraction, ← hn, ← hd]
  exact hround

theorem decimalToDouble_rounds (negative : Bool) {digits : Text} (exp10 : Int)
    (h : ∀ c ∈ digits, isDigit c = true) :
    Rounds negative (decimalRat digits exp10) (decimalToDouble negative digits exp10) := by
  have hstrip := strip_spec exp10 h
  generalize hq : decimalRat digits exp10 = q
  unfold decimalToDouble
  extract_lets front zeros exp10' digits'
  have hstripped : Stripped digits exp10 digits' exp10' := hstrip
  clear_value digits' exp10'
  obtain ⟨hvalue, hdigit, hhead, hlast⟩ := hstripped
  rw [← hq, ← hvalue]
  by_cases hempty : digits'.isEmpty = true
  · rw [if_pos hempty]
    exact empty_rounds (List.isEmpty_iff.mp hempty)
  · have hne : digits' ≠ [] := fun hnil => hempty (List.isEmpty_iff.mpr hnil)
    rw [if_neg hempty]
    split_ifs with hbig hsmall
    · exact above_rounds hdigit hne hhead hbig
    · exact below_rounds hdigit hne hhead hsmall
    · refine shortened_rounds hdigit hhead hlast ?_ (digitsToDouble_rounds negative _
        (shortened_digit hdigit) (shortened_pos hdigit hne hlast))
      have hmag : ¬ 310 < (shortened digits').length+shortenedExp digits' exp10' := hbig
      rw [shortened_magnitude] at hmag
      omega

/-- The conversion is to the double nearest to the decimal, a tie to even, and infinity from the
halfway point above the largest one on; the conversion on limbs is the one on integers. -/
theorem decimalToDouble_nearest (negative : Bool) (digits : Text) (exp10 : Int)
    (h : ∀ c ∈ digits, isDigit c = true) :
    Binary64.Nearest negative (digitsValue digits*10^exp10) (decimalToDouble negative digits exp10) ∧
      decimalToDouble negative digits exp10 = Json.decimalToDouble negative digits exp10 := by
  have hlimbs := decimalToDouble_rounds negative exp10 h
  exact ⟨hlimbs.nearest, hlimbs.unique (Json.decimalToDouble_rounds negative exp10 h)⟩

/-- A decimal that rounds to the smallest subnormal. -/
theorem decimalToDouble_nearest_subnormal :
    Binary64.Nearest true (digitsValue (text "3")*10^(-324 : Int))
      (decimalToDouble true (text "3") (-324)) ∧
    decimalToDouble true (text "3") (-324) = Json.decimalToDouble true (text "3") (-324) :=
  decimalToDouble_nearest true (text "3") (-324) (by decide +kernel)

end BigUInt
end DSigMatcher.Json
