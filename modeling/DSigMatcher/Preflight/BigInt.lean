import DSigMatcher.Framework.DigitLoops
import DSigMatcher.Json.Decimal
import Mathlib

namespace DSigMatcher.Preflight
open DSigMatcher.Base DSigMatcher.Framework DSigMatcher.Json JsonValue

/-- `Char - '0'`. -/
def digitOf (c : UInt8) : Nat := c.toNat-48

/-- `'0' + Digit`. -/
def digitChar (d : Nat) : UInt8 := UInt8.ofNat (48+d)

/-- The digits in the order in which the loops read them. -/
def lowDigits (a : Text) : List Nat := (a.map digitOf).reverse

/-- The digits that a loop has pushed, reversed. -/
def ofLowDigits (ds : List Nat) : Text := (ds.map digitChar).reverse

def stripZeros (a : Text) : Text := a.dropWhile (· = 48)

def compareMag (a b : Text) : Ordering :=
  if a.length ≠ b.length then if a.length < b.length then .lt else .gt else compare a b

def addMag (a b : Text) : Text :=
  stripZeros (ofLowDigits (DigitLoops.add 10 0 (lowDigits a) (lowDigits b)))

/-- `A - B` for `A >= B`. -/
def subMag (a b : Text) : Text :=
  stripZeros (ofLowDigits (DigitLoops.sub 10 0 (lowDigits a) (lowDigits b)))

def mulMagSmall (a : Text) (factor : Nat) : Text :=
  if a.isEmpty || factor = 0 then [] else ofLowDigits (DigitLoops.mul 10 factor 0 (lowDigits a))

def magOfU64 (value : Nat) : Text := if value = 0 then [] else decimal value

/-- A sign, and digits without a leading zero; none are zero. -/
structure BigInt where
  negative : Bool := false
  mag : Text := []
  deriving DecidableEq

def bigAdd (a b : BigInt) : BigInt :=
  if a.negative = b.negative then ⟨a.negative,addMag a.mag b.mag⟩
  else
    match compareMag a.mag b.mag with
    | .eq => {}
    | .gt => ⟨a.negative,subMag a.mag b.mag⟩
    | .lt => ⟨b.negative,subMag b.mag a.mag⟩

/-- `|A - B|`. -/
def bigAbsDiff (a b : BigInt) : BigInt :=
  let negB : BigInt := { b with negative := !b.negative && !b.mag.isEmpty }
  { bigAdd a negB with negative := false }

def bigText (v : BigInt) : Text :=
  if v.mag.isEmpty then text "0" else (if v.negative then text "-" else []) ++ v.mag

/-- `2**1024 - 2**970`, from where on an integer is no double. -/
def floatOverflowMag : Text :=
  let p970 := (fun p => mulMagSmall p 2)^[970] (text "1")
  let p1024 := (fun p => mulMagSmall p 2)^[1024-970] p970
  subMag p1024 p970

def floatOverflows (v : BigInt) : Bool := compareMag v.mag floatOverflowMag != .lt

/-- An integer as the code keeps it. -/
def bigOf (n : Int) : BigInt := ⟨n < 0,magOfU64 n.natAbs⟩

section
variable {a : Text}

theorem digitChar_spec : ∀ d < 10, isDigit (digitChar d) = true ∧ digitOf (digitChar d) = d := by
  decide

theorem digitsValue_eq (a : Text) : digitsValue a = Nat.ofDigits 10 (lowDigits a) := by
  induction a using List.reverseRecOn with
  | nil => rfl
  | append_singleton a c ih =>
    have hlow : lowDigits (a ++ [c]) = digitOf c::lowDigits a := by simp [lowDigits]
    rw [digitsValue_append, ih, hlow, Nat.ofDigits_cons, digitOf]
    ring

theorem lowDigits_lt (ha : ∀ c ∈ a, isDigit c = true) : ∀ d ∈ lowDigits a, d < 10 := by
  intro d hd
  rw [lowDigits, List.mem_reverse, List.mem_map] at hd
  obtain ⟨c, hc, rfl⟩ := hd
  exact (digit_lt (ha c hc)).1

theorem lowDigits_ofLowDigits {ds : List Nat} (hds : ∀ d ∈ ds, d < 10) :
    lowDigits (ofLowDigits ds) = ds := by
  rw [lowDigits, ofLowDigits, List.map_reverse, List.reverse_reverse, List.map_map]
  exact (List.map_congr_left fun d hd => (digitChar_spec d (hds d hd)).2).trans (List.map_id ds)

theorem ofLowDigits_digit {ds : List Nat} (hds : ∀ d ∈ ds, d < 10) :
    ∀ c ∈ ofLowDigits ds, isDigit c = true := by
  intro c hc
  rw [ofLowDigits, List.mem_reverse, List.mem_map] at hc
  obtain ⟨d, hd, rfl⟩ := hc
  exact (digitChar_spec d (hds d hd)).1

theorem digitsValue_ofLowDigits {ds : List Nat} (hds : ∀ d ∈ ds, d < 10) :
    digitsValue (ofLowDigits ds) = Nat.ofDigits 10 ds := by
  rw [digitsValue_eq, lowDigits_ofLowDigits hds]

theorem digitsValue_stripZeros (a : Text) : digitsValue (stripZeros a) = digitsValue a := by
  have hall := List.takeWhile_append_dropWhile (p := fun c : UInt8 => decide (c = 48)) (l := a)
  have hzeros : digitsValue (a.takeWhile (· = 48)) = 0 :=
    digitsValue_zeros fun c hc => mem_takeWhile_zeros hc
  conv_rhs => rw [← hall]
  rw [digitsValue_join, hzeros, Nat.zero_mul, Nat.zero_add, stripZeros]

/-- Digits without a leading zero are those of their number. -/
theorem eq_magOfU64 (ha : ∀ c ∈ a, isDigit c = true) (hhead : a.head? ≠ some 48) :
    a = magOfU64 (digitsValue a) := by
  by_cases hnil : a = []
  · rw [hnil]
    rfl
  · have hpos := Nat.lt_of_lt_of_le (pow_pos (by norm_num) _) (le_digitsValue ha hnil hhead)
    rw [magOfU64, if_neg (Nat.ne_of_gt hpos), decimal_digitsValue ha hnil hhead]

theorem stripZeros_eq (ha : ∀ c ∈ a, isDigit c = true) :
    stripZeros a = magOfU64 (digitsValue a) := by
  have hfirst := List.head?_dropWhile_not (fun c : UInt8 => decide (c = 48)) a
  rw [← digitsValue_stripZeros]
  apply eq_magOfU64
  · exact fun c hc => ha c ((List.dropWhile_sublist _).subset hc)
  · intro hhead
    rw [stripZeros] at hhead
    rw [hhead] at hfirst
    simp at hfirst

end

theorem compare_byte (c d : UInt8) : compare c d = compare c.toNat d.toNat := by
  change compareOfLessAndEq c d = compareOfLessAndEq c.toNat d.toNat
  unfold compareOfLessAndEq
  simp only [UInt8.lt_iff_toNat_lt, UInt8.toNat_inj]

/-- Digits of one length compare like their numbers. -/
theorem compare_digits {a b : Text} (ha : ∀ c ∈ a, isDigit c = true)
    (hb : ∀ c ∈ b, isDigit c = true) (hlen : a.length = b.length) :
    compare a b = compare (digitsValue a) (digitsValue b) := by
  induction a generalizing b with
  | nil =>
    rw [List.eq_nil_of_length_eq_zero hlen.symm]
    rfl
  | cons c a ih =>
    obtain ⟨d, b, rfl⟩ := List.exists_cons_of_length_eq_add_one hlen.symm
    obtain ⟨hc, ha⟩ := List.forall_mem_cons.mp ha
    obtain ⟨hd, hb⟩ := List.forall_mem_cons.mp hb
    have hlen : a.length = b.length := Nat.succ_injective hlen
    have hvalue : ∀ (c : UInt8) (t : Text),
        digitsValue (c::t) = (c.toNat-48)*10^t.length+digitsValue t := by
      intro c t
      rw [← List.singleton_append, digitsValue_join]
      simp [digitsValue]
    have hlta := digitsValue_lt ha
    have hltb := digitsValue_lt hb
    have hcd := digit_lt hc
    have hdd := digit_lt hd
    have hrest : compare a b = _ := ih ha hb hlen
    have hcons : compare (c::a) (d::b) = (compare c d).then (compare a b) :=
      List.compareLex_cons_cons
    rw [hcons, hrest, compare_byte, hvalue, hvalue, hlen]
    rw [hlen] at hlta
    generalize digitsValue a = x at hlta
    generalize digitsValue b = y at hltb
    generalize 10^b.length = p at hlta hltb
    rcases lt_trichotomy c.toNat d.toNat with hlt | heq | hgt
    · have hstep : (c.toNat-48+1)*p ≤ (d.toNat-48)*p := Nat.mul_le_mul_right p (by omega)
      rw [Nat.add_mul] at hstep
      have hsum : (c.toNat-48)*p+x < (d.toNat-48)*p+y := by omega
      rw [compare_lt_iff_lt.mpr hlt, compare_lt_iff_lt.mpr hsum]
      rfl
    · rw [heq, compare_eq_iff_eq.mpr rfl, Ordering.then]
      rcases lt_trichotomy x y with hxy | hxy | hxy
      · rw [compare_lt_iff_lt.mpr hxy, compare_lt_iff_lt.mpr (by omega)]
      · rw [hxy]
        simp
      · rw [compare_gt_iff_gt.mpr hxy, compare_gt_iff_gt.mpr (by omega)]
    · have hstep : (d.toNat-48+1)*p ≤ (c.toNat-48)*p := Nat.mul_le_mul_right p (by omega)
      rw [Nat.add_mul] at hstep
      have hsum : (d.toNat-48)*p+y < (c.toNat-48)*p+x := by omega
      rw [compare_gt_iff_gt.mpr hgt, compare_gt_iff_gt.mpr hsum]
      rfl

section
variable (m n : Nat)

theorem magOfU64_digit : ∀ c ∈ magOfU64 n, isDigit c = true := by
  unfold magOfU64
  split_ifs
  · simp
  · exact (digitsValue_decimal n).2.1

@[simp] theorem digitsValue_magOfU64 : digitsValue (magOfU64 n) = n := by
  unfold magOfU64
  split_ifs with hn
  · rw [hn]
    rfl
  · exact (digitsValue_decimal n).1

theorem magOfU64_head : (magOfU64 n).head? ≠ some 48 := by
  unfold magOfU64
  split_ifs with hn
  · simp
  · exact decimal_head_ne hn

@[simp] theorem magOfU64_zero : magOfU64 0 = [] := rfl

theorem magOfU64_isEmpty : (magOfU64 n).isEmpty = decide (n = 0) := by
  unfold magOfU64
  split_ifs with hn
  · rw [hn]
    rfl
  · rw [decide_eq_false hn, List.isEmpty_eq_false_iff]
    exact decimal_ne_nil n

theorem magOfU64_inj {m n : Nat} : magOfU64 m = magOfU64 n ↔ m = n := by
  refine ⟨fun h => ?_, fun h => congrArg _ h⟩
  rw [← digitsValue_magOfU64 m, h, digitsValue_magOfU64]

theorem addMag_mag : addMag (magOfU64 m) (magOfU64 n) = magOfU64 (m+n) := by
  have hlt := DigitLoops.add_lt (b := 10) (by decide) 0 (lowDigits (magOfU64 m))
    (lowDigits (magOfU64 n))
  rw [addMag, stripZeros_eq (ofLowDigits_digit hlt), digitsValue_ofLowDigits hlt,
    DigitLoops.ofDigits_add, ← digitsValue_eq, ← digitsValue_eq, digitsValue_magOfU64,
    digitsValue_magOfU64, Nat.add_zero]

theorem subMag_mag {m n : Nat} (h : n ≤ m) :
    subMag (magOfU64 m) (magOfU64 n) = magOfU64 (m-n) := by
  have hm := lowDigits_lt (magOfU64_digit m)
  have hn := lowDigits_lt (magOfU64_digit n)
  have hlt : ∀ d ∈ DigitLoops.sub 10 0 (lowDigits (magOfU64 m)) (lowDigits (magOfU64 n)), d < 10 :=
    DigitLoops.sub_lt (by decide) (by decide) hm hn
  have hsum : Nat.ofDigits 10 (DigitLoops.sub 10 0 (lowDigits (magOfU64 m)) (lowDigits (magOfU64 n)))+
      Nat.ofDigits 10 (lowDigits (magOfU64 n))+0 = Nat.ofDigits 10 (lowDigits (magOfU64 m)) :=
    DigitLoops.ofDigits_sub (by decide) (by decide) hm hn
      (by rwa [← digitsValue_eq, ← digitsValue_eq, digitsValue_magOfU64, digitsValue_magOfU64])
  rw [← digitsValue_eq, ← digitsValue_eq, digitsValue_magOfU64, digitsValue_magOfU64] at hsum
  rw [subMag, stripZeros_eq (ofLowDigits_digit hlt), digitsValue_ofLowDigits hlt]
  congr 1
  omega

theorem mulMagSmall_mag (factor : Nat) :
    mulMagSmall (magOfU64 n) factor = magOfU64 (n*factor) := by
  rw [mulMagSmall, magOfU64_isEmpty]
  by_cases hzero : n = 0 ∨ factor = 0
  · rw [if_pos (by simpa using hzero), Nat.mul_eq_zero.mpr hzero]
    rfl
  · rw [if_neg (by simpa using hzero)]
    rw [not_or] at hzero
    have hlt := DigitLoops.mul_lt (b := 10) (by decide) factor 0 (lowDigits (magOfU64 n))
    have hvalue : digitsValue (ofLowDigits (DigitLoops.mul 10 factor 0 (lowDigits (magOfU64 n)))) =
        n*factor := by
      rw [digitsValue_ofLowDigits hlt, DigitLoops.ofDigits_mul, ← digitsValue_eq,
        digitsValue_magOfU64, Nat.add_zero]
    rw [← hvalue]
    apply eq_magOfU64 (ofLowDigits_digit hlt)
    have hne : lowDigits (magOfU64 n) ≠ [] := by
      intro hnil
      have hvalue := digitsValue_eq (magOfU64 n)
      rw [hnil, digitsValue_magOfU64] at hvalue
      exact hzero.1 hvalue
    have hlast : (lowDigits (magOfU64 n)).getLast? ≠ some 0 := by
      rw [lowDigits, List.getLast?_reverse, List.head?_map, Ne, Option.map_eq_some_iff]
      rintro ⟨c, hc, hdigit⟩
      have hlow := (digit_lt (magOfU64_digit n c (List.mem_of_mem_head? hc))).2
      have h48 : c.toNat = (48 : UInt8).toNat := Nat.le_antisymm (Nat.le_of_sub_eq_zero hdigit) hlow
      rw [UInt8.toNat_inj.mp h48] at hc
      exact magOfU64_head n hc
    have htop := DigitLoops.mul_getLast (b := 10) (by decide) (Nat.pos_of_ne_zero hzero.2) 0 hne hlast
    rw [ofLowDigits, List.head?_reverse, List.getLast?_map, Ne, Option.map_eq_some_iff]
    rintro ⟨d, hd, hchar⟩
    have hd0 : d = 0 := by
      have hspec := (digitChar_spec d (hlt d (List.mem_of_getLast? hd))).2
      rw [hchar] at hspec
      exact hspec.symm
    rw [hd0] at hd
    exact htop hd

theorem magOfU64_length_le {m n : Nat} (h : m ≤ n) : (magOfU64 m).length ≤ (magOfU64 n).length := by
  rcases Nat.eq_zero_or_pos m with rfl | hpos
  · exact Nat.zero_le _
  · have hlow := le_digitsValue (magOfU64_digit m)
      (by rw [magOfU64, if_neg (Nat.ne_of_gt hpos)]; exact decimal_ne_nil m) (magOfU64_head m)
    have hhigh := digitsValue_lt (magOfU64_digit n)
    rw [digitsValue_magOfU64] at hlow hhigh
    have hpow := (Nat.pow_lt_pow_iff_right (a := 10) (by decide)).mp
      (Nat.lt_of_le_of_lt hlow (Nat.lt_of_le_of_lt h hhigh))
    omega

theorem compareMag_mag : compareMag (magOfU64 m) (magOfU64 n) = compare m n := by
  unfold compareMag
  split_ifs with hlen hlt
  · have hmn : m < n := by
      by_contra hle
      have hlength := magOfU64_length_le (Nat.le_of_not_lt hle)
      omega
    rw [compare_lt_iff_lt.mpr hmn]
  · have hmn : n < m := by
      by_contra hle
      have hlength := magOfU64_length_le (Nat.le_of_not_lt hle)
      omega
    rw [compare_gt_iff_gt.mpr hmn]
  · rw [compare_digits (magOfU64_digit m) (magOfU64_digit n) (not_not.mp hlen),
      digitsValue_magOfU64, digitsValue_magOfU64]

end

section
variable (m n : Int)

theorem bigOf_inj {m n : Int} : bigOf m = bigOf n ↔ m = n := by
  refine ⟨fun h => ?_, fun h => congrArg _ h⟩
  have hsign : decide (m < 0) = decide (n < 0) := congrArg BigInt.negative h
  have hmag : m.natAbs = n.natAbs := magOfU64_inj.mp (congrArg BigInt.mag h)
  rw [decide_eq_decide] at hsign
  omega

theorem eq_bigOf {negative : Bool} {k : Nat} {n : Int} (hsign : negative = decide (n < 0))
    (habs : k = n.natAbs) : ⟨negative,magOfU64 k⟩ = bigOf n := by
  rw [hsign, habs, bigOf]

theorem bigAdd_bigOf : bigAdd (bigOf m) (bigOf n) = bigOf (m+n) := by
  have hcases := compareMag_mag m.natAbs n.natAbs
  unfold bigAdd
  rw [bigOf, bigOf]
  dsimp only
  split_ifs with hsign
  · rw [decide_eq_decide] at hsign
    rw [addMag_mag]
    exact eq_bigOf (decide_eq_decide.mpr (by omega)) (by omega)
  · rw [decide_eq_decide] at hsign
    rw [hcases]
    rcases lt_trichotomy m.natAbs n.natAbs with hlt | heq | hgt
    · rw [compare_lt_iff_lt.mpr hlt]
      dsimp only
      rw [subMag_mag hlt.le]
      exact eq_bigOf (decide_eq_decide.mpr (by omega)) (by omega)
    · have hsum : m+n = 0 := by omega
      rw [compare_eq_iff_eq.mpr heq, hsum]
      rfl
    · rw [compare_gt_iff_gt.mpr hgt]
      dsimp only
      rw [subMag_mag hgt.le]
      exact eq_bigOf (decide_eq_decide.mpr (by omega)) (by omega)

theorem bigAbsDiff_bigOf : bigAbsDiff (bigOf m) (bigOf n) = bigOf |m-n| := by
  have hneg : ({ bigOf n with negative := !(bigOf n).negative && !(bigOf n).mag.isEmpty } : BigInt) =
      bigOf (-n) := by
    unfold bigOf
    dsimp only
    rw [magOfU64_isEmpty, Int.natAbs_neg]
    congr 1
    rw [Bool.eq_iff_iff]
    simp only [Bool.and_eq_true, Bool.not_eq_true', decide_eq_false_iff_not, decide_eq_true_iff]
    omega
  rw [bigAbsDiff, hneg, bigAdd_bigOf, ← Int.sub_eq_add_neg]
  unfold bigOf
  dsimp only
  rw [Int.natAbs_abs, decide_eq_false (not_lt.mpr (abs_nonneg (m-n)))]

theorem bigOf_mag_isEmpty : (bigOf n).mag.isEmpty = decide (n = 0) := by
  rw [bigOf, magOfU64_isEmpty, decide_eq_decide]
  exact Int.natAbs_eq_zero

theorem mulMagSmall_iterate (n factor k : Nat) :
    (fun p => mulMagSmall p factor)^[k] (magOfU64 n) = magOfU64 (n*factor^k) := by
  induction k with
  | zero => rw [Function.iterate_zero_apply, pow_zero, Nat.mul_one]
  | succ k ih => rw [Function.iterate_succ_apply', ih, mulMagSmall_mag, pow_succ, Nat.mul_assoc]

end

end DSigMatcher.Preflight
