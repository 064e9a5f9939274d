import DSigMatcher.Json.ReprFloat
import Mathlib

namespace DSigMatcher.Json
open DSigMatcher.Base DSigMatcher.Framework JsonValue
open Binary64 (grid Rounds)

/-- The number of digits behind a point. -/
def pointRat (digits : Text) (decPt : Int) : ℚ := decimalRat digits (decPt-digits.length)

/-- Digits that start and end with no zero. -/
structure Significant (digits : Text) : Prop where
  digit : ∀ c ∈ digits, isDigit c = true
  nonempty : digits ≠ []
  head : digits.head? ≠ some 48
  last : digits.getLast? ≠ some 48

/-- Zeros at the end are cut off. -/
theorem cut_spec {t : Text} (ht : ∀ c ∈ t, isDigit c = true) (hne : t ≠ [])
    (hhead : t.head? ≠ some 48) (decPt : Int) :
    Significant (t.rdropWhile (· = 48)) ∧ pointRat (t.rdropWhile (· = 48)) decPt = pointRat t decPt := by
  have hsplit : t.rdropWhile (· = 48) ++ t.rtakeWhile (· = 48) = t :=
    List.rdropWhile_append_rtakeWhile
  have hzeros : digitsValue (t.rtakeWhile (· = 48)) = 0 := by
    apply digitsValue_zeros
    intro c hc
    exact of_decide_eq_true (List.mem_rtakeWhile_imp (p := fun c : UInt8 => decide (c = 48)) hc)
  have hvalue : digitsValue t =
      digitsValue (t.rdropWhile (· = 48))*10^(t.rtakeWhile (· = 48)).length := by
    conv_lhs => rw [← hsplit, digitsValue_join, hzeros, Nat.add_zero]
  have hlength : (t.rdropWhile (· = 48)).length+(t.rtakeWhile (· = 48)).length = t.length := by
    rw [← List.length_append, hsplit]
  have hpos : digitsValue t ≠ 0 :=
    Nat.ne_of_gt (Nat.lt_of_lt_of_le (pow_pos (by norm_num) _) (le_digitsValue ht hne hhead))
  have hne' : t.rdropWhile (· = 48) ≠ [] := by
    intro hnil
    rw [hnil] at hvalue
    exact hpos (hvalue.trans (Nat.zero_mul _))
  refine ⟨⟨fun c hc => ht c ((List.rdropWhile_prefix _ _).subset hc), hne', ?_, ?_⟩, ?_⟩
  · rw [← hsplit, List.head?_append_of_ne_nil _ hne'] at hhead
    exact hhead
  · rw [List.getLast?_eq_some_getLast hne', Ne, Option.some.injEq]
    exact fun h => List.rdropWhile_last_not _ t hne' (decide_eq_true h)
  · have hexp : decPt-(t.rdropWhile (· = 48)).length =
        ((t.rtakeWhile (· = 48)).length : Int)+(decPt-t.length) := by omega
    rw [pointRat, pointRat, decimalRat, decimalRat, hvalue, hexp, zpow_add₀ (by norm_num),
      zpow_natCast]
    push_cast
    ring

theorem head_ne_zero {t : Text} (ht : ∀ c ∈ t, isDigit c = true)
    (hle : 10^(t.length-1) ≤ digitsValue t) : t.head? ≠ some 48 := by
  intro hhead
  cases t with
  | nil => cases hhead
  | cons c t =>
    obtain rfl : c = 48 := Option.some.inj hhead
    have hlt := digitsValue_lt fun d hd => ht d (List.mem_cons_of_mem _ hd)
    have hvalue : digitsValue (48::t) = digitsValue t := by
      rw [← List.singleton_append, digitsValue_join]
      have hzero : digitsValue [48] = 0 := rfl
      rw [hzero, Nat.zero_mul, Nat.zero_add]
    rw [hvalue, List.length_cons, Nat.add_sub_cancel] at hle
    omega

theorem digit_succ : ∀ c : UInt8, isDigit c = true → c ≠ 57 →
    (c+1).toNat = c.toNat+1 ∧ isDigit (c+1) = true := by decide +kernel

/-- The loop adds one to the number that the digits are. -/
theorem incrementLoop_spec {t : Text} (ht : ∀ c ∈ t, isDigit c = true) :
    (∀ c ∈ (incrementLoop t).1, isDigit c = true) ∧ (incrementLoop t).1.length = t.length ∧
      digitsValue (incrementLoop t).1+(if (incrementLoop t).2 then 10^t.length else 0) =
        digitsValue t+1 := by
  induction t with
  | nil => exact ⟨by simp [incrementLoop], rfl, rfl⟩
  | cons c t ih =>
    obtain ⟨hdigit, hlength, hvalue⟩ := ih fun d hd => ht d (List.mem_cons_of_mem _ hd)
    have hc := ht c List.mem_cons_self
    have hcons (d : UInt8) (u : Text) (hu : u.length = t.length) :
        digitsValue (d::u) = (d.toNat-48)*10^t.length+digitsValue u := by
      rw [← List.singleton_append, digitsValue_join, hu]
      simp [digitsValue]
    have hpow : 10^(c::t).length = 10^t.length*10 := pow_succ _ _
    have hall (d : UInt8) (hd : isDigit d = true) :
        ∀ e ∈ d::(incrementLoop t).1, isDigit e = true := by
      intro e he
      rcases List.mem_cons.mp he with rfl | he
      · exact hd
      · exact hdigit e he
    rw [incrementLoop, hcons c t rfl]
    by_cases hcarry : (incrementLoop t).2 = true
    · rw [if_pos hcarry] at hvalue
      rw [if_pos hcarry]
      by_cases hnine : c = 57
      · have h48 : (48 : UInt8).toNat-48 = 0 := rfl
        have h57 : (57 : UInt8).toNat-48 = 9 := rfl
        rw [if_pos hnine]
        refine ⟨hall 48 rfl, congrArg Nat.succ hlength, ?_⟩
        dsimp only
        rw [if_pos rfl, hcons 48 _ hlength, hpow, h48, hnine, h57]
        omega
      · obtain ⟨hnat, hnext⟩ := digit_succ c hc hnine
        have hle := (digit_lt hc).2
        rw [if_neg hnine]
        refine ⟨hall _ hnext, congrArg Nat.succ hlength, ?_⟩
        dsimp only
        rw [if_neg Bool.false_ne_true, hcons _ _ hlength, hnat, Nat.succ_sub hle, Nat.succ_mul]
        omega
    · rw [if_neg hcarry] at hvalue
      rw [if_neg hcarry]
      refine ⟨hall c hc, congrArg Nat.succ hlength, ?_⟩
      dsimp only
      rw [if_neg Bool.false_ne_true, hcons _ _ hlength]
      omega

/-- The digits above others: as many digits, for the next number in units of the last one. -/
theorem upDigits_spec {down : Text} (hdown : ∀ c ∈ down, isDigit c = true) (hne : down ≠ [])
    (hhead : down.head? ≠ some 48) (decPt : Int) :
    (∀ c ∈ (upDigits down decPt).1, isDigit c = true) ∧
      (upDigits down decPt).1.length = down.length ∧
      (upDigits down decPt).1.head? ≠ some 48 ∧
      pointRat (upDigits down decPt).1 (upDigits down decPt).2 =
        (digitsValue down+1 : Nat)*10^(decPt-down.length) := by
  obtain ⟨hdigit, hlength, hvalue⟩ := incrementLoop_spec hdown
  have hlow := le_digitsValue hdown hne hhead
  have hpos := List.length_pos_iff_ne_nil.mpr hne
  have hten : (10 : ℚ) ≠ 0 := by norm_num
  unfold upDigits incrementDigits
  dsimp only
  cases hcarry : (incrementLoop down).2 with
  | false =>
    rw [hcarry, if_neg Bool.false_ne_true, Nat.add_zero] at hvalue
    rw [if_neg Bool.false_ne_true, if_neg Bool.false_ne_true]
    have hle : 10^((incrementLoop down).1.length-1) ≤ digitsValue (incrementLoop down).1 := by
      rw [hlength]
      omega
    refine ⟨hdigit, hlength, head_ne_zero hdigit hle, ?_⟩
    rw [pointRat, decimalRat, hvalue, hlength]
  | true =>
    rw [hcarry, if_pos rfl] at hvalue
    rw [if_pos rfl, if_pos rfl]
    have hlt := digitsValue_lt hdown
    have hall : ∀ c ∈ 49::(incrementLoop down).1, isDigit c = true := by
      intro c hc
      rcases List.mem_cons.mp hc with rfl | hc
      · rfl
      · exact hdigit c hc
    have hdropped : ∀ c ∈ (49::(incrementLoop down).1).dropLast, isDigit c = true := fun c hc =>
      hall c ((List.dropLast_prefix _).subset hc)
    have hlength' : (49::(incrementLoop down).1).dropLast.length = down.length := by
      rw [List.length_dropLast, List.length_cons, hlength, Nat.add_sub_cancel]
    -- a one and only zeros behind it
    have hwhole : digitsValue (49::(incrementLoop down).1) = 10^down.length := by
      have hone : digitsValue [49] = 1 := rfl
      rw [← List.singleton_append, digitsValue_join, hlength, hone]
      omega
    have hunit : digitsValue (49::(incrementLoop down).1).dropLast = 10^(down.length-1) := by
      have hsplit := List.dropLast_append_getLast (List.cons_ne_nil 49 (incrementLoop down).1)
      have hlast := digit_lt (hall _ (List.getLast_mem (List.cons_ne_nil 49 (incrementLoop down).1)))
      have hpow : 10^down.length = 10^(down.length-1)*10 := by
        rw [← pow_succ, Nat.sub_add_cancel hpos]
      rw [← hsplit, digitsValue_append, hpow] at hwhole
      omega
    refine ⟨hdropped, hlength', head_ne_zero hdropped (by rw [hlength', hunit]), ?_⟩
    have hnext : digitsValue down+1 = 10^down.length := by omega
    have hexp : decPt+1-(down.length : Int) = -((down.length-1 : Nat) : Int)+decPt := by omega
    have hexp' : decPt-(down.length : Int) = -(down.length : Int)+decPt := by omega
    have hpow (a : Nat) : (10 : ℚ)^a ≠ 0 := pow_ne_zero a hten
    rw [pointRat, decimalRat, hunit, hlength', hnext, hexp, hexp', zpow_add₀ hten, zpow_add₀ hten,
      zpow_neg, zpow_neg, zpow_natCast, zpow_natCast, Nat.cast_pow, Nat.cast_pow, Nat.cast_ofNat,
      mul_inv_cancel_left₀ (hpow _), mul_inv_cancel_left₀ (hpow _)]

section
variable {digits : Text} {decPt : Int} {p : Nat}

variable (decPt) in
/-- Digits cut off lie below the exact ones, by less than a unit of the last one. -/
theorem cut_between (h : Significant digits) (hp : 0 < p) (hlong : p < digits.length) :
    (digitsValue (digits.take p) : ℚ)*10^(decPt-p) < pointRat digits decPt ∧
      pointRat digits decPt < (digitsValue (digits.take p)+1 : Nat)*10^(decPt-p) ∧
      10^(p-1) ≤ digitsValue (digits.take p) := by
  have hten : (10 : ℚ) ≠ 0 := by norm_num
  have hlength : (digits.take p).length = p := by
    rw [List.length_take, Nat.min_eq_left (Nat.le_of_lt hlong)]
  have htake : ∀ c ∈ digits.take p, isDigit c = true := fun c hc =>
    h.digit c (List.take_subset _ _ hc)
  have hdrop : ∀ c ∈ digits.drop p, isDigit c = true := fun c hc =>
    h.digit c (List.drop_subset _ _ hc)
  have hrest : (digits.drop p).length = digits.length-p := List.length_drop
  have hne : digits.drop p ≠ [] := List.length_pos_iff_ne_nil.mp (by omega)
  have hpos : 0 < digitsValue (digits.drop p) := by
    apply digitsValue_pos hdrop hne
    rw [List.getLast?_drop, if_neg (by omega)]
    exact h.last
  have hlt := digitsValue_lt hdrop
  have hvalue := digitsValue_join (digits.take p) (digits.drop p)
  rw [List.take_append_drop, hrest] at hvalue
  rw [hrest] at hlt
  have hfirst := le_digitsValue htake (List.length_pos_iff_ne_nil.mp (by omega))
    (by rw [List.head?_take, if_neg (Nat.ne_of_gt hp)]; exact h.head)
  rw [hlength] at hfirst
  have hexp : decPt-p = ((digits.length-p : Nat) : Int)+(decPt-digits.length) := by omega
  have hunit : (0 : ℚ) < 10^(decPt-digits.length) := zpow_pos (by norm_num) _
  rw [pointRat, decimalRat, hvalue, hexp, zpow_add₀ hten, zpow_natCast, ← mul_assoc, ← mul_assoc]
  refine ⟨mul_lt_mul_of_pos_right ?_ hunit, mul_lt_mul_of_pos_right ?_ hunit, hfirst⟩
  · have hcast : digitsValue (digits.take p)*10^(digits.length-p) <
        digitsValue (digits.take p)*10^(digits.length-p)+digitsValue (digits.drop p) := by omega
    exact_mod_cast hcast
  · have hcast : digitsValue (digits.take p)*10^(digits.length-p)+digitsValue (digits.drop p) <
        (digitsValue (digits.take p)+1)*10^(digits.length-p) := by
      rw [Nat.succ_mul]
      omega
    exact_mod_cast hcast

variable (decPt) in
/-- A decimal of so many digits lies on neither side between two neighbours of that many. -/
theorem outside_neighbours {t : Text} (exp10 : Int) {d : Nat} (ht : ∀ c ∈ t, isDigit c = true)
    (hlen : t.length ≤ p) (hp : 0 < p) (hd : 10^(p-1) ≤ d) :
    decimalRat t exp10 ≤ d*10^(decPt-p) ∨ (d+1 : Nat)*10^(decPt-p) ≤ decimalRat t exp10 := by
  have hten : (10 : ℚ) ≠ 0 := by norm_num
  have hunit : (0 : ℚ) < 10^(decPt-p) := zpow_pos (by norm_num) _
  rcases le_or_gt (decPt-p) exp10 with hge | hlt
  · obtain ⟨k, hk⟩ : ∃ k : Nat, exp10 = k+(decPt-p) := ⟨(exp10-(decPt-p)).toNat, by omega⟩
    rw [decimalRat, hk, zpow_add₀ hten, zpow_natCast, ← mul_assoc]
    rcases Nat.lt_or_ge d (digitsValue t*10^k) with hless | hmore
    · right
      apply mul_le_mul_of_nonneg_right _ (le_of_lt hunit)
      exact_mod_cast hless
    · left
      apply mul_le_mul_of_nonneg_right _ (le_of_lt hunit)
      exact_mod_cast hmore
  · left
    have hsmall : digitsValue t ≤ 10^p :=
      Nat.le_of_lt (Nat.lt_of_lt_of_le (digitsValue_lt ht) (Nat.pow_le_pow_right (by norm_num) hlen))
    calc decimalRat t exp10 ≤ 10^p*10^(decPt-p-1) := by
          rw [decimalRat]
          have hcast : (digitsValue t : ℚ) ≤ 10^p := by exact_mod_cast hsmall
          exact mul_le_mul hcast (zpow_le_zpow_right₀ (by norm_num) (by omega))
            (zpow_nonneg (by norm_num) _) (pow_nonneg (by norm_num) _)
      _ = 10^(p-1)*10^(decPt-p) := by
          have hpow : (10 : ℚ)^p = 10^(p-1)*10 := by rw [← pow_succ, Nat.sub_add_cancel hp]
          rw [hpow, sub_eq_add_neg (decPt-p), add_comm (decPt-p), zpow_add₀ hten, mul_assoc]
          congr 1
          rw [← mul_assoc, zpow_neg_one, mul_inv_cancel₀ hten, one_mul]
      _ ≤ d*10^(decPt-p) := by
          apply mul_le_mul_of_nonneg_right _ (le_of_lt hunit)
          exact_mod_cast hd

end

/-- A positive finite double. -/
structure Positive (v : Binary64) : Prop where
  sign : v.negative = false
  finite : v.Finite
  nonzero : v.magnitude ≠ 0

theorem Positive.rounds {v : Binary64} (h : Positive v) : Rounds false (grid v.magnitude) v := by
  have hself := Binary64.Rounds.self h.finite
  rwa [h.sign] at hself

theorem readsAs_iff {v : Binary64} (h : Positive v) {digits : Text}
    (hdigits : ∀ c ∈ digits, isDigit c = true) (decPt : Int) :
    readsAs v digits decPt = true ↔ Rounds false (pointRat digits decPt) v := by
  have hround := BigUInt.decimalToDouble_rounds false (decPt-digits.length) hdigits
  have hnan := h.finite.not_special.1
  unfold readsAs pointRat
  generalize BigUInt.decimalToDouble false digits (decPt-digits.length) = y at hround ⊢
  constructor
  · intro heq
    have hkey : y.key = v.key := by
      simp only [Binary64.eq, Bool.and_eq_true, beq_iff_eq] at heq
      exact heq.2
    have hsame : y = v := by
      obtain ⟨m, -, rfl⟩ := hround
      refine Binary64.ext h.sign.symm (Int.ofNat_inj.mp ?_)
      unfold Binary64.key at hkey
      rw [h.sign] at hkey
      exact hkey
    rwa [hsame] at hround
  · intro hv
    rw [hround.unique hv, Binary64.eq_iff v v hnan hnan]

/-- No decimal of at most so many digits is read as the double. -/
def NoDecimal (v : Binary64) (p : Nat) : Prop :=
  ∀ (t : Text) (exp10 : Int), (∀ c ∈ t, isDigit c = true) → t.length ≤ p →
    ¬ Rounds false (decimalRat t exp10) v

theorem noDecimal_zero {v : Binary64} (h : Positive v) : NoDecimal v 0 := by
  intro t exp10 _ hlen hround
  have hzero : decimalRat t exp10 = 0 := by
    rw [List.length_eq_zero_iff.mp (Nat.le_zero.mp hlen)]
    simp [decimalRat, digitsValue]
  obtain ⟨m, hm, hv⟩ := hround
  rw [hzero, ← Binary64.grid_zero] at hm
  have hm0 := hm.unique Binary64.grid_strictMono (.self Binary64.grid_strictMono 0)
  apply h.nonzero
  rw [hv, hm0]
  rfl

section
variable {v : Binary64} {digits : Text} {decPt : Int} {p : Nat}

/-- The digits of a double. -/
structure Exact (v : Binary64) (digits : Text) (decPt : Int) : Prop where
  significant : Significant digits
  value : pointRat digits decPt = grid v.magnitude

/-- Where neither neighbour of a length is read as the double, no decimal of that length is. -/
theorem noDecimal_of_neighbours (h : Positive v) (hexact : Exact v digits decPt) (hp : 0 < p)
    (hlong : p < digits.length) (hdown : readsAs v (digits.take p) decPt = false)
    (hup : readsAs v (upDigits (digits.take p) decPt).1 (upDigits (digits.take p) decPt).2 = false) :
    NoDecimal v p := by
  intro t exp10 ht hlen hround
  obtain ⟨hlow, hhigh, hfirst⟩ := cut_between decPt hexact.significant hp hlong
  have hlength : (digits.take p).length = p := by
    rw [List.length_take, Nat.min_eq_left (Nat.le_of_lt hlong)]
  have htake : ∀ c ∈ digits.take p, isDigit c = true := fun c hc =>
    hexact.significant.digit c (List.take_subset _ _ hc)
  have hne : digits.take p ≠ [] := List.length_pos_iff_ne_nil.mp (by omega)
  have hhead : (digits.take p).head? ≠ some 48 := by
    rw [List.head?_take, if_neg (Nat.ne_of_gt hp)]
    exact hexact.significant.head
  obtain ⟨hupdigit, -, -, hupvalue⟩ := upDigits_spec htake hne hhead decPt
  rw [hlength] at hupvalue
  rw [hexact.value] at hlow hhigh
  have hdownvalue : pointRat (digits.take p) decPt =
      digitsValue (digits.take p)*10^(decPt-p) := by rw [pointRat, decimalRat, hlength]
  rcases outside_neighbours decPt exp10 ht hlen hp hfirst with hless | hmore
  · have hround' := BigUInt.decimalToDouble_rounds false (decPt-(digits.take p).length) htake
    have hsame := hround.between h.rounds hround' (by rw [← pointRat, hdownvalue]; exact hless)
      (by rw [← pointRat, hdownvalue]; exact le_of_lt hlow)
    rw [hsame, ← pointRat] at hround'
    rw [(readsAs_iff h htake decPt).mpr hround'] at hdown
    cases hdown
  · have hround' := BigUInt.decimalToDouble_rounds false
      ((upDigits (digits.take p) decPt).2-(upDigits (digits.take p) decPt).1.length) hupdigit
    have hsame := h.rounds.between hround hround' (by rw [← pointRat, hupvalue]; exact le_of_lt hhigh)
      (by rw [← pointRat, hupvalue]; exact hmore)
    rw [hsame, ← pointRat] at hround'
    rw [(readsAs_iff h hupdigit _).mpr hround'] at hup
    cases hup

theorem near_rounds (h : Positive v) {q : ℚ} (hq : 2^54*|q-grid v.magnitude| < grid v.magnitude) :
    Rounds false q v := by
  refine ⟨v.magnitude, Binary64.roundsTo_near hq, ?_⟩
  exact Binary64.ext h.sign (Nat.min_eq_left (Nat.le_of_lt h.finite)).symm

/-- Seventeen digits always suffice. -/
theorem seventeen_digits (h : Positive v) (hexact : Exact v digits decPt) : ¬ NoDecimal v 17 := by
  intro hno
  rcases Nat.lt_or_ge 17 digits.length with hlong | hshort
  · obtain ⟨hlow, hhigh, hfirst⟩ := cut_between decPt hexact.significant (by norm_num)
      hlong
    have hlength : (digits.take 17).length = 17 := by
      rw [List.length_take, Nat.min_eq_left (Nat.le_of_lt hlong)]
    have htake : ∀ c ∈ digits.take 17, isDigit c = true := fun c hc =>
      hexact.significant.digit c (List.take_subset _ _ hc)
    have hne : digits.take 17 ≠ [] := List.length_pos_iff_ne_nil.mp (by omega)
    have hhead : (digits.take 17).head? ≠ some 48 := by
      rw [List.head?_take, if_neg (by norm_num)]
      exact hexact.significant.head
    obtain ⟨hupdigit, huplength, -, hupvalue⟩ := upDigits_spec htake hne hhead decPt
    have hdownvalue : pointRat (digits.take 17) decPt =
        digitsValue (digits.take 17)*10^(decPt-(17 : Nat)) := by rw [pointRat, decimalRat, hlength]
    rw [hlength] at hupvalue huplength
    rw [hexact.value] at hlow hhigh
    have hdownno := hno _ (decPt-(digits.take 17).length) htake (Nat.le_of_eq hlength)
    have hupno := hno _ ((upDigits (digits.take 17) decPt).2-
      (upDigits (digits.take 17) decPt).1.length) hupdigit (Nat.le_of_eq huplength)
    rw [← pointRat] at hdownno hupno
    have hunit : (0 : ℚ) < 10^(decPt-(17 : Nat)) := zpow_pos (by norm_num) _
    generalize (10 : ℚ)^(decPt-(17 : Nat)) = s at hlow hhigh hupvalue hdownvalue hunit
    have hfirst' : (10 : ℚ)^16 ≤ digitsValue (digits.take 17) := by exact_mod_cast hfirst
    rw [Nat.cast_succ] at hhigh hupvalue
    -- the nearer one of the neighbours is near enough
    rcases le_total (2*grid v.magnitude) ((2*digitsValue (digits.take 17)+1)*s) with hnear | hnear
    · refine hdownno (near_rounds h ?_)
      rw [hdownvalue, abs_of_nonpos (by linarith)]
      nlinarith
    · refine hupno (near_rounds h ?_)
      rw [hupvalue, abs_of_nonneg (by linarith)]
      nlinarith
  · apply hno digits (decPt-digits.length) hexact.significant.digit hshort
    rw [← pointRat, hexact.value]
    exact h.rounds

/-- What is found is read as the double, and no decimal of fewer digits is. -/
structure Shortest (v : Binary64) (digits : Text) (decPt : Int) : Prop where
  significant : Significant digits
  rounds : Rounds false (pointRat digits decPt) v
  fewest : NoDecimal v (digits.length-1)

theorem NoDecimal.mono {p' : Nat} (h : NoDecimal v p) (hp : p' ≤ p) : NoDecimal v p' :=
  fun t exp10 ht hlen => h t exp10 ht (Nat.le_trans hlen hp)

theorem searchDigits_spec (h : Positive v) (hexact : Exact v digits decPt) (fuel : Nat) :
    ∀ p, fuel+p = 18 → 0 < p → NoDecimal v (p-1) →
      Shortest v (searchDigits v digits decPt fuel p).1 (searchDigits v digits decPt fuel p).2 := by
  induction fuel with
  | zero =>
    intro p hp _ hno
    obtain rfl : p = 18 := by omega
    exact absurd hno (seventeen_digits h hexact)
  | succ fuel ih =>
    intro p hp hpos hno
    rw [searchDigits]
    by_cases hshort : digits.length ≤ p
    · rw [if_pos hshort]
      refine ⟨hexact.significant, ?_, hno.mono (by show digits.length-1 ≤ p-1; omega)⟩
      rw [hexact.value]
      exact h.rounds
    · rw [if_neg hshort]
      have hlong : p < digits.length := Nat.lt_of_not_le hshort
      have hlength : (digits.take p).length = p := by
        rw [List.length_take, Nat.min_eq_left (Nat.le_of_lt hlong)]
      have htake : ∀ c ∈ digits.take p, isDigit c = true := fun c hc =>
        hexact.significant.digit c (List.take_subset _ _ hc)
      have hne : digits.take p ≠ [] := List.length_pos_iff_ne_nil.mp (by omega)
      have hhead : (digits.take p).head? ≠ some 48 := by
        rw [List.head?_take, if_neg (Nat.ne_of_gt hpos)]
        exact hexact.significant.head
      obtain ⟨hupdigit, huplength, huphead, -⟩ := upDigits_spec htake hne hhead decPt
      have hupne : (upDigits (digits.take p) decPt).1 ≠ [] :=
        List.length_pos_iff_ne_nil.mp (by omega)
      -- either neighbour, once it is read as the double
      have hfound (t : Text) (q : Int) (ht : ∀ c ∈ t, isDigit c = true) (htne : t ≠ [])
          (hthead : t.head? ≠ some 48) (htlen : t.length = p) (hreads : readsAs v t q = true) :
          Shortest v (t.rdropWhile (· = 48)) q := by
        obtain ⟨hsig, hvalue⟩ := cut_spec ht htne hthead q
        refine ⟨hsig, by rw [hvalue]; exact (readsAs_iff h ht q).mp hreads, hno.mono ?_⟩
        have hle := (List.rdropWhile_prefix (fun c : UInt8 => decide (c = 48)) t).length_le
        omega
      dsimp only
      cases hdown : readsAs v (digits.take p) decPt with
      | false =>
        cases hup : readsAs v (upDigits (digits.take p) decPt).1
            (upDigits (digits.take p) decPt).2 with
        | false =>
          exact ih (p+1) (by omega) (Nat.succ_pos p)
            (noDecimal_of_neighbours h hexact hpos hlong hdown hup)
        | true => exact hfound _ _ hupdigit hupne huphead (by omega) hup
      | true =>
        cases hup : readsAs v (upDigits (digits.take p) decPt).1
            (upDigits (digits.take p) decPt).2 with
        | false => exact hfound _ _ htake hne hhead hlength hdown
        | true =>
          cases nearerUp (digits.take p) (digits.drop p) with
          | false => exact hfound _ _ htake hne hhead hlength hdown
          | true => exact hfound _ _ hupdigit hupne huphead (by omega) hup

end

/-- Halving keeps the number; with as many rounds as bits the mantissa ends odd. -/
theorem oddPart_spec (fuel : Nat) : ∀ (mantissa : Nat) (exp2 : Int), mantissa ≠ 0 →
    ((oddPart fuel mantissa exp2).1 : ℚ)*2^(oddPart fuel mantissa exp2).2 = mantissa*2^exp2 ∧
      (oddPart fuel mantissa exp2).1 ≤ mantissa ∧ (oddPart fuel mantissa exp2).1 ≠ 0 ∧
      (mantissa < 2^fuel → (oddPart fuel mantissa exp2).1%2 = 1) := by
  induction fuel with
  | zero =>
    intro mantissa exp2 hne
    exact ⟨rfl, le_refl _, hne, fun hlt => absurd (Nat.lt_one_iff.mp hlt) hne⟩
  | succ fuel ih =>
    intro mantissa exp2 hne
    rw [oddPart]
    split_ifs with heven
    · obtain ⟨hvalue, hle, hpos, hodd⟩ := ih (mantissa/2) (exp2+1) (by omega)
      refine ⟨?_, by omega, hpos, fun hlt => hodd (by rw [pow_succ] at hlt; omega)⟩
      have hhalf : (mantissa : ℚ) = (mantissa/2 : Nat)*2 := by
        exact_mod_cast (show mantissa = mantissa/2*2 by omega)
      rw [hvalue, hhalf, zpow_add_one₀ two_ne_zero]
      ring
    · exact ⟨rfl, le_refl _, hne, fun _ => by omega⟩

theorem mantissa_bounds {m : Nat} (hm : m ≠ 0) :
    Binary64.mantissa m ≠ 0 ∧ Binary64.mantissa m < 2^53 := by
  refine ⟨?_, Binary64.mantissa_lt m⟩
  unfold Binary64.mantissa
  split_ifs <;> omega

/-- `frexp` keeps the number and fills up the mantissa. -/
theorem frexp53_spec {m : Nat} (hm : m ≠ 0) :
    ((frexp53 m).1 : ℚ)*2^(frexp53 m).2 = grid m ∧ 2^52 ≤ (frexp53 m).1 ∧ (frexp53 m).1 < 2^53 := by
  obtain ⟨hne, hlt⟩ := mantissa_bounds hm
  obtain ⟨hone, hlow⟩ := bitLength_le hne
  have hhigh := lt_bitLength (Binary64.mantissa m)
  have hbits : bitLength (Binary64.mantissa m) ≤ 53 := by
    by_contra hlong
    have hpow : 2^53 ≤ 2^(bitLength (Binary64.mantissa m)-1) :=
      Nat.pow_le_pow_right two_pos (by omega)
    omega
  unfold frexp53 grid
  dsimp only
  generalize Binary64.mantissa m = a at hne hlt hone hlow hhigh hbits
  generalize bitLength a = bits at hone hlow hhigh hbits
  refine ⟨?_, ?_, ?_⟩
  · rw [zpow_sub₀ two_ne_zero, zpow_natCast, Nat.cast_mul, Nat.cast_pow, Nat.cast_ofNat]
    have hpow : (2 : ℚ)^(53-bits) ≠ 0 := pow_ne_zero _ two_ne_zero
    field_simp
  · calc 2^52 = 2^(bits-1)*2^(53-bits) := by
          rw [← pow_add]
          congr 1
          omega
      _ ≤ a*2^(53-bits) := Nat.mul_le_mul_right _ hlow
  · calc a*2^(53-bits) < 2^bits*2^(53-bits) := Nat.mul_lt_mul_of_pos_right hhigh (Nat.two_pow_pos _)
      _ = 2^53 := by rw [← pow_add, Nat.add_sub_cancel' hbits]

theorem decimal_exact {v : Binary64} {n : Nat} {e : Int} (hn : n ≠ 0)
    (hvalue : (n : ℚ)*10^e = grid v.magnitude) :
    Exact v ((decimal n).rdropWhile (· = 48)) ((decimal n).length+e) := by
  obtain ⟨hdigits, hdigit, -⟩ := digitsValue_decimal n
  obtain ⟨hsig, hcut⟩ := cut_spec hdigit (decimal_ne_nil n) (decimal_head_ne hn)
    ((decimal n).length+e)
  refine ⟨hsig, ?_⟩
  rw [hcut, pointRat, decimalRat, hdigits, add_sub_cancel_left, hvalue]

/-- `ExactDecimal` has the digits of the double. -/
theorem exactDecimal_spec {v : Binary64} (h : Positive v) :
    Exact v (exactDecimal v.magnitude).1 (exactDecimal v.magnitude).2 := by
  obtain ⟨hnormal, hlow, hlt⟩ := frexp53_spec h.nonzero
  have hne : (frexp53 v.magnitude).1 ≠ 0 := by omega
  obtain ⟨hodd, hle, hpos, -⟩ := oddPart_spec 53 _ (frexp53 v.magnitude).2 hne
  rw [hnormal] at hodd
  unfold exactDecimal
  dsimp only
  generalize oddPart 53 (frexp53 v.magnitude).1 (frexp53 v.magnitude).2 = r at hodd hle hpos
  obtain ⟨n, e⟩ := r
  dsimp only at hodd hle hpos ⊢
  have hn : n < 2^64 := Nat.lt_trans (Nat.lt_of_le_of_lt hle hlt) (by norm_num)
  have hnat : (UInt64.ofNat n).toNat = n := by rw [UInt64.toNat_ofNat', Nat.mod_eq_of_lt hn]
  split_ifs with hnonneg
  · have hvalue : ((n*2^e.toNat : Nat) : ℚ)*10^(0 : Int) = grid v.magnitude := by
      have he : (e.toNat : Int) = e := Int.toNat_of_nonneg hnonneg
      rw [← hodd, zpow_zero, mul_one, Nat.cast_mul, Nat.cast_pow, Nat.cast_ofNat,
        ← zpow_natCast, he]
    have hexact := decimal_exact (Nat.mul_ne_zero hpos (pow_ne_zero _ two_ne_zero)) hvalue
    rw [add_zero] at hexact
    rw [BigUInt.toDecimal_eq, BigUInt.toNat_shiftLeft, BigUInt.toNat_ofUInt64, hnat]
    exact hexact
  · have hvalue : ((n*5^(-e).toNat : Nat) : ℚ)*10^e = grid v.magnitude := by
      have he : e = -((-e).toNat : Int) := by omega
      have hten : (10 : ℚ)^(-e).toNat = 2^(-e).toNat*5^(-e).toNat := by
        rw [← mul_pow]
        norm_num
      have htwo : (2 : ℚ)^(-e).toNat ≠ 0 := pow_ne_zero _ two_ne_zero
      have hfive : (5 : ℚ)^(-e).toNat ≠ 0 := pow_ne_zero _ (by norm_num)
      rw [← hodd, he, zpow_neg, zpow_neg, zpow_natCast, zpow_natCast, neg_neg, Int.toNat_natCast,
        hten]
      push_cast
      field_simp
    have hexact := decimal_exact (Nat.mul_ne_zero hpos (pow_ne_zero _ (by norm_num))) hvalue
    rw [BigUInt.toDecimal_eq, BigUInt.toNat_mulPow5, BigUInt.toNat_ofUInt64, hnat]
    exact hexact

theorem shortestDigits_spec {v : Binary64} (h : Positive v) :
    Shortest v (shortestDigits v).1 (shortestDigits v).2 :=
  searchDigits_spec h (exactDecimal_spec h) 17 1 rfl Nat.one_pos (noDecimal_zero h)

end DSigMatcher.Json
