import DSigMatcher.Json.ReprShortest
import Mathlib

namespace DSigMatcher.Json
open DSigMatcher.Base DSigMatcher.Framework JsonValue
open Binary64 (grid Rounds)

/-- Digits with zeros around them. -/
def surrounded (before : Nat) (digits : Text) (after : Nat) : Text :=
  List.replicate before 48 ++ (digits ++ List.replicate after 48)

/-- The digits of a number's text without the zeros at both ends. -/
def significantDigits (t : Text) : Text :=
  (((t.takeWhile (· ≠ 101)).filter isDigit).dropWhile (· = 48)).rdropWhile (· = 48)

theorem decimalRat_surrounded (before : Nat) (digits : Text) (after : Nat) (exp10 : Int) :
    decimalRat (surrounded before digits after) exp10 = decimalRat digits (exp10+after) := by
  rw [decimalRat, decimalRat, surrounded, digitsValue_join, digitsValue_replicate, Nat.zero_mul,
    Nat.zero_add, digitsValue_join, digitsValue_replicate, Nat.add_zero, List.length_replicate,
    zpow_add₀ (by norm_num), zpow_natCast]
  push_cast
  ring

theorem strip_surrounded {digits : Text} (h : Significant digits) (before after : Nat) :
    ((surrounded before digits after).dropWhile (· = 48)).rdropWhile (· = 48) = digits := by
  have hzeros (n : Nat) : ∀ c ∈ List.replicate n (48 : UInt8), decide (c = 48) = true :=
    fun c hc => decide_eq_true (List.eq_of_mem_replicate hc)
  have hfront : (surrounded before digits after).dropWhile (· = 48) =
      digits ++ List.replicate after 48 := by
    rw [surrounded, List.dropWhile_append_of_pos (hzeros before)]
    obtain ⟨c, t, rfl⟩ := List.exists_cons_of_ne_nil h.nonempty
    have hc : c ≠ 48 := fun hc => h.head (by rw [hc]; rfl)
    rw [List.cons_append, List.dropWhile_cons_of_neg (by simpa using hc)]
  have hback : (digits ++ List.replicate after 48).reverse.dropWhile (· = 48) =
      digits.reverse := by
    rw [List.reverse_append, List.reverse_replicate, List.dropWhile_append_of_pos (hzeros after)]
    obtain ⟨c, t, hct⟩ := List.exists_cons_of_ne_nil (List.reverse_ne_nil_iff.mpr h.nonempty)
    have hc : c ≠ 48 := by
      intro hc
      apply h.last
      rw [← List.head?_reverse, hct, hc]
      rfl
    rw [hct, List.dropWhile_cons_of_neg (by simpa using hc)]
  rw [hfront, List.rdropWhile, hback, List.reverse_reverse]

/-- The digits before the exponent of a written number. -/
theorem Written.mantissaDigits (w : Written) :
    (w.text.takeWhile (· ≠ 101)).filter isDigit = w.digits := by
  have hint : ∀ c ∈ w.integer, isDigit c = true := fun c hc =>
    w.digit c (List.mem_append_left _ hc)
  have hmark {c : UInt8} (hc : isDigit c = true) : decide (c ≠ 101) = true := by
    rw [decide_eq_true_iff]
    rintro rfl
    exact absurd hc (by decide)
  have hexp : w.exponentText.takeWhile (· ≠ 101) = [] := by
    unfold exponentText
    cases w.exponent <;> rfl
  have hfraction : (w.fractionText ++ w.exponentText).takeWhile (· ≠ 101) = w.fractionText ∧
      w.fractionText.filter isDigit = w.fraction.getD [] := by
    unfold fractionText
    cases hf : w.fraction with
    | none => exact ⟨hexp, rfl⟩
    | some ds =>
      have hds : ∀ c ∈ ds, isDigit c = true := fun c hc =>
        w.digit c (List.mem_append_right _ (by rw [hf]; exact hc))
      refine ⟨?_, ?_⟩
      · rw [List.takeWhile_append_of_pos, hexp, List.append_nil]
        intro c hc
        rcases List.mem_cons.mp hc with rfl | hc
        · rfl
        · exact hmark (hds c hc)
      · rw [List.filter_cons_of_neg (by decide), List.filter_eq_self.mpr hds]
        rfl
  have hunsigned : (w.unsigned.takeWhile (· ≠ 101)).filter isDigit = w.digits := by
    rw [unsigned, List.takeWhile_append_of_pos fun c hc => hmark (hint c hc), hfraction.1,
      List.filter_append, hfraction.2, List.filter_eq_self.mpr hint]
    rfl
  unfold text
  split_ifs
  · rw [List.takeWhile_cons_of_pos (by decide), List.filter_cons_of_neg (by decide), hunsigned]
  · exact hunsigned

/-- A written number has these digits, with zeros around them, and its point behind so many. -/
def Shows (w : Written) (digits : Text) (decPt : Int) : Prop :=
  ∃ before after, w.digits = surrounded before digits after ∧ w.exp10+after = decPt-digits.length

theorem Shows.value {w : Written} {digits : Text} {decPt : Int} (h : Shows w digits decPt) :
    decimalRat w.digits w.exp10 = pointRat digits decPt := by
  obtain ⟨before, after, hdigits, hexp⟩ := h
  rw [hdigits, decimalRat_surrounded, hexp, pointRat]

theorem Shows.significant {w : Written} {digits : Text} {decPt : Int} (h : Shows w digits decPt)
    (hsig : Significant digits) : significantDigits w.text = digits := by
  obtain ⟨before, after, hdigits, -⟩ := h
  rw [significantDigits, w.mantissaDigits, hdigits, strip_surrounded hsig]

theorem surrounded_zero (digits : Text) : surrounded 0 digits 0 = digits := by
  simp [surrounded]

section
variable {digits : Text} {decPt : Int} (negative : Bool)

/-- Digits written out with a sign. -/
def Formats (negative : Bool) (digits : Text) (decPt : Int) : Prop :=
  ∃ w : Written, w.negative = negative ∧ w.unsigned = formatDigits digits decPt ∧
    Shows w digits decPt

/-- An exponent has two digits at least. -/
theorem exponent_digits {n : Nat} (hn : n < 10^7) :
    let digits := (if (decimal n).length < 2 then [48] else []) ++ decimal n
    digits ≠ [] ∧ digits.length ≤ 8 ∧ (∀ c ∈ digits, isDigit c = true) ∧ digitsValue digits = n := by
  obtain ⟨hvalue, hdigit, -⟩ := digitsValue_decimal n
  have hlen := decimal_length_le (by norm_num) hn
  intro digits
  refine ⟨List.append_ne_nil_of_right_ne_nil _ (decimal_ne_nil n), ?_, ?_, ?_⟩
  · have hpad : (if (decimal n).length < 2 then [48] else ([] : Text)).length ≤ 1 := by
      split_ifs <;> simp
    rw [List.length_append]
    omega
  · intro c hc
    rcases List.mem_append.mp hc with hc | hc
    · split_ifs at hc
      · rw [List.mem_singleton.mp hc]
        rfl
      · cases hc
    · exact hdigit c hc
  · have hpad : digitsValue (if (decimal n).length < 2 then [48] else ([] : Text)) = 0 := by
      split_ifs <;> rfl
    rw [digitsValue_join, hpad, Nat.zero_mul, Nat.zero_add, hvalue]

/-- The digits behind the first one, where there are any. -/
def behindFirst (digits : Text) : Option Text :=
  if 1 < digits.length then some (digits.drop 1) else none

theorem behindFirst_join (digits : Text) :
    digits.take 1 ++ (behindFirst digits).getD [] = digits := by
  have hrest : (behindFirst digits).getD [] = digits.drop 1 := by
    unfold behindFirst
    split_ifs with hlong
    · rfl
    · exact (List.drop_of_length_le (by omega)).symm
  rw [hrest, List.take_append_drop]

/-- Digits in exponent form. -/
def exponentForm (h : Significant digits) (minus : Bool) {ds : Text}
    (hds : ds ≠ [] ∧ ds.length ≤ 8 ∧ ∀ c ∈ ds, isDigit c = true) : Written where
  negative := negative
  integer := digits.take 1
  fraction := behindFirst digits
  exponent := some (minus,ds)
  digit := by rw [behindFirst_join]; exact h.digit
  nonempty := by rw [behindFirst_join]; exact h.nonempty
  exponentDigit := by
    intro e he
    rw [← Option.some.inj he]
    exact hds

theorem exponentForm_unsigned (h : Significant digits) (minus : Bool) {ds : Text}
    (hds : ds ≠ [] ∧ ds.length ≤ 8 ∧ ∀ c ∈ ds, isDigit c = true) :
    (exponentForm negative h minus hds).unsigned =
      digits.take 1 ++ ((if 1 < digits.length then 46::digits.drop 1 else []) ++
        101::(if minus then 45 else 43)::ds) := by
  have hfraction : (exponentForm negative h minus hds).fractionText =
      if 1 < digits.length then 46::digits.drop 1 else [] := by
    simp only [Written.fractionText, exponentForm, behindFirst]
    split_ifs <;> rfl
  rw [Written.unsigned, hfraction]
  rfl

/-- The exponent form. -/
theorem format_exponent (h : Significant digits) (hpoint : decPt ≤ -4 ∨ 16 < decPt)
    (hsmall : decPt.natAbs < 10^6) : Formats negative digits decPt := by
  obtain ⟨hne, hlen, hexpdigit, hexpvalue⟩ := exponent_digits (n := (decPt-1).natAbs) (by omega)
  refine ⟨exponentForm negative h (decide (decPt-1 < 0)) ⟨hne, hlen, hexpdigit⟩, rfl, ?_, 0, 0, ?_,
    ?_⟩
  · rw [exponentForm_unsigned, formatDigits, if_pos hpoint]
    have hsign : (if decPt-1 < 0 then text "e-" else text "e+") =
        [101,if decide (decPt-1 < 0) = true then 45 else 43] := by
      split_ifs with hneg hdecide hdecide
      · rfl
      · exact absurd (decide_eq_true hneg) hdecide
      · exact absurd (of_decide_eq_true hdecide) hneg
      · rfl
    dsimp only
    rw [hsign]
    simp only [List.append_assoc, List.cons_append, List.nil_append]
  · rw [surrounded_zero]
    exact behindFirst_join digits
  · have hlength := congrArg List.length (behindFirst_join digits)
    rw [List.length_append, List.length_take] at hlength
    have hpos := List.length_pos_iff_ne_nil.mpr h.nonempty
    show (if decide (decPt-1 < 0) = true then -(digitsValue _ : Int) else digitsValue _)-
      ((behindFirst digits).getD []).length+(0 : Nat) = _
    rw [hexpvalue]
    split_ifs with hneg
    · have hneg' := of_decide_eq_true hneg
      omega
    · have hneg' : ¬ decPt-1 < 0 := fun hlt => hneg (decide_eq_true hlt)
      omega

theorem digit_replicate (n : Nat) : ∀ c ∈ List.replicate n (48 : UInt8), isDigit c = true := by
  intro c hc
  rw [List.eq_of_mem_replicate hc]
  rfl

theorem format_leading (h : Significant digits) (hlow : -4 < decPt) (hhigh : decPt ≤ 0) :
    Formats negative digits decPt := by
  refine ⟨⟨negative, [48], some (List.replicate (-decPt).toNat 48 ++ digits), none, ?_, ?_, ?_⟩,
    rfl, ?_, (-decPt).toNat+1, 0, ?_, ?_⟩
  · intro c hc
    rcases List.mem_append.mp hc with hc | hc
    · rw [List.mem_singleton.mp hc]
      rfl
    · change c ∈ List.replicate (-decPt).toNat 48 ++ digits at hc
      rcases List.mem_append.mp hc with hc | hc
      · exact digit_replicate _ c hc
      · exact h.digit c hc
  · simp
  · simp
  · rw [formatDigits, if_neg (by omega), if_pos hhigh]
    simp [Written.unsigned, Written.fractionText, Written.exponentText, text]
  · simp [Written.digits, surrounded, List.replicate_succ]
  · simp [Written.exp10, Written.exponentValue]
    omega

theorem format_trailing (h : Significant digits) (hlow : digits.length ≤ decPt)
    (hhigh : decPt ≤ 16) : Formats negative digits decPt := by
  have hpos := List.length_pos_iff_ne_nil.mpr h.nonempty
  refine ⟨⟨negative, digits ++ List.replicate (decPt-digits.length).toNat 48, some [48], none, ?_,
    ?_, ?_⟩, rfl, ?_, 0, (decPt-digits.length).toNat+1, ?_, ?_⟩
  · intro c hc
    rcases List.mem_append.mp hc with hc | hc
    · rcases List.mem_append.mp hc with hc | hc
      · exact h.digit c hc
      · exact digit_replicate _ c hc
    · rw [List.mem_singleton.mp hc]
      rfl
  · simp
  · simp
  · rw [formatDigits, if_neg (by omega), if_neg (by omega), if_pos hlow]
    simp [Written.unsigned, Written.fractionText, Written.exponentText, text]
  · simp [Written.digits, surrounded, List.replicate_succ']
  · simp [Written.exp10, Written.exponentValue]
    omega

theorem format_inner (h : Significant digits) (hlow : 0 < decPt) (hhigh : decPt < digits.length)
    (hpoint : decPt ≤ 16) : Formats negative digits decPt := by
  have hjoin : digits.take decPt.toNat ++ (some (digits.drop decPt.toNat)).getD [] = digits :=
    List.take_append_drop _ _
  refine ⟨⟨negative, digits.take decPt.toNat, some (digits.drop decPt.toNat), none,
    by rw [hjoin]; exact h.digit, by rw [hjoin]; exact h.nonempty, ?_⟩, rfl, ?_, 0, 0, ?_, ?_⟩
  · simp
  · rw [formatDigits, if_neg (by omega), if_neg (by omega), if_neg (by omega)]
    simp [Written.unsigned, Written.fractionText, Written.exponentText]
  · rw [surrounded_zero]
    exact hjoin
  · simp [Written.exp10, Written.exponentValue]
    omega

theorem formatDigits_spec (h : Significant digits) (hsmall : decPt.natAbs < 10^6) :
    Formats negative digits decPt := by
  by_cases hexp : decPt ≤ -4 ∨ 16 < decPt
  · exact format_exponent negative h hexp hsmall
  · by_cases hzero : decPt ≤ 0
    · exact format_leading negative h (by omega) hzero
    · by_cases hlong : digits.length ≤ decPt
      · exact format_trailing negative h hlong (by omega)
      · exact format_inner negative h (by omega) (by omega) (by omega)

end

/-- The point of a double's digits is not far. -/
theorem Shortest.point_small {v : Binary64} {digits : Text} {decPt : Int} (h : Positive v)
    (hshort : Shortest v digits decPt) : decPt.natAbs < 10^6 := by
  obtain ⟨hlow, hhigh⟩ := @decimalRat_bounds digits (decPt-digits.length)
    hshort.significant.digit hshort.significant.nonempty hshort.significant.head
  have hpoint : (digits.length : Int)+(decPt-digits.length) = decPt := by omega
  rw [hpoint, ← pointRat] at hlow hhigh
  have hupper : decPt ≤ 310 := by
    by_contra hlarge
    have hbig : (10 : ℚ)^(310 : Int) ≤ pointRat digits decPt :=
      le_trans (zpow_le_zpow_right₀ (by norm_num) (by omega)) hlow
    have hv := hshort.rounds.unique (huge_rounds false hbig)
    have hfinite : v.magnitude < Binary64.infinityMagnitude := h.finite
    rw [hv, signed_eq (le_refl _)] at hfinite
    exact absurd hfinite (by decide)
  have hlower : -324 < decPt := by
    by_contra hsmall
    have htiny : pointRat digits decPt < (10 : ℚ)^(-324 : Int) :=
      lt_of_lt_of_le hhigh (zpow_le_zpow_right₀ (by norm_num) (by omega))
    have hv := hshort.rounds.unique (small_rounds false htiny)
    apply h.nonzero
    rw [hv, signed_eq (Nat.zero_le _)]
    rfl
  omega

theorem Written.text_eq (w : Written) :
    w.text = (if w.negative then [45] else []) ++ w.unsigned := by
  unfold text
  split_ifs <;> rfl

/-- Significant digits keep the number. -/
theorem significant_value {t : Text} (ht : ∀ c ∈ t, isDigit c = true) (exp10 : Int) :
    ∃ exp10', decimalRat (significantDigits t) exp10' = decimalRat t exp10 ∧
      ∀ c ∈ significantDigits t, isDigit c = true := by
  have hmark : t.takeWhile (· ≠ 101) = t := by
    rw [List.takeWhile_eq_self_iff]
    intro c hc
    rw [decide_eq_true_iff]
    rintro rfl
    exact absurd (ht 101 hc) (by decide)
  have hstrip := strip_spec exp10 ht
  have hsame : significantDigits t =
      (t.dropWhile (· = 48)).take ((t.dropWhile (· = 48)).length-
        ((t.dropWhile (· = 48)).reverse.takeWhile (· = 48)).length) := by
    rw [(take_reverse_takeWhile (· = (48 : UInt8)) _).1, significantDigits, hmark,
      List.filter_eq_self.mpr ht]
    rfl
  rw [hsame]
  exact ⟨_, hstrip.value, hstrip.digit⟩

section
variable {x : Binary64}

theorem repr_nonzero (hx : x.Finite) (hne : x.magnitude ≠ 0) :
    ∃ (w : Written) (digits : Text) (decPt : Int), w.negative = x.negative ∧
      pyReprFloat x = w.text ∧ Shows w digits decPt ∧
      Shortest ⟨false, x.magnitude, x.bounded⟩ digits decPt := by
  have hv : Positive ⟨false, x.magnitude, x.bounded⟩ := ⟨rfl, hx, hne⟩
  have hword : signed false x.magnitude = ⟨false, x.magnitude, x.bounded⟩ := by
    rw [signed_eq (Nat.le_of_lt hx)]
    exact Binary64.ext rfl (Nat.min_eq_left (Nat.le_of_lt hx))
  have hshort := shortestDigits_spec hv
  obtain ⟨w, hsign, hunsigned, hshows⟩ := formatDigits_spec x.negative hshort.significant
    (hshort.point_small hv)
  have hspecial := hx.not_special
  have hzero : x.isZero = false := decide_eq_false hne
  refine ⟨w, _, _, hsign, ?_, hshows, hshort⟩
  rw [w.text_eq, hsign, hunsigned, pyReprFloat, hspecial.1, hspecial.2, hzero, hword]
  rfl

/-- A zero is written with its sign and no significant digit. -/
theorem repr_zero (hzero : x.magnitude = 0) :
    pyFloat (pyReprFloat x) = .ok (some x) ∧ significantDigits (pyReprFloat x) = [] := by
  have hword : x = ⟨x.negative, 0, by norm_num⟩ := Binary64.ext rfl hzero
  rw [hword]
  cases x.negative <;> exact ⟨by decide +kernel, by decide +kernel⟩

/-- The representation is read back as the double, and no decimal of fewer significant digits
rounds to it. -/
theorem pyReprFloat_shortest (x : Binary64) (hx : x.Finite) :
    pyFloat (pyReprFloat x) = .ok (some x) ∧
      ∀ (t : Text) (exp10 : Int), (∀ c ∈ t, isDigit c = true) →
        (significantDigits t).length < (significantDigits (pyReprFloat x)).length →
        ¬ Rounds x.negative (decimalRat t exp10) x := by
  by_cases hzero : x.magnitude = 0
  · obtain ⟨hread, hnone⟩ := repr_zero hzero
    refine ⟨hread, fun t exp10 _ hless => ?_⟩
    rw [hnone] at hless
    exact absurd hless (Nat.not_lt_zero _)
  · obtain ⟨w, digits, decPt, hsign, htext, hshows, hshort⟩ := repr_nonzero hx hzero
    have hword : x = ⟨x.negative, x.magnitude, x.bounded⟩ := rfl
    constructor
    · have hround := hshort.rounds.signed x.negative
      have hread : Rounds w.negative (decimalRat w.digits w.exp10)
          (BigUInt.decimalToDouble w.negative w.digits w.exp10) :=
        BigUInt.decimalToDouble_rounds w.negative w.exp10 w.digit
      rw [hshows.value, hsign] at hread
      rw [htext, w.pyFloat_text, hsign, hread.unique hround]
    · intro t exp10 ht hless hround
      rw [htext, hshows.significant hshort.significant] at hless
      obtain ⟨exp10', hvalue, hdigit⟩ := significant_value ht exp10
      rw [← hvalue] at hround
      exact hshort.fewest _ exp10' hdigit (by omega) (hround.signed false)

end

/-- A tenth. -/
theorem pyReprFloat_shortest_tenth :
    pyFloat (pyReprFloat (Binary64.ofBits 0x3FB999999999999A)) =
      .ok (some (Binary64.ofBits 0x3FB999999999999A)) ∧
    ∀ (t : Text) (exp10 : Int), (∀ c ∈ t, isDigit c = true) →
      (significantDigits t).length <
        (significantDigits (pyReprFloat (Binary64.ofBits 0x3FB999999999999A))).length →
      ¬ Rounds (Binary64.ofBits 0x3FB999999999999A).negative (decimalRat t exp10)
        (Binary64.ofBits 0x3FB999999999999A) :=
  pyReprFloat_shortest (Binary64.ofBits 0x3FB999999999999A) (by decide)

end DSigMatcher.Json
