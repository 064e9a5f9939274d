import DSigMatcher.Preflight.PyDecimal
import Mathlib

namespace DSigMatcher.Preflight
open DSigMatcher.Base DSigMatcher.Framework DSigMatcher.Json JsonValue
open DSigMatcher.Diff (DiffError)
open Written (span_digits takeSign_unsigned digit_ne_sign)

/-- A sign that may be left out; `true` is a minus. -/
def signText : Option Bool → Text
  | none => []
  | some true => [45]
  | some false => [43]

def fractionText : Option Text → Text
  | none => []
  | some digits => 46::digits

def exponentText : Option (UInt8 × Option Bool × Text) → Text
  | none => []
  | some (mark,sign,digits) => mark::(signText sign ++ digits)

def exponentValue : Option (UInt8 × Option Bool × Text) → Int
  | none => 0
  | some (_,sign,digits) => if sign = some true then -(digitsValue digits : Int) else digitsValue digits

/-- An exponent with a mark and digits. -/
def IsExponent (exponent : Option (UInt8 × Option Bool × Text)) : Prop :=
  ∀ e ∈ exponent, (e.1 = 101 ∨ e.1 = 69) ∧ e.2.2 ≠ [] ∧ ∀ c ∈ e.2.2, isDigit c = true

/-- A decimal as it is written: a sign, digits with a point among them, and an exponent. -/
structure DecimalForm where
  sign : Option Bool
  integer : Text
  fraction : Option Text
  exponent : Option (UInt8 × Option Bool × Text)
  digit : ∀ c ∈ integer ++ fraction.getD [], isDigit c = true
  nonempty : integer ++ fraction.getD [] ≠ []
  isExponent : IsExponent exponent

namespace DecimalForm
variable (w : DecimalForm)

def unsigned : Text := w.integer ++ (fractionText w.fraction ++ exponentText w.exponent)

def text : Text := signText w.sign ++ w.unsigned

/-- The rational number that is written. -/
def value : ℚ :=
  let fraction := w.fraction.getD []
  let magnitude : ℚ :=
    (digitsValue w.integer+digitsValue fraction/10^fraction.length)*10^exponentValue w.exponent
  if w.sign = some true then -magnitude else magnitude

end DecimalForm

/-- A text between spaces that is the decimal, with underscores anywhere in it. -/
def WrittenAs (raw : Text) (w : DecimalForm) : Prop :=
  ∃ before body after, raw = before ++ (body ++ after) ∧
    (∀ c ∈ before, isPyAsciiSpace c = true) ∧ (∀ c ∈ after, isPyAsciiSpace c = true) ∧
    body.filter (· ≠ 95) = w.text

/-- The number that a cell stands for. -/
inductive Denotes : SqlCell → ℚ → Prop
  | integer (n : Int64) : Denotes (.integer n) n.toInt
  | real {x : Binary64} (hx : x.Finite) : Denotes (.real x) x.value
  | text {raw : Text} {w : DecimalForm} (h : WrittenAs raw w) : Denotes (.text raw) w.value

/-- An integer, a finite double or a text that is read as a finite decimal. -/
def FiniteNumber : SqlCell → Prop
  | .integer _ => True
  | .real x => x.Finite
  | .text raw => ∃ d, parsePyDecimal raw = .ok (some d) ∧ d.kind = .finite
  | .null | .blob _ => False

section
variable {t raw rest : Text}

theorem takeSign_signText (sign : Option Bool) (h : t.head? ≠ some 45 ∧ t.head? ≠ some 43) :
    takeSign (signText sign ++ t) = (decide (sign = some true),t) := by
  rcases sign with _ | _ | _
  · exact takeSign_unsigned h
  · rfl
  · rfl

theorem takeSign_split (t : Text) : ∃ sign, t = signText sign ++ (takeSign t).2 := by
  cases t with
  | nil => exact ⟨none, rfl⟩
  | cons c t =>
    rw [takeSign]
    by_cases h45 : c = 45
    · exact ⟨some true, by rw [if_pos h45, h45]; rfl⟩
    · rw [if_neg h45]
      by_cases h43 : c = 43
      · exact ⟨some false, by rw [if_pos h43, h43]; rfl⟩
      · exact ⟨none, by rw [if_neg h43]; rfl⟩

theorem takeFraction_split (t : Text) : ∃ fraction, t = fractionText fraction ++ (takeFraction t).2 ∧
    (takeFraction t).1 = fraction.getD [] ∧ ∀ c ∈ fraction.getD [], isDigit c = true := by
  cases t with
  | nil => exact ⟨none, rfl, rfl, by simp⟩
  | cons c t =>
    rw [takeFraction]
    by_cases hpoint : c = 46
    · refine ⟨some (t.takeWhile isDigit), ?_, ?_, ?_⟩
      · rw [if_pos hpoint, hpoint, fractionText, List.cons_append, List.takeWhile_append_dropWhile]
      · rw [if_pos hpoint]
        rfl
      · exact fun c hc => List.mem_takeWhile_imp hc
    · exact ⟨none, by rw [if_neg hpoint]; rfl, by rw [if_neg hpoint]; rfl, by simp⟩

theorem digitsValue_dropZeros (t : Text) : digitsValue (dropZeros t) = digitsValue t := by
  induction t with
  | nil => rfl
  | cons c t ih =>
    cases t with
    | nil => rfl
    | cons d t =>
      rw [dropZeros]
      split_ifs with hc
      · have hzero : digitsValue [c] = 0 := by
          rw [hc]
          rfl
        have hjoin := digitsValue_join [c] (d::t)
        rw [hzero, Nat.zero_mul, Nat.zero_add] at hjoin
        rw [ih]
        exact hjoin.symm
      · rfl

/-- What is read as an exponent up to the end is one. -/
theorem exists_exponent {e : Int} (h : decimalExponent t = .ok (some (e,[]))) :
    ∃ exponent, t = exponentText exponent ∧ IsExponent exponent := by
  cases t with
  | nil => exact ⟨none, rfl, by simp [IsExponent]⟩
  | cons c r =>
    rw [decimalExponent] at h
    dsimp only at h
    by_cases hmark : c = 101 ∨ c = 69
    · rw [if_pos hmark] at h
      by_cases hempty : ((takeSign r).2.takeWhile isDigit).isEmpty = true
      · rw [if_pos hempty] at h
        cases h
      · rw [if_neg hempty] at h
        by_cases hlong : 15 < (dropZeros ((takeSign r).2.takeWhile isDigit)).length
        · rw [if_pos hlong] at h
          cases h
        · rw [if_neg hlong] at h
          obtain ⟨sign, hsign⟩ := takeSign_split r
          have hrest : (takeSign r).2.dropWhile isDigit = [] :=
            congrArg (fun p : Int × Text => p.2) (Option.some.inj (Except.ok.inj h))
          have hspan := List.takeWhile_append_dropWhile (p := isDigit) (l := (takeSign r).2)
          rw [hrest, List.append_nil] at hspan
          refine ⟨some (c,sign,(takeSign r).2.takeWhile isDigit), ?_, ?_⟩
          · rw [exponentText, hspan, ← hsign]
          · intro e he
            cases he
            exact ⟨hmark, fun hnil => hempty (List.isEmpty_iff.mpr hnil),
              fun c hc => List.mem_takeWhile_imp hc⟩
    · rw [if_neg hmark] at h
      cases h

theorem decimalExponent_text {exponent : Option (UInt8 × Option Bool × Text)} {e : Int}
    (hexponent : IsExponent exponent)
    (h : decimalExponent (exponentText exponent) = .ok (some (e,rest))) :
    e = exponentValue exponent ∧ rest = [] := by
  cases exponent with
  | none =>
    cases h
    exact ⟨rfl, rfl⟩
  | some exponent =>
    obtain ⟨mark, sign, digits⟩ := exponent
    obtain ⟨hmark, hne, hdigits⟩ := hexponent _ rfl
    dsimp only at hmark hne hdigits
    have hhead : digits.head?.any isDigit = true := by
      obtain ⟨d, ds, rfl⟩ := List.exists_cons_of_ne_nil hne
      exact hdigits d List.mem_cons_self
    have hspan := span_digits (t := []) hdigits rfl
    rw [List.append_nil] at hspan
    rw [exponentText, decimalExponent] at h
    dsimp only at h
    rw [if_pos hmark, takeSign_signText sign (digit_ne_sign hhead)] at h
    dsimp only at h
    rw [hspan.1, hspan.2, digitsValue_dropZeros, if_neg (by simpa using hne)] at h
    by_cases hlong : 15 < (dropZeros digits).length
    · rw [if_pos hlong] at h
      cases h
    · rw [if_neg hlong] at h
      cases h
      simp [exponentValue]

theorem exponentText_head {exponent : Option (UInt8 × Option Bool × Text)}
    (hexponent : IsExponent exponent) :
    (exponentText exponent).head?.any isDigit = false ∧
      takeFraction (exponentText exponent) = ([],exponentText exponent) := by
  cases exponent with
  | none => exact ⟨rfl, rfl⟩
  | some exponent =>
    obtain ⟨mark, sign, digits⟩ := exponent
    rcases (hexponent _ rfl).1 with hmark | hmark
    all_goals
      dsimp only at hmark
      rw [hmark]
      exact ⟨rfl, rfl⟩

end

theorem isEmpty_append (a b : Text) : (a ++ b).isEmpty = (a.isEmpty && b.isEmpty) := by
  cases a <;> rfl

namespace DecimalForm
section
variable {w : DecimalForm} {d : PyDecimal} {negative : Bool}

theorem takeFraction_text :
    takeFraction (fractionText w.fraction ++ exponentText w.exponent) =
      (w.fraction.getD [],exponentText w.exponent) := by
  have hhead := exponentText_head w.isExponent
  cases hf : w.fraction with
  | none => exact hhead.2
  | some digits =>
    have hdigits : ∀ c ∈ digits, isDigit c = true := fun c hc =>
      w.digit c (List.mem_append_right _ (by rw [hf]; exact hc))
    obtain ⟨htake, hdrop⟩ := span_digits hdigits hhead.1
    rw [fractionText, List.cons_append, takeFraction, if_pos rfl, htake, hdrop]
    rfl

theorem fractionText_head :
    (fractionText w.fraction ++ exponentText w.exponent).head?.any isDigit = false := by
  cases w.fraction with
  | none => exact (exponentText_head w.isExponent).1
  | some digits => rfl

/-- A number begins with a digit or with the point. -/
theorem unsigned_head : ∃ c t, w.unsigned = c::t ∧ (isDigit c = true ∨ c = 46) := by
  unfold unsigned
  cases hi : w.integer with
  | cons c t =>
    refine ⟨c, _, List.cons_append, .inl ?_⟩
    exact w.digit c (by rw [hi]; exact List.mem_cons_self)
  | nil =>
    cases hf : w.fraction with
    | none =>
      have hne := w.nonempty
      rw [hi, hf] at hne
      exact absurd rfl hne
    | some digits => exact ⟨46, _, rfl, .inr rfl⟩

/-- The digits and the exponent that a decimal form is read as. -/
theorem decimalNumber_unsigned (h : decimalNumber negative w.unsigned = .ok (some d)) :
    d = PyDecimal.normalise
      { negative, coefficient := w.integer ++ w.fraction.getD []
        exponent := exponentValue w.exponent-(w.fraction.getD []).length } := by
  have hint : ∀ c ∈ w.integer, isDigit c = true := fun c hc =>
    w.digit c (List.mem_append_left _ hc)
  obtain ⟨htake, hdrop⟩ := span_digits hint w.fractionText_head
  have hne : (w.integer.isEmpty && (w.fraction.getD []).isEmpty) = false := by
    rw [← isEmpty_append, List.isEmpty_eq_false_iff]
    exact w.nonempty
  unfold decimalNumber at h
  rw [unsigned, htake, hdrop, takeFraction_text] at h
  dsimp only at h
  rw [hne, if_neg Bool.false_ne_true] at h
  split at h
  · cases h
  · cases h
  · next heq =>
    obtain ⟨rfl, rfl⟩ := decimalExponent_text w.isExponent heq
    cases h
    rfl

/-- What is read as a number is written as one. -/
theorem exists_unsigned {rest : Text} (sign : Option Bool)
    (h : decimalNumber negative rest = .ok (some d)) :
    ∃ w : DecimalForm, w.sign = sign ∧ rest = w.unsigned := by
  unfold decimalNumber at h
  dsimp only at h
  obtain ⟨fraction, hfraction, hdigits, hfractionDigit⟩ :=
    takeFraction_split (rest.dropWhile isDigit)
  have hspan := List.takeWhile_append_dropWhile (p := isDigit) (l := rest)
  rw [hdigits] at h
  split_ifs at h with hempty
  · cases h
  · split at h
    · cases h
    · cases h
    · next exponent left heq =>
      split_ifs at h with hleft
      · rw [List.isEmpty_iff.mp hleft] at heq
        obtain ⟨e, he, hexponent⟩ := exists_exponent heq
        refine ⟨⟨sign,rest.takeWhile isDigit,fraction,e,?_,?_,hexponent⟩, rfl, ?_⟩
        · intro c hc
          rcases List.mem_append.mp hc with hc | hc
          · exact List.mem_takeWhile_imp hc
          · exact hfractionDigit c hc
        · intro hnil
          apply hempty
          rw [← isEmpty_append, hnil]
          rfl
        · rw [unsigned, ← he, ← hfraction, hspan]
      · cases h

theorem rat_eq (w : DecimalForm) :
    decimalRat (w.integer ++ w.fraction.getD [])
        (exponentValue w.exponent-(w.fraction.getD []).length) =
      (digitsValue w.integer+digitsValue (w.fraction.getD [])/10^(w.fraction.getD []).length)*
        10^exponentValue w.exponent := by
  rw [decimalRat, digitsValue_join, zpow_sub₀ (by norm_num), zpow_natCast]
  push_cast
  field_simp

theorem normalise_form {d : PyDecimal} (w : DecimalForm) (hd : d = PyDecimal.normalise
      { negative := decide (w.sign = some true), coefficient := w.integer ++ w.fraction.getD []
        exponent := exponentValue w.exponent-(w.fraction.getD []).length }) :
    d.Normal ∧ d.value = w.value := by
  obtain ⟨hnormal, hvalue, -⟩ := PyDecimal.normalise_spec (d :=
    { negative := decide (w.sign = some true), coefficient := w.integer ++ w.fraction.getD []
      exponent := exponentValue w.exponent-(w.fraction.getD []).length }) rfl w.digit
  rw [hd]
  refine ⟨hnormal, ?_⟩
  rw [hvalue, PyDecimal.value, value]
  simp only [decide_eq_true_iff, w.rat_eq]

/-- The bytes of a written decimal. -/
def formByte (c : UInt8) : Bool :=
  isDigit c || c = 43 || c = 45 || c = 46 || c = 101 || c = 69

theorem formByte_not_space {c : UInt8} (hc : formByte c = true) : isPyAsciiSpace c = false := by
  revert c
  decide +kernel

theorem formByte_digit {c : UInt8} (hc : isDigit c = true) : formByte c = true := by
  simp [formByte, hc]

theorem mem_signText {sign : Option Bool} {c : UInt8} (hc : c ∈ signText sign) :
    formByte c = true := by
  rcases sign with _ | _ | _
  · cases hc
  · rw [List.mem_singleton.mp hc]
    rfl
  · rw [List.mem_singleton.mp hc]
    rfl

theorem mem_text {c : UInt8} (hc : c ∈ w.text) : formByte c = true := by
  rw [text, unsigned, List.mem_append, List.mem_append, List.mem_append] at hc
  rcases hc with hc | hc | hc | hc
  · exact mem_signText hc
  · exact formByte_digit (w.digit c (List.mem_append_left _ hc))
  · cases hf : w.fraction with
    | none =>
      rw [hf] at hc
      cases hc
    | some digits =>
      rw [hf] at hc
      rcases List.mem_cons.mp hc with rfl | hc
      · rfl
      · exact formByte_digit (w.digit c (List.mem_append_right _ (by rw [hf]; exact hc)))
  · cases he : w.exponent with
    | none =>
      rw [he] at hc
      cases hc
    | some exponent =>
      obtain ⟨mark, sign, digits⟩ := exponent
      obtain ⟨hmark, -, hdigits⟩ := w.isExponent _ he
      rw [he] at hc
      rcases List.mem_cons.mp hc with rfl | hc
      · rcases hmark with hmark | hmark <;>
        · dsimp only at hmark
          rw [hmark]
          rfl
      · rcases List.mem_append.mp hc with hc | hc
        · exact mem_signText hc
        · exact formByte_digit (hdigits c hc)

end
end DecimalForm

/-- Spaces on both sides are taken off. -/
theorem trim_eq {before body after : Text} (hbefore : ∀ c ∈ before, isPyAsciiSpace c = true)
    (hafter : ∀ c ∈ after, isPyAsciiSpace c = true) (hne : body ≠ [])
    (hbody : ∀ c ∈ body, isPyAsciiSpace c = false) :
    ((before ++ (body ++ after)).rdropWhile isPyAsciiSpace).dropWhile isPyAsciiSpace = body := by
  have hback : (before ++ (body ++ after)).rdropWhile isPyAsciiSpace = before ++ body := by
    have hrev : ∀ c ∈ after.reverse, isPyAsciiSpace c = true := fun c hc =>
      hafter c (List.mem_reverse.mp hc)
    rw [← List.append_assoc, List.rdropWhile, List.reverse_append,
      List.dropWhile_append_of_pos hrev, ← List.rdropWhile, List.rdropWhile_eq_self_iff]
    intro hl
    rw [List.getLast_append_of_ne_nil hl hne]
    simp [hbody _ (List.getLast_mem hne)]
  rw [hback, List.dropWhile_append_of_pos hbefore]
  exact Written.dropWhile_of_none hbody

theorem not_word {c d : UInt8} {t word : Text} (hc : isDigit c = true ∨ c = 46)
    (hd : lowerByte d = 105 ∨ lowerByte d = 110 ∨ lowerByte d = 115) :
    equalsIgnoreCase (c::t) (d::word) = false := by
  have hlower : lowerByte c ≠ 105 ∧ lowerByte c ≠ 110 ∧ lowerByte c ≠ 115 := by
    revert c
    decide +kernel
  rw [equalsIgnoreCase, decide_eq_false_iff_not, List.map_cons, List.map_cons]
  intro heq
  have hhead := (List.cons.inj heq).1
  rcases hd with hd | hd | hd
  · exact hlower.1 (hhead.trans hd)
  · exact hlower.2.1 (hhead.trans hd)
  · exact hlower.2.2 (hhead.trans hd)

section
variable {raw : Text} {d : PyDecimal} {w : DecimalForm}

/-- A written decimal that is accepted is read as its number. -/
theorem parsePyDecimal_written (h : parsePyDecimal raw = .ok (some d)) (hw : WrittenAs raw w) :
    d.Normal ∧ d.value = w.value := by
  obtain ⟨before, body, after, rfl, hbefore, hafter, hform⟩ := hw
  obtain ⟨c, t, hhead, hc⟩ := w.unsigned_head
  have hsign : w.unsigned.head? ≠ some 45 ∧ w.unsigned.head? ≠ some 43 := by
    rw [hhead]
    rcases hc with hc | rfl
    · exact digit_ne_sign hc
    · exact ⟨by simp, by simp⟩
  have hne : body ≠ [] := by
    rintro rfl
    rw [DecimalForm.text, hhead] at hform
    cases hs : signText w.sign <;> rw [hs] at hform <;> cases hform
  have hbody : ∀ c ∈ body, isPyAsciiSpace c = false := by
    intro c hc
    by_cases hunderscore : c = 95
    · rw [hunderscore]
      rfl
    · apply DecimalForm.formByte_not_space
      apply w.mem_text
      rw [← hform]
      exact List.mem_filter.mpr ⟨hc, by simpa using hunderscore⟩
  unfold parsePyDecimal at h
  dsimp only at h
  rw [trim_eq hbefore hafter hne hbody, hform, DecimalForm.text, takeSign_signText _ hsign] at h
  dsimp only at h
  have hinf : equalsIgnoreCase w.unsigned (text "inf") = false := by
    rw [hhead]
    exact not_word hc (.inl rfl)
  have hinfinity : equalsIgnoreCase w.unsigned (text "infinity") = false := by
    rw [hhead]
    exact not_word hc (.inl rfl)
  have hnan : equalsIgnoreCase (w.unsigned.take 3) (text "nan") = false := by
    rw [hhead]
    exact not_word hc (.inr (.inl rfl))
  have hsnan : equalsIgnoreCase (w.unsigned.take 4) (text "snan") = false := by
    rw [hhead]
    exact not_word hc (.inr (.inr rfl))
  rw [hinf, hinfinity, hnan, hsnan] at h
  simp only [Bool.or_self, Bool.and_false, Bool.false_and, Bool.false_eq_true, if_false] at h
  split_ifs at h
  exact w.normalise_form (DecimalForm.decimalNumber_unsigned h)

/-- What is read as a finite number is written as one. -/
theorem exists_written (h : parsePyDecimal raw = .ok (some d)) (hfinite : d.kind = .finite) :
    ∃ w, WrittenAs raw w := by
  unfold parsePyDecimal at h
  dsimp only at h
  obtain ⟨sign, hsign⟩ := takeSign_split
    (((raw.rdropWhile isPyAsciiSpace).dropWhile isPyAsciiSpace).filter (· ≠ 95))
  split_ifs at h
  · cases h
    cases hfinite
  · cases h
    cases hfinite
  · cases h
    cases hfinite
  · obtain ⟨w, rfl, hw⟩ := DecimalForm.exists_unsigned sign h
    rw [hw, ← DecimalForm.text] at hsign
    have hback := List.rdropWhile_append_rtakeWhile (p := isPyAsciiSpace) (l := raw)
    have hfront := List.takeWhile_append_dropWhile (p := isPyAsciiSpace)
      (l := raw.rdropWhile isPyAsciiSpace)
    refine ⟨w, (raw.rdropWhile isPyAsciiSpace).takeWhile isPyAsciiSpace, _,
      raw.rtakeWhile isPyAsciiSpace, ?_, ?_, ?_, hsign⟩
    · rw [← List.append_assoc, hfront, hback]
    · exact fun c hc => List.mem_takeWhile_imp hc
    · exact fun c hc => List.mem_rtakeWhile_imp hc

/-- A cell with a number stands for that of its decimal, and for no other. -/
theorem decimalOfCell_spec {cell : SqlCell} (h : FiniteNumber cell) (site : Text) :
    ∃ d, decimalOfCell cell site = .ok d ∧ d.Normal ∧ ∀ q, Denotes cell q ↔ q = d.value := by
  cases cell with
  | integer n =>
    obtain ⟨hnormal, hvalue⟩ := decimalOfInt_spec n
    refine ⟨_, rfl, hnormal, fun q => ?_⟩
    rw [hvalue]
    constructor
    · rintro ⟨⟩
      rfl
    · rintro rfl
      exact .integer n
  | real x =>
    obtain ⟨hnormal, hvalue, -⟩ := decimalOfDouble_spec h
    refine ⟨_, rfl, hnormal, fun q => ?_⟩
    rw [hvalue]
    constructor
    · rintro ⟨⟩
      rfl
    · rintro rfl
      exact .real h
  | text raw =>
    obtain ⟨d, hparse, hfinite⟩ := h
    obtain ⟨w, hw⟩ := exists_written hparse hfinite
    obtain ⟨hnormal, hvalue⟩ := parsePyDecimal_written hparse hw
    refine ⟨d, by rw [decimalOfCell, hparse], hnormal, fun q => ?_⟩
    constructor
    · rintro ⟨⟩
      next w' hw' => exact (parsePyDecimal_written hparse hw').2.symm
    · rintro rfl
      rw [hvalue]
      exact .text hw
  | null => cases h
  | blob bytes => cases h

end

end DSigMatcher.Preflight
