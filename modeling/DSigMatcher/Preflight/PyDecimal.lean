import DSigMatcher.Diff.PyInt
import DSigMatcher.Json.ReprShortest
import DSigMatcher.Preflight.BigInt
import Mathlib

namespace DSigMatcher.Preflight
open DSigMatcher.Base DSigMatcher.Framework DSigMatcher.Json JsonValue
open DSigMatcher.Diff (DiffError)

/-- `PyDecimal::Kind`. -/
inductive DecimalKind
  | finite
  | infinity
  | quietNaN
  | signalingNaN
  deriving DecidableEq

structure PyDecimal where
  kind : DecimalKind := .finite
  negative : Bool := false
  coefficient : Text := []
  exponent : Int := 0
  deriving DecidableEq

/-- `Normalise`: no zeros at either end of the coefficient. -/
def PyDecimal.normalise (d : PyDecimal) : PyDecimal :=
  let front := stripZeros d.coefficient
  if front.isEmpty then { d with coefficient := [], exponent := 0 }
  else
    let zeros := (front.reverse.takeWhile (· = 48)).length
    { d with coefficient := front.take (front.length-zeros), exponent := d.exponent+zeros }

/-- `Py_UNICODE_ISSPACE` of an ASCII byte. -/
def isPyAsciiSpace (c : UInt8) : Bool := c = 32 || 9 ≤ c && c ≤ 13 || 0x1c ≤ c && c ≤ 0x1f

def equalsIgnoreCase (a b : Text) : Bool := a.map lowerByte = b.map lowerByte

def allDigits (t : Text) : Bool := t.all isDigit

/-- The digits of an exponent without the zeros in front; one digit stays. -/
def dropZeros : Text → Text
  | c::d::t => if c = 48 then dropZeros (d::t) else c::d::t
  | t => t

/-- The exponent, and what follows it; `none` where a digit is missing. -/
def decimalExponent (t : Text) : Except DiffError (Option (Int × Text)) :=
  match t with
  | [] => .ok (some (0,[]))
  | c::r =>
    if c = 101 ∨ c = 69 then
      let signedRest := takeSign r
      let digits := signedRest.2.takeWhile isDigit
      if digits.isEmpty then .ok none
      else
        let expDigits := dropZeros digits
        if 15 < expDigits.length then
          .error (.unsupportedInput (text "check_callgraph: a Decimal exponent of " ++
            decimal expDigits.length ++ text " digits is not ported (libmpdec exponent limits)"))
        else
          let exponent : Int := digitsValue expDigits
          .ok (some (if signedRest.1 then -exponent else exponent,signedRest.2.dropWhile isDigit))
    else .ok (some (0,c::r))

/-- `ParsePyDecimal` after the sign, where no word stands. -/
def decimalNumber (negative : Bool) (rest : Text) : Except DiffError (Option PyDecimal) :=
  let integer := rest.takeWhile isDigit
  let fraction := takeFraction (rest.dropWhile isDigit)
  if integer.isEmpty && fraction.1.isEmpty then .ok none
  else
    match decimalExponent fraction.2 with
    | .error e => .error e
    | .ok none => .ok none
    | .ok (some (exponent,left)) =>
      if left.isEmpty then
        .ok (some (PyDecimal.normalise
          { negative, coefficient := integer ++ fraction.1, exponent := exponent-fraction.1.length }))
      else .ok none

/-- `ParsePyDecimal`; `none` where Python raises. -/
def parsePyDecimal (raw : Text) : Except DiffError (Option PyDecimal) :=
  if raw.any (fun c => 0x80 ≤ c) then
    .error (.unsupportedInput
      (text "check_callgraph: a non-ASCII callgraph_primes text is not ported (Python's Decimal " ++
        text "accepts Unicode digits and spaces)"))
  else
    let body := (raw.rdropWhile isPyAsciiSpace).dropWhile isPyAsciiSpace
    let signedRest := takeSign (body.filter (· ≠ 95))
    let negative := signedRest.1
    let rest := signedRest.2
    if equalsIgnoreCase rest (text "inf") || equalsIgnoreCase rest (text "infinity") then
      .ok (some { kind := .infinity, negative })
    else if 3 ≤ rest.length && equalsIgnoreCase (rest.take 3) (text "nan") &&
        allDigits (rest.drop 3) then
      .ok (some { kind := .quietNaN, negative })
    else if 4 ≤ rest.length && equalsIgnoreCase (rest.take 4) (text "snan") &&
        allDigits (rest.drop 4) then
      .ok (some { kind := .signalingNaN, negative })
    else decimalNumber negative rest

def decimalOfInt (value : Int64) : PyDecimal :=
  -- the unsigned negation, which the lowest value survives
  let magnitude : UInt64 := if value < 0 then 0-value.toUInt64 else value.toUInt64
  PyDecimal.normalise { negative := value < 0, coefficient := magOfU64 magnitude.toNat }

def decimalOfDouble (value : Binary64) : PyDecimal :=
  if value.isNaN then { kind := .quietNaN, negative := value.negative }
  else if value.isInfinite then { kind := .infinity, negative := value.negative }
  else
    let normal := frexp53 value.magnitude
    let coefficient := magOfU64 normal.1
    if 0 ≤ normal.2 then
      PyDecimal.normalise
        { negative := value.negative
          coefficient := (fun c => mulMagSmall c 2)^[normal.2.toNat] coefficient }
    else
      PyDecimal.normalise
        { negative := value.negative
          coefficient := (fun c => mulMagSmall c 5)^[(-normal.2).toNat] coefficient
          exponent := normal.2 }

/-- A fetched cell. -/
inductive SqlCell
  | null
  | integer (n : Int64)
  | real (x : Binary64)
  | text (bytes : Text)
  | blob (bytes : Text)
  deriving DecidableEq

def decimalOfCell (cell : SqlCell) (site : Text) : Except DiffError PyDecimal :=
  match cell with
  | .null => .error (.wouldRaise (site ++ text " TypeError")
      (text "conversion from NoneType to Decimal is not supported"))
  | .blob _ => .error (.wouldRaise (site ++ text " TypeError")
      (text "conversion from bytes to Decimal is not supported"))
  | .integer n => .ok (decimalOfInt n)
  | .real x => .ok (decimalOfDouble x)
  | .text bytes =>
    match parsePyDecimal bytes with
    | .error e => .error e
    | .ok none => .error (.wouldRaise (site ++ text " decimal.InvalidOperation")
        (text "[<class 'decimal.ConversionSyntax'>] for '" ++ bytes ++ text "'"))
    | .ok (some value) => .ok value

def decimalEquals (a b : PyDecimal) : Except DiffError Bool :=
  if a.kind = .signalingNaN ∨ b.kind = .signalingNaN then
    .error (.wouldRaise (text "D:1305 decimal.InvalidOperation")
      (text "comparison with a signaling NaN"))
  else if a.kind = .quietNaN ∨ b.kind = .quietNaN then .ok false
  else if a.kind = .infinity ∨ b.kind = .infinity then
    .ok (a.kind = b.kind && a.negative = b.negative)
  else if a.coefficient.isEmpty || b.coefficient.isEmpty then
    .ok (a.coefficient.isEmpty && b.coefficient.isEmpty)
  else
    .ok (a.negative = b.negative && a.coefficient = b.coefficient && a.exponent = b.exponent)

namespace PyDecimal

/-- The number that a finite decimal is. -/
def value (d : PyDecimal) : ℚ :=
  if d.negative then -decimalRat d.coefficient d.exponent else decimalRat d.coefficient d.exponent

/-- What `Normalise` leaves of a finite decimal. -/
structure Normal (d : PyDecimal) : Prop where
  finite : d.kind = .finite
  digit : ∀ c ∈ d.coefficient, isDigit c = true
  head : d.coefficient.head? ≠ some 48
  last : d.coefficient.getLast? ≠ some 48

section
variable {d d' : PyDecimal}

theorem normalise_spec (hfinite : d.kind = .finite)
    (hdigit : ∀ c ∈ d.coefficient, isDigit c = true) :
    d.normalise.Normal ∧ d.normalise.value = d.value ∧ d.normalise.negative = d.negative := by
  have hstrip := strip_spec d.exponent hdigit
  rw [normalise]
  dsimp only at hstrip ⊢
  split_ifs with hempty
  · have hzero : digitsValue d.coefficient = 0 := by
      rw [← digitsValue_stripZeros, List.isEmpty_iff.mp hempty]
      rfl
    have hnil : digitsValue [] = 0 := rfl
    refine ⟨⟨hfinite, by simp, by simp, by simp⟩, ?_, rfl⟩
    simp only [value, decimalRat, hzero, hnil, Nat.cast_zero, zero_mul]
  · refine ⟨⟨hfinite, hstrip.digit, hstrip.head, hstrip.last⟩, ?_, rfl⟩
    unfold value
    dsimp only
    rw [stripZeros, hstrip.value]

theorem Normal.rat_pos (h : d.Normal) (hne : d.coefficient ≠ []) :
    0 < decimalRat d.coefficient d.exponent :=
  mul_pos (Nat.cast_pos.mpr (digitsValue_pos h.digit hne h.last)) (zpow_pos (by norm_num) _)

theorem Normal.value_eq_zero (h : d.Normal) : d.value = 0 ↔ d.coefficient = [] := by
  constructor
  · intro hzero
    by_contra hne
    have hpos := h.rat_pos hne
    unfold value at hzero
    split_ifs at hzero <;> linarith
  · intro hnil
    simp [value, decimalRat, hnil, digitsValue]

theorem Normal.not_dvd (h : d.Normal) (hne : d.coefficient ≠ []) :
    ¬ 10 ∣ digitsValue d.coefficient := by
  obtain ⟨t, c, hsplit⟩ := (List.eq_nil_or_concat d.coefficient).resolve_left hne
  have hdigit := digit_lt (h.digit c (by rw [hsplit, List.concat_eq_append]; simp))
  have hlast : c ≠ 48 := by
    intro hc
    apply h.last
    rw [hsplit, List.concat_eq_append, List.getLast?_concat, hc]
  have hzero : c.toNat ≠ 48 := fun h48 =>
    hlast (UInt8.toNat_inj.mp (h48.trans (rfl : (48 : UInt8).toNat = 48).symm))
  rw [hsplit, List.concat_eq_append, digitsValue_append]
  omega

/-- The normal form of a number other than zero is unique. -/
theorem Normal.unique (h : d.Normal) (h' : d'.Normal) (hne : d.coefficient ≠ [])
    (hne' : d'.coefficient ≠ []) (hvalue : d.value = d'.value) :
    d.negative = d'.negative ∧ d.coefficient = d'.coefficient ∧ d.exponent = d'.exponent := by
  have hpos := h.rat_pos hne
  have hpos' := h'.rat_pos hne'
  have hparts : d.negative = d'.negative ∧
      decimalRat d.coefficient d.exponent = decimalRat d'.coefficient d'.exponent := by
    unfold value at hvalue
    cases hsign : d.negative <;> cases hsign' : d'.negative <;>
      rw [hsign, hsign'] at hvalue <;> simp at hvalue
    · exact ⟨rfl, hvalue⟩
    · linarith
    · linarith
    · exact ⟨rfl, hvalue⟩
  have hscaled := hparts.2
  rw [decimalRat, decimalRat] at hscaled
  obtain ⟨hdigits, hexp⟩ := scaled_inj (b := 10) (by decide) (h.not_dvd hne) (h'.not_dvd hne')
    (by exact_mod_cast hscaled)
  refine ⟨hparts.1, ?_, hexp⟩
  rw [eq_magOfU64 h.digit h.head, hdigits, ← eq_magOfU64 h'.digit h'.head]

/-- Normal decimals are equal where their numbers are. -/
theorem decimalEquals_normal (h : d.Normal) (h' : d'.Normal) :
    decimalEquals d d' = .ok (decide (d.value = d'.value)) := by
  have hzero := h.value_eq_zero
  have hzero' := h'.value_eq_zero
  unfold decimalEquals
  rw [h.finite, h'.finite]
  simp only [reduceCtorEq, or_self, if_false]
  split_ifs with hempty
  · congr 1
    rw [Bool.eq_iff_iff]
    simp only [Bool.or_eq_true, Bool.and_eq_true, List.isEmpty_iff, decide_eq_true_iff,
      ← hzero, ← hzero'] at hempty ⊢
    constructor
    · rintro ⟨hd, hd'⟩
      rw [hd, hd']
    · intro heq
      rcases hempty with hd | hd'
      · exact ⟨hd, heq.symm.trans hd⟩
      · exact ⟨heq.trans hd', hd'⟩
  · simp only [Bool.or_eq_true, List.isEmpty_iff, not_or] at hempty
    congr 1
    rw [Bool.eq_iff_iff]
    simp only [Bool.and_eq_true, decide_eq_true_iff]
    constructor
    · rintro ⟨⟨hsign, hdigits⟩, hexp⟩
      unfold value
      rw [hsign, hdigits, hexp]
    · intro heq
      obtain ⟨hsign, hdigits, hexp⟩ := h.unique h' hempty.1 hempty.2 heq
      exact ⟨⟨hsign, hdigits⟩, hexp⟩

end

end PyDecimal

section
variable {x : Binary64}

theorem decimalRat_magOfU64 (n : Nat) (e : Int) : decimalRat (magOfU64 n) e = n*10^e := by
  rw [decimalRat, digitsValue_magOfU64]

theorem magnitude_toNat (n : Int64) :
    (if n < 0 then 0-n.toUInt64 else n.toUInt64).toNat = n.toInt.natAbs := by
  have hlt : n.toUInt64.toNat < 2^64 := n.toUInt64.toNat_lt
  have hint : n.toInt = if 2*n.toUInt64.toNat < 2^64 then (n.toUInt64.toNat : Int)
      else n.toUInt64.toNat-2^64 := BitVec.toInt_eq_toNat_cond n.toBitVec
  have hsub : (0-n.toUInt64).toNat = (2^64-n.toUInt64.toNat+0)%2^64 := UInt64.toNat_sub 0 n.toUInt64
  have hneg : n < 0 ↔ n.toInt < 0 := Int64.lt_iff_toInt_lt
  simp only [hneg]
  split_ifs at hint ⊢ <;> omega

/-- `Decimal(int)` is exact. -/
theorem decimalOfInt_spec (n : Int64) :
    (decimalOfInt n).Normal ∧ (decimalOfInt n).value = n.toInt := by
  have hneg : n < 0 ↔ n.toInt < 0 := Int64.lt_iff_toInt_lt
  unfold decimalOfInt
  dsimp only
  rw [magnitude_toNat]
  obtain ⟨hnormal, hvalue, -⟩ := PyDecimal.normalise_spec
    (d := { negative := decide (n < 0), coefficient := magOfU64 n.toInt.natAbs }) rfl
    (magOfU64_digit _)
  refine ⟨hnormal, ?_⟩
  rw [hvalue, PyDecimal.value]
  dsimp only
  rw [decimalRat_magOfU64, zpow_zero, mul_one]
  simp only [decide_eq_true_iff, hneg]
  split_ifs with hsign
  · have habs : (n.toInt.natAbs : Int) = -n.toInt := by omega
    rw [← Int.cast_natCast, habs, Int.cast_neg, neg_neg]
  · have habs : (n.toInt.natAbs : Int) = n.toInt := by omega
    rw [← Int.cast_natCast, habs]

theorem frexp53_value (m : Nat) : ((frexp53 m).1 : ℚ)*2^(frexp53 m).2 = Binary64.grid m := by
  by_cases hm : m = 0
  · subst hm
    rw [Binary64.grid_zero]
    have hzero : (frexp53 0).1 = 0 := rfl
    rw [hzero, Nat.cast_zero, zero_mul]
  · exact (frexp53_spec hm).1

/-- `Decimal(float)` is exact. -/
theorem decimalOfDouble_spec (hx : x.Finite) :
    (decimalOfDouble x).Normal ∧ (decimalOfDouble x).value = x.value ∧
      (decimalOfDouble x).negative = x.negative := by
  obtain ⟨hnan, hinf⟩ := hx.not_special
  have hgrid := frexp53_value x.magnitude
  unfold decimalOfDouble
  rw [hnan, hinf]
  simp only [Bool.false_eq_true, if_false]
  generalize frexp53 x.magnitude = normal at hgrid
  rw [mulMagSmall_iterate, mulMagSmall_iterate]
  split_ifs with hsign
  · obtain ⟨hnormal, hvalue, hneg⟩ := PyDecimal.normalise_spec
      (d := { negative := x.negative, coefficient := magOfU64 (normal.1*2^normal.2.toNat) }) rfl
      (magOfU64_digit _)
    refine ⟨hnormal, ?_, hneg⟩
    have hpow : (2 : ℚ)^normal.2.toNat = 2^normal.2 := by
      rw [← zpow_natCast, Int.toNat_of_nonneg hsign]
    rw [hvalue, PyDecimal.value, Binary64.value, ← hgrid]
    dsimp only
    rw [decimalRat_magOfU64, zpow_zero, mul_one, Nat.cast_mul, Nat.cast_pow, Nat.cast_ofNat, hpow]
  · obtain ⟨hnormal, hvalue, hneg⟩ := PyDecimal.normalise_spec
      (d := { negative := x.negative, coefficient := magOfU64 (normal.1*5^(-normal.2).toNat)
              exponent := normal.2 }) rfl (magOfU64_digit _)
    refine ⟨hnormal, ?_, hneg⟩
    -- `m * 2^-k` is `m * 5^k * 10^-k`
    have hpow : (5 : ℚ)^(-normal.2).toNat*10^normal.2 = 2^normal.2 := by
      have hten : (10 : ℚ) = 5*2 := by norm_num
      rw [← zpow_natCast, Int.toNat_of_nonneg (by omega), hten, mul_zpow, ← mul_assoc,
        ← zpow_add₀ (by norm_num), neg_add_cancel, zpow_zero, one_mul]
    rw [hvalue, PyDecimal.value, Binary64.value, ← hgrid]
    dsimp only
    rw [decimalRat_magOfU64, Nat.cast_mul, Nat.cast_pow, Nat.cast_ofNat, mul_assoc, hpow]

end

end DSigMatcher.Preflight
