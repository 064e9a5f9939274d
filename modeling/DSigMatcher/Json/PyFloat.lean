import DSigMatcher.Json.DecimalToDouble
import Mathlib

namespace DSigMatcher.Json
open DSigMatcher.Base DSigMatcher.Framework JsonValue

/-- Py_ISSPACE: space, `\t`, `\n`, `\v`, `\f`, `\r`. -/
def isPySpace (c : UInt8) : Bool := c = 32 || c = 9 || c = 10 || c = 11 || c = 12 || c = 13

/-- The loop over underscores after a byte; each stands between two digits. -/
def dropUnderscores : UInt8 → Text → Option Text
  | prev, [] => if prev = 95 then none else some []
  | prev, c::t =>
    if c = 95 then if isDigit prev then dropUnderscores c t else none
    else if prev = 95 && !isDigit c then none
    else (dropUnderscores c t).map (c::·)

/-- The sign, and what follows it. -/
def takeSign (t : Text) : Bool × Text :=
  match t with
  | [] => (false,[])
  | c::r => if c = 45 then (true,r) else if c = 43 then (false,r) else (false,c::r)

def lowerByte (c : UInt8) : UInt8 := if 65 ≤ c ∧ c ≤ 90 then c-65+97 else c

/-- `EqualsIgnoreCase` at the beginning of a text. -/
def startsIgnoringCase (t word : Text) : Bool := startsWith (t.map lowerByte) word

/-- A number for `inf` and `nan`: [sign] (inf | infinity | nan), in any case. -/
def parseInfOrNan (body : Text) : Option Binary64 :=
  let negative := (takeSign body).1
  let word := (takeSign body).2
  if startsIgnoringCase word (text "inf") then
    let rest := word.drop 3
    let rest := if startsIgnoringCase rest (text "inity") then rest.drop 5 else rest
    if rest.isEmpty then some (signed negative Binary64.infinityMagnitude) else none
  else if startsIgnoringCase word (text "nan") then
    if (word.drop 3).isEmpty then some (signed negative PyJsonParser.nan.magnitude) else none
  else none

/-- The value of an exponent's digits, clamped. -/
def clampedExponent (digits : Text) : Nat :=
  let significant := digits.dropWhile (· = 48)
  let value := significant.foldl (fun value c =>
    if value ≤ maxAbsExp then value*10+(c.toNat-48) else value) 0
  if 8 < significant.length ∨ maxAbsExp < value then maxAbsExp else value

/-- The exponent and what follows it; without a digit nothing is consumed. -/
def takeExponent (t : Text) : Int × Text :=
  match t with
  | [] => (0,[])
  | c::r =>
    if c = 101 ∨ c = 69 then
      let signedRest := takeSign r
      if signedRest.2.head?.any isDigit then
        let value : Int := clampedExponent (signedRest.2.takeWhile isDigit)
        (if signedRest.1 then -value else value,signedRest.2.dropWhile isDigit)
      else (0,c::r)
    else (0,c::r)

/-- The digits after a point, and what follows them. -/
def takeFraction (t : Text) : Text × Text :=
  match t with
  | [] => ([],[])
  | c::r => if c = 46 then (r.takeWhile isDigit,r.dropWhile isDigit) else ([],c::r)

/-- The number that the text is from its first to its last byte that is no space. -/
def parseBody (body : Text) : Option Binary64 :=
  let signedRest := takeSign body
  let integer := signedRest.2.takeWhile isDigit
  let fraction := takeFraction (signedRest.2.dropWhile isDigit)
  if (integer ++ fraction.1).isEmpty then parseInfOrNan body
  else
    let exponent := takeExponent fraction.2
    if exponent.2.isEmpty then
      some (BigUInt.decimalToDouble signedRest.1 (integer ++ fraction.1)
        (exponent.1-fraction.1.length))
    else none

/-- `PyFloatAscii`. -/
def pyFloatAscii (input : Text) : Option Binary64 :=
  if input.contains 0 then none
  else
    match if input.contains 95 then dropUnderscores 0 input else some input with
    | none => none
    | some t =>
      let front := t.dropWhile isPySpace
      if front.isEmpty then none else parseBody (front.rdropWhile isPySpace)

/-- `PyFloat`. -/
def pyFloat (t : Text) : Except PyLoadsError (Option Binary64) :=
  if t.any (fun c => 0x80 ≤ c) then
    .error (.unsupportedInput
      (text "float(): non-ASCII text is not ported (Unicode digit/space mapping)"))
  else .ok (pyFloatAscii t)

/-- A number written out: a sign, digits with a point among them, and an exponent. -/
structure Written where
  negative : Bool
  integer : Text
  fraction : Option Text
  exponent : Option (Bool × Text)
  digit : ∀ c ∈ integer ++ fraction.getD [], isDigit c = true
  nonempty : integer ++ fraction.getD [] ≠ []
  exponentDigit : ∀ e ∈ exponent, e.2 ≠ [] ∧ e.2.length ≤ 8 ∧ ∀ c ∈ e.2, isDigit c = true

namespace Written
variable (w : Written)

def digits : Text := w.integer ++ w.fraction.getD []

def fractionText : Text :=
  match w.fraction with
  | none => []
  | some digits => 46::digits

def exponentText : Text :=
  match w.exponent with
  | none => []
  | some (minus,digits) => 101::(if minus then 45 else 43)::digits

/-- All of it but the sign. -/
def unsigned : Text := w.integer ++ (w.fractionText ++ w.exponentText)

def text : Text := if w.negative then 45::w.unsigned else w.unsigned

def exponentValue : Int :=
  match w.exponent with
  | none => 0
  | some (minus,digits) => if minus then -(digitsValue digits : Int) else digitsValue digits

/-- The exponent that goes with all the digits. -/
def exp10 : Int := w.exponentValue-(w.fraction.getD []).length

/-- No byte of a written number is a space, an underscore or one that is not ASCII. -/
def plain (c : UInt8) : Bool := isDigit c || c = 45 || c = 43 || c = 46 || c = 101

theorem mem_text {c : UInt8} (hc : c ∈ w.text) : plain c = true := by
  have hdigit : ∀ d ∈ w.digits, plain d = true := fun d hd => by simp [plain, w.digit d hd]
  have hunsigned : c ∈ w.unsigned → plain c = true := by
    intro hc
    rcases List.mem_append.mp hc with hc | hc
    · exact hdigit c (List.mem_append_left _ hc)
    · rcases List.mem_append.mp hc with hc | hc
      · unfold fractionText at hc
        cases hf : w.fraction with
        | none => simp [hf] at hc
        | some ds =>
          rw [hf] at hc
          rcases List.mem_cons.mp hc with rfl | hc
          · rfl
          · exact hdigit c (List.mem_append_right _ (by rw [hf]; exact hc))
      · unfold exponentText at hc
        cases he : w.exponent with
        | none => simp [he] at hc
        | some e =>
          obtain ⟨minus, ds⟩ := e
          rw [he] at hc
          rcases List.mem_cons.mp hc with rfl | hc
          · rfl
          · rcases List.mem_cons.mp hc with rfl | hc
            · cases minus <;> rfl
            · simp [plain, (w.exponentDigit (minus,ds) he).2.2 c hc]
  unfold text at hc
  split_ifs at hc
  · rcases List.mem_cons.mp hc with rfl | hc
    · rfl
    · exact hunsigned hc
  · exact hunsigned hc

theorem plain_iff {c : UInt8} (hc : plain c = true) :
    c ≠ 0 ∧ c ≠ 95 ∧ isPySpace c = false ∧ c < 0x80 := by
  revert c
  decide +kernel

theorem span_digits {ds t : Text} (hds : ∀ c ∈ ds, isDigit c = true)
    (ht : t.head?.any isDigit = false) :
    (ds ++ t).takeWhile isDigit = ds ∧ (ds ++ t).dropWhile isDigit = t := by
  rw [List.takeWhile_append_of_pos hds, List.dropWhile_append_of_pos hds]
  cases t with
  | nil => exact ⟨List.append_nil _, rfl⟩
  | cons c t =>
    have hc : isDigit c = false := by simpa using ht
    rw [List.takeWhile_cons_of_neg (by simp [hc]), List.dropWhile_cons_of_neg (by simp [hc])]
    exact ⟨List.append_nil _, rfl⟩

theorem clampedExponent_eq {ds : Text} (hds : ∀ c ∈ ds, isDigit c = true) (hlen : ds.length ≤ 8) :
    clampedExponent ds = digitsValue ds := by
  have hround : ∀ t : Text, (∀ c ∈ t, isDigit c = true) → t.length ≤ 8 →
      t.foldl (fun value c => if value ≤ maxAbsExp then value*10+(c.toNat-48) else value) 0 =
        digitsValue t := by
    intro t
    induction t using List.reverseRecOn with
    | nil => intro _ _; rfl
    | append_singleton t c ih =>
      intro ht htlen
      have hdigits : ∀ d ∈ t, isDigit d = true := fun d hd => ht d (List.mem_append_left _ hd)
      rw [List.length_append, List.length_singleton] at htlen
      have hlt : digitsValue t < 10^7 :=
        Nat.lt_of_lt_of_le (digitsValue_lt hdigits) (Nat.pow_le_pow_right (by norm_num) (by omega))
      have hmax : digitsValue t ≤ maxAbsExp := by
        unfold maxAbsExp
        omega
      rw [List.foldl_append, ih hdigits (by omega), List.foldl_cons, List.foldl_nil, if_pos hmax,
        digitsValue_append]
  have hsplit := List.takeWhile_append_dropWhile (p := fun c : UInt8 => decide (c = 48)) (l := ds)
  have hzeros : digitsValue (ds.takeWhile (· = 48)) = 0 :=
    digitsValue_zeros fun c hc => mem_takeWhile_zeros hc
  have hvalue : digitsValue ds = digitsValue (ds.dropWhile (· = 48)) := by
    conv_lhs => rw [← hsplit, digitsValue_join, hzeros, Nat.zero_mul, Nat.zero_add]
  have hrest : ∀ c ∈ ds.dropWhile (· = 48), isDigit c = true := fun c hc =>
    hds c ((List.dropWhile_sublist _).subset hc)
  have hrestlen : (ds.dropWhile (· = 48)).length ≤ 8 :=
    Nat.le_trans (List.dropWhile_sublist _).length_le hlen
  have hlt : digitsValue (ds.dropWhile (· = 48)) < 10^8 :=
    Nat.lt_of_lt_of_le (digitsValue_lt hrest) (Nat.pow_le_pow_right (by norm_num) hrestlen)
  unfold clampedExponent
  dsimp only
  rw [hround _ hrest hrestlen, ← hvalue] at *
  rw [if_neg]
  unfold maxAbsExp
  omega

theorem takeSign_unsigned {t : Text} (h : t.head? ≠ some 45 ∧ t.head? ≠ some 43) :
    takeSign t = (false,t) := by
  cases t with
  | nil => rfl
  | cons c t =>
    have h45 : c ≠ 45 := fun hc => h.1 (by rw [hc]; rfl)
    have h43 : c ≠ 43 := fun hc => h.2 (by rw [hc]; rfl)
    rw [takeSign]
    simp [h45, h43]

theorem digit_ne_sign {t : Text} (ht : t.head?.any isDigit = true) :
    t.head? ≠ some 45 ∧ t.head? ≠ some 43 := by
  constructor
  all_goals
    intro h
    rw [h] at ht
    exact absurd ht (by decide)

theorem takeExponent_text : takeExponent w.exponentText = (w.exponentValue,[]) := by
  unfold exponentText exponentValue
  cases he : w.exponent with
  | none => rfl
  | some e =>
    obtain ⟨minus, ds⟩ := e
    obtain ⟨hne, hlen, hds⟩ := w.exponentDigit (minus,ds) he
    obtain ⟨d, ds', hcons⟩ := List.exists_cons_of_ne_nil hne
    have hhead : ds.head?.any isDigit = true := by
      change ds = d::ds' at hcons
      rw [hcons, List.head?_cons, Option.any_some]
      exact hds d (by rw [hcons]; exact List.mem_cons_self)
    have hspan := span_digits (t := []) hds rfl
    rw [List.append_nil] at hspan
    have hsign : takeSign ((if minus then 45 else 43)::ds) = (minus,ds) := by
      cases minus <;> rfl
    dsimp only
    rw [takeExponent, if_pos (.inl rfl)]
    dsimp only
    rw [hsign]
    dsimp only
    rw [if_pos hhead, hspan.1, hspan.2, clampedExponent_eq hds hlen]

theorem exponentText_head : w.exponentText.head?.any isDigit = false := by
  unfold exponentText
  cases w.exponent <;> rfl

theorem fractionText_head : (w.fractionText ++ w.exponentText).head?.any isDigit = false := by
  unfold fractionText
  cases w.fraction with
  | none => exact w.exponentText_head
  | some ds => rfl

theorem takeFraction_text :
    takeFraction (w.fractionText ++ w.exponentText) = (w.fraction.getD [],w.exponentText) := by
  unfold fractionText
  cases hf : w.fraction with
  | none =>
    unfold exponentText
    cases w.exponent <;> rfl
  | some ds =>
    have hds : ∀ c ∈ ds, isDigit c = true := fun c hc =>
      w.digit c (List.mem_append_right _ (by rw [hf]; exact hc))
    obtain ⟨htake, hdrop⟩ := span_digits hds w.exponentText_head
    rw [List.cons_append, takeFraction, if_pos rfl, htake, hdrop]
    rfl

/-- The first byte behind the sign is a digit or the point. -/
theorem unsigned_head : w.unsigned.head? ≠ some 45 ∧ w.unsigned.head? ≠ some 43 := by
  unfold unsigned
  cases hi : w.integer with
  | cons c t =>
    apply digit_ne_sign
    exact w.digit c (by rw [hi]; exact List.mem_cons_self)
  | nil =>
    unfold fractionText
    cases hf : w.fraction with
    | none =>
      have hne := w.nonempty
      rw [hi, hf] at hne
      exact absurd rfl hne
    | some ds => exact ⟨by simp, by simp⟩

theorem takeSign_text : takeSign w.text = (w.negative,w.unsigned) := by
  unfold text
  cases w.negative with
  | true => rfl
  | false => exact takeSign_unsigned w.unsigned_head

theorem parseBody_text :
    parseBody w.text = some (BigUInt.decimalToDouble w.negative w.digits w.exp10) := by
  have hint : ∀ c ∈ w.integer, isDigit c = true := fun c hc =>
    w.digit c (List.mem_append_left _ hc)
  obtain ⟨htake, hdrop⟩ := span_digits hint w.fractionText_head
  have hne : (w.integer ++ w.fraction.getD []).isEmpty = false := by
    rw [List.isEmpty_eq_false_iff]
    exact w.nonempty
  unfold parseBody
  rw [takeSign_text]
  dsimp only
  rw [unsigned, htake, hdrop, takeFraction_text]
  dsimp only
  rw [hne, if_neg Bool.false_ne_true, takeExponent_text]
  rfl

theorem dropWhile_of_none {α : Type*} {p : α → Bool} {l : List α} (h : ∀ x ∈ l, p x = false) :
    l.dropWhile p = l := by
  cases l with
  | nil => rfl
  | cons x l => rw [List.dropWhile_cons_of_neg (by simp [h x List.mem_cons_self])]

/-- A written number is read as its digits and its exponent are. -/
theorem pyFloat_text :
    pyFloat w.text = .ok (some (BigUInt.decimalToDouble w.negative w.digits w.exp10)) := by
  have hplain : ∀ c ∈ w.text, c ≠ 0 ∧ c ≠ 95 ∧ isPySpace c = false ∧ c < 0x80 := fun c hc =>
    plain_iff (w.mem_text hc)
  have hascii : w.text.any (fun c => 0x80 ≤ c) = false := by
    rw [List.any_eq_false]
    intro c hc
    rw [decide_eq_true_iff]
    exact UInt8.not_le.mpr (hplain c hc).2.2.2
  have hzero : w.text.contains 0 = false := by
    rw [List.contains_eq_mem, decide_eq_false_iff_not]
    exact fun hc => (hplain 0 hc).1 rfl
  have hunder : w.text.contains 95 = false := by
    rw [List.contains_eq_mem, decide_eq_false_iff_not]
    exact fun hc => (hplain 95 hc).2.1 rfl
  have hspace : ∀ c ∈ w.text, isPySpace c = false := fun c hc => (hplain c hc).2.2.1
  have hback : w.text.rdropWhile isPySpace = w.text := by
    rw [List.rdropWhile, dropWhile_of_none, List.reverse_reverse]
    exact fun c hc => hspace c (List.mem_reverse.mp hc)
  have hne : w.text.isEmpty = false := by
    rw [List.isEmpty_eq_false_iff]
    intro hnil
    have hsign := w.takeSign_text
    rw [hnil] at hsign
    have hunsigned : w.unsigned = [] := (congrArg Prod.snd hsign).symm
    unfold unsigned fractionText at hunsigned
    have hi := (List.append_eq_nil_iff.mp hunsigned).1
    have hf := (List.append_eq_nil_iff.mp (List.append_eq_nil_iff.mp hunsigned).2).1
    have hnonempty := w.nonempty
    cases hfraction : w.fraction with
    | none =>
      rw [hi, hfraction] at hnonempty
      exact hnonempty rfl
    | some ds =>
      rw [hfraction] at hf
      exact List.cons_ne_nil _ _ hf
  unfold pyFloat pyFloatAscii
  rw [hascii, if_neg Bool.false_ne_true, hzero, if_neg Bool.false_ne_true, hunder,
    if_neg Bool.false_ne_true]
  dsimp only
  rw [dropWhile_of_none hspace, hne, if_neg Bool.false_ne_true, hback, parseBody_text]

end Written
end DSigMatcher.Json
