import DSigMatcher.Json.PyJson
import DSigMatcher.Json.RoundTrip
import Mathlib.Data.List.DropRight

namespace DSigMatcher.Json
open DSigMatcher.Base DSigMatcher.Framework

/-- The exponent of a number text, from its letter on. -/
def exponentOf : Text → Int
  | [] => 0
  | _::r =>
    let value : Int := exponentValue (if r.head? = some 43 ∨ r.head? = some 45 then r.tail else r)
    if r.head? = some 45 then -value else value

/-- The fraction of a number text, after its integer part. -/
def fractionOf (t : Text) : Text :=
  match t with
  | 46::r => r.takeWhile isDigit
  | _ => []

/-- What is behind the fraction. -/
def afterFraction (t : Text) : Text :=
  match t with
  | 46::r => dropDigits r
  | _ => t

/-- The number that a text of the JSON grammar names: an integer, in canonical form, or a float. -/
def pyDecimal (t : Text) : PyValue :=
  let negative : Bool := t.head? = some 45
  let body := if negative then t.tail else t
  let integer := body.takeWhile isDigit
  let r := dropDigits body
  if r.isEmpty then .int (if integer = [48] || !negative then integer else 45::integer)
  else .float (decimalToDouble negative (integer ++ fractionOf r)
    (exponentOf (afterFraction r)-(fractionOf r).length))

/-- The number of a number text, the three of `PythonCompat` included. -/
def pyNumber (t : Text) : PyValue :=
  if t = text "NaN" then .float PyJsonParser.nan
  else if t = text "Infinity" then .float (signed false Binary64.infinityMagnitude)
  else if t = text "-Infinity" then .float (signed true Binary64.infinityMagnitude)
  else pyDecimal t

example : pyNumber (text "-0") = .int (text "0") := by rfl

mutual

/-- The Python value of a JSON value. -/
def pyValue : JsonValue → PyValue
  | .null => .none
  | .bool b => .bool b
  | .number t => pyNumber t
  | .string t => .str t
  | .array items => .list (pyItems items)
  | .object members => .dict (pyMembers members)

def pyItems : List JsonValue → List PyValue
  | [] => []
  | v::vs => pyValue v::pyItems vs

def pyMembers : List (Text × JsonValue) → List (Text × PyValue)
  | [] => []
  | (k,v)::ms => (k,pyValue v)::pyMembers ms

end

theorem pyItems_append (vs ws : List JsonValue) :
    pyItems (vs ++ ws) = pyItems vs ++ pyItems ws := by
  induction vs with
  | nil => rfl
  | cons v vs ih => simp [pyItems, ih]

/-- Both ways to assign a member correspond. -/
theorem pyMembers_setMember (key : Text) (v : JsonValue) (ms : List (Text × JsonValue)) :
    pyMembers (JsonValue.setMember key v ms) =
      PyJsonParser.setItem key (pyValue v) (pyMembers ms) := by
  induction ms with
  | nil => rfl
  | cons m ms ih =>
    obtain ⟨k, w⟩ := m
    by_cases hk : k = key
    · simp [JsonValue.setMember, PyJsonParser.setItem, pyMembers, hk]
    · simp [JsonValue.setMember, PyJsonParser.setItem, pyMembers, hk, ih]

/-- Two results that are both errors, or both values that correspond with the same text left. -/
def Agree {α β : Type} (f : α → β) (r : Parsed α) (s : PyParsed β) : Prop :=
  s.toOption = r.toOption.map fun v => (f v.1,v.2)

section
variable {α β : Type} {f : α → β}

theorem agree_ok (v : α) (rest : Text) : Agree f (.ok (v,rest)) (.ok (f v,rest)) := rfl

theorem agree_error (e : JsonError) (e' : PyJsonError) : Agree f (.error e) (.error e') := rfl

theorem Agree.cases {r : Parsed α} {s : PyParsed β} (h : Agree f r s) :
    (∃ v rest, r = .ok (v,rest) ∧ s = .ok (f v,rest)) ∨ ∃ e e', r = .error e ∧ s = .error e' := by
  cases r with
  | error e =>
    cases s with
    | error e' => exact Or.inr ⟨e, e', rfl, rfl⟩
    | ok w => cases h
  | ok v =>
    cases s with
    | error e' => cases h
    | ok w =>
      have hw : w = (f v.1,v.2) := Option.some.inj h
      exact Or.inl ⟨v.1, v.2, rfl, by rw [hw]⟩

end

theorem skipWs_eq (t : Text) : skipWs t = skipWhitespace t := by cases t <;> rfl

section
variable (p : Parser) (q : PyJsonParser)

theorem hexDigits_agree (n value : Nat) (t : Text) :
    Agree id (p.hexDigits n value t) (q.hexDigits n value t) := by
  induction n generalizing value t with
  | zero => exact agree_ok value t
  | succ n ih =>
    cases t with
    | nil => exact agree_error _ _
    | cons c rest =>
      unfold Parser.hexDigits PyJsonParser.hexDigits hexValue
      split_ifs
      · exact ih _ rest
      · exact ih _ rest
      · exact ih _ rest
      · exact agree_error _ _

theorem hex4_agree (t : Text) : Agree id (p.parseHex4 t) (q.hex4 t) := by
  unfold Parser.parseHex4 PyJsonParser.hex4
  split_ifs
  · exact agree_error _ _
  · exact hexDigits_agree p q 4 0 t

theorem hexDigits_rest (n value : Nat) (t : Text) (v : Nat) (rest : Text)
    (h : p.hexDigits n value t = .ok (v,rest)) : rest = t.drop n := by
  induction n generalizing value t with
  | zero =>
    cases h
    rfl
  | succ n ih =>
    cases t with
    | nil => cases h
    | cons c t =>
      simp only [Parser.hexDigits] at h
      split at h
      · exact ih _ t h
      · cases h

theorem hex4_rest (t : Text) (v : Nat) (rest : Text) (h : p.parseHex4 t = .ok (v,rest)) :
    rest = t.drop 4 := by
  unfold Parser.parseHex4 at h
  split_ifs at h
  · cases h
  · exact hexDigits_rest p 4 0 t v rest h

theorem parseString_nil (fuel : Nat) : ∃ e, p.parseString fuel [] = .error e := by
  cases fuel with
  | zero => exact ⟨_, rfl⟩
  | succ fuel => exact ⟨_, rfl⟩

/-- A text that is one `\uXXXX` holds no closing quote. -/
theorem parseString_lastEscape (fuel : Nat) (t : Text) (hlength : t.length = 6)
    (hescape : t.take 2 = [92, 117]) : ∃ e, p.parseString fuel t = .error e := by
  obtain ⟨tail, rfl⟩ : ∃ tail, t = 92::117::tail := by
    refine ⟨t.drop 2, ?_⟩
    rw [← List.take_append_drop 2 t, hescape]
    simp
  have htail : tail.length = 4 := by simpa using hlength
  cases fuel with
  | zero => exact ⟨_, rfl⟩
  | succ fuel =>
    have hescape : p.parseEscape 117 tail = p.parseUnicode tail := rfl
    simp only [Parser.parseString, hescape, Parser.parseUnicode]
    cases hhex : p.parseHex4 tail with
    | error e => exact ⟨e, rfl⟩
    | ok r =>
      obtain ⟨code, rest⟩ := r
      obtain rfl : rest = [] := by
        rw [hex4_rest p tail code rest hhex]
        exact List.drop_eq_nil_of_le (by omega)
      obtain ⟨e, he⟩ := parseString_nil p fuel
      exact ⟨e, by simp [Parser.prepend, he]⟩

theorem prepend_agree (bytes : Text) {r : Parsed Text} {s : PyParsed Text} (h : Agree id r s) :
    Agree id (Parser.prepend bytes r) (PyJsonParser.prepend bytes s) := by
  rcases h.cases with ⟨v, rest, rfl, rfl⟩ | ⟨e, e', rfl, rfl⟩
  · exact agree_ok _ _
  · exact agree_error _ _

/-- A `\u` escape and the rest of the string: where only one side tries to pair a high surrogate
with what follows it, the string does not end. -/
theorem unicode_agree (fuel : Nat) (t : Text)
    (ih : ∀ t, Agree id (p.parseString fuel t) (q.parseString fuel t)) :
    Agree id
      (match p.parseUnicode t with
        | .error e => .error e
        | .ok (bytes,rest) => Parser.prepend bytes (p.parseString fuel rest))
      (match q.unicodeEscape t with
        | .error e => .error e
        | .ok (bytes,rest) => PyJsonParser.prepend bytes (q.parseString fuel rest)) := by
  unfold Parser.parseUnicode PyJsonParser.unicodeEscape
  rcases (hex4_agree p q t).cases with ⟨code, rest, hp, hq⟩ | ⟨e, e', hp, hq⟩
  · simp only [hp, hq, id]
    by_cases hlength : 6 < rest.length
    · have hle : 6 ≤ rest.length := by omega
      simp only [hlength, hle, true_and]
      split_ifs with hhigh
      · rcases (hex4_agree p q (rest.drop 2)).cases with
          ⟨low, rest', hp', hq'⟩ | ⟨e, e', hp', hq'⟩
        · simp only [hp', hq', id]
          split_ifs
          · exact prepend_agree _ (ih _)
          · exact prepend_agree _ (ih _)
        · simp only [hp', hq']
          exact agree_error _ _
      · exact prepend_agree _ (ih _)
    · simp only [hlength, false_and, and_false, if_false]
      split_ifs with hhigh
      · have hlast : ∃ e, p.parseString fuel rest = .error e :=
          parseString_lastEscape p fuel rest (by omega) hhigh.2.2.2
        obtain ⟨e, he⟩ := hlast
        rcases (ih rest).cases with ⟨v, r, hv, -⟩ | ⟨-, e', -, he'⟩
        · rw [he] at hv
          cases hv
        · rw [he']
          cases hlow : p.parseHex4 (rest.drop 2) with
          | error e => exact agree_error _ _
          | ok r =>
            obtain ⟨low, rest'⟩ := r
            obtain rfl : rest' = [] := by
              rw [hex4_rest p _ low rest' hlow, List.drop_drop]
              exact List.drop_eq_nil_of_le (by omega)
            obtain ⟨e, hnil⟩ := parseString_nil p fuel
            dsimp only
            split_ifs
            · simp only [hnil, Parser.prepend, PyJsonParser.prepend]
              exact agree_error _ _
            · simp only [he, Parser.prepend, PyJsonParser.prepend]
              exact agree_error _ _
      · exact prepend_agree _ (ih _)
  · simp only [hp, hq]
    exact agree_error _ _

theorem parseString_agree (hstrict : p.options.strictControlChars = true) (fuel : Nat)
    (t : Text) : Agree id (p.parseString fuel t) (q.parseString fuel t) := by
  induction fuel generalizing t with
  | zero => exact agree_error _ _
  | succ fuel ih =>
    cases t with
    | nil => exact agree_error _ _
    | cons c rest =>
      unfold Parser.parseString PyJsonParser.parseString
      by_cases h34 : c = 34
      · simp only [h34, if_true]
        exact agree_ok _ _
      · by_cases h92 : c = 92
        · subst h92
          simp only [show ¬ (92 : UInt8) = 34 by decide, show ¬ (92 : UInt8) < 32 by decide,
            if_true, if_false, ne_eq, not_true_eq_false]
          cases rest with
          | nil => exact agree_error _ _
          | cons e rest =>
            by_cases h117 : e = 117
            · subst h117
              exact unicode_agree p q fuel rest ih
            · simp only [Parser.parseEscape, PyJsonParser.escape, h117, if_false]
              split_ifs
              all_goals first
                | exact prepend_agree _ (ih _)
                | exact agree_error _ _
        · by_cases h32 : c < 32
          · simp only [h34, h92, h32, hstrict, if_true, if_false, decide_true, Bool.and_self]
            exact agree_error _ _
          · simp only [h34, h92, h32, if_true, if_false, decide_false, Bool.false_and,
              Bool.false_eq_true, ne_eq, not_false_eq_true]
            exact prepend_agree _ (ih _)

end

theorem head_dropDigits (t : Text) : (dropDigits t).head?.any isDigit = false := by
  cases h : (dropDigits t).head? with
  | none => rfl
  | some c =>
    have hc := List.head?_dropWhile_not isDigit t
    unfold dropDigits at h
    rw [h] at hc
    simpa using hc

/-- A text that starts with no digit, of what is not the integer part of a number. -/
def NoDigit (t : Text) : Prop := t.head?.any isDigit = false

/-- Both scanners take the same fraction. -/
theorem scanFraction_eq (t : Text) :
    (PyJsonParser.fraction t = none ∧ Parser.scanFraction t = ([],t)) ∨
    ∃ ds r, PyJsonParser.fraction t = some (ds,r) ∧ Parser.scanFraction t = (46::ds,r) ∧
      (∀ c ∈ ds, isDigit c = true) ∧ NoDigit r := by
  by_cases hpoint : t.head? = some 46
  · obtain ⟨r, rfl⟩ : ∃ r, t = 46::r := by
      cases t with
      | nil => cases hpoint
      | cons c r => exact ⟨r, by rw [Option.some.inj hpoint]⟩
    by_cases hr : r.head?.any isDigit = true
    · right
      refine ⟨r.takeWhile isDigit, dropDigits r, ?_, ?_, takeWhile_digits r, head_dropDigits r⟩
      · simp [PyJsonParser.fraction, hr, dropDigits]
      · simp [Parser.scanFraction, hr]
    · left
      simp [PyJsonParser.fraction, Parser.scanFraction, hr]
  · left
    have hne (r : Text) : t ≠ 46::r := by
      rintro rfl
      exact hpoint rfl
    constructor
    · unfold PyJsonParser.fraction
      split
      · exact absurd rfl (hne _)
      · rfl
    · unfold Parser.scanFraction
      split
      · exact absurd rfl (hne _)
      · rfl

theorem takeWhile_isEmpty (t : Text) :
    (t.takeWhile isDigit).isEmpty = !t.head?.any isDigit := by
  cases t with
  | nil => rfl
  | cons c t => cases hc : isDigit c <;> simp [hc]

/-- Both scanners take the same exponent. -/
theorem scanExponent_eq (t : Text) :
    (PyJsonParser.exponent t = none ∧ Parser.scanExponent t = ([],t)) ∨
    ∃ e x r, (e = 101 ∨ e = 69) ∧ PyJsonParser.exponent t = some (exponentOf (e::x),r) ∧
      Parser.scanExponent t = (e::x,r) := by
  cases t with
  | nil => exact Or.inl ⟨rfl, rfl⟩
  | cons e r =>
    by_cases he : e = 101 ∨ e = 69
    · have he' : (e = 101 || e = 69) = true := by simpa using he
      by_cases hsign : r.head? = some 43 ∨ r.head? = some 45
      · obtain ⟨s, r, rfl⟩ : ∃ s r', r = s::r' := by
          cases r with
          | nil => simp at hsign
          | cons s r => exact ⟨s, r, rfl⟩
        have hs : s = 43 ∨ s = 45 := by simpa using hsign
        have hdigit : isDigit s = false := by rcases hs with rfl | rfl <;> rfl
        by_cases hr : r.head?.any isDigit = true
        · right
          have hlong : 0 < r.length := by
            cases r with
            | nil => cases hr
            | cons d r => simp
          have htake := takeWhile_isEmpty r
          rw [hr, Bool.not_true] at htake
          refine ⟨e, s::r.takeWhile isDigit, dropDigits r, he, ?_, ?_⟩
          · rcases hs with rfl | rfl
            · simp [PyJsonParser.exponent, he, hlong, htake, exponentOf, dropDigits]
            · simp [PyJsonParser.exponent, he, hlong, htake, exponentOf, dropDigits]
          · simp [Parser.scanExponent, he', hs, hr]
        · left
          have hr' : r.head?.any isDigit = false := by simpa using hr
          have htake := takeWhile_isEmpty r
          rw [hr', Bool.not_false] at htake
          constructor
          · by_cases hlong : 0 < r.length
            · simp [PyJsonParser.exponent, he, hlong, htake, hs.symm]
            · simp [PyJsonParser.exponent, he, hlong, hdigit]
          · simp [Parser.scanExponent, hs, hr']
      · have hnone : ¬ (r.head? = some 45 ∨ r.head? = some 43) := fun h => hsign h.symm
        have htake := takeWhile_isEmpty r
        by_cases hr : r.head?.any isDigit = true
        · right
          have hne : r ≠ [] := by
            rintro rfl
            cases hr
          rw [hr, Bool.not_true] at htake
          have hhead : (r.takeWhile isDigit).head? = r.head? := by
            cases r with
            | nil => rfl
            | cons c r => simp at hr; simp [hr]
          refine ⟨e, r.takeWhile isDigit, dropDigits r, he, ?_, ?_⟩
          · rw [not_or] at hnone
            simp [PyJsonParser.exponent, he, hne, hnone, htake, exponentOf, hhead, dropDigits]
          · simp [Parser.scanExponent, he', hsign, hr]
        · left
          have hr' : r.head?.any isDigit = false := by simpa using hr
          rw [hr', Bool.not_false] at htake
          rw [not_or] at hnone
          constructor
          · simp [PyJsonParser.exponent, hnone, htake]
          · simp [Parser.scanExponent, hsign, hr']
    · left
      have he' : (e = 101 || e = 69) = false := by simpa using he
      constructor
      · simp [PyJsonParser.exponent, he]
      · simp [Parser.scanExponent, he']

/-- The sign of a number text. -/
def signText (negative : Bool) : Text := if negative then [45] else []

/-- A number text, cut into its sign, its integer part and the rest, as `pyNumber` reads it. -/
theorem pyNumber_parts (negative : Bool) (integer u : Text) (hne : integer ≠ [])
    (hdigits : ∀ c ∈ integer, isDigit c = true) (hu : NoDigit u) :
    pyNumber (signText negative ++ integer ++ u) =
      if u.isEmpty then .int (if integer = [48] || !negative then integer else 45::integer)
      else .float (decimalToDouble negative (integer ++ fractionOf u)
        (exponentOf (afterFraction u)-(fractionOf u).length)) := by
  obtain ⟨d, ds, rfl⟩ : ∃ d ds, integer = d::ds := by
    cases integer with
    | nil => exact absurd rfl hne
    | cons d ds => exact ⟨d, ds, rfl⟩
  have hd : isDigit d = true := hdigits d List.mem_cons_self
  have hspan := span_digits (d::ds) u hdigits hu
  have hnot (c : UInt8) (hc : isDigit c = false) : d ≠ c := by
    rintro rfl
    rw [hc] at hd
    cases hd
  have hdecimal : pyNumber (signText negative ++ (d::ds) ++ u) =
      pyDecimal (signText negative ++ (d::ds) ++ u) := by
    unfold pyNumber
    cases negative with
    | false => simp [signText, text, hnot 78 rfl, hnot 73 rfl, hnot 45 rfl]
    | true => simp [signText, text, hnot 73 rfl]
  rw [hdecimal]
  unfold pyDecimal
  cases negative with
  | false =>
    have hhead : (d::ds ++ u).head? ≠ some 45 := by simpa using hnot 45 rfl
    simp only [signText, List.nil_append, Bool.false_eq_true, if_false, hhead, decide_false,
      hspan.1, hspan.2]
  | true =>
    have hhead : ([45] ++ (d::ds) ++ u).head? = some 45 := rfl
    have htail : ([45] ++ (d::ds) ++ u).tail = d::ds ++ u := rfl
    simp only [signText, if_true, hhead, htail, decide_true, hspan.1, hspan.2]

/-- Fraction and exponent are scanned alike, and the two results name one number. -/
theorem numberTail_agree (negative : Bool) (integer t : Text) (hne : integer ≠ [])
    (hdigits : ∀ c ∈ integer, isDigit c = true) :
    Agree pyValue (Parser.numberTail (signText negative ++ integer) t)
      (PyJsonParser.numberTail negative integer t) := by
  have hletter (e : UInt8) (he : e = 101 ∨ e = 69) : isDigit e = false ∧ e ≠ 46 := by
    rcases he with rfl | rfl <;> decide
  unfold Parser.numberTail PyJsonParser.numberTail
  rcases scanFraction_eq t with ⟨hf, hs⟩ | ⟨ds, r, hf, hs, hds, hr⟩
  · rcases scanExponent_eq t with ⟨hx, hs'⟩ | ⟨e, x, r', he, hx, hs'⟩
    · have h := pyNumber_parts negative integer [] hne hdigits rfl
      simp only [List.append_nil, List.isEmpty_nil, if_true] at h
      simp [hf, hs, hx, hs', Agree, pyValue, h, Except.toOption]
    · obtain ⟨hdigit, hpoint⟩ := hletter e he
      have h := pyNumber_parts negative integer (e::x) hne hdigits (by simp [NoDigit, hdigit])
      have hfraction : fractionOf (e::x) = [] ∧ afterFraction (e::x) = e::x := by
        constructor
        · unfold fractionOf
          split
          · rename_i heq
            exact absurd (List.cons.inj heq).1 hpoint
          · rfl
        · unfold afterFraction
          split
          · rename_i heq
            exact absurd (List.cons.inj heq).1 hpoint
          · rfl
      rw [hfraction.1, hfraction.2] at h
      simp at h
      simp [hf, hs, hx, hs', Agree, pyValue, h, Except.toOption]
  · have htail (x : Text) (hx : NoDigit x) :
        fractionOf (46::ds ++ x) = ds ∧ afterFraction (46::ds ++ x) = x :=
      span_digits ds x hds hx
    have hpoint (x : Text) : NoDigit (46::ds ++ x) := by simp [NoDigit, isDigit]
    rcases scanExponent_eq r with ⟨hx, hs'⟩ | ⟨e, x, r', he, hx, hs'⟩
    · have h := pyNumber_parts negative integer (46::ds ++ []) hne hdigits (hpoint [])
      rw [(htail [] rfl).1, (htail [] rfl).2] at h
      simp at h
      simp [hf, hs, hx, hs', Agree, pyValue, h, Except.toOption, exponentOf]
    · obtain ⟨hdigit, -⟩ := hletter e he
      have hno : NoDigit (e::x) := by simp [NoDigit, hdigit]
      have h := pyNumber_parts negative integer (46::ds ++ e::x) hne hdigits (hpoint _)
      rw [(htail _ hno).1, (htail _ hno).2] at h
      simp at h
      simp [hf, hs, hx, hs', Agree, pyValue, h, Except.toOption]

section
variable (p : Parser) (q : PyJsonParser)

theorem parseNumber_agree (t : Text) :
    Agree pyValue (p.parseNumber t) (q.parseNumber t) := by
  have hbody : t.drop (if t.head? = some 45 then [45] else ([] : Text)).length =
      if (decide (t.head? = some 45)) = true then t.tail else t := by
    by_cases hsign : t.head? = some 45 <;> simp [hsign]
  have hsign : (if t.head? = some 45 then [45] else ([] : Text)) =
      signText (decide (t.head? = some 45)) := by
    by_cases hsign : t.head? = some 45 <;> simp [hsign, signText]
  unfold Parser.parseNumber PyJsonParser.parseNumber
  dsimp only
  rw [hbody]
  generalize hr : (if (decide (t.head? = some 45)) = true then t.tail else t) = body
  cases body with
  | nil => exact agree_error _ _
  | cons c r =>
    dsimp only
    rw [hsign]
    by_cases h48 : c = 48
    · subst h48
      simp only [if_true, show ¬ ((49 : UInt8) ≤ 48 ∧ (48 : UInt8) ≤ 57) by decide, if_false]
      have hdigits : ∀ c ∈ ([48] : Text), isDigit c = true := by
        intro c hc
        rw [List.mem_singleton.mp hc]
        rfl
      exact numberTail_agree _ [48] r (List.cons_ne_nil _ _) hdigits
    · by_cases hc : 49 ≤ c ∧ c ≤ 57
      · rw [if_neg h48, if_pos hc, if_pos hc]
        have hdigit : isDigit c = true := by
          have hlow := UInt8.le_iff_toNat_le.mp hc.1
          have hle : (48 : UInt8) ≤ c := by
            rw [UInt8.le_iff_toNat_le]
            simp only [UInt8.reduceToNat] at hlow ⊢
            omega
          simp [isDigit, hle, hc.2]
        refine numberTail_agree _ (c::r.takeWhile isDigit) (dropDigits r) (by simp) ?_
        intro d hd
        rcases List.mem_cons.mp hd with rfl | hd
        · exact hdigit
        · exact takeWhile_digits r d hd
      · simp only [h48, hc, if_false]
        exact agree_error _ _

/-- The literal that a text starts with, with `PythonCompat`. -/
theorem literals_find (hcompat : p.options.pythonCompat = true) (t : Text) :
    (p.literals.find? fun l => startsWith t l.1) =
      if startsWith t (text "null") then some (text "null",.null)
      else if startsWith t (text "true") then some (text "true",.bool true)
      else if startsWith t (text "false") then some (text "false",.bool false)
      else if startsWith t (text "NaN") then some (text "NaN",.number (text "NaN"))
      else if startsWith t (text "Infinity") then some (text "Infinity",.number (text "Infinity"))
      else if startsWith t (text "-Infinity") then
        some (text "-Infinity",.number (text "-Infinity"))
      else none := by
  simp only [Parser.literals, hcompat, if_true, List.cons_append, List.nil_append,
    List.find?_cons, List.find?_nil]
  cases startsWith t (text "null") <;> simp
  cases startsWith t (text "true") <;> simp
  cases startsWith t (text "false") <;> simp
  cases startsWith t (text "NaN") <;> simp
  cases startsWith t (text "Infinity") <;> simp
  cases startsWith t (text "-Infinity") <;> simp

variable (pa po : Text → Parsed JsonValue) (pa' po' : Text → PyParsed PyValue)

/-- A letter that starts one word only. -/
theorem literal_agree (c : UInt8) (rest word : Text) (v : JsonValue)
    (hfind : (p.literals.find? fun l => startsWith (c::rest) l.1) =
      if startsWith (c::rest) word then some (word,v) else none)
    (hc : c ≠ 123 ∧ c ≠ 91 ∧ c ≠ 34 ∧ (c = 45 || isDigit c) = false) :
    Agree pyValue (p.parseToken pa po (c::rest)) (q.literal (c::rest) word (pyValue v)) := by
  obtain ⟨h123, h91, h34, hnumber⟩ := hc
  simp only [Parser.parseToken, if_neg h123, if_neg h91, if_neg h34, hfind, hnumber,
    PyJsonParser.literal]
  cases startsWith (c::rest) word with
  | true => exact agree_ok _ _
  | false => exact agree_error _ _

theorem parseToken_agree (hcompat : p.options.pythonCompat = true)
    (hstrict : p.options.strictControlChars = true) (harray : ∀ t, Agree pyValue (pa t) (pa' t))
    (hobject : ∀ t, Agree pyValue (po t) (po' t)) (t : Text) :
    Agree pyValue (p.parseToken pa po t) (q.parseToken pa' po' t) := by
  cases t with
  | nil => exact agree_error _ _
  | cons c rest =>
    have hfind := literals_find p hcompat (c::rest)
    have hstart (d : UInt8) (word : Text) (hd : d ≠ c) : startsWith (c::rest) (d::word) = false := by
      simp [startsWith, List.isPrefixOf, hd]
    by_cases h34 : c = 34
    · subst h34
      rcases (parseString_agree p q hstrict (rest.length+1) rest).cases with
        ⟨s, r, hp, hq⟩ | ⟨e, e', hp, hq⟩
      · simp only [Parser.parseToken, PyJsonParser.parseToken, hp, hq, if_true,
          show ¬ (34 : UInt8) = 123 by decide, show ¬ (34 : UInt8) = 91 by decide, if_false]
        exact agree_ok _ _
      · simp only [Parser.parseToken, PyJsonParser.parseToken, hp, hq, if_true,
          show ¬ (34 : UInt8) = 123 by decide, show ¬ (34 : UInt8) = 91 by decide, if_false]
        exact agree_error _ _
    by_cases h123 : c = 123
    · subst h123
      exact hobject rest
    by_cases h91 : c = 91
    · subst h91
      exact harray rest
    by_cases h110 : c = 110
    · subst h110
      exact literal_agree p q pa po 110 rest (text "null") .null hfind (by decide)
    by_cases h116 : c = 116
    · subst h116
      exact literal_agree p q pa po 116 rest (text "true") (.bool true) hfind (by decide)
    by_cases h102 : c = 102
    · subst h102
      exact literal_agree p q pa po 102 rest (text "false") (.bool false) hfind (by decide)
    by_cases h78 : c = 78
    · subst h78
      exact literal_agree p q pa po 78 rest (text "NaN") (.number (text "NaN")) hfind (by decide)
    by_cases h73 : c = 73
    · subst h73
      exact literal_agree p q pa po 73 rest (text "Infinity") (.number (text "Infinity")) hfind
        (by decide)
    have hnumber := parseNumber_agree p q (c::rest)
    by_cases h45 : c = 45
    · subst h45
      have hone : (p.literals.find? fun l => startsWith (45::rest) l.1) =
          if startsWith (45::rest) (text "-Infinity") then
            some (text "-Infinity",.number (text "-Infinity")) else none := hfind
      show Agree pyValue _
        (if startsWith (45::rest) (text "-Infinity") = true then _ else q.parseNumber (45::rest))
      simp only [Parser.parseToken, if_neg h123, if_neg h91, if_neg h34, hone]
      cases startsWith (45::rest) (text "-Infinity") with
      | true => exact agree_ok _ _
      | false => exact hnumber
    · have hnone : (p.literals.find? fun l => startsWith (c::rest) l.1) = none := by
        rw [hfind]
        simp [text, hstart 110 _ (Ne.symm h110), hstart 116 _ (Ne.symm h116),
          hstart 102 _ (Ne.symm h102), hstart 78 _ (Ne.symm h78), hstart 73 _ (Ne.symm h73),
          hstart 45 _ (Ne.symm h45)]
      simp only [Parser.parseToken, PyJsonParser.parseToken, if_neg h123, if_neg h91, if_neg h34,
        if_neg h110, if_neg h116, if_neg h102, if_neg h78, if_neg h73, if_neg h45, hnone]
      cases hdigit : isDigit c with
      | true =>
        simp only [Bool.or_true, if_true]
        exact hnumber
      | false =>
        simp only [h45, decide_false, Bool.or_self, Bool.false_eq_true, if_false]
        exact agree_error _ _

end

theorem skipWhitespace_idem (t : Text) : skipWhitespace (skipWhitespace t) = skipWhitespace t :=
  List.dropWhile_idempotent isSpace t

/-- A closing bracket starts no value. -/
theorem parseToken_close (p : Parser) (pa po : Text → Parsed JsonValue) (rest : Text) :
    ∃ e, p.parseToken pa po (93::rest) = .error e := by
  have hnone : (p.literals.find? fun l => startsWith (93::rest) l.1) = none := by
    rw [List.find?_eq_none]
    intro l hl
    unfold Parser.literals at hl
    split_ifs at hl
    · simp only [List.cons_append, List.nil_append, List.mem_cons, List.not_mem_nil,
        or_false] at hl
      rcases hl with rfl | rfl | rfl | rfl | rfl | rfl <;> simp [startsWith, text]
    · simp only [List.append_nil, List.mem_cons, List.not_mem_nil, or_false] at hl
      rcases hl with rfl | rfl | rfl <;> simp [startsWith, text]
  refine ⟨⟨text "Expecting value", some (p.size-(93::rest).length), []⟩, ?_⟩
  simp only [Parser.parseToken, hnone]
  rfl

section
variable (p : Parser) (q : PyJsonParser) (pv : Text → Parsed JsonValue)
  (pv' : Text → PyParsed PyValue) (hvalue : ∀ t, Agree pyValue (pv t) (pv' t))
include hvalue

/-- The item loops; a trailing comma is refused here by a check and there by the next value. -/
theorem parseItems_agree (hclose : ∀ rest, ∃ e, pv (93::rest) = .error e) (fuel : Nat)
    (items : List JsonValue) (t : Text) :
    Agree pyValue (p.parseItems pv fuel items t)
      (q.parseItems pv' fuel (pyItems items) (skipWs t)) := by
  induction fuel generalizing items t with
  | zero => exact agree_error _ _
  | succ fuel ih =>
    simp only [Parser.parseItems, PyJsonParser.parseItems, skipWs_eq]
    rcases (hvalue (skipWhitespace t)).cases with ⟨v, r, hp, hq⟩ | ⟨e, e', hp, hq⟩
    · simp only [hp, hq]
      have hitems : pyItems (items ++ [v]) = pyItems items ++ [pyValue v] :=
        pyItems_append items [v]
      cases hr : skipWhitespace r with
      | nil => exact agree_error _ _
      | cons c rest =>
        by_cases h44 : c = 44
        · subst h44
          simp only [if_true, show ¬ (44 : UInt8) = 93 by decide, ne_eq, not_true_eq_false,
            if_false]
          by_cases htrailing : (skipWhitespace rest).head? = some 93
          · rw [if_pos htrailing]
            have herror : ∃ e, p.parseItems pv fuel (items ++ [v]) rest = .error e := by
              cases fuel with
              | zero => exact ⟨_, rfl⟩
              | succ fuel =>
                obtain ⟨rest', hrest⟩ : ∃ rest', skipWhitespace rest = 93::rest' := by
                  cases hs : skipWhitespace rest with
                  | nil => simp [hs] at htrailing
                  | cons d rest' =>
                    rw [hs] at htrailing
                    exact ⟨rest', by rw [Option.some.inj htrailing]⟩
                obtain ⟨e, he⟩ := hclose rest'
                exact ⟨e, by simp only [Parser.parseItems, hrest, he]⟩
            obtain ⟨e, he⟩ := herror
            rw [he]
            exact agree_error _ _
          · rw [if_neg htrailing, ← hitems]
            exact ih (items ++ [v]) rest
        · by_cases h93 : c = 93
          · subst h93
            simp only [if_true, show ¬ (93 : UInt8) = 44 by decide, if_false, ← hitems]
            exact agree_ok (f := pyValue) (.array (items ++ [v])) rest
          · simp only [h44, h93, if_false, ne_eq, not_false_eq_true, if_true]
            exact agree_error _ _
    · simp only [hp, hq]
      exact agree_error _ _

omit hvalue in
theorem parseArray_open {t : Text} (h : ∀ rest, skipWhitespace t ≠ 93::rest) :
    p.parseArray pv t = p.parseItems pv ((skipWhitespace t).length+1) [] (skipWhitespace t) := by
  unfold Parser.parseArray
  split
  · rename_i rest heq
    exact absurd heq (h rest)
  · rfl

omit hvalue in
theorem pyParseArray_open {t : Text} (h : ∀ rest, skipWhitespace t ≠ 93::rest) :
    q.parseArray pv' t = q.parseItems pv' ((skipWhitespace t).length+1) [] (skipWhitespace t) := by
  unfold PyJsonParser.parseArray
  rw [skipWs_eq]
  split
  · rename_i rest heq
    exact absurd heq (h rest)
  · rfl

theorem parseArray_agree (hclose : ∀ rest, ∃ e, pv (93::rest) = .error e) (t : Text) :
    Agree pyValue (p.parseArray pv t) (q.parseArray pv' t) := by
  have h := parseItems_agree p q pv pv' hvalue hclose ((skipWhitespace t).length+1) []
    (skipWhitespace t)
  rw [skipWs_eq, skipWhitespace_idem] at h
  by_cases hend : ∃ rest, skipWhitespace t = 93::rest
  · obtain ⟨rest, heq⟩ := hend
    unfold Parser.parseArray PyJsonParser.parseArray
    rw [skipWs_eq, heq]
    exact agree_ok (f := pyValue) (.array []) rest
  · have hopen : ∀ rest, skipWhitespace t ≠ 93::rest := fun rest heq => hend ⟨rest, heq⟩
    rw [parseArray_open p pv hopen, pyParseArray_open q pv' hopen]
    exact h

omit hvalue in
theorem parseMember_noKey {t : Text} (h : ∀ u, skipWhitespace t ≠ 34::u) :
    ∃ e, p.parseMember pv t = .error e := by
  unfold Parser.parseMember
  split
  · rename_i u heq
    exact absurd heq (h u)
  · exact ⟨_, rfl⟩

omit hvalue in
theorem pyParseMember_noKey {t : Text} (h : ∀ u, t ≠ 34::u) :
    ∃ e, q.parseMember pv' t = .error e := by
  unfold PyJsonParser.parseMember
  split
  · rename_i u
    exact absurd rfl (h u)
  · exact ⟨_, rfl⟩

omit hvalue in
theorem parseMember_noColon {t u s r : Text} (ht : skipWhitespace t = 34::u)
    (hs : p.parseString (u.length+1) u = .ok (s,r)) (h : ∀ w, skipWhitespace r ≠ 58::w) :
    ∃ e, p.parseMember pv t = .error e := by
  unfold Parser.parseMember
  rw [ht]
  simp only [hs]
  exact ⟨_, rfl⟩

omit hvalue in
theorem pyParseMember_noColon {u s r : Text} (hs : q.parseString (u.length+1) u = .ok (s,r))
    (h : ∀ w, skipWhitespace r ≠ 58::w) : ∃ e, q.parseMember pv' (34::u) = .error e := by
  unfold PyJsonParser.parseMember
  simp only [hs, skipWs_eq]
  exact ⟨_, rfl⟩

/-- A key, a colon and a value. -/
theorem parseMember_agree (hstrict : p.options.strictControlChars = true) (t : Text) :
    Agree (fun m => (m.1,pyValue m.2)) (p.parseMember pv t) (q.parseMember pv' (skipWs t)) := by
  rw [skipWs_eq]
  by_cases hkey : ∃ u, skipWhitespace t = 34::u
  · obtain ⟨u, heq⟩ := hkey
    rcases (parseString_agree p q hstrict (u.length+1) u).cases with
      ⟨s, r, hp, hq⟩ | ⟨e, e', hp, hq⟩
    · by_cases hcolon : ∃ w, skipWhitespace r = 58::w
      · obtain ⟨w, hw⟩ := hcolon
        unfold Parser.parseMember PyJsonParser.parseMember
        rw [heq]
        simp only [hp, hq, skipWs_eq]
        rw [hw]
        rcases (hvalue (skipWhitespace w)).cases with ⟨v, r, hp, hq⟩ | ⟨e, e', hp, hq⟩
        · simp only [hp, hq]
          exact agree_ok (f := fun m : Text × JsonValue => (m.1,pyValue m.2)) (s,v) r
        · simp only [hp, hq]
          exact agree_error _ _
      · have hno : ∀ w, skipWhitespace r ≠ 58::w := fun w hw => hcolon ⟨w, hw⟩
        obtain ⟨e, he⟩ := parseMember_noColon p pv heq hp hno
        obtain ⟨e', he'⟩ := pyParseMember_noColon q pv' hq hno
        rw [heq, he, he']
        exact agree_error _ _
    · unfold Parser.parseMember PyJsonParser.parseMember
      rw [heq]
      simp only [hp, hq]
      exact agree_error _ _
  · have hno : ∀ u, skipWhitespace t ≠ 34::u := fun u hu => hkey ⟨u, hu⟩
    obtain ⟨e, he⟩ := parseMember_noKey p pv hno
    obtain ⟨e', he'⟩ := pyParseMember_noKey q pv' hno
    rw [he, he']
    exact agree_error _ _

omit hvalue in
/-- A text whose first character is a closing brace starts no member. -/
theorem parseMember_close (t : Text) (h : (skipWhitespace t).head? = some 125) :
    ∃ e, p.parseMember pv t = .error e := by
  unfold Parser.parseMember
  split
  · rename_i heq
    rw [heq] at h
    cases h
  · exact ⟨_, rfl⟩

theorem parseMembers_agree (hstrict : p.options.strictControlChars = true) (fuel : Nat)
    (members : List (Text × JsonValue)) (t : Text) :
    Agree pyValue (p.parseMembers pv fuel members t)
      (q.parseMembers pv' fuel (pyMembers members) (skipWs t)) := by
  induction fuel generalizing members t with
  | zero => exact agree_error _ _
  | succ fuel ih =>
    simp only [Parser.parseMembers, PyJsonParser.parseMembers]
    rcases (parseMember_agree p q pv pv' hvalue hstrict t).cases with
      ⟨⟨key, v⟩, r, hp, hq⟩ | ⟨e, e', hp, hq⟩
    · simp only [hp, hq]
      simp only [skipWs_eq]
      have hmembers := pyMembers_setMember key v members
      cases hr : skipWhitespace r with
      | nil => exact agree_error _ _
      | cons c rest =>
        by_cases h44 : c = 44
        · subst h44
          simp only [if_true, show ¬ (44 : UInt8) = 125 by decide, ne_eq, not_true_eq_false,
            if_false]
          by_cases htrailing : (skipWhitespace rest).head? = some 125
          · rw [if_pos htrailing]
            have herror : ∃ e, p.parseMembers pv fuel (JsonValue.setMember key v members) rest =
                .error e := by
              cases fuel with
              | zero => exact ⟨_, rfl⟩
              | succ fuel =>
                obtain ⟨e, he⟩ := parseMember_close p pv rest htrailing
                exact ⟨e, by simp only [Parser.parseMembers, he]⟩
            obtain ⟨e, he⟩ := herror
            rw [he]
            exact agree_error _ _
          · rw [if_neg htrailing, ← hmembers, ← skipWs_eq]
            exact ih (JsonValue.setMember key v members) rest
        · by_cases h125 : c = 125
          · subst h125
            simp only [if_true, show ¬ (125 : UInt8) = 44 by decide, if_false, ← hmembers]
            exact agree_ok (f := pyValue) (.object (JsonValue.setMember key v members)) rest
          · simp only [h44, h125, if_false, ne_eq, not_false_eq_true, if_true]
            exact agree_error _ _
    · simp only [hp, hq]
      exact agree_error _ _

omit hvalue in
theorem parseObject_open {t : Text} (h : ∀ rest, skipWhitespace t ≠ 125::rest) :
    p.parseObject pv t = p.parseMembers pv ((skipWhitespace t).length+1) [] (skipWhitespace t) := by
  unfold Parser.parseObject
  split
  · rename_i rest heq
    exact absurd heq (h rest)
  · rfl

omit hvalue in
theorem pyParseObject_open {t : Text} (h : ∀ rest, skipWhitespace t ≠ 125::rest) :
    q.parseObject pv' t =
      q.parseMembers pv' ((skipWhitespace t).length+1) [] (skipWhitespace t) := by
  unfold PyJsonParser.parseObject
  rw [skipWs_eq]
  split
  · rename_i rest heq
    exact absurd heq (h rest)
  · rfl

theorem parseObject_agree (hstrict : p.options.strictControlChars = true) (t : Text) :
    Agree pyValue (p.parseObject pv t) (q.parseObject pv' t) := by
  have h := parseMembers_agree p q pv pv' hvalue hstrict ((skipWhitespace t).length+1) []
    (skipWhitespace t)
  rw [skipWs_eq, skipWhitespace_idem] at h
  by_cases hend : ∃ rest, skipWhitespace t = 125::rest
  · obtain ⟨rest, heq⟩ := hend
    unfold Parser.parseObject PyJsonParser.parseObject
    rw [skipWs_eq, heq]
    exact agree_ok (f := pyValue) (.object []) rest
  · have hopen : ∀ rest, skipWhitespace t ≠ 125::rest := fun rest heq => hend ⟨rest, heq⟩
    rw [parseObject_open p pv hopen, pyParseObject_open q pv' hopen]
    exact h

end

/-- The two parsers agree on every text, with the same levels left. -/
theorem parseValue_agree (p : Parser) (q : PyJsonParser) (hcompat : p.options.pythonCompat = true)
    (hstrict : p.options.strictControlChars = true) (levels : Nat) (t : Text) :
    Agree pyValue (p.parseValue levels t) (q.parseValue levels t) := by
  induction levels generalizing t with
  | zero =>
    exact parseToken_agree p q _ _ _ _ hcompat hstrict (fun _ => agree_error _ _)
      (fun _ => agree_error _ _) t
  | succ levels ih =>
    have hclose (rest : Text) : ∃ e, p.parseValue levels (93::rest) = .error e := by
      cases levels with
      | zero => exact parseToken_close p _ _ rest
      | succ levels => exact parseToken_close p _ _ rest
    exact parseToken_agree p q _ _ _ _ hcompat hstrict
      (parseArray_agree p q _ _ ih hclose) (parseObject_agree p q _ _ ih hstrict) t

/-- `PyJsonLoads` accepts a text exactly if `JsonParse` with `PythonCompat` does, and then both
read the same value. -/
theorem pyJsonLoads_eq_jsonParse (t : Text) :
    (pyJsonLoads t).toOption =
      (jsonParse t { pythonCompat := true }).toOption.map pyValue := by
  have h := parseValue_agree ⟨t.length, { pythonCompat := true }⟩ ⟨t.length⟩ rfl rfl maxJsonDepth
    (skipWhitespace t)
  unfold pyJsonLoads PyJsonParser.document jsonParse
  rw [skipWs_eq]
  rcases h.cases with ⟨v, rest, hp, hq⟩ | ⟨e, e', hp, hq⟩
  · simp only [hp, hq, skipWs_eq]
    cases skipWhitespace rest with
    | nil => rfl
    | cons c rest => rfl
  · simp only [hp, hq]
    cases e' with
    | decode message position => rfl
    | depthExceeded => rfl

end DSigMatcher.Json
