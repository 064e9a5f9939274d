import DSigMatcher.Json.Parse
import DSigMatcher.Json.Write

namespace DSigMatcher.Json
open DSigMatcher.Base

/-- A text that cannot continue a number. -/
def NumberStop (t : Text) : Prop :=
  ∀ c, t.head? = some c → isDigit c = false ∧ c ≠ 46 ∧ c ≠ 101 ∧ c ≠ 69

theorem numberStop_nil : NumberStop [] := by
  intro c hc
  cases hc

theorem numberStop_cons (c : UInt8) (t : Text)
    (h : isDigit c = false ∧ c ≠ 46 ∧ c ≠ 101 ∧ c ≠ 69) : NumberStop (c::t) := by
  intro d hd
  obtain rfl := Option.some.inj hd
  exact h

theorem NumberStop.no_digit {t : Text} (h : NumberStop t) : t.head?.any isDigit = false := by
  cases t with
  | nil => rfl
  | cons c t => simpa using (h c rfl).1

/-- The digits before a text that starts with none. -/
theorem span_digits (ds rest : Text) (hds : ∀ c ∈ ds, isDigit c = true)
    (hrest : rest.head?.any isDigit = false) :
    (ds ++ rest).takeWhile isDigit = ds ∧ dropDigits (ds ++ rest) = rest := by
  have htake : rest.takeWhile isDigit = [] ∧ rest.dropWhile isDigit = rest := by
    cases rest with
    | nil => exact ⟨rfl, rfl⟩
    | cons c rest =>
      have hc : isDigit c = false := by simpa using hrest
      simp [hc]
  unfold dropDigits
  rw [List.takeWhile_append_of_pos hds, List.dropWhile_append_of_pos hds, htake.1, htake.2]
  simp

theorem takeWhile_digits (t : Text) : ∀ c ∈ t.takeWhile isDigit, isDigit c = true :=
  fun _ hc => List.mem_takeWhile_imp hc

theorem takeWhile_dropDigits (t : Text) : t.takeWhile isDigit ++ dropDigits t = t :=
  List.takeWhile_append_dropWhile

/-- An exponent is its letter, a sign at most, and digits. -/
theorem isExponentText_cons (e : UInt8) (r : Text) (h : isExponentText (e::r) = true) :
    ∃ sign ds, r = sign ++ ds ∧ (sign = [] ∨ sign = [43] ∨ sign = [45]) ∧ (e = 101 ∨ e = 69) ∧
      ds.head?.any isDigit = true ∧ ∀ c ∈ ds, isDigit c = true := by
  have hall (ds : Text) (hds : (dropDigits ds).isEmpty = true) : ∀ c ∈ ds, isDigit c = true := by
    have hnil : dropDigits ds = [] := by simpa using hds
    exact List.dropWhile_eq_nil_iff.mp hnil
  unfold isExponentText at h
  simp only [Bool.and_eq_true, Bool.or_eq_true, decide_eq_true_eq] at h
  obtain ⟨⟨he, hhead⟩, hds⟩ := h
  by_cases hsign : r.head? = some 43 ∨ r.head? = some 45
  · rw [if_pos hsign] at hhead hds
    cases r with
    | nil => simp at hhead
    | cons s r =>
      refine ⟨[s], r, rfl, ?_, he, hhead, hall r hds⟩
      simpa using hsign
  · rw [if_neg hsign] at hhead hds
    exact ⟨[], r, rfl, Or.inl rfl, he, hhead, hall r hds⟩

theorem isExponentText_head (t rest : Text) (h : isExponentText t = true)
    (hrest : NumberStop rest) :
    (t ++ rest).head?.any isDigit = false ∧ (t ++ rest).head? ≠ some 46 := by
  cases t with
  | nil =>
    refine ⟨hrest.no_digit, fun hc => ?_⟩
    exact (hrest 46 hc).2.1 rfl
  | cons e r =>
    obtain ⟨-, -, -, -, he, -, -⟩ := isExponentText_cons e r h
    rcases he with rfl | rfl <;> simp [isDigit]

namespace Parser
variable (p : Parser)

theorem scanExponent_text (t rest : Text) (h : isExponentText t = true)
    (hrest : NumberStop rest) : scanExponent (t ++ rest) = (t,rest) := by
  cases t with
  | nil =>
    cases rest with
    | nil => rfl
    | cons c rest =>
      obtain ⟨-, -, h101, h69⟩ := hrest c rfl
      simp [scanExponent, h101, h69]
  | cons e r =>
    obtain ⟨sign, ds, rfl, hsign, he, hhead, hds⟩ := isExponentText_cons e r h
    have hspan := span_digits ds rest hds hrest.no_digit
    cases ds with
    | nil => simp at hhead
    | cons d ds =>
      have hd : isDigit d = true := hds d List.mem_cons_self
      have hnosign : d ≠ 43 ∧ d ≠ 45 := by
        constructor <;> rintro rfl <;> exact absurd hd (by decide)
      have he' : (e = 101 || e = 69) = true := by simpa using he
      rw [List.cons_append] at hspan
      rcases hsign with rfl | rfl | rfl
      all_goals simp [scanExponent, he, hd, hnosign, hspan]

/-- Fraction and exponent of a number text. -/
theorem numberTail_text (integer u rest : Text)
    (h : (match u with
      | 46::f => f.head?.any isDigit && isExponentText (dropDigits f)
      | r => isExponentText r) = true)
    (hrest : NumberStop rest) :
    numberTail integer (u ++ rest) = .ok (.number (integer ++ u),rest) := by
  have hnofraction (hu : isExponentText u = true) :
      numberTail integer (u ++ rest) = .ok (.number (integer ++ u),rest) := by
    have hhead := (isExponentText_head u rest hu hrest).2
    have hscan : scanFraction (u ++ rest) = ([],u ++ rest) := by
      unfold scanFraction
      split
      · rename_i r hr
        rw [hr] at hhead
        exact absurd rfl hhead
      · rfl
    simp [numberTail, hscan, scanExponent_text u rest hu hrest]
  split at h
  · rename_i f
    rw [Bool.and_eq_true] at h
    obtain ⟨hf, he⟩ := h
    have hsplit := takeWhile_dropDigits f
    have hspan := span_digits (f.takeWhile isDigit) (dropDigits f ++ rest) (takeWhile_digits f)
      (isExponentText_head _ rest he hrest).1
    rw [← List.append_assoc, hsplit] at hspan
    have hhead : (f ++ rest).head?.any isDigit = true := by
      cases f with
      | nil => simp at hf
      | cons c f => simpa using hf
    have hscan : scanFraction (46::f ++ rest) =
        (46::f.takeWhile isDigit,dropDigits f ++ rest) := by
      rw [List.cons_append]
      show (if (f ++ rest).head?.any isDigit then _ else _) = _
      rw [if_pos hhead, hspan.1, hspan.2]
    simp only [numberTail, hscan, scanExponent_text _ rest he hrest]
    simp [hsplit]
  · exact hnofraction h

/-- The integer part decides which digits `parseNumber` takes. -/
theorem parseNumber_unsigned (sign t rest : Text) (hsign : sign = [] ∨ sign = [45])
    (h : (match t with
      | [] => false
      | c::r =>
        if !isDigit c then false
        else
          match if c = 48 then r else dropDigits r with
          | 46::f => f.head?.any isDigit && isExponentText (dropDigits f)
          | r => isExponentText r) = true)
    (hrest : NumberStop rest) :
    p.parseNumber (sign ++ t ++ rest) = .ok (.number (sign ++ t),rest) := by
  cases t with
  | nil => cases h
  | cons c r =>
    cases hc : isDigit c with
    | false => simp [hc] at h
    | true =>
      simp only [hc, Bool.not_true, Bool.false_eq_true, if_false] at h
      have hc45 : c ≠ 45 := by
        rintro rfl
        exact absurd hc (by decide)
      have hparse : p.parseNumber (sign ++ c::r ++ rest) =
          if c = 48 then numberTail (sign ++ [48]) (r ++ rest)
          else numberTail (sign ++ c::(r ++ rest).takeWhile isDigit) (dropDigits (r ++ rest)) := by
        have hrange : c ≠ 48 → 49 ≤ c ∧ c ≤ 57 := by
          intro h48
          simp only [isDigit, Bool.and_eq_true, decide_eq_true_eq] at hc
          refine ⟨?_, hc.2⟩
          have hne : c.toNat ≠ 48 := fun heq => h48 (UInt8.toNat_inj.mp heq)
          have hle := UInt8.le_iff_toNat_le.mp hc.1
          rw [UInt8.le_iff_toNat_le]
          simp only [UInt8.reduceToNat] at hle ⊢
          omega
        rcases hsign with rfl | rfl
        · by_cases h48 : c = 48
          · simp [parseNumber, h48]
          · simp [parseNumber, hc45, h48, hrange h48]
        · by_cases h48 : c = 48
          · simp [parseNumber, h48]
          · simp [parseNumber, h48, hrange h48]
      rw [hparse]
      split_ifs with h48
      · subst h48
        rw [if_pos rfl] at h
        rw [numberTail_text _ r rest h hrest, List.append_assoc]
        rfl
      · rw [if_neg h48] at h
        have hstop : (dropDigits r ++ rest).head?.any isDigit = false := by
          split at h
          · rename_i f hf
            rw [hf]
            rfl
          · exact (isExponentText_head _ rest h hrest).1
        have hspan := span_digits (r.takeWhile isDigit) (dropDigits r ++ rest)
          (takeWhile_digits r) hstop
        rw [← List.append_assoc, takeWhile_dropDigits] at hspan
        rw [hspan.1, hspan.2, numberTail_text _ _ rest h hrest, List.append_assoc,
          List.cons_append, takeWhile_dropDigits]

theorem parseNumber_text (t rest : Text) (h : isJsonNumberText t = true)
    (hrest : NumberStop rest) : p.parseNumber (t ++ rest) = .ok (.number t,rest) := by
  unfold isJsonNumberText at h
  by_cases hsign : t.head? = some 45
  · rw [if_pos hsign] at h
    cases t with
    | nil => cases hsign
    | cons c t =>
      obtain rfl := Option.some.inj hsign
      exact p.parseNumber_unsigned [45] t rest (Or.inr rfl) h hrest
  · rw [if_neg hsign] at h
    exact p.parseNumber_unsigned [] t rest (Or.inl rfl) h hrest

theorem hexValue_hexDigit : ∀ n < 16, hexValue (hexDigit n) = some n := by decide

/-- The six-character escape of a control character. -/
theorem parseUnicode_control (c : UInt8) (hc : c < 32) (rest : Text) :
    p.parseUnicode (48::48::hexDigit (c.toNat/16)::hexDigit (c.toNat%16)::rest) =
      .ok ([c],rest) := by
  have hlt : c.toNat < 32 := UInt8.lt_iff_toNat_lt.mp hc
  have hzero : hexValue 48 = some 0 := rfl
  have hhigh := hexValue_hexDigit (c.toNat/16) (by omega)
  have hlow := hexValue_hexDigit (c.toNat%16) (by omega)
  have hcode : (c.toNat/16)*16 + c.toNat%16 = c.toNat := by omega
  have hhex : p.parseHex4 (48::48::hexDigit (c.toNat/16)::hexDigit (c.toNat%16)::rest) =
      .ok (c.toNat,rest) := by
    unfold parseHex4
    rw [if_neg (by simp)]
    simp [hexDigits, hzero, hhigh, hlow, hcode]
  have hsurrogate : ¬ 0xD800 ≤ c.toNat := by omega
  have hascii : c.toNat < 0x80 := by omega
  have hof : UInt8.ofNat c.toNat = c := by simp
  simp only [parseUnicode, hhex, hsurrogate, false_and, if_false, appendUtf8, if_pos hascii, hof]

/-- What `quoteByte` writes is read back as the byte. -/
theorem parseString_quoteByte (fuel : Nat) (c : UInt8) (rest : Text) :
    p.parseString (fuel+1) (quoteByte c ++ rest) = prepend [c] (p.parseString fuel rest) := by
  unfold quoteByte
  split_ifs with h34 h92 h10 h13 h9 h8 h12 h32
  · subst h34
    rfl
  · subst h92
    rfl
  · subst h10
    rfl
  · subst h13
    rfl
  · subst h9
    rfl
  · subst h8
    rfl
  · subst h12
    rfl
  · have hescape := p.parseUnicode_control c h32 rest
    simp [parseString, parseEscape, hescape]
  · have hplain : (c < 32 && p.options.strictControlChars) = false := by simp [h32]
    simp [parseString, h34, h92, hplain]

theorem parseString_flatMap (t rest : Text) (fuel : Nat) (hfuel : t.length < fuel) :
    p.parseString fuel (t.flatMap quoteByte ++ 34::rest) = .ok (t,rest) := by
  induction t generalizing fuel with
  | nil =>
    obtain ⟨k, rfl⟩ := Nat.exists_eq_succ_of_ne_zero (by omega : fuel ≠ 0)
    rfl
  | cons c t ih =>
    obtain ⟨k, rfl⟩ := Nat.exists_eq_succ_of_ne_zero (by omega : fuel ≠ 0)
    rw [List.flatMap_cons, List.append_assoc, parseString_quoteByte, ih k (by simpa using hfuel)]
    rfl

theorem length_le_flatMap_quoteByte (t : Text) : t.length ≤ (t.flatMap quoteByte).length := by
  have hbyte (c : UInt8) : 1 ≤ (quoteByte c).length := by
    unfold quoteByte
    split_ifs <;> simp
  induction t with
  | nil => simp
  | cons c t ih =>
    have := hbyte c
    rw [List.flatMap_cons, List.length_append, List.length_cons]
    omega

/-- The text after the opening quote of a literal is read to its closing one. -/
theorem parseString_quote (t rest : Text) :
    p.parseString ((t.flatMap quoteByte ++ 34::rest).length+1)
      (t.flatMap quoteByte ++ 34::rest) = .ok (t,rest) := by
  have := length_le_flatMap_quoteByte t
  exact p.parseString_flatMap t rest _ (by rw [List.length_append]; omega)

end Parser

/-- A number text starts with a digit, or with a minus and a digit. -/
theorem isJsonNumberText_head (t : Text) (h : isJsonNumberText t = true) :
    (∃ c r, t = c::r ∧ isDigit c = true) ∨ ∃ c r, t = 45::c::r ∧ isDigit c = true := by
  have hdigit (c : UInt8) (r : Text) (h : isJsonNumberText (c::r) = true) (hc : c ≠ 45) :
      isDigit c = true := by
    cases hd : isDigit c with
    | true => rfl
    | false => simp [isJsonNumberText, hc, hd] at h
  cases t with
  | nil => cases h
  | cons c r =>
    by_cases hc : c = 45
    · subst hc
      cases r with
      | nil => cases h
      | cons d r =>
        right
        refine ⟨d, r, rfl, ?_⟩
        cases hd : isDigit d with
        | true => rfl
        | false => simp [isJsonNumberText, hd] at h
    · exact Or.inl ⟨c, r, rfl, hdigit c r h hc⟩

/-- A tree that nests at most so many levels, of number texts and with distinct keys. -/
def Valid : Nat → JsonValue → Prop
  | _, .null => True
  | _, .bool _ => True
  | _, .number t => isJsonNumberText t = true
  | _, .string _ => True
  | 0, .array _ => False
  | levels+1, .array items => ∀ v ∈ items, Valid levels v
  | 0, .object _ => False
  | levels+1, .object members =>
    (members.map Prod.fst).Nodup ∧ ∀ m ∈ members, Valid levels m.2

/-- The numbers of `PythonCompat` that are no number texts. -/
def pythonNumbers : List Text := [text "NaN", text "Infinity", text "-Infinity"]

/-- `Valid`, where the options may let the numbers of `PythonCompat` in. -/
def ValidFor (options : JsonParseOptions) : Nat → JsonValue → Prop
  | _, .null => True
  | _, .bool _ => True
  | _, .number t =>
    isJsonNumberText t = true ∨ options.pythonCompat = true ∧ t ∈ pythonNumbers
  | _, .string _ => True
  | 0, .array _ => False
  | levels+1, .array items => ∀ v ∈ items, ValidFor options levels v
  | 0, .object _ => False
  | levels+1, .object members =>
    (members.map Prod.fst).Nodup ∧ ∀ m ∈ members, ValidFor options levels m.2

theorem Valid.validFor {options : JsonParseOptions} {levels : Nat} {v : JsonValue}
    (h : Valid levels v) : ValidFor options levels v := by
  induction levels generalizing v with
  | zero =>
    cases v with
    | number t => exact Or.inl h
    | array items => exact h
    | object members => exact h
    | null => trivial
    | bool b => trivial
    | string t => trivial
  | succ levels ih =>
    cases v with
    | number t => exact Or.inl h
    | array items => exact fun v hv => ih (h v hv)
    | object members => exact ⟨h.1, fun m hm => ih (h.2 m hm)⟩
    | null => trivial
    | bool b => trivial
    | string t => trivial

/-- How a written value begins: no space, and no bracket that would close a container. -/
theorem write_head (options : JsonParseOptions) (pretty : Bool) (indent levels : Nat)
    (v : JsonValue) (hv : ValidFor options levels v) :
    ∃ c r, write pretty indent v = c::r ∧ isSpace c = false ∧ c ≠ 93 := by
  cases v with
  | null => exact ⟨_, _, rfl, rfl, by decide⟩
  | bool b =>
    cases b with
    | true => exact ⟨_, _, rfl, rfl, by decide⟩
    | false => exact ⟨_, _, rfl, rfl, by decide⟩
  | string t => exact ⟨_, _, rfl, rfl, by decide⟩
  | array items => exact ⟨_, _, rfl, rfl, by decide⟩
  | object members => exact ⟨_, _, rfl, rfl, by decide⟩
  | number t =>
    have ht : isJsonNumberText t = true ∨ options.pythonCompat = true ∧ t ∈ pythonNumbers := by
      cases levels <;> exact hv
    rw [write]
    rcases ht with ht | ⟨-, ht⟩
    · rcases isJsonNumberText_head t ht with ⟨c, r, rfl, hc⟩ | ⟨c, r, rfl, -⟩
      · refine ⟨c, r, rfl, ?_, ?_⟩
        · cases hspace : isSpace c with
          | false => rfl
          | true =>
            simp only [isSpace, Bool.or_eq_true, decide_eq_true_eq] at hspace
            rcases hspace with ((rfl | rfl) | rfl) | rfl <;> exact absurd hc (by decide)
        · rintro rfl
          exact absurd hc (by decide)
      · exact ⟨45, c::r, rfl, rfl, by decide⟩
    · simp only [pythonNumbers, List.mem_cons, List.not_mem_nil, or_false] at ht
      rcases ht with rfl | rfl | rfl
      all_goals exact ⟨_, _, rfl, rfl, by decide⟩

def AllSpaces (t : Text) : Prop := ∀ c ∈ t, isSpace c = true

theorem newLine_spaces (pretty : Bool) (level : Nat) : AllSpaces (newLine pretty level) := by
  intro c hc
  cases pretty with
  | false => simp [newLine] at hc
  | true =>
    rcases List.mem_cons.mp hc with rfl | hc
    · rfl
    · rw [List.eq_of_mem_replicate hc]
      rfl

theorem skipWhitespace_append (spaces : Text) (c : UInt8) (t : Text) (hs : AllSpaces spaces)
    (hc : isSpace c = false) : skipWhitespace (spaces ++ c::t) = c::t := by
  unfold skipWhitespace
  rw [List.dropWhile_append_of_pos hs, List.dropWhile_cons_of_neg (by simp [hc])]

theorem skipWhitespace_write (options : JsonParseOptions) (spaces t : Text) (pretty : Bool)
    (indent levels : Nat) (v : JsonValue) (hs : AllSpaces spaces)
    (hv : ValidFor options levels v) :
    skipWhitespace (spaces ++ (write pretty indent v ++ t)) = write pretty indent v ++ t := by
  obtain ⟨c, r, hr, hc, -⟩ := write_head options pretty indent levels v hv
  rw [hr, List.cons_append]
  exact skipWhitespace_append spaces c (r ++ t) hs hc

/-- Spaces and then a bracket or a comma end a number. -/
theorem numberStop_spaces (spaces t : Text) (hs : AllSpaces spaces) (ht : NumberStop t) :
    NumberStop (spaces ++ t) := by
  cases spaces with
  | nil => exact ht
  | cons c spaces =>
    have hc := hs c List.mem_cons_self
    simp only [isSpace, Bool.or_eq_true, decide_eq_true_eq] at hc
    refine numberStop_cons c _ ?_
    rcases hc with ((rfl | rfl) | rfl) | rfl <;> decide

theorem length_le_writeItems (pretty : Bool) (indent : Nat) (vs : List JsonValue) :
    vs.length ≤ (writeItems pretty indent false vs).length := by
  induction vs with
  | nil => simp
  | cons v vs ih =>
    simp only [writeItems, separator, List.length_append, List.length_cons]
    simp
    omega

theorem length_le_writeMembers (pretty : Bool) (indent : Nat)
    (ms : List (Text × JsonValue)) :
    ms.length ≤ (writeMembers pretty indent false ms).length := by
  induction ms with
  | nil => simp
  | cons m ms ih =>
    obtain ⟨k, v⟩ := m
    simp only [writeMembers, separator, List.length_append, List.length_cons]
    simp
    omega

namespace Parser
variable (p : Parser) (parseValue : Text → Parsed JsonValue) (pretty : Bool) (indent levels : Nat)
  (hread : ∀ v, ValidFor p.options levels v → ∀ rest, NumberStop rest →
    parseValue (write pretty indent v ++ rest) = .ok (v,rest))
include hread

/-- The item loop reads the items that are left, up to the closing bracket. -/
theorem parseItems_write (spaces closing rest : Text) (hs : AllSpaces spaces)
    (hclosing : AllSpaces closing) (v : JsonValue) (vs items : List JsonValue) (fuel : Nat)
    (hvalid : ∀ x ∈ v::vs, ValidFor p.options levels x) (hfuel : vs.length < fuel) :
    p.parseItems parseValue fuel items (spaces ++ (write pretty indent v ++
      (writeItems pretty indent false vs ++ (closing ++ 93::rest)))) =
      .ok (.array (items ++ v::vs),rest) := by
  induction vs generalizing spaces v items fuel with
  | nil =>
    obtain ⟨k, rfl⟩ := Nat.exists_eq_succ_of_ne_zero (by omega : fuel ≠ 0)
    have hv := hvalid v List.mem_cons_self
    have hstop : NumberStop (closing ++ 93::rest) :=
      numberStop_spaces _ _ hclosing (numberStop_cons 93 rest (by decide))
    have hskip := skipWhitespace_append closing 93 rest hclosing rfl
    simp only [writeItems, List.nil_append, parseItems,
      skipWhitespace_write p.options spaces _ pretty indent levels v hs hv, hread v hv _ hstop, hskip]
    rfl
  | cons w vs ih =>
    obtain ⟨k, rfl⟩ := Nat.exists_eq_succ_of_ne_zero (by omega : fuel ≠ 0)
    have hv := hvalid v List.mem_cons_self
    have hnext := ih (newLine pretty indent) (newLine_spaces pretty indent) w (items ++ [v]) k
      (fun x hx => hvalid x (List.mem_cons_of_mem v hx)) (by simpa using hfuel)
    have htail : writeItems pretty indent false (w::vs) ++ (closing ++ 93::rest) =
        44::(newLine pretty indent ++ (write pretty indent w ++
          (writeItems pretty indent false vs ++ (closing ++ 93::rest)))) := by
      simp [writeItems, separator]
    have hstop := numberStop_cons 44 (newLine pretty indent ++ (write pretty indent w ++
      (writeItems pretty indent false vs ++ (closing ++ 93::rest)))) (by decide)
    have hskip := skipWhitespace_append [] 44 (newLine pretty indent ++
      (write pretty indent w ++ (writeItems pretty indent false vs ++ (closing ++ 93::rest))))
      (by simp [AllSpaces]) rfl
    rw [List.nil_append] at hskip
    simp only [htail, parseItems, skipWhitespace_write p.options spaces _ pretty indent levels v hs hv,
      hread v hv _ hstop, hskip, if_true, hnext]
    simp

theorem parseArray_write (outer : Nat) (items : List JsonValue) (rest : Text)
    (hvalid : ∀ x ∈ items, ValidFor p.options levels x) :
    p.parseArray parseValue (writeItems pretty indent true items ++
      (if items.isEmpty then [] else newLine pretty outer) ++ 93::rest) =
      .ok (.array items,rest) := by
  cases items with
  | nil =>
    have hskip := skipWhitespace_append [] 93 rest (by simp [AllSpaces]) rfl
    rw [List.nil_append] at hskip
    simp [parseArray, writeItems, hskip]
  | cons v vs =>
    have hv := hvalid v List.mem_cons_self
    obtain ⟨c, r, hr, -, h93⟩ := write_head p.options pretty indent levels v hv
    have htext : writeItems pretty indent true (v::vs) ++
        (if (v::vs).isEmpty then [] else newLine pretty outer) ++ 93::rest =
        newLine pretty indent ++ (write pretty indent v ++
          (writeItems pretty indent false vs ++ (newLine pretty outer ++ 93::rest))) := by
      simp [writeItems, separator]
    have hlength := length_le_writeItems pretty indent vs
    rw [htext, parseArray, skipWhitespace_write p.options _ _ pretty indent levels v
      (newLine_spaces pretty indent) hv]
    split
    · rename_i heq
      rw [hr, List.cons_append] at heq
      exact absurd (List.cons.inj heq).1 h93
    · exact p.parseItems_write parseValue pretty indent levels hread [] _ rest
        (by simp [AllSpaces]) (newLine_spaces pretty outer) v vs [] _ hvalid
        (by simp only [List.length_append]; omega)

/-- One member, up to the text that follows it. -/
theorem parseMember_write (spaces : Text) (hs : AllSpaces spaces) (k : Text) (v : JsonValue)
    (rest : Text) (hv : ValidFor p.options levels v) (hrest : NumberStop rest) :
    p.parseMember parseValue (spaces ++ (jsonQuote k ++ (colon pretty ++
      (write pretty indent v ++ rest)))) = .ok ((k,v),rest) := by
  have hquote : jsonQuote k ++ (colon pretty ++ (write pretty indent v ++ rest)) =
      34::(k.flatMap quoteByte ++ 34::(colon pretty ++ (write pretty indent v ++ rest))) := by
    simp [jsonQuote]
  have hkey := skipWhitespace_append spaces 34 (k.flatMap quoteByte ++
    34::(colon pretty ++ (write pretty indent v ++ rest))) hs rfl
  have hstring := p.parseString_quote k (colon pretty ++ (write pretty indent v ++ rest))
  have hcolon : ∃ gap, AllSpaces gap ∧
      skipWhitespace (colon pretty ++ (write pretty indent v ++ rest)) =
        58::(gap ++ (write pretty indent v ++ rest)) := by
    cases pretty with
    | false => exact ⟨[], by simp [AllSpaces], rfl⟩
    | true => exact ⟨[32], by simp [AllSpaces, isSpace], rfl⟩
  obtain ⟨gap, hgap, hcolon⟩ := hcolon
  simp only [hquote, parseMember, hkey, hstring, hcolon,
    skipWhitespace_write p.options gap _ pretty indent levels v hgap hv, hread v hv rest hrest]

/-- The member loop reads the members that are left, up to the closing brace. -/
theorem parseMembers_write (spaces closing rest : Text) (hs : AllSpaces spaces)
    (hclosing : AllSpaces closing) (k : Text) (v : JsonValue) (ms members : List (Text × JsonValue))
    (fuel : Nat) (hvalid : ∀ m ∈ (k,v)::ms, ValidFor p.options levels m.2)
    (hnodup : ((members ++ (k,v)::ms).map Prod.fst).Nodup) (hfuel : ms.length < fuel) :
    p.parseMembers parseValue fuel members (spaces ++ (jsonQuote k ++ (colon pretty ++
      (write pretty indent v ++
        (writeMembers pretty indent false ms ++ (closing ++ 125::rest)))))) =
      .ok (.object (members ++ (k,v)::ms),rest) := by
  have hnew (ms : List (Text × JsonValue)) (members : List (Text × JsonValue)) (k : Text)
      (v : JsonValue) (h : ((members ++ (k,v)::ms).map Prod.fst).Nodup) :
      JsonValue.setMember k v members = members ++ [(k,v)] := by
    refine JsonValue.setMember_new k v members fun hk => ?_
    rw [List.map_append, List.nodup_append] at h
    exact h.2.2 k hk k (by simp) rfl
  induction ms generalizing spaces k v members fuel with
  | nil =>
    obtain ⟨n, rfl⟩ := Nat.exists_eq_succ_of_ne_zero (by omega : fuel ≠ 0)
    have hv := hvalid (k,v) List.mem_cons_self
    have hstop : NumberStop (closing ++ 125::rest) :=
      numberStop_spaces _ _ hclosing (numberStop_cons 125 rest (by decide))
    have hskip := skipWhitespace_append closing 125 rest hclosing rfl
    simp only [writeMembers, List.nil_append, parseMembers,
      p.parseMember_write parseValue pretty indent levels hread spaces hs k v _ hv hstop, hskip,
      hnew [] members k v hnodup]
    rfl
  | cons m ms ih =>
    obtain ⟨k', v'⟩ := m
    obtain ⟨n, rfl⟩ := Nat.exists_eq_succ_of_ne_zero (by omega : fuel ≠ 0)
    have hv := hvalid (k,v) List.mem_cons_self
    have hnext := ih (newLine pretty indent) (newLine_spaces pretty indent) k' v'
      (members ++ [(k,v)]) n (fun x hx => hvalid x (List.mem_cons_of_mem _ hx))
      (by simpa using hnodup) (by simpa using hfuel)
    have htail : writeMembers pretty indent false ((k',v')::ms) ++ (closing ++ 125::rest) =
        44::(newLine pretty indent ++ (jsonQuote k' ++ (colon pretty ++ (write pretty indent v' ++
          (writeMembers pretty indent false ms ++ (closing ++ 125::rest)))))) := by
      simp [writeMembers, separator]
    have hstop := numberStop_cons 44 (newLine pretty indent ++ (jsonQuote k' ++ (colon pretty ++
      (write pretty indent v' ++
        (writeMembers pretty indent false ms ++ (closing ++ 125::rest)))))) (by decide)
    have hskip := skipWhitespace_append [] 44 (newLine pretty indent ++ (jsonQuote k' ++
      (colon pretty ++ (write pretty indent v' ++
        (writeMembers pretty indent false ms ++ (closing ++ 125::rest))))))
      (by simp [AllSpaces]) rfl
    rw [List.nil_append] at hskip
    simp only [htail, parseMembers,
      p.parseMember_write parseValue pretty indent levels hread spaces hs k v _ hv hstop, hskip,
      if_true, hnew _ members k v hnodup, hnext]
    simp

theorem parseObject_write (outer : Nat) (members : List (Text × JsonValue)) (rest : Text)
    (hnodup : (members.map Prod.fst).Nodup) (hvalid : ∀ m ∈ members, ValidFor p.options levels m.2) :
    p.parseObject parseValue (writeMembers pretty indent true members ++
      (if members.isEmpty then [] else newLine pretty outer) ++ 125::rest) =
      .ok (.object members,rest) := by
  cases members with
  | nil =>
    have hskip := skipWhitespace_append [] 125 rest (by simp [AllSpaces]) rfl
    rw [List.nil_append] at hskip
    simp [parseObject, writeMembers, hskip]
  | cons m ms =>
    obtain ⟨k, v⟩ := m
    have htext : writeMembers pretty indent true ((k,v)::ms) ++
        (if ((k,v)::ms).isEmpty then [] else newLine pretty outer) ++ 125::rest =
        newLine pretty indent ++ (jsonQuote k ++ (colon pretty ++ (write pretty indent v ++
          (writeMembers pretty indent false ms ++ (newLine pretty outer ++ 125::rest))))) := by
      simp [writeMembers, separator]
    have hskip : skipWhitespace (newLine pretty indent ++ (jsonQuote k ++ (colon pretty ++
        (write pretty indent v ++
          (writeMembers pretty indent false ms ++ (newLine pretty outer ++ 125::rest)))))) =
        jsonQuote k ++ (colon pretty ++ (write pretty indent v ++
          (writeMembers pretty indent false ms ++ (newLine pretty outer ++ 125::rest)))) := by
      have := skipWhitespace_append (newLine pretty indent) 34 (k.flatMap quoteByte ++ [34] ++
        (colon pretty ++ (write pretty indent v ++
          (writeMembers pretty indent false ms ++ (newLine pretty outer ++ 125::rest)))))
        (newLine_spaces pretty indent) rfl
      simpa [jsonQuote] using this
    have hlength := length_le_writeMembers pretty indent ms
    rw [htext, parseObject, hskip]
    split
    · rename_i heq
      exact absurd (List.cons.inj heq).1 (by decide)
    · exact p.parseMembers_write parseValue pretty indent levels hread [] _ rest
        (by simp [AllSpaces]) (newLine_spaces pretty outer) k v ms [] _ hvalid
        (by simpa using hnodup) (by simp only [List.length_append]; omega)

end Parser

namespace Parser
variable (p : Parser)

/-- No literal starts like a number. -/
theorem literals_number (t rest : Text) (h : isJsonNumberText t = true) :
    (p.literals.find? fun l => startsWith (t ++ rest) l.1) = none := by
  have hne (c d : UInt8) (hc : isDigit c = true) (hd : isDigit d = false) : d ≠ c := by
    rintro rfl
    rw [hc] at hd
    cases hd
  have hfalse : ∀ l ∈ p.literals, startsWith (t ++ rest) l.1 = false := by
    have hall : ∀ l ∈ [text "null", text "true", text "false", text "NaN", text "Infinity",
        text "-Infinity"], startsWith (t ++ rest) l = false := by
      rcases isJsonNumberText_head t h with ⟨c, r, rfl, hc⟩ | ⟨c, r, rfl, hc⟩
      · simp [startsWith, text, List.isPrefixOf, hne c 110 hc rfl, hne c 116 hc rfl,
          hne c 102 hc rfl, hne c 78 hc rfl, hne c 73 hc rfl, hne c 45 hc rfl]
      · simp [startsWith, text, List.isPrefixOf, hne c 73 hc rfl]
    intro l hl
    refine hall l.1 ?_
    unfold literals at hl
    split_ifs at hl
    · have := List.mem_map_of_mem (f := Prod.fst) hl
      simpa using this
    · have := List.mem_map_of_mem (f := Prod.fst) hl
      simp only [List.append_nil, List.map_cons, List.map_nil] at this
      exact List.mem_append_left [text "NaN", text "Infinity", text "-Infinity"] this
  apply List.find?_eq_none.mpr
  intro l hl
  rw [hfalse l hl]
  exact Bool.false_ne_true

/-- A number text is read as one number, whatever reads the containers. -/
theorem parseToken_number (parseArray parseObject : Text → Parsed JsonValue) (t rest : Text)
    (ht : isJsonNumberText t = true) (hrest : NumberStop rest) :
    p.parseToken parseArray parseObject (t ++ rest) = .ok (.number t,rest) := by
  have hfind := p.literals_number t rest ht
  have hparse := p.parseNumber_text t rest ht hrest
  have hhead : ∃ c r, t ++ rest = c::r ∧ c ≠ 123 ∧ c ≠ 91 ∧ c ≠ 34 ∧
      (c = 45 || isDigit c) = true := by
    rcases isJsonNumberText_head t ht with ⟨c, r, rfl, hc⟩ | ⟨c, r, rfl, hc⟩
    · refine ⟨c, r ++ rest, rfl, ?_, ?_, ?_, by simp [hc]⟩ <;> rintro rfl <;>
        exact absurd hc (by decide)
    · exact ⟨45, c::r ++ rest, rfl, by decide⟩
  obtain ⟨c, r, hcr, h123, h91, h34, hc⟩ := hhead
  rw [hcr] at hfind hparse ⊢
  simp only [parseToken, if_neg h123, if_neg h91, if_neg h34, hfind, hc, if_true, hparse]

/-- The numbers of `PythonCompat` are literals, read before `parseNumber` is tried. -/
theorem parseToken_pythonNumber (parseArray parseObject : Text → Parsed JsonValue)
    (t rest : Text) (hp : p.options.pythonCompat = true) (ht : t ∈ pythonNumbers) :
    p.parseToken parseArray parseObject (t ++ rest) = .ok (.number t,rest) := by
  simp only [pythonNumbers, List.mem_cons, List.not_mem_nil, or_false] at ht
  rcases ht with rfl | rfl | rfl
  all_goals simp [parseToken, literals, hp, startsWith, text, List.isPrefixOf]

/-- Scalars are read alike whatever reads the containers. -/
theorem parseToken_scalar (parseArray parseObject : Text → Parsed JsonValue) (pretty : Bool)
    (indent : Nat) (v : JsonValue) (hv : ValidFor p.options 0 v) (rest : Text) (hrest : NumberStop rest) :
    p.parseToken parseArray parseObject (write pretty indent v ++ rest) = .ok (v,rest) := by
  cases v with
  | null => simp [write, parseToken, literals, startsWith, text]
  | bool b =>
    cases b with
    | true => simp [write, parseToken, literals, startsWith, text]
    | false => simp [write, parseToken, literals, startsWith, text]
  | string t =>
    have hquote : write pretty indent (.string t) ++ rest =
        34::(t.flatMap quoteByte ++ 34::rest) := by
      simp [write, jsonQuote]
    have h123 : ¬ (34 : UInt8) = 123 := by decide
    have h91 : ¬ (34 : UInt8) = 91 := by decide
    rw [hquote]
    simp only [parseToken, if_neg h123, if_neg h91, if_true, p.parseString_quote t rest]
  | number t =>
    rw [write]
    rcases hv with ht | ⟨hp, ht⟩
    · exact p.parseToken_number parseArray parseObject t rest ht hrest
    · exact p.parseToken_pythonNumber parseArray parseObject t rest hp ht
  | array items => exact hv.elim
  | object members => exact hv.elim

end Parser

/-- A written value is read back, whatever follows it. -/
theorem parseValue_write (p : Parser) (pretty : Bool) (levels indent : Nat) (v : JsonValue)
    (hv : ValidFor p.options levels v) (rest : Text) (hrest : NumberStop rest) :
    p.parseValue levels (write pretty indent v ++ rest) = .ok (v,rest) := by
  induction levels generalizing indent v rest with
  | zero => exact p.parseToken_scalar _ _ pretty indent v hv rest hrest
  | succ levels ih =>
    have hread (v : JsonValue) (hv : ValidFor p.options levels v) (rest : Text) (hrest : NumberStop rest) :=
      ih (indent+1) v hv rest hrest
    cases v with
    | array items =>
      have hitems := p.parseArray_write (p.parseValue levels) pretty (indent+1) levels hread indent
        items rest hv
      simpa [write, Parser.parseValue, Parser.parseToken] using hitems
    | object members =>
      have hmembers := p.parseObject_write (p.parseValue levels) pretty (indent+1) levels hread
        indent members rest hv.1 hv.2
      simpa [write, Parser.parseValue, Parser.parseToken] using hmembers
    | null => exact p.parseToken_scalar _ _ pretty indent .null trivial rest hrest
    | bool b => exact p.parseToken_scalar _ _ pretty indent (.bool b) trivial rest hrest
    | string t => exact p.parseToken_scalar _ _ pretty indent (.string t) trivial rest hrest
    | number t => exact p.parseToken_scalar _ _ pretty indent (.number t) hv rest hrest

/-- A written tree is read back, also with spaces after it. -/
theorem jsonParse_write (pretty : Bool) (options : JsonParseOptions) (v : JsonValue)
    (hv : ValidFor options maxJsonDepth v) (spaces : Text) (hs : AllSpaces spaces) :
    jsonParse (jsonWrite pretty v ++ spaces) options = .ok v := by
  have hstop : NumberStop spaces := by
    simpa using numberStop_spaces spaces [] hs numberStop_nil
  have hstart : skipWhitespace (jsonWrite pretty v ++ spaces) = jsonWrite pretty v ++ spaces := by
    have := skipWhitespace_write options [] spaces pretty 0 maxJsonDepth v (by simp [AllSpaces]) hv
    simpa [jsonWrite] using this
  have hend : skipWhitespace spaces = [] := List.dropWhile_eq_nil_iff.mpr hs
  have hparse := parseValue_write ⟨(jsonWrite pretty v ++ spaces).length, options⟩ pretty
    maxJsonDepth 0 v hv spaces hstop
  rw [jsonParse, hstart, jsonWrite]
  rw [jsonWrite] at hparse
  simp only [hparse, hend]

theorem jsonParse_jsonWrite (pretty : Bool) (options : JsonParseOptions) (v : JsonValue)
    (hv : Valid maxJsonDepth v) (spaces : Text) (hs : AllSpaces spaces) :
    jsonParse (jsonWrite pretty v ++ spaces) options = .ok v :=
  jsonParse_write pretty options v hv.validFor spaces hs

/-- Without `PythonCompat` its numbers are refused, each at its start. -/
theorem jsonParse_pythonNumber (t : Text) (ht : t ∈ pythonNumbers) (strict : Bool) :
    jsonParse t ⟨false, strict⟩ = .error (⟨text "Expecting value",
      some (if t = text "-Infinity" then 1 else 0), []⟩) := by
  simp only [pythonNumbers, List.mem_cons, List.not_mem_nil, or_false] at ht
  rcases ht with rfl | rfl | rfl
  all_goals cases strict <;> rfl

/-- Writing a tree and parsing it is the identity, compact and pretty, under any options; the
three other numbers need `PythonCompat`. -/
theorem jsonParse_jsonWrite_tree (pretty : Bool) (options : JsonParseOptions) :
    (∀ v, ValidFor options maxJsonDepth v → jsonParse (jsonWrite pretty v) options = .ok v) ∧
    (options.pythonCompat = false → ∀ t ∈ pythonNumbers, ∀ v,
      jsonParse (jsonWrite pretty (.number t)) options ≠ .ok v) := by
  constructor
  · intro v hv
    have h := jsonParse_write pretty options v hv [] (by simp [AllSpaces])
    rwa [List.append_nil] at h
  · intro hp t ht v hparse
    obtain ⟨compat, strict⟩ := options
    obtain rfl : compat = false := hp
    have hrefused := jsonParse_pythonNumber t ht strict
    rw [jsonWrite, write, hrefused] at hparse
    cases hparse

/-- Arbitrary bytes, an escape, a control character and an infinity come back. -/
theorem jsonParse_jsonWrite_tree_sample :
    jsonParse (jsonWrite true (.object [([255, 34, 1],.array [.number (text "-Infinity"), .null]),
      ([],.string [92, 0, 200, 31])])) { pythonCompat := true } =
      .ok (.object [([255, 34, 1],.array [.number (text "-Infinity"), .null]),
        ([],.string [92, 0, 200, 31])]) := by
  refine (jsonParse_jsonWrite_tree true { pythonCompat := true }).1 _ ⟨by decide, ?_⟩
  intro m hm
  simp only [List.mem_cons, List.not_mem_nil, or_false] at hm
  rcases hm with rfl | rfl
  · intro v hv
    simp only [List.mem_cons, List.not_mem_nil, or_false] at hv
    rcases hv with rfl | rfl
    · exact Or.inr ⟨rfl, by decide⟩
    · trivial
  · trivial

end DSigMatcher.Json
