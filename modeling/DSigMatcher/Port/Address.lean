import DSigMatcher.Diff.PyInt
import DSigMatcher.Json.Parse
import DSigMatcher.Port.LabelTable

namespace DSigMatcher.Port
open DSigMatcher.Base DSigMatcher.Diff

/-- The digit loop of `PyIntParse`; an underscore stands between two digits. -/
def pyDigits : Bool → Text → Option Text
  | _, [] => some []
  | previousDigit, c::r =>
    if isDigit c then (pyDigits true r).map (c::·)
    else if c = 95 && previousDigit && r.head?.any isDigit then pyDigits false r
    else none

/-- `PyIntParse`: the sign and the digits without leading zeros. -/
def pyIntParse (t : Text) : Except DiffError (Option (Bool × Text)) :=
  if !isAscii t then
    .error (.unsupportedInput
      (text "int(): non-ASCII address text is not ported (Unicode digit/space mapping)"))
  else
    match pyDigits false (dropSign (trimSpaces t)) with
    | none => .ok none
    | some digits =>
      let significant := digits.dropWhile (· = 48)
      if digits.isEmpty then .ok none
      else .ok (some ((trimSpaces t).head? = some 45,
        if significant.isEmpty then [48] else significant))

/-- The digits of a `BigNat`. -/
def decimalValue (digits : Text) : Nat := digits.foldl (fun v c => v*10+(c.toNat-48)) 0

/-- `BigNat::ToHex`. -/
def toHex (n : Nat) : Text := (Nat.toDigits 16 n).map fun c => UInt8.ofNat c.toNat

/-- `FormatAddr08x`: `"%08x" % int(ea)`, where the sign counts inside the width. -/
def formatAddr08x (ea : Text) : Except DiffError Text :=
  match pyIntParse ea with
  | .error e => .error e
  | .ok none => .error (.wouldRaise (text "\"%08x\" % int(ea)")
      (text "ValueError: invalid literal for int() with base 10: '" ++ ea ++ text "'"))
  | .ok (some (minus,digits)) =>
    let value := decimalValue digits
    let negative := minus && value ≠ 0
    let hex := List.replicate ((if negative then 7 else 8)-(toHex value).length) 48 ++ toHex value
    .ok (if negative then 45::hex else hex)

example : formatAddr08x (text " 4_096 ") = .ok (text "00001000") := by rfl
example : formatAddr08x (text "-1") = .ok (text "-0000001") := by rfl

/-- The digit loop of `ParseHexAddress`, in 64 bits. -/
def hexAddress : Nat → Text → Option Nat
  | value, [] => some value
  | value, c::r =>
    match Json.hexValue c with
    | some digit => hexAddress ((value*16+digit)%2^64) r
    | none => none

/-- `ParseHexAddress`. -/
def parseHexAddress (t : Text) : Option Nat :=
  if t.isEmpty || 16 < t.length then none else hexAddress 0 t

/-- What `int()` takes from the Unicode tables: decimal digits and white space. -/
structure UnicodeTable where
  digit : Nat → Option Nat
  space : Nat → Bool

/-- The character that `int()` sees for a code point. -/
def UnicodeTable.toAscii (u : UnicodeTable) (c : Nat) : Nat :=
  if c < 128 then c
  else if u.space c then 32
  else
    match u.digit c with
    | some d => 48+d
    | none => 63

def codeValue (digits : List Nat) : Nat := digits.foldl (fun v c => v*10+(c-48)) 0

/-- Python's `int()` of a str reads this integer: blanks, a sign, and groups of digits that are
joined by single underscores. -/
def PythonInt (u : UnicodeTable) (s : List Nat) (v : Int) : Prop :=
  ∃ (lead sign trail : List Nat) (groups : List (List Nat)),
    s.map u.toAscii = lead ++ (sign ++ (List.intercalate [95] groups ++ trail)) ∧
    (∀ c ∈ lead ++ trail, c = 32 ∨ 9 ≤ c ∧ c ≤ 13) ∧ (sign = [] ∨ sign = [43] ∨ sign = [45]) ∧
    groups ≠ [] ∧ (∀ g ∈ groups, g ≠ [] ∧ ∀ c ∈ g, 48 ≤ c ∧ c ≤ 57) ∧
    v = if sign = [45] then -(codeValue groups.flatten : Int) else codeValue groups.flatten

/-- The bytes of a str. -/
def utf8 (s : List Nat) : Text := s.flatMap Json.appendUtf8

theorem isDigit_iff (c : UInt8) : isDigit c = true ↔ 48 ≤ c.toNat ∧ c.toNat ≤ 57 := by
  simp [isDigit, UInt8.le_iff_toNat_le]

/-- The same literal in bytes. -/
structure Literal (t : Text) (v : Int) where
  lead : Text
  sign : Text
  trail : Text
  groups : List Text
  split : t = lead ++ (sign ++ (List.intercalate [95] groups ++ trail))
  spaces : ∀ c ∈ lead ++ trail, isPySpace c = true
  signs : sign = [] ∨ sign = [43] ∨ sign = [45]
  nonempty : groups ≠ []
  digits : ∀ g ∈ groups, g ≠ [] ∧ ∀ c ∈ g, isDigit c = true
  value : v = if sign = [45] then -(decimalValue groups.flatten : Int)
    else decimalValue groups.flatten

theorem map_intercalate {α β : Type} (f : α → β) (sep : List α) (ls : List (List α)) :
    (List.intercalate sep ls).map f = List.intercalate (sep.map f) (ls.map (List.map f)) := by
  induction ls with
  | nil => rfl
  | cons l ls ih =>
    cases ls with
    | nil => simp
    | cons l' ls =>
      simp only [List.map_cons] at ih ⊢
      rw [List.intercalate_cons_cons, List.map_append, List.map_append, ih,
        List.intercalate_cons_cons]

theorem utf8_ascii (s : List Nat) (hs : ∀ c ∈ s, c < 128) : utf8 s = s.map UInt8.ofNat := by
  induction s with
  | nil => rfl
  | cons c s ih =>
    have hc := hs c List.mem_cons_self
    have htail := ih fun x hx => hs x (List.mem_cons_of_mem c hx)
    have hbyte : Json.appendUtf8 c = [UInt8.ofNat c] := by simp [Json.appendUtf8, hc]
    rw [utf8, List.flatMap_cons, hbyte, List.map_cons, List.singleton_append]
    exact congrArg (UInt8.ofNat c :: ·) htail

theorem toNat_ofNat_of_lt (c : Nat) (h : c < 128) : (UInt8.ofNat c).toNat = c := by
  rw [UInt8.toNat_ofNat']
  omega

theorem decimalValue_map (digits : List Nat) (h : ∀ c ∈ digits, c < 128) :
    decimalValue (digits.map UInt8.ofNat) = codeValue digits := by
  have hfold (v : Nat) : (digits.map UInt8.ofNat).foldl (fun v c => v*10+(c.toNat-48)) v =
      digits.foldl (fun v c => v*10+(c-48)) v := by
    induction digits generalizing v with
    | nil => rfl
    | cons c digits ih =>
      rw [List.map_cons, List.foldl_cons, List.foldl_cons,
        toNat_ofNat_of_lt c (h c List.mem_cons_self),
        ih fun x hx => h x (List.mem_cons_of_mem c hx)]
  exact hfold 0

/-- An ASCII str that `int()` reads is such a literal. -/
theorem literal_of_pythonInt (u : UnicodeTable) (s : List Nat) (v : Int)
    (hs : ∀ c ∈ s, c < 128) (h : PythonInt u s v) : Nonempty (Literal (utf8 s) v) := by
  obtain ⟨lead, sign, trail, groups, hsplit, hspaces, hsign, hne, hgroups, hv⟩ := h
  have hmap : s.map u.toAscii = s := by
    calc
      s.map u.toAscii = s.map id := List.map_congr_left fun c hc => by
        rw [UnicodeTable.toAscii, if_pos (hs c hc), id]
      _ = s := List.map_id s
  rw [hmap] at hsplit
  have hflat : ∀ c ∈ groups.flatten, c < 128 := by
    intro c hc
    obtain ⟨g, hg, hcg⟩ := List.mem_flatten.mp hc
    have := (hgroups g hg).2 c hcg
    omega
  refine ⟨lead.map UInt8.ofNat, sign.map UInt8.ofNat, trail.map UInt8.ofNat,
    groups.map (List.map UInt8.ofNat), ?_, ?_, ?_, by simpa using hne, ?_, ?_⟩
  · rw [utf8_ascii s hs, hsplit]
    simp [map_intercalate]
  · intro c hc
    rw [← List.map_append] at hc
    obtain ⟨d, hd, rfl⟩ := List.mem_map.mp hc
    have hd' := hspaces d hd
    have hd'' : d = 32 ∨ d = 9 ∨ d = 10 ∨ d = 11 ∨ d = 12 ∨ d = 13 := by omega
    rcases hd'' with rfl | rfl | rfl | rfl | rfl | rfl <;> rfl
  · rcases hsign with rfl | rfl | rfl <;> simp
  · intro g hg
    obtain ⟨g', hg', rfl⟩ := List.mem_map.mp hg
    refine ⟨by simpa using (hgroups g' hg').1, fun c hc => ?_⟩
    obtain ⟨d, hd, rfl⟩ := List.mem_map.mp hc
    have hd' := (hgroups g' hg').2 d hd
    rw [isDigit_iff, toNat_ofNat_of_lt d (by omega)]
    exact hd'
  · have hvalue := decimalValue_map groups.flatten hflat
    rw [List.map_flatten] at hvalue
    rw [hvalue, hv]
    rcases hsign with rfl | rfl | rfl <;> simp

/-- Blanks around a text without blanks are trimmed. -/
theorem trimSpaces_append (lead m trail : Text) (hlead : ∀ c ∈ lead, isPySpace c = true)
    (htrail : ∀ c ∈ trail, isPySpace c = true) (hm : ∀ c ∈ m, isPySpace c = false)
    (hne : m ≠ []) : trimSpaces (lead ++ (m ++ trail)) = m := by
  have hdrop (w r : Text) (hw : w ≠ []) (hspaces : ∀ c ∈ w, isPySpace c = false) :
      (w ++ r).dropWhile isPySpace = w ++ r := by
    cases w with
    | nil => exact absurd rfl hw
    | cons c w =>
      rw [List.cons_append, List.dropWhile_cons_of_neg (by simp [hspaces c List.mem_cons_self])]
  have hreverse := hdrop m.reverse [] (by simpa using hne) (by simpa using hm)
  rw [List.append_nil] at hreverse
  rw [trimSpaces, List.dropWhile_append_of_pos hlead, hdrop m trail hne hm, List.reverse_append,
    List.dropWhile_append_of_pos (by simpa using htrail), hreverse, List.reverse_reverse]

section
variable {groups : List Text} (hgroups : ∀ g ∈ groups, g ≠ [] ∧ ∀ c ∈ g, isDigit c = true)
include hgroups

theorem intercalate_mem : ∀ c ∈ List.intercalate [95] groups, isDigit c = true ∨ c = 95 := by
  induction groups with
  | nil => simp
  | cons g gs ih =>
    have hg := (hgroups g List.mem_cons_self).2
    have hgs := ih fun x hx => hgroups x (List.mem_cons_of_mem g hx)
    intro c hc
    cases gs with
    | nil =>
      rw [List.intercalate_singleton] at hc
      exact Or.inl (hg c hc)
    | cons g' gs =>
      rw [List.intercalate_cons_cons, List.append_assoc, List.mem_append, List.mem_append,
        List.mem_singleton] at hc
      rcases hc with hc | hc | hc
      · exact Or.inl (hg c hc)
      · exact Or.inr hc
      · exact hgs c hc

theorem intercalate_head (hne : groups ≠ []) :
    ∃ d r, List.intercalate [95] groups = d::r ∧ isDigit d = true := by
  cases groups with
  | nil => exact absurd rfl hne
  | cons g gs =>
    obtain ⟨hg, hdigits⟩ := hgroups g List.mem_cons_self
    obtain ⟨d, r, rfl⟩ := List.exists_cons_of_ne_nil hg
    cases gs with
    | nil => exact ⟨d, r, List.intercalate_singleton, hdigits d List.mem_cons_self⟩
    | cons g' gs =>
      refine ⟨d, r ++ [95] ++ List.intercalate [95] (g'::gs), ?_, hdigits d List.mem_cons_self⟩
      rw [List.intercalate_cons_cons, List.cons_append, List.cons_append]

/-- The loop of `PyIntParse` keeps the digits of all groups. -/
theorem pyDigits_intercalate (hne : groups ≠ []) :
    pyDigits false (List.intercalate [95] groups) = some groups.flatten := by
  have hrun (previousDigit : Bool) (g r : Text) (hg : ∀ c ∈ g, isDigit c = true) (hg0 : g ≠ []) :
      pyDigits previousDigit (g ++ r) = (pyDigits true r).map (g ++ ·) := by
    induction g generalizing previousDigit with
    | nil => exact absurd rfl hg0
    | cons d g ih =>
      rw [List.cons_append, pyDigits, if_pos (hg d List.mem_cons_self)]
      cases g with
      | nil => rfl
      | cons e g =>
        rw [ih true (fun x hx => hg x (List.mem_cons_of_mem d hx)) (by simp), Option.map_map]
        rfl
  induction groups with
  | nil => exact absurd rfl hne
  | cons g gs ih =>
    obtain ⟨hg0, hg⟩ := hgroups g List.mem_cons_self
    have hgs : ∀ x ∈ gs, x ≠ [] ∧ ∀ c ∈ x, isDigit c = true :=
      fun x hx => hgroups x (List.mem_cons_of_mem g hx)
    cases gs with
    | nil =>
      have h := hrun false g [] hg hg0
      rw [List.append_nil] at h
      rw [List.intercalate_singleton, h]
      simp [pyDigits]
    | cons g' gs =>
      obtain ⟨d, r, hd, hdigit⟩ := intercalate_head hgs (by simp)
      rw [List.intercalate_cons_cons, List.append_assoc, hrun false g _ hg hg0]
      have hunderscore : pyDigits true ([95] ++ List.intercalate [95] (g'::gs)) =
          pyDigits false (List.intercalate [95] (g'::gs)) := by
        rw [hd]
        simp [pyDigits, hdigit, show isDigit 95 = false from rfl]
      rw [hunderscore, ih hgs (by simp)]
      rfl

end

/-- One round of a decimal accumulator. -/
def decimalRound (v : Nat) (c : UInt8) : Nat := v*10+(c.toNat-48)

theorem le_foldl_decimalRound (v : Nat) (ds : Text) : v ≤ ds.foldl decimalRound v := by
  induction ds generalizing v with
  | nil => exact Nat.le_refl v
  | cons d ds ih =>
    have h := ih (decimalRound v d)
    rw [List.foldl_cons]
    unfold decimalRound at h ⊢
    omega

/-- Digits are added up as long as the sum stays below 2^64. -/
theorem parseDigits_digits (v : Nat) (previousDigit : Bool) (ds r : Text)
    (hds : ∀ c ∈ ds, isDigit c = true) (hne : ds ≠ [])
    (hbound : ds.foldl decimalRound v < 2^64) :
    parseDigits v previousDigit (ds ++ r) =
      parseDigits (ds.foldl decimalRound v) true r := by
  induction ds generalizing v previousDigit with
  | nil => exact absurd rfl hne
  | cons d ds ih =>
    have hdigit := hds d List.mem_cons_self
    have hunderscore : d ≠ 95 := by
      rintro rfl
      exact absurd hdigit (by decide)
    have hle := le_foldl_decimalRound (decimalRound v d) ds
    have hrange : ¬ (d < 48 ∨ 57 < d) := by
      rw [isDigit_iff] at hdigit
      simp only [UInt8.lt_iff_toNat_lt, UInt8.reduceToNat]
      omega
    have hfits : ¬ v > (2^64-1-(d.toNat-48))/10 := by
      rw [List.foldl_cons] at hbound
      unfold decimalRound at hle hbound
      omega
    have hstep : parseDigits v previousDigit (d::ds ++ r) =
        parseDigits (decimalRound v d) true (ds ++ r) := by
      rw [List.cons_append, parseDigits, if_neg hunderscore, if_neg hrange]
      exact if_neg hfits
    rw [hstep, List.foldl_cons]
    cases ds with
    | nil => rfl
    | cons e ds =>
      exact ih (decimalRound v d) true (fun x hx => hds x (List.mem_cons_of_mem d hx)) (by simp)
        (by simpa using hbound)

/-- The loop of `ParseDecimalAddress` adds up the digits of all groups. -/
theorem parseDigits_intercalate (v : Nat) (groups : List Text)
    (hgroups : ∀ g ∈ groups, g ≠ [] ∧ ∀ c ∈ g, isDigit c = true) (hne : groups ≠ [])
    (hbound : groups.flatten.foldl decimalRound v < 2^64) :
    parseDigits v false (List.intercalate [95] groups) =
      some (groups.flatten.foldl decimalRound v) := by
  induction groups generalizing v with
  | nil => exact absurd rfl hne
  | cons g gs ih =>
    obtain ⟨hg0, hg⟩ := hgroups g List.mem_cons_self
    have hgs : ∀ x ∈ gs, x ≠ [] ∧ ∀ c ∈ x, isDigit c = true :=
      fun x hx => hgroups x (List.mem_cons_of_mem g hx)
    rw [List.flatten_cons, List.foldl_append] at hbound ⊢
    have hle := le_foldl_decimalRound (g.foldl decimalRound v) gs.flatten
    have hfirst : g.foldl decimalRound v < 2^64 := by omega
    cases gs with
    | nil =>
      have h := parseDigits_digits v false g [] hg hg0 hfirst
      rw [List.append_nil] at h
      rw [List.intercalate_singleton, h]
      rfl
    | cons g' gs =>
      obtain ⟨d, r, hd, -⟩ := intercalate_head hgs (by simp)
      rw [List.intercalate_cons_cons, List.append_assoc,
        parseDigits_digits v false g _ hg hg0 hfirst]
      have hunderscore (w : Nat) : parseDigits w true ([95] ++ List.intercalate [95] (g'::gs)) =
          parseDigits w false (List.intercalate [95] (g'::gs)) := by
        rw [hd]
        simp [parseDigits]
      rw [hunderscore]
      exact ih _ hgs (by simp) hbound

/-- What the two readers of a decimal address see of a literal. -/
theorem Literal.trimmed {t : Text} {v : Int} (l : Literal t v) :
    trimSpaces t = l.sign ++ List.intercalate [95] l.groups ∧
      dropSign (trimSpaces t) = List.intercalate [95] l.groups ∧
      ((trimSpaces t).head? = some 45 ↔ l.sign = [45]) ∧ isAscii t = true := by
  obtain ⟨d, r, hd, hdigit⟩ := intercalate_head l.digits l.nonempty
  have hspec : ∀ c, isDigit c = true ∨ c = 95 → isPySpace c = false ∧ c < 128 := by
    intro c hc
    rcases hc with hc | rfl
    · rw [isDigit_iff] at hc
      simp only [isPySpace, Bool.or_eq_false_iff, decide_eq_false_iff_not, ← UInt8.toNat_inj,
        UInt8.lt_iff_toNat_lt, UInt8.reduceToNat]
      omega
    · decide
  have hspace : ∀ c, isPySpace c = true → c < 128 := by
    intro c hc
    simp only [isPySpace, Bool.or_eq_true, decide_eq_true_eq] at hc
    rcases hc with ((((rfl | rfl) | rfl) | rfl) | rfl) | rfl <;> decide
  have hsign : ∀ c ∈ l.sign, isPySpace c = false ∧ c < 128 := by
    intro c hc
    rcases l.signs with h | h | h <;> rw [h] at hc
    · exact absurd hc List.not_mem_nil
    · rw [List.mem_singleton.mp hc]
      decide
    · rw [List.mem_singleton.mp hc]
      decide
  have hbody : ∀ c ∈ l.sign ++ List.intercalate [95] l.groups,
      isPySpace c = false ∧ c < 128 := by
    intro c hc
    rcases List.mem_append.mp hc with hc | hc
    · exact hsign c hc
    · exact hspec c (intercalate_mem l.digits c hc)
  have htrim : trimSpaces t = l.sign ++ List.intercalate [95] l.groups := by
    have h := trimSpaces_append l.lead (l.sign ++ List.intercalate [95] l.groups) l.trail
      (fun c hc => l.spaces c (List.mem_append_left _ hc))
      (fun c hc => l.spaces c (List.mem_append_right _ hc)) (fun c hc => (hbody c hc).1)
      (by simp [hd])
    rw [List.append_assoc, ← l.split] at h
    exact h
  have hne : d ≠ 43 ∧ d ≠ 45 := by
    constructor <;> rintro rfl <;> exact absurd hdigit (by decide)
  refine ⟨htrim, ?_, ?_, ?_⟩
  · rw [htrim, dropSign, hd]
    rcases l.signs with h | h | h <;> simp [h, hne]
  · rw [htrim, hd]
    rcases l.signs with h | h | h <;> simp [h, hne]
  · rw [isAscii, List.all_eq_true]
    intro c hc
    rw [l.split] at hc
    rw [decide_eq_true_eq]
    rcases List.mem_append.mp hc with hc | hc
    · exact hspace c (l.spaces c (List.mem_append_left _ hc))
    · rw [← List.append_assoc] at hc
      rcases List.mem_append.mp hc with hc | hc
      · exact (hbody c hc).2
      · exact hspace c (l.spaces c (List.mem_append_right _ hc))

theorem decimalValue_dropZeros (digits : Text) :
    decimalValue (digits.dropWhile (· = 48)) = decimalValue digits := by
  induction digits with
  | nil => rfl
  | cons c digits ih =>
    by_cases hc : c = 48
    · rw [List.dropWhile_cons_of_pos (by simp [hc]), ih, hc]
      rfl
    · rw [List.dropWhile_cons_of_neg (by simp [hc])]

/-- `PyIntParse` finds the sign and the digits of a literal. -/
theorem Literal.pyIntParse {t : Text} {v : Int} (l : Literal t v) :
    ∃ digits, pyIntParse t = .ok (some (decide (l.sign = [45]),digits)) ∧
      decimalValue digits = decimalValue l.groups.flatten := by
  obtain ⟨-, hdrop, hminus, hascii⟩ := l.trimmed
  have hdigits := pyDigits_intercalate l.digits l.nonempty
  have hnonempty : l.groups.flatten.isEmpty = false := by
    obtain ⟨g, gs, hg⟩ := List.exists_cons_of_ne_nil l.nonempty
    have hg0 := (l.digits g (by simp [hg])).1
    simp [hg, hg0]
  refine ⟨if (l.groups.flatten.dropWhile (· = 48)).isEmpty then [48]
    else l.groups.flatten.dropWhile (· = 48), ?_, ?_⟩
  · rw [Port.pyIntParse, hascii, hdrop]
    simp only [Bool.not_true, Bool.false_eq_true, if_false, hdigits, hnonempty, hminus]
  · split_ifs with hzero
    · have h := decimalValue_dropZeros l.groups.flatten
      rw [List.isEmpty_iff.mp hzero] at h
      exact h
    · exact decimalValue_dropZeros l.groups.flatten

/-- One round of `ParseHexAddress` without the wrap. -/
theorem hexAddress_hexDigit (v d : Nat) (r : Text) (hd : d < 16) :
    hexAddress v (UInt8.ofNat (Nat.digitChar d).toNat::r) = hexAddress ((v*16+d)%2^64) r := by
  have hvalue : ∀ d < 16, Json.hexValue (UInt8.ofNat (Nat.digitChar d).toNat) = some d := by
    decide
  rw [hexAddress, hvalue d hd]

/-- The hexadecimal text of a number below 2^64 is read back, whatever follows it. -/
theorem hexAddress_toHex (n : Nat) (hn : n < 2^64) (r : Text) :
    hexAddress 0 (toHex n ++ r) = hexAddress n r := by
  induction n using Nat.strongRecOn generalizing r with
  | _ n ih =>
    by_cases hsmall : n < 16
    · rw [toHex, Nat.toDigits_of_lt_base hsmall, List.map_singleton, List.singleton_append,
        hexAddress_hexDigit 0 n r hsmall]
      congr 1
      omega
    · have hdiv := ih (n/16) (by omega) (by omega)
        (UInt8.ofNat (Nat.digitChar (n%16)).toNat::r)
      have hmod : n%16 < 16 := Nat.mod_lt n (by decide)
      have hsum : (n/16*16+n%16)%2^64 = n := by omega
      rw [hexAddress_hexDigit (n/16) (n%16) r hmod, hsum] at hdiv
      rw [← hdiv, toHex, Nat.toDigits_of_base_le (by decide) (by omega), List.map_append,
        List.append_assoc, ← toHex]
      rfl

theorem hexAddress_zeros (k : Nat) (r : Text) :
    hexAddress 0 (List.replicate k 48 ++ r) = hexAddress 0 r := by
  induction k with
  | zero => rfl
  | succ k ih =>
    rw [List.replicate_succ, List.cons_append]
    exact ih

/-- `ParseHexAddress` reads a zero-padded hexadecimal number below 2^64. -/
theorem parseHexAddress_padded (n : Nat) (hn : n < 2^64) :
    parseHexAddress (List.replicate (8-(toHex n).length) 48 ++ toHex n) = some n := by
  have hlength : (toHex n).length ≤ 16 := by
    rw [toHex, List.length_map, Nat.length_toDigits_le_iff (by decide) (by decide)]
    exact hn
  have hpositive : 0 < (toHex n).length := by
    rw [toHex, List.length_map]
    exact Nat.length_toDigits_pos
  have hshort : (List.replicate (8-(toHex n).length) (48 : UInt8) ++ toHex n).length ≤ 16 := by
    rw [List.length_append, List.length_replicate]
    omega
  have hnonempty : (List.replicate (8-(toHex n).length) (48 : UInt8) ++ toHex n).isEmpty = false := by
    cases h : toHex n with
    | nil => simp [h] at hpositive
    | cons c r => simp
  have hread := hexAddress_toHex n hn []
  rw [List.append_nil] at hread
  rw [parseHexAddress, hnonempty, Bool.false_or, if_neg (by simpa using hshort),
    hexAddress_zeros, hread]
  rfl

/-- The writer's text of a literal in the 64-bit range, and what the label port reads in it. -/
theorem Literal.written {t : Text} {v : Int} (l : Literal t v) (hzero : 0 ≤ v)
    (hbound : v < 2^64) :
    ∃ h, formatAddr08x t = .ok h ∧ parseHexAddress h = some v.toNat := by
  have hvalue := l.value
  obtain ⟨digits, hparse, hdigits⟩ := l.pyIntParse
  have hn : decimalValue l.groups.flatten = v.toNat := by
    split_ifs at hvalue <;> omega
  -- a minus is left to zero only, and the writer drops it there
  have hpositive : (decide (l.sign = [45]) && decide (v.toNat ≠ 0)) = false := by
    rw [Bool.and_eq_false_iff, decide_eq_false_iff_not, decide_eq_false_iff_not]
    split_ifs at hvalue with hsign
    · exact Or.inr fun h => h (by omega)
    · exact Or.inl hsign
  refine ⟨List.replicate (8-(toHex v.toNat).length) 48 ++ toHex v.toNat, ?_,
    parseHexAddress_padded v.toNat (by omega)⟩
  simp only [formatAddr08x, hparse, hdigits, hn, hpositive, Bool.false_eq_true, if_false]

/-- The database side trims the blanks of `int()`. -/
theorem parseDecimalAddress_trimmed (t : Text) : parseDecimalAddress t =
    let t := if (trimSpaces t).head? = some 43 then (trimSpaces t).tail else trimSpaces t
    if t.isEmpty then none else parseDigits 0 false t := by
  have hblank : ∀ c, isPySpace c =
      (c == 32 || c == 9 || c == 10 || c == 13 || c == 12 || c == 11) := by
    intro c
    rw [Bool.eq_iff_iff]
    simp only [isPySpace, Bool.or_eq_true, decide_eq_true_eq, beq_iff_eq]
    grind
  exact parseDecimalAddress_blanks t isPySpace hblank

/-- The database side reads every literal without a minus. -/
theorem Literal.stored {t : Text} {v : Int} (l : Literal t v) (hsign : l.sign ≠ [45])
    (hbound : v < 2^64) : parseDecimalAddress t = some v.toNat := by
  have hvalue := l.value
  rw [if_neg hsign] at hvalue
  have hn : v.toNat = decimalValue l.groups.flatten := by omega
  have hlt : decimalValue l.groups.flatten < 2^64 := by omega
  obtain ⟨htrim, -⟩ := l.trimmed
  obtain ⟨d, r, hd, hdigit⟩ := intercalate_head l.digits l.nonempty
  have hplus : (if (trimSpaces t).head? = some 43 then (trimSpaces t).tail else trimSpaces t) =
      List.intercalate [95] l.groups := by
    rw [htrim, hd]
    have hne : d ≠ 43 := by
      rintro rfl
      exact absurd hdigit (by decide)
    rcases l.signs with h | h | h
    · simp [h, hne]
    · simp [h]
    · exact absurd h hsign
  have hrun := parseDigits_intercalate 0 l.groups l.digits l.nonempty hlt
  rw [parseDecimalAddress_trimmed]
  dsimp only
  rw [hplus, hrun, hd, hn]
  rfl

/-- An ASCII address text that `int()` reads as a 64-bit number. -/
structure AsciiAddress (u : UnicodeTable) (s : List Nat) (v : Int) : Prop where
  reads : PythonInt u s v
  nonneg : 0 ≤ v
  bound : v < 2^64
  ascii : ∀ c ∈ s, c < 128

/-- Addresses survive the results file: the label port reads the writer's text as the integer of
the address text, so different integers have different texts; the database side reads the same
integer in every text without a minus. -/
theorem addresses_survive (u : UnicodeTable) (s s' : List Nat) (v v' : Int)
    (hs : AsciiAddress u s v) (hs' : AsciiAddress u s' v') :
    (∃ h, formatAddr08x (utf8 s) = .ok h ∧ parseHexAddress h = some v.toNat) ∧
    (45 ∉ s → parseDecimalAddress (utf8 s) = some v.toNat) ∧
    (v ≠ v' → formatAddr08x (utf8 s) ≠ formatAddr08x (utf8 s')) := by
  obtain ⟨l⟩ := literal_of_pythonInt u s v hs.ascii hs.reads
  obtain ⟨l'⟩ := literal_of_pythonInt u s' v' hs'.ascii hs'.reads
  obtain ⟨h, hformat, hread⟩ := l.written hs.nonneg hs.bound
  obtain ⟨h', hformat', hread'⟩ := l'.written hs'.nonneg hs'.bound
  refine ⟨⟨h, hformat, hread⟩, fun hminus => l.stored ?_ hs.bound, fun hne heq => ?_⟩
  · intro hsign
    have hmem : (45 : UInt8) ∈ utf8 s := by
      rw [l.split, hsign]
      simp
    rw [utf8_ascii s hs.ascii] at hmem
    obtain ⟨c, hc, hc45⟩ := List.mem_map.mp hmem
    have hnat := congrArg UInt8.toNat hc45
    rw [toNat_ofNat_of_lt c (hs.ascii c hc)] at hnat
    exact hminus (by rw [← show c = 45 from hnat]; exact hc)
  · rw [hformat, hformat', Except.ok.injEq] at heq
    rw [heq, hread', Option.some.injEq] at hread
    have := hs.nonneg
    have := hs'.nonneg
    omega

/-- The Unicode data of one Arabic-Indic digit. -/
def arabicFive : UnicodeTable := ⟨fun c => if c = 0x665 then some 5 else none, fun _ => false⟩

theorem addresses_survive_sample :
    (∃ h, formatAddr08x (utf8 [32, 43, 48, 49, 95, 48]) = .ok h ∧ parseHexAddress h = some 10) ∧
    (45 ∉ [32, 43, 48, 49, 95, 48] →
      parseDecimalAddress (utf8 [32, 43, 48, 49, 95, 48]) = some 10) ∧
    ((10 : Int) ≠ 0 →
      formatAddr08x (utf8 [32, 43, 48, 49, 95, 48]) ≠ formatAddr08x (utf8 [45, 48])) := by
  refine addresses_survive arabicFive [32, 43, 48, 49, 95, 48] [45, 48] 10 0 ⟨?_, ?_, ?_, ?_⟩
    ⟨?_, ?_, ?_, ?_⟩
  · exact ⟨[32], [43], [], [[48, 49], [48]], by decide⟩
  · decide
  · decide
  · decide
  · exact ⟨[], [45], [], [[48]], by decide⟩
  · decide
  · decide
  · decide

/-- `int()` reads `-0` and an Arabic-Indic five, but the database side does not read the first and
the writer refuses the second. -/
theorem addresses_lost :
    (PythonInt arabicFive [45, 48] 0 ∧ parseDecimalAddress (utf8 [45, 48]) = none) ∧
    (PythonInt arabicFive [0x665] 5 ∧ ∃ e, formatAddr08x (utf8 [0x665]) = .error e) := by
  refine ⟨⟨⟨[], [45], [], [[48]], by decide⟩, by decide⟩, ⟨[], [], [], [[53]], by decide⟩, ?_⟩
  exact ⟨_, rfl⟩

end DSigMatcher.Port
