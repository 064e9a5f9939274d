import DSigMatcher.Diff.IntKeys
import DSigMatcher.Json.Decimal
import DSigMatcher.Port.Address

namespace DSigMatcher.Port
open DSigMatcher.Base DSigMatcher.Diff

/-- The gate accepts what the digit loop reads. -/
theorem pyDigitsAccept_iff (prev : Bool) (b : Text) :
    pyDigitsAccept prev b = (pyDigits prev b).isSome := by
  induction b generalizing prev with
  | nil => rfl
  | cons c r ih =>
    unfold pyDigitsAccept pyDigits
    split_ifs with hdigit hunderscore
    · rw [ih, Option.isSome_map]
    · exact ih false
    · rfl

/-- What `PyIntCanonical` makes of its digit loop. -/
def closedDigits (prev : UInt8) (b : Text) : Option Text :=
  (canonicalDigits prev b).bind fun read => if read.2 = 95 then none else some read.1

theorem closedDigits_cons {c : UInt8} (hc : isDigit c = true) (prev : UInt8) (r : Text) :
    closedDigits prev (c::r) = (closedDigits c r).map (c::·) := by
  have hne : c ≠ 95 := by
    rintro rfl
    cases hc
  unfold closedDigits
  rw [canonicalDigits, if_neg hne, if_pos hc]
  cases canonicalDigits c r with
  | none => rfl
  | some read =>
    simp only [Option.map_some, Option.bind_some]
    split_ifs <;> rfl

/-- The two loops read the same digits; behind an underscore a digit has to follow. -/
theorem closedDigits_eq (b : Text) :
    (∀ prev, prev ≠ 95 → closedDigits prev b = pyDigits (isDigit prev) b) ∧
    closedDigits 95 b = if b.head?.any isDigit then pyDigits false b else none := by
  induction b with
  | nil =>
    constructor
    · intro prev hprev
      exact if_neg hprev
    · rfl
  | cons c r ih =>
    obtain ⟨hother, hunder⟩ := ih
    by_cases hdigit : isDigit c = true
    · have hne : c ≠ 95 := by
        rintro rfl
        cases hdigit
      have hread (prev : UInt8) (p : Bool) : closedDigits prev (c::r) = pyDigits p (c::r) := by
        rw [closedDigits_cons hdigit, hother c hne, hdigit, pyDigits, if_pos hdigit]
      constructor
      · intro prev _
        exact hread prev _
      · have hhead : (c::r).head?.any isDigit = true := hdigit
        rw [if_pos hhead]
        exact hread 95 false
    · by_cases hc : c = 95
      · subst hc
        constructor
        · intro prev _
          rw [closedDigits, canonicalDigits, if_pos rfl, pyDigits, if_neg hdigit]
          cases hprev : isDigit prev with
          | false => rfl
          | true => simpa [closedDigits] using hunder
        · rfl
      · have hnone (prev : UInt8) : closedDigits prev (c::r) = none := by
          rw [closedDigits, canonicalDigits, if_neg hc, if_neg hdigit]
          rfl
        constructor
        · intro prev _
          rw [hnone, pyDigits, if_neg hdigit, if_neg (by simp [hc])]
        · have hhead : ¬ (c::r).head?.any isDigit = true := hdigit
          rw [hnone, if_neg hhead]

theorem digit_range {c : UInt8} (hc : isDigit c = true) : c ≠ 95 ∧ ¬ (c < 48 ∨ 57 < c) := by
  constructor
  · rintro rfl
    cases hc
  · rw [isDigit_iff] at hc
    simp only [UInt8.lt_iff_toNat_lt, UInt8.reduceToNat]
    omega

theorem no_digit_range {c : UInt8} (hc : ¬ isDigit c = true) : c < 48 ∨ 57 < c := by
  rw [isDigit_iff] at hc
  simp only [UInt8.lt_iff_toNat_lt, UInt8.reduceToNat]
  omega

/-- The loop of `ParseDecimalAddress` adds up the same digits, as far as 64 bits go. -/
theorem parseDigits_eq (v : Nat) (p : Bool) (b : Text) (hv : v < 2^64) :
    parseDigits v p b = (pyDigits p b).bind fun ds =>
      if ds.foldl decimalRound v < 2^64 then some (ds.foldl decimalRound v) else none := by
  induction b generalizing v p with
  | nil => exact (if_pos hv).symm
  | cons c r ih =>
    rw [parseDigits, pyDigits]
    by_cases hdigit : isDigit c = true
    · obtain ⟨hne, hrange⟩ := digit_range hdigit
      rw [if_neg hne, if_neg hrange, if_pos hdigit]
      simp only
      by_cases hfits : v > (2^64-1-(c.toNat-48))/10
      · rw [if_pos hfits]
        cases pyDigits true r with
        | none => rfl
        | some ds =>
          have hle := le_foldl_decimalRound (decimalRound v c) ds
          have hbig : 2^64 ≤ decimalRound v c := by
            unfold decimalRound
            omega
          have hlarge : ¬ (c::ds).foldl decimalRound v < 2^64 := by
            rw [List.foldl_cons]
            omega
          exact (if_neg hlarge).symm
      · rw [if_neg hfits]
        have hsmall : decimalRound v c < 2^64 := by
          have hlt := c.toNat_lt
          unfold decimalRound
          omega
        have hread := ih (decimalRound v c) true hsmall
        rw [decimalRound] at hread
        rw [hread, Option.bind_map]
        rfl
    · rw [if_neg hdigit, if_pos (no_digit_range hdigit)]
      by_cases hc : c = 95
      · subst hc
        rw [if_pos rfl]
        cases p with
        | false => rfl
        | true =>
          cases r with
          | nil => rfl
          | cons d r =>
            have hhead : (d::r).head?.any isDigit = isDigit d := rfl
            simp only [Bool.not_true, List.isEmpty_cons, Bool.or_self, Bool.false_eq_true, if_false,
              hhead, decide_true, Bool.true_and]
            by_cases hd : isDigit d = true
            · rw [if_pos hd]
              exact ih v false hv
            · have hnone : parseDigits v false (d::r) = none := by
                rw [parseDigits, if_pos (no_digit_range hd)]
                simp
              rw [if_neg hd, hnone]
              rfl
      · rw [if_neg hc, if_neg (by simp [hc])]
        rfl

/-- The digits that are read are the digits of the text, and no hyphen is passed. -/
theorem pyDigits_filter {p : Bool} {b ds : Text} (h : pyDigits p b = some ds) :
    b.filter isDigit = ds ∧ (45 : UInt8) ∉ b := by
  induction b generalizing p ds with
  | nil =>
    cases h
    exact ⟨rfl, List.not_mem_nil⟩
  | cons c r ih =>
    rw [pyDigits] at h
    split_ifs at h with hdigit hunderscore
    · obtain ⟨ds', hds, rfl⟩ := Option.map_eq_some_iff.mp h
      obtain ⟨hfilter, hhyphen⟩ := ih hds
      refine ⟨by rw [List.filter_cons_of_pos hdigit, hfilter], ?_⟩
      rw [List.mem_cons, not_or]
      refine ⟨?_, hhyphen⟩
      rintro rfl
      cases hdigit
    · obtain ⟨hfilter, hhyphen⟩ := ih h
      refine ⟨by rw [List.filter_cons_of_neg hdigit, hfilter], ?_⟩
      rw [List.mem_cons, not_or]
      refine ⟨?_, hhyphen⟩
      rintro rfl
      simp at hunderscore

/-- The first byte of what is read is a digit. -/
theorem pyDigits_first {c : UInt8} {r ds : Text} (h : pyDigits false (c::r) = some ds) :
    isDigit c = true ∧ ds ≠ [] := by
  rw [pyDigits] at h
  split_ifs at h with hdigit hunderscore
  · obtain ⟨ds', -, rfl⟩ := Option.map_eq_some_iff.mp h
    exact ⟨hdigit, List.cons_ne_nil _ _⟩
  · simp at hunderscore

/-- The loop of `IntKeyOf` finds the hyphen and the significant digits. -/
theorem intKeyLoop_eq (leading : Bool) (key : PyIntKey) (t : Text) :
    intKeyLoop leading key t = ⟨key.negative || decide (45 ∈ t),
      key.digits ++ if leading then (t.filter isDigit).dropWhile (· = 48) else t.filter isDigit⟩ := by
  induction t generalizing leading key with
  | nil => cases leading <;> simp [intKeyLoop]
  | cons c t ih =>
    rw [intKeyLoop]
    by_cases hminus : c = 45
    · subst hminus
      rw [if_pos rfl, ih, List.filter_cons_of_neg (by decide)]
      simp
    · have hmem : decide (45 ∈ c::t) = decide (45 ∈ t) := by simp [Ne.symm hminus]
      rw [if_neg hminus, hmem]
      by_cases hdigit : isDigit c = true
      · rw [if_pos hdigit, List.filter_cons_of_pos hdigit]
        by_cases hzero : leading = true ∧ c = 48
        · obtain ⟨rfl, rfl⟩ := hzero
          rw [if_pos (by decide), ih]
          rfl
        · have hskip : ¬ (leading && decide (c = 48)) = true := by simpa using hzero
          rw [if_neg hskip, ih]
          cases leading with
          | false => simp
          | true =>
            have hc : c ≠ 48 := by simpa using hzero
            rw [if_neg Bool.false_ne_true, if_pos rfl, List.dropWhile_cons_of_neg (by simp [hc])]
            simp
      · rw [if_neg hdigit, ih, List.filter_cons_of_neg hdigit]

/-- No leading zero, and no minus before zero. -/
structure NormalKey (key : PyIntKey) : Prop where
  digits : ∀ c ∈ key.digits, isDigit c = true
  head : key.digits.head? ≠ some 48
  zero : key.digits = [] → key.negative = false

/-- The integer of a key. -/
def keyValue (key : PyIntKey) : Int :=
  if key.negative then -(decimalValue key.digits : Int) else decimalValue key.digits

theorem dropZeros_head (ds : Text) : (ds.dropWhile (· = 48)).head? ≠ some 48 := by
  induction ds with
  | nil => exact nofun
  | cons c ds ih =>
    by_cases hc : c = 48
    · rwa [List.dropWhile_cons_of_pos (by simp [hc])]
    · rw [List.dropWhile_cons_of_neg (by simp [hc]), List.head?_cons]
      exact fun h => hc (Option.some.inj h)

theorem dropZeros_digits {ds : Text} (h : ∀ c ∈ ds, isDigit c = true) :
    ∀ c ∈ ds.dropWhile (· = 48), isDigit c = true := fun c hc =>
  h c ((List.dropWhile_sublist _).subset hc)

/-- What `IntKeyOf` makes of a text that is accepted. -/
theorem intKeyOf_eq {t site : Text} (hascii : isAscii t = true) :
    intKeyOf (some t) site =
      if pyIntAsciiAccepts t then
        .ok ⟨!((t.filter isDigit).dropWhile (· = 48)).isEmpty && decide (45 ∈ t),
          (t.filter isDigit).dropWhile (· = 48)⟩
      else .error (.wouldRaise (site ++ text " ValueError")
        (text "invalid literal for int() with base 10: '" ++ t ++ text "'")) := by
  unfold intKeyOf requirePyInt
  simp only [hascii, Bool.not_true, Bool.false_eq_true, if_false]
  cases pyIntAsciiAccepts t with
  | false => rfl
  | true =>
    simp only [Bool.not_true, Bool.false_eq_true, if_false, if_true, Option.getD_some, intKeyLoop_eq,
      Bool.false_or, List.nil_append]
    cases ((t.filter isDigit).dropWhile (· = 48)).isEmpty <;> rfl

theorem intKeyOf_normal {t site : Text} {key : PyIntKey} (hascii : isAscii t = true)
    (h : intKeyOf (some t) site = .ok key) : NormalKey key := by
  rw [intKeyOf_eq hascii] at h
  split_ifs at h with haccepted
  · obtain rfl := Except.ok.inj h
    refine ⟨?_, dropZeros_head _, ?_⟩
    · exact dropZeros_digits fun c hc => (List.mem_filter.mp hc).2
    · intro hnil
      simp only at hnil ⊢
      rw [hnil]
      rfl

/-- Texts of digits of one length compare as their numbers. -/
theorem compareText_digits {s t : Text} (hs : ∀ c ∈ s, isDigit c = true)
    (ht : ∀ c ∈ t, isDigit c = true) (hlength : s.length = t.length) :
    compareText s t =
      if decimalValue s < decimalValue t then -1
      else if decimalValue t < decimalValue s then 1 else 0 := by
  induction s generalizing t with
  | nil =>
    obtain rfl : t = [] := List.length_eq_zero_iff.mp hlength.symm
    rfl
  | cons a s ih =>
    cases t with
    | nil => cases hlength
    | cons b t =>
      rw [List.forall_mem_cons] at hs ht
      have hlength' : s.length = t.length := Nat.succ.inj hlength
      have hvalue (c : UInt8) (u : Text) :
          decimalValue (c::u) = (c.toNat-48)*10^u.length+decimalValue u := by
        have hone : decimalValue [c] = c.toNat-48 := Nat.zero_add _
        rw [← hone]
        exact Json.digitsValue_join [c] u
      have hsbound : decimalValue s < 10^s.length := Json.digitsValue_lt hs.2
      have htbound : decimalValue t < 10^t.length := Json.digitsValue_lt ht.2
      have ha := (isDigit_iff a).mp hs.1
      have hb := (isDigit_iff b).mp ht.1
      rw [compareText, hvalue, hvalue, hlength']
      rw [hlength'] at hsbound
      have hmul {x y : Nat} (h : x < y) : x*10^t.length+10^t.length ≤ y*10^t.length := by
        have hle := Nat.mul_le_mul_right (10^t.length) h
        rwa [Nat.succ_mul] at hle
      by_cases hlt : a < b
      · have hcode : a.toNat-48 < b.toNat-48 := by
          have := UInt8.lt_iff_toNat_lt.mp hlt
          omega
        have hstep := hmul hcode
        rw [if_pos hlt, if_pos (by omega)]
      · by_cases hgt : b < a
        · have hcode : b.toNat-48 < a.toNat-48 := by
            have := UInt8.lt_iff_toNat_lt.mp hgt
            omega
          have hstep := hmul hcode
          rw [if_neg hlt, if_pos hgt, if_neg (by omega), if_pos (by omega)]
        · have hsame : a = b := by
            rw [UInt8.lt_iff_toNat_lt] at hlt hgt
            exact UInt8.toNat_inj.mp (by omega)
          subst hsame
          rw [if_neg hlt, if_neg hgt, ih hs.2 ht.2 hlength']
          simp only [Nat.add_lt_add_iff_left]

/-- Longer digits without a leading zero are the larger number. -/
theorem decimalValue_longer {s t : Text} (hs : ∀ c ∈ s, isDigit c = true)
    (ht : ∀ c ∈ t, isDigit c = true) (hhead : t.head? ≠ some 48) (hlength : s.length < t.length) :
    decimalValue s < decimalValue t := by
  have hne : t ≠ [] := by
    rintro rfl
    exact absurd hlength (Nat.not_lt_zero _)
  calc
    decimalValue s < 10^s.length := Json.digitsValue_lt hs
    _ ≤ 10^(t.length-1) := Nat.pow_le_pow_right (by decide) (by omega)
    _ ≤ decimalValue t := Json.le_digitsValue ht hne hhead

/-- The order of two integers as `Compare` returns it. -/
def orderOf (v v' : Int) : Int := if v < v' then -1 else if v' < v then 1 else 0

/-- The comparison of two keys is the order of their integers. -/
theorem compare_eq {a b : PyIntKey} (ha : NormalKey a) (hb : NormalKey b) :
    a.compare b = orderOf (keyValue a) (keyValue b) := by
  have hpos {key : PyIntKey} (hkey : NormalKey key) (hminus : key.negative = true) :
      0 < decimalValue key.digits := by
    have hne : key.digits ≠ [] := fun hnil => by
      rw [hkey.zero hnil] at hminus
      cases hminus
    exact Nat.lt_of_lt_of_le (Nat.pow_pos (by decide)) (Json.le_digitsValue hkey.digits hne hkey.head)
  have hmagnitude : (if a.digits.length ≠ b.digits.length then
        if a.digits.length < b.digits.length then (-1 : Int) else 1
      else
        if compareText a.digits b.digits < 0 then -1
        else if compareText a.digits b.digits > 0 then 1 else 0) =
      orderOf (decimalValue a.digits) (decimalValue b.digits) := by
    unfold orderOf
    simp only [Nat.cast_lt]
    by_cases hlength : a.digits.length = b.digits.length
    · rw [if_neg (not_not.mpr hlength), compareText_digits ha.digits hb.digits hlength]
      split_ifs <;> first | rfl | omega
    · rw [if_pos hlength]
      rcases Nat.lt_or_gt_of_ne hlength with hlt | hgt
      · have hvalue := decimalValue_longer ha.digits hb.digits hb.head hlt
        rw [if_pos hlt, if_pos hvalue]
      · have hvalue := decimalValue_longer hb.digits ha.digits ha.head hgt
        rw [if_neg (by omega), if_neg (by omega), if_pos hvalue]
  unfold PyIntKey.compare keyValue
  simp only [hmagnitude]
  cases hna : a.negative with
  | true =>
    have hapos := hpos ha hna
    cases hnb : b.negative with
    | true =>
      simp only [ne_eq, not_true_eq_false, if_false, if_true, orderOf]
      split_ifs <;> omega
    | false =>
      simp only [ne_eq, Bool.true_eq_false, not_false_eq_true, if_true, Bool.false_eq_true, if_false]
      exact (if_pos (by omega)).symm
  | false =>
    cases hnb : b.negative with
    | true =>
      have hbpos := hpos hb hnb
      simp only [ne_eq, Bool.false_eq_true, not_false_eq_true, if_true, if_false]
      exact ((if_neg (by omega)).trans (if_pos (by omega))).symm
    | false => simp

/-- Every reader of the program reads the text as this integer. -/
structure ReadAs (t : Text) (v : Int) : Prop where
  canonical : pyIntCanonical t = .ok (some (decimalInt v))
  parsed : ∃ minus digits, pyIntParse t = .ok (some (minus,digits)) ∧
    v = if minus then -(decimalValue digits : Int) else decimalValue digits
  accepted : pyIntAsciiAccepts t = true
  key : ∀ site, ∃ key, intKeyOf (some t) site = .ok key ∧ keyValue key = v
  address : parseDecimalAddress t = if 45 ∉ t ∧ v < 2^64 then some v.toNat else none

/-- No reader of the program reads the text as an integer. -/
structure RejectedByAll (t : Text) : Prop where
  canonical : pyIntCanonical t = .ok none
  parsed : pyIntParse t = .ok none
  accepted : pyIntAsciiAccepts t = false
  key : ∀ site, intKeyOf (some t) site = .error (.wouldRaise (site ++ text " ValueError")
    (text "invalid literal for int() with base 10: '" ++ t ++ text "'"))
  address : parseDecimalAddress t = none

theorem pyIntCanonical_eq {t : Text} (hascii : isAscii t = true) :
    pyIntCanonical t =
      match pyDigits false (dropSign (trimSpaces t)) with
      | none => .ok none
      | some ds =>
        if ds.isEmpty then .ok none
        else if (ds.dropWhile (· = 48)).isEmpty then .ok (some (text "0"))
        else .ok (some (if (trimSpaces t).head? = some 45 then 45::ds.dropWhile (· = 48)
          else ds.dropWhile (· = 48))) := by
  have hclosed := (closedDigits_eq (dropSign (trimSpaces t))).1 0 (by decide)
  rw [show isDigit 0 = false from rfl] at hclosed
  unfold pyIntCanonical
  rw [hascii, ← hclosed, closedDigits]
  simp only [Bool.not_true, Bool.false_eq_true, if_false]
  cases canonicalDigits 0 (dropSign (trimSpaces t)) with
  | none => rfl
  | some read =>
    simp only [Option.bind_some]
    by_cases hlast : read.2 = 95
    · rw [if_pos hlast, if_pos (by simp [hlast])]
    · rw [if_neg hlast]
      simp [hlast]

theorem dropSign_cases (t : Text) :
    t.head? = some 45 ∧ t = 45::dropSign t ∨ t.head? = some 43 ∧ t = 43::dropSign t ∨
      t.head? ≠ some 45 ∧ t.head? ≠ some 43 ∧ dropSign t = t := by
  cases t with
  | nil => exact Or.inr (Or.inr ⟨nofun, nofun, rfl⟩)
  | cons c t =>
    by_cases hminus : c = 45
    · subst hminus
      exact Or.inl ⟨rfl, rfl⟩
    · by_cases hplus : c = 43
      · subst hplus
        exact Or.inr (Or.inl ⟨rfl, rfl⟩)
      · refine Or.inr (Or.inr ⟨by simp [hminus], by simp [hplus], ?_⟩)
        rw [dropSign, if_neg (by simp [hminus, hplus])]

theorem pyIntAsciiAccepts_eq (t : Text) : pyIntAsciiAccepts t =
    (pyDigits false (dropSign (trimSpaces t))).any (!·.isEmpty) := by
  rw [pyIntAsciiAccepts, pyDigitsAccept_iff]
  cases hbody : dropSign (trimSpaces t) with
  | nil => rfl
  | cons c r =>
    cases hread : pyDigits false (c::r) with
    | none => exact Bool.and_false _
    | some ds =>
      obtain ⟨hdigit, hne⟩ := pyDigits_first hread
      simp [hdigit, hne]

/-- A text whose digits are read has no other digits, and a hyphen as its sign only. -/
theorem sign_of_read {t ds : Text} (h : pyDigits false (dropSign (trimSpaces t)) = some ds) :
    t.filter isDigit = ds ∧ (45 ∈ t ↔ (trimSpaces t).head? = some 45) := by
  obtain ⟨p, s, ht, hp, hs⟩ := trimSpaces_spec t
  obtain ⟨hfilter, hhyphen⟩ := pyDigits_filter h
  have hblank {u : Text} (hu : ∀ c ∈ u, isPySpace c = true) :
      u.filter isDigit = [] ∧ (45 : UInt8) ∉ u := by
    constructor
    · rw [List.filter_eq_nil_iff]
      intro c hc
      rw [(isPySpace_spec c (hu c hc)).1]
      exact Bool.false_ne_true
    · intro hc
      exact (isPySpace_spec 45 (hu 45 hc)).2 rfl
  have htext : t.filter isDigit = (trimSpaces t).filter isDigit ∧
      (45 ∈ t ↔ (45 : UInt8) ∈ trimSpaces t) := by
    constructor
    · calc
        t.filter isDigit = (p ++ trimSpaces t ++ s).filter isDigit := congrArg _ ht
        _ = (trimSpaces t).filter isDigit := by
          rw [List.filter_append, List.filter_append, (hblank hp).1, (hblank hs).1, List.nil_append,
            List.append_nil]
    · constructor
      · intro hmem
        rw [ht, List.mem_append, List.mem_append] at hmem
        exact (hmem.resolve_right (hblank hs).2).resolve_left (hblank hp).2
      · intro hmem
        rw [ht]
        exact List.mem_append_left _ (List.mem_append_right _ hmem)
  rw [htext.1, htext.2]
  rcases dropSign_cases (trimSpaces t) with ⟨hhead, hsplit⟩ | ⟨hhead, hsplit⟩ | ⟨hminus, -, hsame⟩
  · rw [hsplit, List.filter_cons_of_neg (by decide), hfilter]
    exact ⟨rfl, fun _ => rfl, fun _ => List.mem_cons_self⟩
  · rw [hsplit, List.filter_cons_of_neg (by decide), hfilter]
    refine ⟨rfl, fun hmem => ?_, nofun⟩
    exact absurd ((List.mem_cons.mp hmem).resolve_left (by decide)) hhyphen
  · rw [hsame] at hfilter hhyphen
    exact ⟨hfilter, fun hmem => absurd hmem hhyphen, fun hhead => absurd hhead hminus⟩

/-- What the database side makes of the digits. -/
theorem parseDecimalAddress_eq (t : Text) : parseDecimalAddress t =
    if (trimSpaces t).head? = some 45 then none
    else (pyDigits false (dropSign (trimSpaces t))).bind fun ds =>
      if !ds.isEmpty ∧ decimalValue ds < 2^64 then some (decimalValue ds) else none := by
  have hbody (b : Text) : (if b.isEmpty then none else parseDigits 0 false b) =
      (pyDigits false b).bind fun ds =>
        if !ds.isEmpty ∧ decimalValue ds < 2^64 then some (decimalValue ds) else none := by
    cases b with
    | nil => rfl
    | cons c r =>
      rw [List.isEmpty_cons, if_neg Bool.false_ne_true, parseDigits_eq 0 false _ (by decide)]
      cases hread : pyDigits false (c::r) with
      | none => rfl
      | some ds =>
        have hne : (!ds.isEmpty) = true := by simp [(pyDigits_first hread).2]
        simp only [Option.bind_some, hne, true_and]
        rfl
  rw [parseDecimalAddress_trimmed]
  have hother : ¬ (some (45 : UInt8) = some 43) := by decide
  have hother' : ¬ (some (43 : UInt8) = some 45) := by decide
  rcases dropSign_cases (trimSpaces t) with ⟨hhead, hsplit⟩ | ⟨hhead, hsplit⟩ | ⟨hminus, hplus, hsame⟩
  · rw [if_pos hhead, hhead, if_neg hother]
    rw [hsplit]
    rfl
  · have htail : (trimSpaces t).tail = dropSign (trimSpaces t) := congrArg List.tail hsplit
    rw [hhead, if_pos rfl, if_neg hother', htail]
    exact hbody _
  · rw [if_neg hminus, if_neg hplus, hsame]
    exact hbody _

/-- Digits behind a sign, as `str` writes their integer. -/
theorem decimalInt_digits {ds : Text} (hds : ∀ c ∈ ds, isDigit c = true) (minus : Bool) :
    decimalInt (if minus then -(decimalValue ds : Int) else decimalValue ds) =
      if (ds.dropWhile (· = 48)).isEmpty then text "0"
      else if minus then 45::ds.dropWhile (· = 48) else ds.dropWhile (· = 48) := by
  have hvalue := decimalValue_dropZeros ds
  cases hsignificant : ds.dropWhile (· = 48) with
  | nil =>
    rw [hsignificant] at hvalue
    rw [← hvalue]
    cases minus <;> rfl
  | cons c r =>
    have hdigits := dropZeros_digits hds
    have hhead := dropZeros_head ds
    rw [hsignificant] at hvalue hdigits hhead
    have hdecimal : decimal (decimalValue (c::r)) = c::r :=
      Json.decimal_digitsValue hdigits (List.cons_ne_nil c r) hhead
    have hpos : 0 < decimalValue (c::r) :=
      Nat.lt_of_lt_of_le (Nat.pow_pos (by decide))
        (Json.le_digitsValue hdigits (List.cons_ne_nil c r) hhead)
    rw [List.isEmpty_cons, if_neg Bool.false_ne_true, ← hvalue]
    cases minus with
    | true => rw [if_pos rfl, if_pos rfl, decimalInt_neg hpos, hdecimal]
    | false =>
      rw [if_neg Bool.false_ne_true, if_neg Bool.false_ne_true]
      exact hdecimal

/-- A text whose digits are read is read by all. -/
theorem readAs_of_digits {t ds : Text} (hascii : isAscii t = true)
    (h : pyDigits false (dropSign (trimSpaces t)) = some ds) (hne : ds ≠ []) :
    ReadAs t (if (trimSpaces t).head? = some 45 then -(decimalValue ds : Int) else decimalValue ds) := by
  obtain ⟨hfilter, hminus⟩ := sign_of_read h
  have hds : ∀ c ∈ ds, isDigit c = true := fun c hc =>
    (List.mem_filter.mp (hfilter ▸ hc)).2
  have hempty : ds.isEmpty = false := by simp [hne]
  have haccepted : pyIntAsciiAccepts t = true := by
    rw [pyIntAsciiAccepts_eq, h, Option.any_some, hempty]
    rfl
  have hzero := decimalValue_dropZeros ds
  refine ⟨?_, ?_, haccepted, ?_, ?_⟩
  · have hdecimal := decimalInt_digits hds (decide ((trimSpaces t).head? = some 45))
    simp only [decide_eq_true_eq] at hdecimal
    rw [pyIntCanonical_eq hascii, h, hdecimal]
    simp only [hempty, Bool.false_eq_true, if_false]
    split_ifs <;> rfl
  · refine ⟨decide ((trimSpaces t).head? = some 45),
      if (ds.dropWhile (· = 48)).isEmpty then [48] else ds.dropWhile (· = 48), ?_, ?_⟩
    · rw [pyIntParse, hascii, h]
      simp only [Bool.not_true, Bool.false_eq_true, if_false, hempty]
    · have hdigits : decimalValue (if (ds.dropWhile (· = 48)).isEmpty then [48]
          else ds.dropWhile (· = 48)) = decimalValue ds := by
        split_ifs with hnil
        · rw [List.isEmpty_iff.mp hnil] at hzero
          exact hzero
        · exact hzero
      simp only [hdigits, decide_eq_true_eq]
  · intro site
    refine ⟨_, (intKeyOf_eq hascii).trans (if_pos haccepted), ?_⟩
    rw [keyValue, hfilter, hzero]
    cases hsignificant : ds.dropWhile (· = 48) with
    | nil =>
      rw [hsignificant] at hzero
      rw [← hzero]
      simp [decimalValue]
    | cons c r => simp [hminus]
  · rw [parseDecimalAddress_eq, h]
    by_cases hhead : (trimSpaces t).head? = some 45
    · rw [if_pos hhead, if_neg fun hcond => hcond.1 (hminus.mpr hhead)]
    · have hmem : 45 ∉ t := fun hmem => hhead (hminus.mp hmem)
      simp only [if_neg hhead, Option.bind_some, hempty, hmem, not_false_eq_true, true_and,
        Bool.not_false]
      norm_cast

/-- A text whose digits are not read is read by none. -/
theorem rejectedByAll {t : Text} (hascii : isAscii t = true)
    (h : ∀ ds, pyDigits false (dropSign (trimSpaces t)) = some ds → ds = []) : RejectedByAll t := by
  have haccepted : pyIntAsciiAccepts t = false := by
    rw [pyIntAsciiAccepts_eq]
    cases hread : pyDigits false (dropSign (trimSpaces t)) with
    | none => rfl
    | some ds =>
      rw [h ds hread]
      rfl
  refine ⟨?_, ?_, haccepted, fun site => ?_, ?_⟩
  · rw [pyIntCanonical_eq hascii]
    cases hread : pyDigits false (dropSign (trimSpaces t)) with
    | none => rfl
    | some ds =>
      rw [h ds hread]
      rfl
  · rw [pyIntParse, hascii]
    cases hread : pyDigits false (dropSign (trimSpaces t)) with
    | none => rfl
    | some ds =>
      rw [h ds hread]
      rfl
  · rw [intKeyOf_eq hascii, haccepted]
    rfl
  · rw [parseDecimalAddress_eq]
    cases hread : pyDigits false (dropSign (trimSpaces t)) with
    | none => exact ite_self _
    | some ds =>
      rw [h ds hread]
      exact ite_self _

theorem ReadAs.ascii {t : Text} {v : Int} (h : ReadAs t v) : isAscii t = true := by
  by_contra hascii
  have hcanonical := h.canonical
  rw [pyIntCanonical, if_pos (by simpa using hascii)] at hcanonical
  cases hcanonical

/-- The comparison of two keys is the order of what their texts are read as. -/
theorem ReadAs.compare {t t' site site' : Text} {v v' : Int} {key key' : PyIntKey} (h : ReadAs t v)
    (h' : ReadAs t' v') (hkey : intKeyOf (some t) site = .ok key)
    (hkey' : intKeyOf (some t') site' = .ok key') : key.compare key' = orderOf v v' := by
  obtain ⟨k, hk, hvalue⟩ := h.key site
  obtain ⟨k', hk', hvalue'⟩ := h'.key site'
  obtain rfl : key = k := Except.ok.inj (hkey.symm.trans hk)
  obtain rfl : key' = k' := Except.ok.inj (hkey'.symm.trans hk')
  rw [compare_eq (intKeyOf_normal h.ascii hkey) (intKeyOf_normal h'.ascii hkey'), hvalue, hvalue']

/-- The readers of `int()` agree, and keys compare as what they are read as. -/
theorem intReaders_agree (t : Text) (hascii : isAscii t = true) :
    RejectedByAll t ∨ ∃ v, ReadAs t v ∧ ∀ t' v', ReadAs t' v' → ∀ site site' key key',
      intKeyOf (some t) site = .ok key → intKeyOf (some t') site' = .ok key' →
        key.compare key' = orderOf v v' := by
  by_cases hread : ∀ ds, pyDigits false (dropSign (trimSpaces t)) = some ds → ds = []
  · exact Or.inl (rejectedByAll hascii hread)
  · simp only [not_forall] at hread
    obtain ⟨ds, hds, hne⟩ := hread
    have hreadAs := readAs_of_digits hascii hds hne
    exact Or.inr ⟨_, hreadAs, fun t' v' h' site site' key key' hkey hkey' =>
      hreadAs.compare h' hkey hkey'⟩

theorem intReaders_agree_signed :
    RejectedByAll (text " -0_12 ") ∨ ∃ v, ReadAs (text " -0_12 ") v ∧
      ∀ t' v', ReadAs t' v' → ∀ site site' key key',
        intKeyOf (some (text " -0_12 ")) site = .ok key → intKeyOf (some t') site' = .ok key' →
          key.compare key' = orderOf v v' :=
  intReaders_agree (text " -0_12 ") (by decide)

end DSigMatcher.Port
