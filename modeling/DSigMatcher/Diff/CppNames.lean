import DSigMatcher.Base.Text
import DSigMatcher.Framework.Regex
import DSigMatcher.Framework.Utf8

namespace DSigMatcher.Diff
open DSigMatcher.Base DSigMatcher.Framework Utf8

def isAsciiWord (c : UInt8) : Bool :=
  (0x61 ≤ c && c ≤ 0x7A) || (0x41 ≤ c && c ≤ 0x5A) || (0x30 ≤ c && c ≤ 0x39) || c == 0x5F

/-- `WordCharAt`: the bytes of the word character a text starts with. -/
def wordCharAt : Text → Nat
  | [] => 0
  | c::r =>
    if isAsciiWord c then 1
    else if c = 0xC4 then if r.head? = some 0xB0 ∨ r.head? = some 0xB1 then 2 else 0
    else if c = 0xC5 then if r.head? = some 0xBF then 2 else 0
    else if c = 0xE2 then if r.head? = some 0x84 ∧ r[1]? = some 0xAA then 3 else 0
    else 0

/-- `StartCharAt`. -/
def startCharAt (t : Text) : Bool :=
  wordCharAt t != 0 && !t.head?.any fun c => 0x30 ≤ c && c ≤ 0x39

/-- A run of word characters: their number, and the text behind them. -/
def wordRun (t : Text) : Nat × Text :=
  if _h : wordCharAt t = 0 then (0,t)
  else
    let run := wordRun (t.drop (wordCharAt t))
    (run.1+1,run.2)
termination_by t.length
decreasing_by
  rw [List.length_drop]
  cases t with
  | nil => exact absurd rfl _h
  | cons c r => rw [List.length_cons]; omega

theorem wordRun_length (t : Text) : (wordRun t).2.length ≤ t.length := by
  fun_induction wordRun t with
  | case1 t h => exact Nat.le_refl _
  | case2 t h run ih => exact ih.trans (by rw [List.length_drop]; omega)

/-- The groups behind a run: each is a double colon and another run. -/
def nameGroups (t : Text) : Text :=
  if _h : (t.head? = some 58 ∧ t[1]? = some 58) ∧ wordCharAt (t.drop 2) ≠ 0 then
    nameGroups (wordRun (t.drop 2)).2
  else t
termination_by t.length
decreasing_by
  have hrun := wordRun_length (t.drop 2)
  rw [List.length_drop] at hrun
  have hlength := (List.getElem?_eq_some_iff.mp _h.1.2).1
  omega

theorem nameGroups_length (t : Text) : (nameGroups t).length ≤ t.length := by
  fun_induction nameGroups t with
  | case1 t h ih =>
    have hrun := wordRun_length (t.drop 2)
    rw [List.length_drop] at hrun
    omega
  | case2 t h => exact Nat.le_refl _

/-- `CppNamesFindAll`. -/
def cppNamesFindAll : Text → List Text
  | [] => []
  | c::r =>
    let run := wordRun ((c::r).drop (wordCharAt (c::r)))
    if _h : startCharAt (c::r) ∧ 4 ≤ run.1+1 then
      let rest := nameGroups run.2
      (c::r).take ((c::r).length-rest.length)::cppNamesFindAll rest
    else cppNamesFindAll r
termination_by t => t.length
decreasing_by
  · have hstart : wordCharAt (c::r) ≠ 0 := by
      intro hzero
      have hfalse := _h.1
      rw [startCharAt, hzero] at hfalse
      cases hfalse
    have hgroups := nameGroups_length (wordRun ((c::r).drop (wordCharAt (c::r)))).2
    have hrun := wordRun_length ((c::r).drop (wordCharAt (c::r)))
    rw [List.length_drop, List.length_cons] at hrun
    rw [List.length_cons]
    omega
  · exact Nat.lt_succ_self _

/-- The letters that are none of `[a-zA-Z]` but match it under `re.IGNORECASE`. -/
def ignoreCaseLetters : List Nat := [0x130, 0x131, 0x17F, 0x212A]

/-- `[a-zA-Z_]` under `re.IGNORECASE`. -/
def isNameStart (c : Char) : Bool :=
  c.isAlpha || c == '_' || ignoreCaseLetters.contains c.toNat

/-- `[a-zA-Z0-9_]` under `re.IGNORECASE`. -/
def isNameChar (c : Char) : Bool := isNameStart c || c.isDigit

/-- `(::){0,1}[a-zA-Z0-9_]+`. -/
def nameGroup : Regex Char :=
  (Regex.opt (.seq (.set (· == ':')) (.set (· == ':')))).seq ((Regex.set isNameChar).atLeast 1)

/-- `[a-zA-Z_][a-zA-Z0-9_]{3,}((::){0,1}[a-zA-Z0-9_]+)*`. -/
def cppNames : Regex Char :=
  (Regex.set isNameStart).seq (((Regex.set isNameChar).atLeast 3).seq nameGroup.star)

theorem wordCharAt_tail {b : UInt8} (hb : isTail b = true) (r : Text) : wordCharAt (b::r) = 0 := by
  have h : ∀ b : UInt8, isTail b = true →
      isAsciiWord b = false ∧ b ≠ 0xC4 ∧ b ≠ 0xC5 ∧ b ≠ 0xE2 := by
    decide +kernel
  obtain ⟨hascii, hc4, hc5, he2⟩ := h b hb
  rw [wordCharAt, if_neg (Bool.not_eq_true _ ▸ hascii), if_neg hc4, if_neg hc5, if_neg he2]

theorem isAsciiWord_iff (b : UInt8) : isAsciiWord b = true ↔
    (0x61 ≤ b.toNat ∧ b.toNat ≤ 0x7A) ∨ (0x41 ≤ b.toNat ∧ b.toNat ≤ 0x5A) ∨
      (0x30 ≤ b.toNat ∧ b.toNat ≤ 0x39) ∨ b.toNat = 0x5F := by
  revert b
  decide +kernel

theorem isNameStart_iff (c : Char) : isNameStart c = true ↔
    ((0x41 ≤ c.toNat ∧ c.toNat ≤ 0x5A) ∨ (0x61 ≤ c.toNat ∧ c.toNat ≤ 0x7A)) ∨ c.toNat = 0x5F ∨
      c.toNat = 0x130 ∨ c.toNat = 0x131 ∨ c.toNat = 0x17F ∨ c.toNat = 0x212A := by
  have hline : c = '_' ↔ c.toNat = 0x5F := Char.toNat_inj.symm
  simp only [isNameStart, ignoreCaseLetters, Char.isAlpha, Char.isUpper, Char.isLower,
    Bool.or_eq_true, Bool.and_eq_true, beq_iff_eq, hline, decide_eq_true_eq, List.contains_cons,
    List.contains_nil, Bool.or_false, UInt32.le_iff_toNat_le, ge_iff_le, Char.reduceVal,
    UInt32.reduceToNat, or_assoc]
  rfl

theorem isDigit_iff (c : Char) : c.isDigit = true ↔ 0x30 ≤ c.toNat ∧ c.toNat ≤ 0x39 := by
  simp only [Char.isDigit, Bool.and_eq_true, decide_eq_true_eq, UInt32.le_iff_toNat_le, ge_iff_le,
    Char.reduceVal, UInt32.reduceToNat]
  rfl

/-- A word character is seen where one stands, in its whole length. -/
theorem wordCharAt_char (c : Char) (r : Text) :
    wordCharAt (String.utf8EncodeChar c ++ r) =
      if isNameChar c then (String.utf8EncodeChar c).length else 0 := by
  have hname : isNameChar c = true ↔
      (((0x41 ≤ c.toNat ∧ c.toNat ≤ 0x5A) ∨ (0x61 ≤ c.toNat ∧ c.toNat ≤ 0x7A)) ∨ c.toNat = 0x5F ∨
        c.toNat = 0x130 ∨ c.toNat = 0x131 ∨ c.toNat = 0x17F ∨ c.toNat = 0x212A) ∨
      (0x30 ≤ c.toNat ∧ c.toNat ≤ 0x39) := by
    rw [isNameChar, Bool.or_eq_true, isNameStart_iff, isDigit_iff]
  generalize isNameChar c = name at hname ⊢
  generalize hbytes : String.utf8EncodeChar c = bs
  have hchar := charBytes c
  rw [hbytes] at hchar
  generalize c.toNat = v at hchar hname
  cases hchar with
  | one h =>
    have hbyte : v < 256 := by omega
    have hone : isAsciiWord (UInt8.ofNat v) = true ↔ name = true := by
      rw [hname, isAsciiWord_iff, toNat_ofNat hbyte]
      omega
    have hother : ∀ b : UInt8, 128 ≤ b.toNat → UInt8.ofNat v ≠ b := by
      intro b hb
      rw [ne_eq, ofNat_eq_iff hbyte]
      omega
    rw [List.singleton_append, wordCharAt, if_neg (hother 0xC4 (by decide)),
      if_neg (hother 0xC5 (by decide)), if_neg (hother 0xE2 (by decide))]
    exact if_congr hone rfl rfl
  | two hlow hhigh =>
    have hbyte : 0xC0+v/64 < 256 := by omega
    have hone : isAsciiWord (UInt8.ofNat (0xC0+v/64)) = false := by
      rw [← Bool.not_eq_true, isAsciiWord_iff, toNat_ofNat hbyte]
      omega
    have he2 : UInt8.ofNat (0xC0+v/64) ≠ 0xE2 := by
      simp only [ne_eq, ofNat_eq_iff hbyte, UInt8.reduceToNat]
      omega
    rw [List.cons_append, wordCharAt, hone, if_neg Bool.false_ne_true, if_neg he2]
    simp only [List.cons_append, List.head?_cons, Option.some.injEq, ofNat_eq_iff hbyte,
      ofNat_eq_iff (show 0x80+v%64 < 256 by omega), UInt8.reduceToNat, List.length_cons,
      List.length_nil, hname]
    split_ifs <;> omega
  | three hlow hhigh hscalar =>
    have hbyte : 0xE0+v/4096 < 256 := by omega
    have hone : isAsciiWord (UInt8.ofNat (0xE0+v/4096)) = false := by
      rw [← Bool.not_eq_true, isAsciiWord_iff, toNat_ofNat hbyte]
      omega
    rw [List.cons_append, wordCharAt, hone, if_neg Bool.false_ne_true]
    simp only [List.cons_append, List.head?_cons, List.getElem?_cons_succ, List.getElem?_cons_zero,
      Option.some.injEq, ofNat_eq_iff hbyte, ofNat_eq_iff (show 0x80+v/64%64 < 256 by omega),
      ofNat_eq_iff (show 0x80+v%64 < 256 by omega), UInt8.reduceToNat, List.length_cons,
      List.length_nil, hname]
    split_ifs <;> omega
  | four hlow hhigh =>
    have hbyte : 0xF0+v/262144 < 256 := by omega
    have hone : isAsciiWord (UInt8.ofNat (0xF0+v/262144)) = false := by
      rw [← Bool.not_eq_true, isAsciiWord_iff, toNat_ofNat hbyte]
      omega
    rw [List.cons_append, wordCharAt, hone, if_neg Bool.false_ne_true]
    simp only [ofNat_eq_iff hbyte, UInt8.reduceToNat, List.length_cons, List.length_nil, hname]
    split_ifs <;> omega

/-- The first byte is a digit where the first character is one. -/
theorem digit_char (c : Char) (r : Text) :
    ((String.utf8EncodeChar c ++ r).head?.any fun b => 0x30 ≤ b && b ≤ 0x39) = c.isDigit := by
  have hdigit (b : UInt8) : (decide (0x30 ≤ b) && decide (b ≤ 0x39)) = true ↔
      0x30 ≤ b.toNat ∧ b.toNat ≤ 0x39 := by
    rw [Bool.and_eq_true, decide_eq_true_eq, decide_eq_true_eq, UInt8.le_iff_toNat_le,
      UInt8.le_iff_toNat_le]
    rfl
  rw [Bool.eq_iff_iff, isDigit_iff]
  generalize hbytes : String.utf8EncodeChar c = bs
  have hchar := charBytes c
  rw [hbytes] at hchar
  cases hchar with
  | one h =>
    rw [List.singleton_append, List.head?_cons, Option.any_some, hdigit, toNat_ofNat (by omega)]
  | two hlow hhigh =>
    rw [List.cons_append, List.head?_cons, Option.any_some, hdigit, toNat_ofNat (by omega)]
    omega
  | three hlow hhigh hscalar =>
    rw [List.cons_append, List.head?_cons, Option.any_some, hdigit, toNat_ofNat (by omega)]
    omega
  | four hlow hhigh =>
    rw [List.cons_append, List.head?_cons, Option.any_some, hdigit, toNat_ofNat (by omega)]
    omega

theorem startCharAt_char (c : Char) (r : Text) :
    startCharAt (String.utf8EncodeChar c ++ r) = isNameStart c := by
  have hapart : isNameStart c = true → c.isDigit = false := by
    rw [← Bool.not_eq_true, isNameStart_iff, isDigit_iff]
    omega
  rw [startCharAt, digit_char, wordCharAt_char, isNameChar]
  cases hstart : isNameStart c with
  | true => simp [hapart hstart, Char.utf8Size_pos, Nat.ne_of_gt]
  | false => cases c.isDigit <;> simp

theorem wordRun_encode (cs : List Char) :
    wordRun (encode cs) = ((cs.takeWhile isNameChar).length,encode (cs.dropWhile isNameChar)) := by
  induction cs with
  | nil => rw [wordRun, dif_pos (by rfl)]; rfl
  | cons c cs ih =>
    have hlength : (String.utf8EncodeChar c).length ≠ 0 :=
      Nat.ne_of_gt (List.length_pos_iff_ne_nil.mpr String.utf8EncodeChar_ne_nil)
    rw [wordRun, List.takeWhile_cons, List.dropWhile_cons, encode_cons, wordCharAt_char]
    cases isNameChar c with
    | true =>
      simp only [if_true, dif_neg hlength, List.drop_left, ih, List.length_cons]
    | false => simp [encode_cons]

/-- A double colon before a word character, in the bytes and in the characters. -/
theorem colons_encode (cs : List Char) :
    (((encode cs).head? = some 58 ∧ (encode cs)[1]? = some 58) ∧
      wordCharAt ((encode cs).drop 2) ≠ 0) ↔
    ∃ c ds, cs = ':' :: ':' :: c::ds ∧ isNameChar c = true := by
  constructor
  · rintro ⟨⟨hhead, hnext⟩, hword⟩
    obtain ⟨r, hr⟩ := List.head?_eq_some_iff.mp hhead
    obtain ⟨d, ds, rfl, hd, rfl⟩ := ascii_cons_eq_encode (by decide) hr.symm
    rw [hr, List.getElem?_cons_succ, ← List.head?_eq_getElem?] at hnext
    obtain ⟨r', hr'⟩ := List.head?_eq_some_iff.mp hnext
    obtain ⟨e, es, rfl, he, rfl⟩ := ascii_cons_eq_encode (by decide) hr'.symm
    rw [hr, hr'] at hword
    obtain rfl : d = ':' := Char.toNat_inj.mp hd
    obtain rfl : e = ':' := Char.toNat_inj.mp he
    cases es with
    | nil => exact absurd rfl hword
    | cons c ds =>
      refine ⟨c, ds, rfl, ?_⟩
      rw [List.drop_succ_cons, List.drop_succ_cons, List.drop_zero, encode_cons,
        wordCharAt_char] at hword
      by_contra hname
      rw [if_neg hname] at hword
      exact hword rfl
  · rintro ⟨c, ds, rfl, hname⟩
    refine ⟨⟨rfl, rfl⟩, ?_⟩
    change wordCharAt (String.utf8EncodeChar c ++ encode ds) ≠ 0
    rw [wordCharAt_char, if_pos hname]
    exact Nat.ne_of_gt (List.length_pos_iff_ne_nil.mpr String.utf8EncodeChar_ne_nil)

theorem nameGroup_consumes : nameGroup.Consumes :=
  ((Regex.set_consumes isNameChar).seq_left _).seq_right _

theorem first_atLeast_name (n : Nat) (cs : List Char) (hcs : ∀ c ∈ cs.head?, isNameChar c = false) :
    ((Regex.set isNameChar).atLeast (n+1)).first cs = none := by
  rw [Regex.first_atLeast_set, if_neg]
  cases cs with
  | nil => simp
  | cons c cs => simp [hcs c rfl]

/-- Behind a run, a group is a double colon and another run. -/
theorem first_nameGroup {cs : List Char} (hcs : ∀ c ∈ cs.head?, isNameChar c = false) :
    nameGroup.first cs =
      ((Regex.set (· == ':')).seq ((Regex.set (· == ':')).seq
        ((Regex.set isNameChar).atLeast 1))).first cs := by
  rw [nameGroup, Regex.first_seq_opt, first_atLeast_name 0 cs hcs, Option.or_none,
    Regex.first_seq_assoc]

theorem first_nameGroup_some {c : Char} (hc : isNameChar c = true) (ds : List Char) :
    nameGroup.first (':' :: ':' :: c::ds) = some (ds.dropWhile isNameChar) := by
  rw [first_nameGroup (by simp; decide), Regex.first_seq_set_cons, if_pos (by decide),
    Regex.first_seq_set_cons, if_pos (by decide), Regex.first_atLeast_set, List.takeWhile_cons,
    List.dropWhile_cons, if_pos hc, if_pos hc, if_pos (by simp)]

theorem first_nameGroup_none {cs : List Char} (hcs : ∀ c ∈ cs.head?, isNameChar c = false)
    (hcolons : ¬ ∃ c ds, cs = ':' :: ':' :: c::ds ∧ isNameChar c = true) :
    nameGroup.first cs = none := by
  rw [first_nameGroup hcs]
  cases cs with
  | nil => rfl
  | cons a cs =>
    rw [Regex.first_seq_set_cons]
    split_ifs with ha
    · cases cs with
      | nil => rfl
      | cons b cs =>
        rw [Regex.first_seq_set_cons]
        split_ifs with hb
        · refine first_atLeast_name 0 cs fun c hc => ?_
          obtain ⟨ds, rfl⟩ := List.head?_eq_some_iff.mp hc
          rw [← Bool.not_eq_true]
          intro hname
          exact hcolons ⟨c, ds, by rw [beq_iff_eq.mp ha, beq_iff_eq.mp hb], hname⟩
        · rfl
    · rfl

theorem head?_dropWhile {α : Type*} (p : α → Bool) (l : List α) :
    ∀ a ∈ (l.dropWhile p).head?, p a = false := by
  intro a ha
  have hhead := List.head?_dropWhile_not p l
  rw [ha] at hhead
  simpa using hhead

/-- The loop over the groups is the repetition of `nameGroup`. -/
theorem nameGroups_encode (cs : List Char) (hcs : ∀ c ∈ cs.head?, isNameChar c = false) :
    ∃ ds, nameGroup.star.first cs = some ds ∧ nameGroups (encode cs) = encode ds := by
  induction hn : cs.length using Nat.strongRecOn generalizing cs with
  | _ n ih =>
    rw [nameGroup_consumes.first_star]
    by_cases hcolons : ∃ c ds, cs = ':' :: ':' :: c::ds ∧ isNameChar c = true
    · have hgroup := (colons_encode cs).mpr hcolons
      obtain ⟨c, ds, rfl, hc⟩ := hcolons
      have hless : (ds.dropWhile isNameChar).length < n := by
        have hle := (List.dropWhile_suffix isNameChar (l := ds)).length_le
        rw [List.length_cons, List.length_cons, List.length_cons] at hn
        omega
      obtain ⟨rest, hfirst, hrest⟩ := ih _ hless _ (head?_dropWhile isNameChar ds) rfl
      refine ⟨rest, ?_, ?_⟩
      · rw [first_nameGroup_some hc, Option.bind_some, hfirst]
        rfl
      · rw [nameGroups, dif_pos hgroup, ← hrest]
        change nameGroups (wordRun (encode (c::ds))).2 = _
        rw [wordRun_encode, List.dropWhile_cons, if_pos hc]
    · refine ⟨cs, ?_, ?_⟩
      · rw [first_nameGroup_none hcs hcolons]
        rfl
      · rw [nameGroups, dif_neg (mt (colons_encode cs).mp hcolons)]

theorem cppNames_consumes : cppNames.Consumes := (Regex.set_consumes isNameStart).seq_left _

/-- What is matched at a start character: three more at least, then the groups. -/
theorem first_cppNames (c : Char) (cs : List Char) :
    cppNames.first (c::cs) =
      if isNameStart c = true ∧ 3 ≤ (cs.takeWhile isNameChar).length then
        nameGroup.star.first (cs.dropWhile isNameChar)
      else none := by
  rw [cppNames, Regex.first_seq_set_cons, nameGroup.star_total.first_seq, Regex.first_atLeast_set,
    ite_and]
  split_ifs <;> rfl

/-- A byte of a character where no name starts is passed over, and so are those behind it. -/
theorem cppNamesFindAll_tail {tail : Text} (htail : ∀ b ∈ tail, isTail b = true) (r : Text) :
    cppNamesFindAll (tail ++ r) = cppNamesFindAll r := by
  induction tail with
  | nil => rfl
  | cons b tail ih =>
    rw [List.forall_mem_cons] at htail
    have hstart : startCharAt (b::(tail ++ r)) = false := by
      rw [startCharAt, wordCharAt_tail htail.1]
      rfl
    rw [List.cons_append, cppNamesFindAll, dif_neg (by simp [hstart]), ih htail.2]

/-- What is cut off in front of a rest. -/
theorem take_rest {α : Type*} (u t : List α) : (u ++ t).take ((u ++ t).length-t.length) = u := by
  rw [List.length_append, Nat.add_sub_cancel, List.take_left]

/-- `CppNamesFindAll` is `re.findall` of `CPP_NAMES_RE` under `re.IGNORECASE`. -/
theorem cppNamesFindAll_findall (cs : List Char) :
    cppNamesFindAll (encode cs) = (cppNames.findAll cs).map encode := by
  induction hn : cs.length using Nat.strongRecOn generalizing cs with
  | _ n ih =>
    cases cs with
    | nil => rw [encode_nil, cppNamesFindAll, Regex.findAll, List.map_nil]
    | cons c cs =>
      obtain ⟨lead, tail, hbytes, -, htail⟩ := (charBytes c).split
      have hlead : encode (c::cs) = lead::(tail ++ encode cs) := by
        rw [encode_cons, hbytes, List.cons_append]
      have hstart : startCharAt (lead::(tail ++ encode cs)) = isNameStart c := by
        rw [← hlead, encode_cons, startCharAt_char]
      have hword : isNameStart c = true →
          (lead::(tail ++ encode cs)).drop (wordCharAt (lead::(tail ++ encode cs))) =
            encode cs := by
        intro hname
        rw [← hlead, encode_cons, wordCharAt_char, isNameChar, hname, Bool.true_or, if_pos rfl,
          List.drop_left]
      have hfirst := first_cppNames c cs
      rw [hlead, cppNamesFindAll]
      by_cases hmatch : isNameStart c = true ∧ 3 ≤ (cs.takeWhile isNameChar).length
      · rw [if_pos hmatch] at hfirst
        obtain ⟨ds, hgroups, hrest⟩ :=
          nameGroups_encode (cs.dropWhile isNameChar) (head?_dropWhile isNameChar cs)
        rw [hgroups] at hfirst
        obtain ⟨u, hu⟩ := Regex.first_suffix hfirst
        have hless := cppNames_consumes.first hfirst
        rw [hword hmatch.1, wordRun_encode, dif_pos ⟨hstart.trans hmatch.1, by
          simpa using hmatch.2⟩, cppNames_consumes.findAll_some hfirst, hrest, List.map_cons,
          ← ih ds.length (hn ▸ hless) ds rfl, ← hlead, ← hu, encode_append, take_rest]
        exact congrArg (· :: _) (take_rest (encode u) (encode ds))
      · rw [if_neg hmatch] at hfirst
        rw [dif_neg, cppNamesFindAll_tail htail, Regex.findAll_none hfirst,
          ih cs.length (hn ▸ Nat.lt_succ_self _) cs rfl]
        rintro ⟨hname, hrun⟩
        have hname' := hstart.symm.trans hname
        rw [hword hname', wordRun_encode] at hrun
        exact hmatch ⟨hname', Nat.le_of_succ_le_succ hrun⟩

end DSigMatcher.Diff
