import DSigMatcher.Base.Text
import Mathlib.Data.List.TakeWhile

namespace DSigMatcher.Diff
open DSigMatcher.Base

/-- How a run of the diff ends early. -/
inductive DiffError
  | wouldRaise (site what : Text)
  | unsupportedInput (what : Text)
  deriving DecidableEq

/-- `Py_ISSPACE`. -/
def isPySpace (c : UInt8) : Bool :=
  c = 32 || c = 9 || c = 10 || c = 11 || c = 12 || c = 13

def isDigit (c : UInt8) : Bool := 48 ≤ c && c ≤ 57

def isAscii (t : Text) : Bool := t.all (· < 128)

/-- The digits of `int()`: single underscores between two digits. -/
def pyDigitsAccept : Bool → Text → Bool
  | _, [] => true
  | prevDigit, c::r =>
    if isDigit c then pyDigitsAccept true r
    else if c = 95 && prevDigit && (r.head?.any isDigit) then pyDigitsAccept false r
    else false

def trimSpaces (t : Text) : Text :=
  ((t.dropWhile isPySpace).reverse.dropWhile isPySpace).reverse

def dropSign (t : Text) : Text :=
  if t.head? = some 43 ∨ t.head? = some 45 then t.tail else t

/-- Whether Python's `int()` accepts an ASCII text. -/
def pyIntAsciiAccepts (t : Text) : Bool :=
  (dropSign (trimSpaces t)).head?.any isDigit && pyDigitsAccept false (dropSign (trimSpaces t))

example : pyIntAsciiAccepts (text " -1_000 ") = true := by decide
example : pyIntAsciiAccepts (text "5-6") = false := by decide

/-- Raises where Python's `int(ea)` does. -/
def requirePyInt (ea : Option Text) (site : Text) : Except DiffError Unit :=
  match ea with
  | none => .error (.wouldRaise (site ++ text " TypeError")
      (text "int() argument must be a string, a bytes-like object or a real number, not 'NoneType'"))
  | some t =>
    if !isAscii t then
      .error (.unsupportedInput (text "address text '" ++ t ++
        text "' is not ASCII: Python int() of it (" ++ site ++ text ") is not ported"))
    else if !pyIntAsciiAccepts t then
      .error (.wouldRaise (site ++ text " ValueError")
        (text "invalid literal for int() with base 10: '" ++ t ++ text "'"))
    else .ok ()

/-- An address `int()` accepts. -/
def IsPyInt (ea : Option Text) : Prop :=
  ∃ t, ea = some t ∧ isAscii t = true ∧ pyIntAsciiAccepts t = true

theorem requirePyInt_ok (ea : Option Text) (site : Text) (h : IsPyInt ea) :
    requirePyInt ea site = .ok () := by
  obtain ⟨t, rfl, ha, hp⟩ := h
  simp [requirePyInt, ha, hp]

/-- A text with a first digit and no hyphen after it. -/
def HyphenBeforeDigits (t : Text) : Prop :=
  ∃ u d v, t = u ++ d::v ∧ (∀ c ∈ u, isDigit c = false) ∧ isDigit d = true ∧ (45 : UInt8) ∉ v

private theorem pyDigitsAccept_no_hyphen (prev : Bool) (t : Text)
    (h : pyDigitsAccept prev t = true) : (45 : UInt8) ∉ t := by
  induction t generalizing prev with
  | nil => exact List.not_mem_nil
  | cons c r ih =>
    unfold pyDigitsAccept at h
    rw [List.mem_cons, not_or]
    split_ifs at h with hd hu
    · refine ⟨?_, ih true h⟩
      rintro rfl
      exact absurd hd (by decide)
    · refine ⟨?_, ih false h⟩
      rintro rfl
      simp at hu

theorem trimSpaces_spec (t : Text) :
    ∃ p s, t = p ++ trimSpaces t ++ s ∧ (∀ c ∈ p, isPySpace c = true) ∧
      ∀ c ∈ s, isPySpace c = true := by
  refine ⟨t.takeWhile isPySpace,
    ((t.dropWhile isPySpace).reverse.takeWhile isPySpace).reverse, ?_, ?_, ?_⟩
  · rw [trimSpaces, List.append_assoc, ← List.reverse_append, List.takeWhile_append_dropWhile,
      List.reverse_reverse, List.takeWhile_append_dropWhile]
  · exact fun c hc => List.mem_takeWhile_imp hc
  · exact fun c hc => List.mem_takeWhile_imp (List.mem_reverse.mp hc)

theorem isPySpace_spec : ∀ c, isPySpace c = true → isDigit c = false ∧ c ≠ 45 := by
  intro c hc
  simp only [isPySpace, Bool.or_eq_true, decide_eq_true_eq] at hc
  rcases hc with ((((rfl | rfl) | rfl) | rfl) | rfl) | rfl <;> decide

/-- Accepted texts carry a hyphen as a leading sign at most. -/
theorem hyphenBeforeDigits_of_accepts (t : Text) (h : pyIntAsciiAccepts t = true) :
    HyphenBeforeDigits t := by
  obtain ⟨p, s, ht, hp, hs⟩ := trimSpaces_spec t
  unfold pyIntAsciiAccepts at h
  rw [Bool.and_eq_true] at h
  obtain ⟨hhead, hdigits⟩ := h
  have hno := pyDigitsAccept_no_hyphen false _ hdigits
  cases hcore : dropSign (trimSpaces t) with
  | nil => simp [hcore] at hhead
  | cons d v =>
    rw [hcore] at hhead hno
    have hd : isDigit d = true := by simpa using hhead
    obtain ⟨g, hg, hgd⟩ : ∃ g, trimSpaces t = g ++ d::v ∧ ∀ c ∈ g, isDigit c = false := by
      unfold dropSign at hcore
      split_ifs at hcore with hsign
      · cases htrim : trimSpaces t with
        | nil => simp [htrim] at hcore
        | cons c r =>
          rw [htrim] at hcore hsign
          refine ⟨[c], by rw [← hcore]; rfl, fun x hx => ?_⟩
          rw [List.mem_singleton] at hx
          subst hx
          rcases hsign with hc | hc <;> obtain rfl := Option.some.inj hc <;> decide
      · exact ⟨[], hcore, fun x hx => absurd hx List.not_mem_nil⟩
    refine ⟨p ++ g, d, v ++ s, ?_, ?_, hd, ?_⟩
    · rw [ht, hg]
      simp
    · intro c hc
      rcases List.mem_append.mp hc with hc | hc
      · exact (isPySpace_spec c (hp c hc)).1
      · exact hgd c hc
    · rw [List.mem_append, not_or]
      rw [List.mem_cons, not_or] at hno
      exact ⟨hno.2, fun hc => (isPySpace_spec 45 (hs 45 hc)).2 rfl⟩

private theorem append_first {p : UInt8 → Bool} {u u' v v' : Text} {d d' : UInt8}
    (h : u ++ d::v = u' ++ d'::v') (hu : ∀ c ∈ u, p c = false) (hu' : ∀ c ∈ u', p c = false)
    (hd : p d = true) (hd' : p d' = true) : u = u' ∧ d = d' ∧ v = v' := by
  induction u generalizing u' with
  | nil =>
    cases u' with
    | nil =>
      obtain ⟨rfl, rfl⟩ := List.cons.inj h
      exact ⟨rfl, rfl, rfl⟩
    | cons c u' =>
      obtain ⟨rfl, -⟩ := List.cons.inj h
      rw [hu' d List.mem_cons_self] at hd
      cases hd
  | cons c u ih =>
    cases u' with
    | nil =>
      obtain ⟨rfl, -⟩ := List.cons.inj h
      rw [hu c List.mem_cons_self] at hd'
      cases hd'
    | cons c' u' =>
      obtain ⟨rfl, htail⟩ := List.cons.inj h
      obtain ⟨rfl, rfl, rfl⟩ := ih htail (fun x hx => hu x (List.mem_cons_of_mem _ hx))
        (fun x hx => hu' x (List.mem_cons_of_mem _ hx))
      exact ⟨rfl, rfl, rfl⟩

/-- Two such texts joined by a hyphen can be told apart. -/
theorem hyphen_join_injective (a a' b b' : Text) (ha : HyphenBeforeDigits a)
    (ha' : HyphenBeforeDigits a') (h : a ++ text "-" ++ b = a' ++ text "-" ++ b') :
    a = a' ∧ b = b' := by
  obtain ⟨u, d, v, rfl, hu, hd, hv⟩ := ha
  obtain ⟨u', d', v', rfl, hu', hd', hv'⟩ := ha'
  have hyphen : text "-" = [45] := rfl
  rw [hyphen] at h
  simp only [List.append_assoc, List.cons_append, List.nil_append] at h
  obtain ⟨rfl, rfl, htail⟩ := append_first h hu hu' hd hd'
  have hno (w : Text) (hw : (45 : UInt8) ∉ w) : ∀ c ∈ w, (c == 45) = false := by
    intro c hc
    rw [beq_eq_false_iff_ne]
    rintro rfl
    exact hw hc
  obtain ⟨rfl, -, rfl⟩ := append_first htail (hno _ hv) (hno _ hv') rfl rfl
  exact ⟨rfl, rfl⟩

/-- The decimal text of a number, as Python prints it. -/
def CanonicalDecimal (ea : Option Text) : Prop := ∃ n : Int, ea = some (decimalInt n)

private theorem decimal_digits (n : Nat) : ∀ c ∈ decimal n, isDigit c = true := by
  intro c hc
  obtain ⟨d, hd, rfl⟩ := List.mem_map.mp hc
  have hdigit := Nat.isDigit_of_mem_toDigits (by decide) (by decide) hd
  have hrange : 48 ≤ d.toNat ∧ d.toNat ≤ 57 := by
    simp only [Char.isDigit, Bool.and_eq_true, decide_eq_true_eq, ge_iff_le,
      UInt32.le_iff_toNat_le] at hdigit
    exact hdigit
  have hof : (UInt8.ofNat d.toNat).toNat = d.toNat := by
    rw [UInt8.toNat_ofNat']
    omega
  simp only [isDigit, Bool.and_eq_true, decide_eq_true_eq, UInt8.le_iff_toNat_le, hof]
  exact hrange

private theorem pyDigitsAccept_digits (prev : Bool) (t : Text)
    (h : ∀ c ∈ t, isDigit c = true) : pyDigitsAccept prev t = true := by
  induction t generalizing prev with
  | nil => rfl
  | cons c r ih =>
    unfold pyDigitsAccept
    rw [if_pos (h c List.mem_cons_self)]
    exact ih true fun x hx => h x (List.mem_cons_of_mem c hx)

private theorem trimSpaces_eq_self (t : Text) (h : ∀ c ∈ t, isPySpace c = false) :
    trimSpaces t = t := by
  have hdrop (u : Text) (hu : ∀ c ∈ u, isPySpace c = false) : u.dropWhile isPySpace = u := by
    cases u with
    | nil => rfl
    | cons c r => rw [List.dropWhile_cons_of_neg (by simp [hu c List.mem_cons_self])]
  rw [trimSpaces, hdrop t h, hdrop _ (by simpa using h), List.reverse_reverse]

private theorem isDigit_spec (c : UInt8) (h : isDigit c = true) :
    isPySpace c = false ∧ c < 128 ∧ c ≠ 43 ∧ c ≠ 45 := by
  simp only [isDigit, Bool.and_eq_true, decide_eq_true_eq, UInt8.le_iff_toNat_le] at h
  simp only [isPySpace, Bool.or_eq_false_iff, decide_eq_false_iff_not, UInt8.lt_iff_toNat_lt,
    ne_eq, ← UInt8.toNat_inj]
  simp only [UInt8.reduceToNat] at h ⊢
  omega

theorem isPyInt_of_canonical (ea : Option Text) (h : CanonicalDecimal ea) : IsPyInt ea := by
  obtain ⟨n, rfl⟩ := h
  have hdigits := decimal_digits
  have hne (k : Nat) : ∃ d v, decimal k = d::v := by
    refine List.exists_cons_of_ne_nil fun hk => ?_
    exact Nat.toDigits_ne_nil (List.map_eq_nil_iff.mp hk)
  refine ⟨decimalInt n, rfl, ?_⟩
  cases n with
  | ofNat k =>
    obtain ⟨d, v, hd⟩ := hne k
    have hspec := fun c hc => isDigit_spec c (hdigits k c hc)
    have htrim := trimSpaces_eq_self (decimal k) fun c hc => (hspec c hc).1
    have hsign : dropSign (decimal k) = decimal k := by
      have := hspec d (by simp [hd])
      simp [dropSign, hd, this]
    have hhead : (decimal k).head?.any isDigit = true := by
      have := hdigits k d (by simp [hd])
      simp [hd, this]
    change isAscii (decimal k) = true ∧ pyIntAsciiAccepts (decimal k) = true
    refine ⟨List.all_eq_true.mpr fun c hc => decide_eq_true (hspec c hc).2.1, ?_⟩
    rw [pyIntAsciiAccepts, htrim, hsign, hhead, pyDigitsAccept_digits _ _ (hdigits k)]
    rfl
  | negSucc k =>
    obtain ⟨d, v, hd⟩ := hne (k+1)
    have hspec := fun c hc => isDigit_spec c (hdigits (k+1) c hc)
    have hspace : ∀ c ∈ (45 : UInt8)::decimal (k+1), isPySpace c = false :=
      List.forall_mem_cons.mpr ⟨rfl, fun c hc => (hspec c hc).1⟩
    have htrim := trimSpaces_eq_self _ hspace
    have hsign : dropSign (45::decimal (k+1)) = decimal (k+1) := by simp [dropSign]
    have hhead : (decimal (k+1)).head?.any isDigit = true := by
      have := hdigits (k+1) d (by simp [hd])
      simp [hd, this]
    change isAscii (45::decimal (k+1)) = true ∧ pyIntAsciiAccepts (45::decimal (k+1)) = true
    refine ⟨List.all_eq_true.mpr (List.forall_mem_cons.mpr
      ⟨rfl, fun c hc => decide_eq_true (hspec c hc).2.1⟩), ?_⟩
    rw [pyIntAsciiAccepts, htrim, hsign, hhead, pyDigitsAccept_digits _ _ (hdigits (k+1))]
    rfl

end DSigMatcher.Diff
