import DSigMatcher.Framework.HashedSet
import DSigMatcher.Json.PyParsed
import Mathlib

namespace DSigMatcher.Json
open DSigMatcher.Base DSigMatcher.Framework

/-- A value that a set can hold. -/
abbrev HashableValue := {v : PyValue // v.hashable = true}

/-- `PyHash`, which such a value has. -/
def HashableValue.hash (v : HashableValue) : UInt64 := (pyHash v.val).toOption.getD 0

def HashableValue.same (a b : HashableValue) : Bool := pyEquals a.val b.val

/-- `Items_` and `Index_`. -/
abbrev PySet := HashedSet HashableValue.hash

namespace PySet

def insert (s : PySet) (v : PyValue) : Except PyLoadsError (PySet × Bool) :=
  if h : v.hashable = true then .ok (HashedSet.insert HashableValue.same s ⟨v,h⟩)
  else .error (unhashable (text "set") v.kind)

def contains (s : PySet) (v : PyValue) : Except PyLoadsError Bool :=
  if h : v.hashable = true then .ok (HashedSet.contains HashableValue.same s ⟨v,h⟩)
  else .error (unhashable (text "set") v.kind)

def size (s : PySet) : Nat := s.items.length

def ordered (s : PySet) : List PyValue := s.items.map Subtype.val

end PySet

def pySetFromList (items : List PyValue) : Except PyLoadsError PySet :=
  items.foldlM (fun s v => (PySet.insert s v).map Prod.fst) HashedSet.empty

/-- One round of `PySetIntersection`. -/
def intersectionRound (main diff : PySet) (result : List PyValue) (item : PyValue) :
    Except PyLoadsError (List PyValue) :=
  let keysFromDiff := diff.size ≤ main.size
  match diff.contains item with
  | .error e => .error e
  | .ok false => .ok result
  | .ok true =>
    if keysFromDiff ∧ item.kind ≠ .str ∧ item.kind ≠ .none then
      match diff.ordered.find? fun other => pyEquals other item with
      | some other => .ok (result ++ [other])
      | none => .ok result
    else .ok (result ++ [item])

def pySetIntersection (main diff : PySet) : Except PyLoadsError (List PyValue) :=
  main.ordered.foldlM (intersectionRound main diff) []

/-- One round of `PySetIntersectionSize`. -/
def countRound (large : PySet) (count : Nat) (item : PyValue) : Except PyLoadsError Nat :=
  match large.contains item with
  | .error e => .error e
  | .ok found => .ok (if found then count+1 else count)

def pySetIntersectionSize (a b : PySet) : Except PyLoadsError Nat :=
  let small := if a.size ≤ b.size then a else b
  let large := if a.size ≤ b.size then b else a
  small.ordered.foldlM (countRound large) 0

/-- Equality and hashing of the hashable values that the parser produces. -/
structure EqualityLaws : Prop where
  refl : ∀ a, Produced a → a.hashable = true → pyEquals a a = true
  symm : ∀ a b, Produced a → Produced b → a.hashable = true → b.hashable = true →
    pyEquals a b = true → pyEquals b a = true
  trans : ∀ a b c, Produced a → Produced b → Produced c →
    a.hashable = true → b.hashable = true → c.hashable = true →
    pyEquals a b = true → pyEquals b c = true → pyEquals a c = true
  nan : ∀ x y : Binary64, x.isNaN = true → y.isNaN = true → pyEquals (.float x) (.float y) = true
  sameNumber : ∀ digits x, Produced (.int digits) → Produced (.float x) →
    (pyEquals (.int digits) (.float x) = true ↔ x.Finite ∧ x.value = integerValue digits)
  sameHash : ∀ a b, Produced a → Produced b → a.hashable = true → b.hashable = true →
    pyEquals a b = true → ∃ hash, pyHash a = .ok hash ∧ pyHash b = .ok hash

/-- A set holds one item for each class of the list, which inserting the values again keeps. -/
structure OnePerClass (s : PySet) (l : List PyValue) : Prop where
  built : pySetFromList l = .ok s
  listed : ∀ v ∈ s.ordered, v ∈ l
  one : ∀ v ∈ l, s.ordered.countP (fun item => pyEquals item v) = 1
  kept : ∀ v ∈ l, s.insert v = .ok (s,false)

/-- The size of the intersection is the length of the intersection, either way. -/
def SizesAgree (a b : PySet) : Prop :=
  ∃ common, pySetIntersection a b = .ok common ∧
    pySetIntersectionSize a b = .ok common.length ∧ pySetIntersectionSize b a = .ok common.length

/-- No more than `2^32` values of the list differ from each other. -/
def FitsIndex (l : List PyValue) : Prop :=
  ∀ m : List PyValue, (∀ v ∈ m, v ∈ l) → m.Pairwise (fun a b => pyEquals a b = false) →
    m.length ≤ 2^32

section
variable {a b : HashableValue}

theorem HashableValue.same_iff : a.same b = true ↔ pyKey a.val = pyKey b.val :=
  pyEquals_iff_key a.property b.property

theorem HashableValue.hash_eq (v : HashableValue) : v.hash = keyHash (pyKey v.val) := by
  rw [hash, pyHash_eq v.property]
  rfl

theorem same_equivalence : Equivalence fun a b : HashableValue => a.same b = true := by
  refine ⟨fun a => ?_, fun h => ?_, fun h h' => ?_⟩
  · rw [HashableValue.same_iff]
  · rw [HashableValue.same_iff] at h ⊢
    exact h.symm
  · rw [HashableValue.same_iff] at h h' ⊢
    exact h.trans h'

theorem hash_eq_of_same : ∀ a b : HashableValue, a.same b = true → a.hash = b.hash := by
  intro a b h
  rw [HashableValue.hash_eq, HashableValue.hash_eq, HashableValue.same_iff.mp h]

end

theorem integer_equals_float_iff (n : Int) (x : Binary64) :
    pyEquals (.int (decimalInt n)) (.float x) = true ↔ x.Finite ∧ x.value = n := by
  have hround : pyEquals (.int (decimalInt n)) (.float x) =
      floatEqualsInt (.float x) (.int (decimalInt n)) := by
    rw [pyEquals.eq_def]
    rfl
  have hdigits : integralDigits (.float x) =
      if isIntegralFinite x then some (integralDoubleDigits x) else none := rfl
  have hinteger : integralDigits (.int (decimalInt n)) = some (decimalInt n) := rfl
  rw [hround, floatEqualsInt, hinteger, hdigits]
  by_cases hx : x.Integral
  · rw [if_pos ((isIntegralFinite_iff x).mpr hx), integralDoubleDigits_eq hx, hx.value_eq,
      Int.cast_inj, and_iff_right hx.1, ← decimalInt_inj]
    simp
  · rw [if_neg (mt (isIntegralFinite_iff x).mp hx)]
    refine iff_of_false (by simp) ?_
    rintro ⟨hfinite, hvalue⟩
    exact hx (Binary64.integral_of_value hfinite hvalue)

/-- Equality is an equivalence that hashing respects, and compares numbers by their value. -/
theorem equalityLaws : EqualityLaws where
  refl a _ ha := same_equivalence.refl ⟨a,ha⟩
  symm a b _ _ ha hb h := same_equivalence.symm (x := ⟨a,ha⟩) (y := ⟨b,hb⟩) h
  trans a b c _ _ _ ha hb hc h h' :=
    same_equivalence.trans (x := ⟨a,ha⟩) (y := ⟨b,hb⟩) (z := ⟨c,hc⟩) h h'
  nan x y hx hy := by
    rw [pyEquals_iff_key rfl rfl, pyKey, pyKey, if_pos hx, if_pos hy]
  sameNumber digits x hdigits _ := by
    cases hdigits.canonical with
    | int n =>
      rw [integer_equals_float_iff, integerValue_decimalInt]
  sameHash a b _ _ ha hb h := by
    refine ⟨keyHash (pyKey a), pyHash_eq ha, ?_⟩
    rw [pyHash_eq hb, (pyEquals_iff_key ha hb).mp h]

namespace PySet

theorem insert_val (s : PySet) (v : HashableValue) :
    s.insert v.val = .ok (HashedSet.insert HashableValue.same s v) := dif_pos v.property

theorem contains_val (s : PySet) (v : HashableValue) :
    s.contains v.val = .ok (HashedSet.contains HashableValue.same s v) := dif_pos v.property

end PySet

theorem pySetFromList_val (l : List HashableValue) :
    pySetFromList (l.map Subtype.val) = .ok (HashedSet.ofList HashableValue.same l) := by
  rw [pySetFromList, HashedSet.ofList]
  generalize (HashedSet.empty : PySet) = s
  induction l generalizing s with
  | nil => rfl
  | cons v l ih =>
    rw [List.map_cons, List.foldlM_cons, PySet.insert_val, List.foldl_cons]
    exact ih _

theorem forall_mem_map_val {P : PyValue → Prop} {l : List HashableValue} :
    (∀ v ∈ l.map Subtype.val, P v) ↔ ∀ v ∈ l, P v.val := List.forall_mem_map

/-- A set of one item for each class is the set of the list. -/
theorem onePerClass_iff (s : PySet) (l : List HashableValue) :
    OnePerClass s (l.map Subtype.val) ↔ s = HashedSet.ofList HashableValue.same l ∧
      s.Represents HashableValue.same l := by
  have hlisted : (∀ v ∈ s.ordered, v ∈ l.map Subtype.val) ↔ ∀ v ∈ s.items, v ∈ l := by
    rw [PySet.ordered, forall_mem_map_val]
    simp only [List.mem_map_of_injective Subtype.val_injective]
  have hone (v : HashableValue) : s.ordered.countP (fun item => pyEquals item v.val) =
      s.items.countP (fun item => item.same v) := List.countP_map
  have hkept (v : HashableValue) : s.insert v.val = .ok (s,false) ↔
      HashedSet.insert HashableValue.same s v = (s,false) := by
    rw [PySet.insert_val, Except.ok.injEq]
  constructor
  · rintro ⟨hbuilt, hl, ho, hk⟩
    rw [pySetFromList_val, Except.ok.injEq] at hbuilt
    rw [forall_mem_map_val] at ho hk
    exact ⟨hbuilt.symm, hlisted.mp hl, fun v hv => (hone v).symm.trans (ho v hv),
      fun v hv => (hkept v).mp (hk v hv)⟩
  · rintro ⟨hbuilt, hl, ho, hk⟩
    refine ⟨?_, hlisted.mpr hl, ?_, ?_⟩
    · rw [pySetFromList_val, hbuilt]
    · rw [forall_mem_map_val]
      exact fun v hv => (hone v).trans (ho v hv)
    · rw [forall_mem_map_val]
      exact fun v hv => (hkept v).mpr (hk v hv)

theorem fitsIndex_iff (l : List HashableValue) :
    FitsIndex (l.map Subtype.val) ↔ HashedSet.AtMost HashableValue.same (2^32) l := by
  constructor
  · intro h m hm hapart
    have hle := h (m.map Subtype.val) ?_ ?_
    · rwa [List.length_map] at hle
    · rw [forall_mem_map_val]
      exact fun v hv => List.mem_map_of_mem (hm v hv)
    · rw [List.pairwise_map]
      exact hapart
  · intro h m hm hapart
    have hhashable : ∀ v ∈ m, v.hashable = true := by
      intro v hv
      obtain ⟨w, -, rfl⟩ := List.mem_map.mp (hm v hv)
      exact w.property
    lift m to List HashableValue using hhashable
    rw [forall_mem_map_val] at hm
    simp only [List.mem_map_of_injective Subtype.val_injective] at hm
    rw [List.pairwise_map] at hapart
    rw [List.length_map]
    exact h m hm hapart

section
variable {a b : PySet}

/-- The rounds of the size count the items that the larger set holds. -/
theorem countRound_fold (large : PySet) (l : List HashableValue) (count : Nat) :
    (l.map Subtype.val).foldlM (countRound large) count =
      .ok (count+l.countP (HashedSet.contains HashableValue.same large)) := by
  induction l generalizing count with
  | nil => rfl
  | cons v l ih =>
    have hround : countRound large count v.val =
        .ok (if HashedSet.contains HashableValue.same large v then count+1 else count) := by
      rw [countRound, PySet.contains_val]
    rw [List.map_cons, List.foldlM_cons, hround]
    refine (ih _).trans (congrArg _ ?_)
    rw [List.countP_cons]
    split_ifs <;> omega

/-- The rounds of the intersection add one value for each item that the other set holds. -/
theorem intersectionRound_fold (hfound : ∀ v, HashedSet.contains HashableValue.same b v =
      b.items.any (fun item => item.same v)) (l : List HashableValue) (result : List PyValue) :
    ∃ common, (l.map Subtype.val).foldlM (intersectionRound a b) result = .ok common ∧
      common.length = result.length+l.countP (HashedSet.contains HashableValue.same b) := by
  induction l generalizing result with
  | nil => exact ⟨result, rfl, rfl⟩
  | cons v l ih =>
    have hround : ∃ next, intersectionRound a b result v.val = .ok next ∧
        next.length = result.length+
          (if HashedSet.contains HashableValue.same b v then 1 else 0) := by
      rw [intersectionRound, PySet.contains_val]
      cases hv : HashedSet.contains HashableValue.same b v with
      | false => exact ⟨result, rfl, rfl⟩
      | true =>
        rw [if_pos rfl]
        dsimp only
        split_ifs with hkeys
        · have hsome : (b.ordered.find? fun other => pyEquals other v.val).isSome := by
            rw [hfound] at hv
            rw [List.find?_isSome, PySet.ordered]
            obtain ⟨item, hitem, hsame⟩ := List.any_eq_true.mp hv
            exact ⟨item.val, List.mem_map_of_mem hitem, hsame⟩
          obtain ⟨other, hother⟩ := Option.isSome_iff_exists.mp hsome
          rw [hother]
          exact ⟨_, rfl, List.length_append⟩
        · exact ⟨_, rfl, List.length_append⟩
    obtain ⟨next, hnext, hlength⟩ := hround
    obtain ⟨common, hcommon, hsum⟩ := ih next
    refine ⟨common, ?_, ?_⟩
    · rw [List.map_cons, List.foldlM_cons, hnext]
      exact hcommon
    · rw [hsum, hlength, List.countP_cons]
      omega

theorem intersectionSize_eq (hfound : ∀ v, HashedSet.contains HashableValue.same b v =
      b.items.any (fun item => item.same v)) (hfound' : ∀ v,
      HashedSet.contains HashableValue.same a v = a.items.any (fun item => item.same v))
    (ha : a.items.Pairwise fun v w => v.same w = false)
    (hb : b.items.Pairwise fun v w => v.same w = false) :
    pySetIntersectionSize a b =
      .ok (a.items.countP (HashedSet.contains HashableValue.same b)) := by
  rw [pySetIntersectionSize]
  split_ifs with hsize
  · rw [PySet.ordered, countRound_fold, Nat.zero_add]
  · have hcommon := HashedSet.countP_common hb ha same_equivalence
    rw [PySet.ordered, countRound_fold, Nat.zero_add, funext hfound, funext hfound', hcommon]

theorem sizesAgree_of_distinct {l m : List HashableValue} (ha : a.Distinct HashableValue.same l)
    (hb : b.Distinct HashableValue.same m) (hl : HashedSet.AtMost HashableValue.same (2^32) l)
    (hm : HashedSet.AtMost HashableValue.same (2^32) m) : SizesAgree a b := by
  have hfound (v : HashableValue) := HashedSet.contains_of_length (v := v) hash_eq_of_same
    (ha.length_le hl)
  have hfound' (v : HashableValue) := HashedSet.contains_of_length (v := v) hash_eq_of_same
    (hb.length_le hm)
  obtain ⟨common, hcommon, hlength⟩ := intersectionRound_fold (a := a) hfound' a.items []
  rw [List.length_nil, Nat.zero_add] at hlength
  refine ⟨common, hcommon, ?_, ?_⟩
  · rw [intersectionSize_eq hfound' hfound ha.apart hb.apart, hlength]
  · rw [intersectionSize_eq hfound hfound' hb.apart ha.apart, hlength, funext hfound,
      funext hfound', HashedSet.countP_common hb.apart ha.apart same_equivalence]

end

/-- Equality and hashing agree on all values, and two sets keep one item for each class, whose
intersection has one size, exactly when neither list has more than `2^32` classes. -/
theorem pySets_consistent_iff (first second : List PyValue)
    (hfirst : ∀ v ∈ first, Produced v ∧ v.hashable = true)
    (hsecond : ∀ v ∈ second, Produced v ∧ v.hashable = true) :
    EqualityLaws ∧
      ((∃ a b, OnePerClass a first ∧ OnePerClass b second ∧ SizesAgree a b) ↔
        FitsIndex first ∧ FitsIndex second) := by
  have hfirst' : ∀ v ∈ first, v.hashable = true := fun v hv => (hfirst v hv).2
  have hsecond' : ∀ v ∈ second, v.hashable = true := fun v hv => (hsecond v hv).2
  lift first to List HashableValue using hfirst'
  lift second to List HashableValue using hsecond'
  have hiff (l : List HashableValue) :=
    HashedSet.ofList_represents_iff (l := l) same_equivalence hash_eq_of_same
  refine ⟨equalityLaws, ?_⟩
  rw [fitsIndex_iff, fitsIndex_iff]
  constructor
  · rintro ⟨a, b, ha, hb, -⟩
    rw [onePerClass_iff] at ha hb
    exact ⟨(hiff first).mp (ha.1 ▸ ha.2), (hiff second).mp (hb.1 ▸ hb.2)⟩
  · rintro ⟨hl, hm⟩
    refine ⟨_, _, (onePerClass_iff _ first).mpr ⟨rfl, (hiff first).mpr hl⟩,
      (onePerClass_iff _ second).mpr ⟨rfl, (hiff second).mpr hm⟩, ?_⟩
    exact sizesAgree_of_distinct
      (HashedSet.ofList_distinct same_equivalence hash_eq_of_same hl)
      (HashedSet.ofList_distinct same_equivalence hash_eq_of_same hm) hl hm

theorem pyJsonLoads_of_token {t : Text} {v : PyValue} (hspace : skipWs t = t)
    (h : ∀ pa po, (PyJsonParser.mk t.length).parseToken pa po t = .ok (v,[])) :
    pyJsonLoads t = .ok v := by
  have hdocument : (PyJsonParser.mk t.length).document t = .ok v := by
    rw [PyJsonParser.document, hspace, maxJsonDepth, PyJsonParser.parseValue, h]
    rfl
  rw [pyJsonLoads, hdocument]

/-- `1` and `True` are one class, and so are the NaNs. -/
theorem pySets_consistent_numbers :
    EqualityLaws ∧
      ((∃ a b, OnePerClass a [.int (text "1"), .float PyJsonParser.nan, .float PyJsonParser.nan] ∧
        OnePerClass b [.bool true, .none, .float PyJsonParser.nan] ∧ SizesAgree a b) ↔
        FitsIndex [.int (text "1"), .float PyJsonParser.nan, .float PyJsonParser.nan] ∧
          FitsIndex [.bool true, .none, .float PyJsonParser.nan]) := by
  have hint : Produced (.int (text "1")) :=
    .loaded (pyJsonLoads_of_token (t := text "1") rfl fun _ _ => rfl)
  have htrue : Produced (.bool true) :=
    .loaded (pyJsonLoads_of_token (t := text "true") rfl fun _ _ => rfl)
  have hnone : Produced .none :=
    .loaded (pyJsonLoads_of_token (t := text "null") rfl fun _ _ => rfl)
  have hnan : Produced (.float PyJsonParser.nan) :=
    .loaded (pyJsonLoads_of_token (t := text "NaN") rfl fun _ _ => rfl)
  refine pySets_consistent_iff _ _ (fun v hv => ?_) fun v hv => ?_
  · simp only [List.mem_cons, List.not_mem_nil, or_false] at hv
    rcases hv with rfl | rfl | rfl
    · exact ⟨hint, rfl⟩
    · exact ⟨hnan, rfl⟩
    · exact ⟨hnan, rfl⟩
  · simp only [List.mem_cons, List.not_mem_nil, or_false] at hv
    rcases hv with rfl | rfl | rfl
    · exact ⟨htrue, rfl⟩
    · exact ⟨hnone, rfl⟩
    · exact ⟨hnan, rfl⟩

theorem numberTail_integer (integer : Text) :
    PyJsonParser.numberTail false integer [] = .ok (.int integer,[]) := by
  simp [PyJsonParser.numberTail, PyJsonParser.fraction, PyJsonParser.exponent]

/-- A decimal is read as its integer. -/
theorem int_produced (n : Nat) : Produced (.int (decimal n)) := by
  obtain ⟨hvalue, hdigits, d, v, hd, hzero⟩ := digitsValue_decimal n
  rw [hd] at hdigits ⊢
  have hdigit := hdigits d List.mem_cons_self
  have hrange : 48 ≤ d.toNat ∧ d.toNat ≤ 57 := by
    have hlt := digit_lt hdigit
    omega
  have hapart (c : UInt8) (hc : c.toNat < 48 ∨ 57 < c.toNat) : d ≠ c := by
    rintro rfl
    omega
  have hrest : v.takeWhile isDigit = v ∧ v.dropWhile isDigit = [] := by
    have hall : ∀ c ∈ v, isDigit c = true := fun c hc => hdigits c (List.mem_cons_of_mem _ hc)
    exact ⟨List.takeWhile_eq_self_iff.mpr hall, List.dropWhile_eq_nil_iff.mpr hall⟩
  have hnumber (p : PyJsonParser) : p.parseNumber (d::v) = .ok (.int (d::v),[]) := by
    have hplain : decide ((d::v).head? = some 45) = false := by
      simp [hapart 45 (by decide)]
    unfold PyJsonParser.parseNumber
    dsimp only
    rw [hplain, if_neg Bool.false_ne_true]
    by_cases h48 : d = 48
    · rw [hzero h48, h48]
      rfl
    · have hlow : (49 : UInt8) ≤ d ∧ d ≤ 57 := by
        rw [UInt8.le_iff_toNat_le, UInt8.le_iff_toNat_le]
        have hne : d.toNat ≠ 48 := fun h => h48 (UInt8.toNat_inj.mp h)
        have hfirst : (49 : UInt8).toNat = 49 := rfl
        have hlast : (57 : UInt8).toNat = 57 := rfl
        omega
      dsimp only
      rw [if_pos hlow, hrest.1, hrest.2, numberTail_integer]
  refine .loaded (pyJsonLoads_of_token (t := d::v) ?_ fun pa po => ?_)
  · rw [skipWs, List.dropWhile_cons_of_neg]
    simp [hapart 32 (by decide), hapart 9 (by decide), hapart 10 (by decide), hapart 13 (by decide)]
  · simp [PyJsonParser.parseToken, hapart 34 (by decide), hapart 123 (by decide),
      hapart 91 (by decide), hapart 110 (by decide), hapart 116 (by decide),
      hapart 102 (by decide), hapart 78 (by decide), hapart 73 (by decide), hapart 45 (by decide),
      hdigit, hnumber]

/-- The integers up to `n`, and `n` again. -/
def countingTwice (n : Nat) : List PyValue :=
  (List.range (n+1)).map (fun k => .int (decimal k)) ++ [.int (decimal n)]

theorem decimals_equal_iff (m n : Nat) :
    pyEquals (.int (decimal m)) (.int (decimal n)) = true ↔ m = n := by
  rw [pyEquals_iff_key rfl rfl, pyKey, pyKey, PyKey.number.injEq]
  constructor
  · intro h
    rw [← (digitsValue_decimal m).1, h, (digitsValue_decimal n).1]
  · rintro rfl
    rfl

def integerItem (n : Nat) : HashableValue := ⟨.int (decimal n),rfl⟩

/-- From `2^32` on the last integer is kept twice. -/
theorem countingTwice_kept {n : Nat} (hn : 2^32 ≤ n) :
    ∃ s, pySetFromList (countingTwice n) = .ok s ∧ s.ordered = countingTwice n := by
  have hcounting : countingTwice n = ((List.range (n+1)).map integerItem ++
      [integerItem n]).map Subtype.val := by
    rw [List.map_append, List.map_map]
    rfl
  rw [hcounting, pySetFromList_val]
  refine ⟨_, rfl, congrArg _ (HashedSet.items_ofList_again (i := n) hash_eq_of_same ?_ hn ?_)⟩
  · rw [List.pairwise_map]
    refine List.Pairwise.imp ?_ (List.nodup_range (n := n+1))
    intro a b hab
    exact Bool.eq_false_iff.mpr fun h => hab ((decimals_equal_iff a b).mp h)
  · rw [List.getElem?_map, List.getElem?_range (Nat.lt_succ_self n)]
    rfl

theorem countingTwice_count (n : Nat) :
    (countingTwice n).countP (fun item => pyEquals item (.int (decimal n))) = 2 := by
  have hrange : (List.range (n+1)).countP (fun k => pyEquals (.int (decimal k)) (.int (decimal n))) =
      (List.range (n+1)).count n := by
    apply List.countP_congr
    intro k _
    rw [decimals_equal_iff, beq_iff_eq]
  have hself : pyEquals (.int (decimal n)) (.int (decimal n)) = true :=
    (decimals_equal_iff n n).mpr rfl
  rw [countingTwice, List.countP_append, List.countP_map, List.countP_singleton, hself, if_pos rfl]
  refine congrArg (· + 1) (hrange.trans ?_)
  exact List.count_eq_one_of_mem List.nodup_range (List.mem_range.mpr (Nat.lt_succ_self n))

/-- The set of the integers up to `2^32` and of the last one again holds that one twice. -/
theorem pySet_doubles :
    (∀ v ∈ countingTwice (2^32), Produced v ∧ v.hashable = true) ∧
      ∃ s, pySetFromList (countingTwice (2^32)) = .ok s ∧
        s.ordered.countP (fun item => pyEquals item (.int (decimal (2^32)))) = 2 := by
  constructor
  · intro v hv
    rcases List.mem_append.mp hv with hv | hv
    · obtain ⟨k, -, rfl⟩ := List.mem_map.mp hv
      exact ⟨int_produced k, rfl⟩
    · rw [List.mem_singleton.mp hv]
      exact ⟨int_produced _, rfl⟩
  · obtain ⟨s, hs, hitems⟩ := countingTwice_kept (Nat.le_refl (2^32))
    exact ⟨s, hs, by rw [hitems, countingTwice_count]⟩

end DSigMatcher.Json
