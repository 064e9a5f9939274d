import DSigMatcher.Framework.Fallible
import DSigMatcher.Json.PyObjectKeys
import DSigMatcher.Preflight.CallgraphDifference
import Mathlib

namespace DSigMatcher.Preflight
open DSigMatcher.Base DSigMatcher.Framework DSigMatcher.Json JsonValue
open DSigMatcher.Diff (DiffError)

/-- The int of JSON. -/
def pyInt (n : Int) : PyValue := .int (decimalInt n)

def PyNumber.ofInt (n : Int) : PyNumber := { int := bigOf n }

section
variable (m n : Int)

theorem decimal_eq_zero_iff {n : Nat} : decimal n = text "0" ↔ n = 0 := by
  have hzero : text "0" = decimal 0 := by decide
  constructor
  · intro h
    rw [hzero] at h
    rw [← (digitsValue_decimal n).1, h, (digitsValue_decimal 0).1]
  · rintro rfl
    exact hzero.symm

theorem asNumber_pyInt : asNumber (pyInt n) = some (.ofInt n) := by
  have hmag (k : Nat) : (if decimal k = text "0" then [] else decimal k) = magOfU64 k := by
    simp only [decimal_eq_zero_iff]
    rfl
  rcases Int.lt_or_le n 0 with hneg | hpos
  · obtain ⟨k, hk, rfl⟩ : ∃ k : Nat, 0 < k ∧ n = -k := ⟨n.natAbs, by omega, by omega⟩
    rw [pyInt, decimalInt_neg hk, asNumber, List.head?_cons, List.tail_cons]
    simp only [decide_true, if_true, hmag, Bool.true_and, magOfU64_isEmpty]
    rw [PyNumber.ofInt, bigOf, Int.natAbs_neg, Int.natAbs_natCast]
    congr 2
    rw [decide_eq_false (Nat.ne_of_gt hk), decide_eq_true (by omega)]
    rfl
  · obtain ⟨k, rfl⟩ := Int.eq_ofNat_of_zero_le hpos
    obtain ⟨d, v, hd, -, hminus, -⟩ := decimal_head k
    have hhead : (decimal k).head? ≠ some 45 := by
      rw [hd, List.head?_cons, Ne, Option.some.injEq]
      exact hminus
    have hdigits : decimalInt k = decimal k := rfl
    rw [pyInt, hdigits, asNumber]
    simp only [decide_eq_false hhead, Bool.false_eq_true, if_false, hmag, Bool.false_and]
    rw [PyNumber.ofInt, bigOf, Int.natAbs_natCast, decide_eq_false (by omega)]

theorem pyNotEqual_pyInt : pyNotEqual (pyInt m) (pyInt n) = decide (m ≠ n) := by
  rw [pyNotEqual, asNumber_pyInt, asNumber_pyInt]
  simp only [PyNumber.ofInt, Bool.not_false, Bool.and_self, if_true]
  rw [Bool.eq_iff_iff]
  simp only [Bool.or_eq_true, bne_iff_ne, decide_eq_true_iff]
  rw [← not_and_or, not_iff_not, ← bigOf_inj, BigInt.mk.injEq]

theorem maxMinusMin_pyInt : maxMinusMin (pyInt m) (pyInt n) = .ok (.ofInt |m-n|) := by
  rw [maxMinusMin, asNumber_pyInt, asNumber_pyInt]
  simp only [PyNumber.ofInt, Bool.not_false, Bool.and_self, if_true, bigAbsDiff_bigOf]

theorem numberOf_pyInt (site : Text) : numberOf site (pyInt n) = .ok (.ofInt n) := by
  rw [numberOf, asNumber_pyInt]

/-- A sum of ints is exact. -/
theorem sumValues_ofInt (values : List Int) (site : Text) :
    sumValues (values.map .ofInt) site = .ok (.ofInt values.sum) := by
  have hrun (values : List Int) (acc : Int) :
      (values.map PyNumber.ofInt).foldlM (sumRound site) (.ofInt acc) =
        .ok (.ofInt (acc+values.sum)) := by
    induction values generalizing acc with
    | nil => simp [pure, Except.pure]
    | cons n values ih =>
      have hround : sumRound site (.ofInt acc) (.ofInt n) = .ok (.ofInt (acc+n)) := by
        rw [sumRound]
        simp only [PyNumber.ofInt, Bool.not_false, Bool.and_self, if_true, bigAdd_bigOf]
      rw [List.map_cons, List.foldlM_cons, hround, List.sum_cons, ← Int.add_assoc]
      exact ih (acc+n)
  have hzero : ({} : PyNumber) = .ofInt 0 := rfl
  rw [sumValues, hzero, hrun, Int.zero_add]

end

section
variable {x : Binary64}

/-- The digits of an integral decimal, filled up with zeros, are those of its integer. -/
theorem bigOf_of_value {d : PyDecimal} {k : Int} (h : d.Normal) (hne : d.coefficient ≠ [])
    (hvalue : d.value = k) :
    bigOf k = ⟨d.negative,d.coefficient ++ List.replicate d.exponent.toNat 48⟩ := by
  have hpos := h.rat_pos hne
  have hparts : decide (k < 0) = d.negative ∧
      decimalRat d.coefficient d.exponent = (k.natAbs : ℚ) := by
    rw [Nat.cast_natAbs]
    unfold PyDecimal.value at hvalue
    cases hsign : d.negative with
    | true =>
      rw [hsign, if_pos rfl] at hvalue
      have hk : (k : ℚ) < 0 := by linarith
      have hneg : k < 0 := by exact_mod_cast hk
      rw [abs_of_neg hneg, Int.cast_neg, ← hvalue, neg_neg]
      exact ⟨decide_eq_true hneg, rfl⟩
    | false =>
      rw [hsign, if_neg Bool.false_ne_true] at hvalue
      have hk : (0 : ℚ) < k := by linarith
      have hkpos : 0 < k := by exact_mod_cast hk
      rw [abs_of_pos hkpos, ← hvalue]
      exact ⟨decide_eq_false (by omega), rfl⟩
  obtain ⟨hsign, habs⟩ := hparts
  rw [decimalRat] at habs
  have hexp : 0 ≤ d.exponent := scaled_exponent_le (b := 10) (n := k.natAbs) (by decide)
    (h.not_dvd hne) (by rw [zpow_zero, mul_one]; exact_mod_cast habs)
  have hdigits : digitsValue (d.coefficient ++ List.replicate d.exponent.toNat 48) = k.natAbs := by
    rw [digitsValue_join, digitsValue_replicate, List.length_replicate, Nat.add_zero]
    rw [← Int.toNat_of_nonneg hexp, zpow_natCast] at habs
    exact_mod_cast habs
  rw [bigOf, hsign, ← hdigits, ← eq_magOfU64]
  · intro c hc
    rcases List.mem_append.mp hc with hc | hc
    · exact h.digit c hc
    · rw [List.eq_of_mem_replicate hc]
      rfl
  · rw [List.head?_append_of_ne_nil _ hne]
    exact h.head

/-- An integer equals a float where it is the number of the float. -/
theorem intEqualsFloat_iff (n : Int) (x : Binary64) :
    intEqualsFloat (bigOf n) x = true ↔ x.Finite ∧ x.value = n := by
  unfold intEqualsFloat
  by_cases hx : x.Integral
  · obtain ⟨hnormal, hvalue, hnegative⟩ := decimalOfDouble_spec hx.1
    rw [(isIntegralFinite_iff x).mpr hx]
    simp only [Bool.not_true, Bool.false_eq_true, if_false]
    generalize decimalOfDouble x = d at hnormal hvalue hnegative
    rw [hx.value_eq] at hvalue ⊢
    rw [Int.cast_inj, and_iff_right hx.1]
    generalize x.integer = k at hvalue
    by_cases hempty : d.coefficient = []
    · have hzero : k = 0 := by
        have hk := hnormal.value_eq_zero.mpr hempty
        rw [hvalue] at hk
        exact_mod_cast hk
      rw [hempty, List.isEmpty_nil, if_pos rfl, bigOf_mag_isEmpty, hzero, decide_eq_true_iff]
      exact eq_comm
    · have hbig := bigOf_of_value hnormal hempty hvalue
      rw [if_neg (by simpa using hempty), ← bigOf_inj, hbig, BigInt.mk.injEq, Bool.and_eq_true,
        decide_eq_true_iff, decide_eq_true_iff]
      exact and_congr eq_comm eq_comm
  · have hnot : isIntegralFinite x = false := by
      rw [← Bool.not_eq_true, isIntegralFinite_iff]
      exact hx
    rw [hnot]
    refine iff_of_false (by simp) ?_
    rintro ⟨hfinite, hvalue⟩
    exact hx (Binary64.integral_of_value hfinite hvalue)

end

/-- An object with integer values. -/
abbrev Factors := InsertionDict Text Int

namespace Factors
variable (e e1 e2 : Factors)

/-- The members of the object as JSON has them. -/
def members : List (Text × PyValue) := e.entries.map fun entry => (entry.1,pyInt entry.2)

def keySet : Finset Text := e.keys.toFinset

/-- The value of a key; zero where the object has none. -/
def valueAt (k : Text) : Int := (e.find? k).getD 0

/-- The difference of two objects: each key counts once. -/
def difference : Int :=
  ∑ k ∈ e1.keySet ∩ e2.keySet, |e1.valueAt k-e2.valueAt k| +
    (∑ k ∈ e1.keySet \ e2.keySet, e1.valueAt k + ∑ k ∈ e2.keySet \ e1.keySet, e2.valueAt k)

def total : Int := ∑ k ∈ e.keySet, e.valueAt k

/-- What a key adds to the difference. -/
def weight (k : Text) : Int :=
  if k ∈ e1.keySet ∧ k ∈ e2.keySet then |e1.valueAt k-e2.valueAt k|
  else e1.valueAt k+e2.valueAt k

section
variable {e e1 e2} {k : Text} {n : Int}

theorem mem_keySet : k ∈ e.keySet ↔ (e.find? k).isSome := by
  rw [keySet, List.mem_toFinset, InsertionDict.mem_keys_iff]

theorem valueAt_of_not_mem (h : k ∉ e.keySet) : e.valueAt k = 0 := by
  rw [mem_keySet, Bool.not_eq_true, Option.isSome_eq_false_iff, Option.isNone_iff_eq_none] at h
  rw [valueAt, h, Option.getD_none]

theorem find?_members (e : Factors) (k : Text) :
    (e.members.find? fun other => other.1 = k) = (e.find? k).map fun n => (k,pyInt n) := by
  rw [members, List.find?_map, InsertionDict.find?, Option.map_map]
  have hkey : ∀ entry ∈ e.entries.find? fun entry => entry.1 = k, entry.1 = k := fun entry h =>
    of_decide_eq_true (List.find?_some (p := fun entry : Text × Int => decide (entry.1 = k)) h)
  exact Option.map_congr fun entry h => by rw [hkey entry h]; rfl

/-- The values of the keys, in the order of the entries. -/
theorem map_valueAt (e : Factors) : e.keys.map e.valueAt = e.entries.map Prod.snd := by
  rw [InsertionDict.keys, List.map_map]
  apply List.map_congr_left
  intro entry hentry
  rw [Function.comp_apply, valueAt, (e.mem_entries_iff entry.1 entry.2).mp hentry, Option.getD_some]

theorem total_eq (e : Factors) : e.total = (e.entries.map Prod.snd).sum := by
  have hnodup : e.keys.Nodup := e.nodup
  rw [total, keySet, List.sum_toFinset _ hnodup, map_valueAt]

theorem difference_eq (e1 e2 : Factors) :
    e1.difference e2 = ∑ k ∈ e1.keySet ∪ e2.keySet, e1.weight e2 k := by
  have hshared : ∑ k ∈ e1.keySet ∩ e2.keySet, |e1.valueAt k-e2.valueAt k| =
      ∑ k ∈ e1.keySet ∩ e2.keySet, e1.weight e2 k := by
    refine Finset.sum_congr rfl fun k hk => ?_
    rw [weight, if_pos (Finset.mem_inter.mp hk)]
  have hfirst : ∑ k ∈ e1.keySet \ e2.keySet, e1.valueAt k =
      ∑ k ∈ e1.keySet \ e2.keySet, e1.weight e2 k := by
    refine Finset.sum_congr rfl fun k hk => ?_
    have hmem := (Finset.mem_sdiff.mp hk).2
    rw [weight, if_neg fun h => hmem h.2, valueAt_of_not_mem hmem, Int.add_zero]
  have hsecond : ∑ k ∈ e2.keySet \ e1.keySet, e2.valueAt k =
      ∑ k ∈ e2.keySet \ e1.keySet, e1.weight e2 k := by
    refine Finset.sum_congr rfl fun k hk => ?_
    have hmem := (Finset.mem_sdiff.mp hk).2
    rw [weight, if_neg fun h => hmem h.1, valueAt_of_not_mem hmem, Int.zero_add]
  rw [difference, hshared, hfirst, hsecond, ← Int.add_assoc, Finset.sum_inter_add_sum_sdiff,
    ← Finset.sum_union Finset.disjoint_sdiff, Finset.union_sdiff_self_eq_union]

theorem weight_of_find {m : Int} (h1 : e1.find? k = some m) (h2 : e2.find? k = some n) :
    e1.weight e2 k = |m-n| := by
  rw [weight, if_pos ⟨mem_keySet.mpr (by rw [h1]; rfl), mem_keySet.mpr (by rw [h2]; rfl)⟩,
    valueAt, valueAt, h1, h2, Option.getD_some, Option.getD_some]

theorem weight_of_find_left (h1 : e1.find? k = some n) (h2 : e2.find? k = none) :
    e1.weight e2 k = n := by
  have hmem : k ∉ e2.keySet := by
    rw [mem_keySet, h2]
    exact Bool.false_ne_true
  rw [weight, if_neg fun h => hmem h.2, valueAt_of_not_mem hmem, valueAt, h1, Option.getD_some,
    Int.add_zero]

theorem weight_of_find_right (h1 : e1.find? k = none) (h2 : e2.find? k = some n) :
    e1.weight e2 k = n := by
  have hmem : k ∉ e1.keySet := by
    rw [mem_keySet, h1]
    exact Bool.false_ne_true
  rw [weight, if_neg fun h => hmem h.1, valueAt_of_not_mem hmem, valueAt, h2, Option.getD_some,
    Int.zero_add]

end

/-- After the keys of `done`: each entry counts what its key does, and a key without an entry
counts nothing. -/
structure Carries (done : List Text) (diffs : Diffs) : Prop where
  entry : ∀ k entry, diffs.find? k = some entry →
    entryNumber entry = .ok (.ofInt (e1.weight e2 k))
  known : ∀ k ∈ diffs.keys, k ∈ e1.keySet ∪ e2.keySet
  missing : ∀ k ∈ done, k ∉ diffs.keys → e1.weight e2 k = 0

section
variable {e e1 e2} {k : Text} {n : Int} {done : List Text} {diffs : Diffs}

theorem Carries.put {entry : DiffEntry} (h : Carries e1 e2 done diffs)
    (hk : k ∈ e1.keySet ∪ e2.keySet) (hentry : entryNumber entry = .ok (.ofInt (e1.weight e2 k))) :
    Carries e1 e2 (done ++ [k]) (diffs.put k entry) := by
  constructor
  · intro j other hj
    rw [InsertionDict.find?_put] at hj
    split_ifs at hj with hjk
    · cases hj
      rw [hjk]
      exact hentry
    · exact h.entry j other hj
  · intro j hj
    rcases (InsertionDict.mem_keys_put _ _ _ _).mp hj with rfl | hj
    · exact hk
    · exact h.known j hj
  · intro j hj hmissing
    rw [InsertionDict.mem_keys_put, not_or] at hmissing
    rcases List.mem_append.mp hj with hj | hj
    · exact h.missing j hj hmissing.2
    · exact absurd (List.mem_singleton.mp hj) hmissing.1

theorem Carries.skip (h : Carries e1 e2 done diffs) (hk : e1.weight e2 k = 0) :
    Carries e1 e2 (done ++ [k]) diffs := by
  refine ⟨h.entry, h.known, fun j hj hmissing => ?_⟩
  rcases List.mem_append.mp hj with hj | hj
  · exact h.missing j hj hmissing
  · rw [List.mem_singleton.mp hj]
    exact hk

/-- A shared key is assigned where its values differ. -/
theorem Carries.shared (h : Carries e1 e2 done diffs) (hk : k ∈ e1.keySet ∪ e2.keySet) {m : Int}
    (hweight : e1.weight e2 k = |m-n|) {differ : Bool} (hdiffer : differ = false → m = n) :
    ∃ diffs', (if differ then do
        let number ← Except.ok (.ofInt |m-n|)
        return diffs.put k (.number number)
      else .ok diffs : Except DiffError Diffs) = .ok diffs' ∧
      Carries e1 e2 (done ++ [k]) diffs' := by
  cases differ with
  | true =>
    refine ⟨_, rfl, h.put hk ?_⟩
    rw [hweight]
    rfl
  | false =>
    refine ⟨_, rfl, h.skip ?_⟩
    rw [hweight, hdiffer rfl, Int.sub_self, abs_zero]

theorem mainRound_carries (h : Carries e1 e2 done diffs) (hk : e1.find? k = some n) :
    ∃ diffs', mainRound e2.members diffs (k,pyInt n) = .ok diffs' ∧
      Carries e1 e2 (done ++ [k]) diffs' := by
  have hmem : k ∈ e1.keySet ∪ e2.keySet :=
    Finset.mem_union_left _ (mem_keySet.mpr (by rw [hk]; rfl))
  rw [mainRound]
  dsimp only
  rw [find?_members]
  cases hother : e2.find? k with
  | none =>
    refine ⟨_, rfl, h.put hmem ?_⟩
    rw [weight_of_find_left hk hother]
    exact numberOf_pyInt n (text "jkutils/factor.py:242")
  | some m =>
    rw [Option.map_some]
    dsimp only
    rw [pyNotEqual_pyInt, maxMinusMin_pyInt]
    exact h.shared hmem (weight_of_find hk hother) fun heq => not_not.mp (of_decide_eq_false heq)

theorem diffRound_carries (h : Carries e1 e2 done diffs) (hk : e2.find? k = some n) :
    ∃ diffs', diffRound e1.members diffs (k,pyInt n) = .ok diffs' ∧
      Carries e1 e2 (done ++ [k]) diffs' := by
  have hmem : k ∈ e1.keySet ∪ e2.keySet :=
    Finset.mem_union_right _ (mem_keySet.mpr (by rw [hk]; rfl))
  rw [diffRound]
  dsimp only
  rw [find?_members]
  cases hother : e1.find? k with
  | none =>
    refine ⟨_, rfl, h.put hmem ?_⟩
    rw [weight_of_find_right hother hk]
    exact numberOf_pyInt n (text "jkutils/factor.py:242")
  | some m =>
    rw [Option.map_some]
    dsimp only
    rw [pyNotEqual_pyInt, maxMinusMin_pyInt]
    exact h.shared hmem (weight_of_find hother hk) fun heq =>
      (not_not.mp (of_decide_eq_false heq)).symm

/-- A loop over an object whose rounds carry the keys on. -/
theorem foldlM_carries {round : Diffs → Text × PyValue → Except DiffError Diffs}
    (hround : ∀ done diffs k n, Carries e1 e2 done diffs → e.find? k = some n →
      ∃ diffs', round diffs (k,pyInt n) = .ok diffs' ∧ Carries e1 e2 (done ++ [k]) diffs')
    (h : Carries e1 e2 done diffs) :
    ∃ diffs', e.members.foldlM round diffs = .ok diffs' ∧
      Carries e1 e2 (done ++ e.keys) diffs' := by
  have hrun (entries : List (Text × Int)) (hentries : ∀ entry ∈ entries, entry ∈ e.entries)
      (done : List Text) (diffs : Diffs) (h : Carries e1 e2 done diffs) :
      ∃ diffs', (entries.map fun entry => (entry.1,pyInt entry.2)).foldlM round diffs = .ok diffs' ∧
        Carries e1 e2 (done ++ entries.map Prod.fst) diffs' := by
    induction entries generalizing done diffs with
    | nil =>
      rw [List.map_nil, List.map_nil, List.append_nil]
      exact ⟨diffs, rfl, h⟩
    | cons entry entries ih =>
      obtain ⟨diffs', hstep, hcarries⟩ := hround done diffs entry.1 entry.2 h
        ((e.mem_entries_iff _ _).mp (hentries entry List.mem_cons_self))
      obtain ⟨last, hlast, hdone⟩ := ih (fun other hother => hentries other
        (List.mem_cons_of_mem _ hother)) _ _ hcarries
      refine ⟨last, ?_, ?_⟩
      · rw [List.map_cons, List.foldlM_cons, hstep]
        exact hlast
      · rwa [List.append_assoc, List.singleton_append] at hdone
  exact hrun e.entries (fun _ hentry => hentry) done diffs h

/-- Both loops leave what each key counts. -/
theorem callgraphDiffs_carries (e1 e2 : Factors) :
    ∃ diffs, callgraphDiffs e1.members e2.members = .ok diffs ∧
      Carries e1 e2 (e1.keys ++ e2.keys) diffs := by
  have hempty : Carries e1 e2 [] .empty := by
    refine ⟨fun k entry h => ?_, fun k h => ?_, fun k h => absurd h List.not_mem_nil⟩
    · rw [InsertionDict.find?_empty] at h
      cases h
    · exact absurd h List.not_mem_nil
  obtain ⟨diffs1, hmain, hcarries⟩ := foldlM_carries (e := e1)
    (fun _ _ _ _ h hk => mainRound_carries h hk) hempty
  obtain ⟨diffs2, hdiff, hdone⟩ := foldlM_carries (e := e2)
    (fun _ _ _ _ h hk => diffRound_carries h hk) hcarries
  refine ⟨diffs2, ?_, hdone⟩
  rw [callgraphDiffs, hmain]
  exact hdiff

/-- What the entries add up to is what the keys do. -/
theorem Carries.sum_eq (h : Carries e1 e2 (e1.keys ++ e2.keys) diffs) :
    (diffs.keys.map (e1.weight e2)).sum = e1.difference e2 := by
  have hnodup : diffs.keys.Nodup := diffs.nodup
  rw [difference_eq, ← List.sum_toFinset _ hnodup]
  apply Finset.sum_subset
  · intro k hk
    exact h.known k (List.mem_toFinset.mp hk)
  · intro k hk hmissing
    apply h.missing k
    · rw [List.mem_append]
      rcases Finset.mem_union.mp hk with hk | hk
      · exact .inl (List.mem_toFinset.mp hk)
      · exact .inr (List.mem_toFinset.mp hk)
    · exact fun hmem => hmissing (List.mem_toFinset.mpr hmem)

/-- Both sums are exact. -/
theorem callgraphSums_eq (e1 e2 : Factors) :
    callgraphSums e1.members e2.members = .ok (.ofInt (e1.difference e2),.ofInt e1.total) := by
  obtain ⟨diffs, hdiffs, hcarries⟩ := callgraphDiffs_carries e1 e2
  have hentries : (diffs.entries.mapM fun entry => entryNumber entry.2) =
      .ok ((diffs.keys.map (e1.weight e2)).map .ofInt) := by
    rw [List.map_map, InsertionDict.keys, List.map_map]
    apply mapM_ok
    intro entry hentry
    exact hcarries.entry entry.1 entry.2 ((diffs.mem_entries_iff _ _).mp hentry)
  have hvalues : numbersOf (e1.members.map Prod.snd) (text "D:1315") =
      .ok ((e1.entries.map Prod.snd).map .ofInt) := by
    rw [members, List.map_map, numbersOf, List.mapM_map]
    rw [List.map_map]
    apply mapM_ok
    intro entry _
    exact numberOf_pyInt entry.2 _
  rw [callgraphSums, hdiffs, ok_bind, hentries, ok_bind, sumValues_ofInt, ok_bind, hvalues, ok_bind,
    sumValues_ofInt, ok_bind, hcarries.sum_eq, total_eq]
  rfl

theorem callgraphDifference_eq (e1 e2 : Factors) {cg1 cg2 : PyDecimal}
    (h : decimalEquals cg1 cg2 = .ok false) :
    callgraphDifference cg1 (.dict e1.members) cg2 (.dict e2.members) =
      callgraphPercent (.ofInt (e1.difference e2)) (.ofInt e1.total) := by
  rw [callgraphDifference, h, ok_bind, if_neg Bool.false_ne_true, callgraphSums_eq, ok_bind]

end

/-- An object of JSON with integer values is one. -/
theorem exists_members {cell : SqlCell} {site : Text} {members : List (Text × PyValue)}
    (h : jsonOfCell cell site = .ok (.dict members)) (hints : ∀ m ∈ members, m.2.kind = .int) :
    ∃ e : Factors, members = e.members := by
  obtain ⟨bytes, hloads⟩ : ∃ bytes, pyJsonLoads bytes = .ok (.dict members) := by
    unfold jsonOfCell at h
    split at h
    · next bytes =>
      refine ⟨bytes, ?_⟩
      split at h
      · next v hv =>
        cases h
        exact hv
      · cases h
      · cases h
    all_goals cases h
  have hnumber : ∀ m ∈ members, ∃ n, m.2 = pyInt n := by
    intro m hm
    have hcanonical : Canonical m.2 := by
      cases pyJsonLoads_canonical hloads with
      | dict hvalues => exact hvalues m hm
    have hkind := hints m hm
    generalize m.2 = v at hcanonical hkind
    cases hcanonical with
    | int n => exact ⟨n, rfl⟩
    | none | bool b | float x | str t | list hvalues | dict hvalues => cases hkind
  choose! number hvalue using hnumber
  have hkeys : (members.map fun m => (m.1,number m)).map Prod.fst = members.map Prod.fst := by
    rw [List.map_map]
    rfl
  refine ⟨⟨members.map fun m => (m.1,number m), ?_⟩, ?_⟩
  · rw [hkeys]
    exact pyJsonLoads_distinct hloads
  · rw [Factors.members, List.map_map]
    refine (List.map_id members).symm.trans (List.map_congr_left fun m hm => ?_)
    exact Prod.ext rfl (hvalue m hm)

end Factors

theorem intEqualsFloat_eq (n : Int) (x : Binary64) :
    intEqualsFloat (bigOf n) x = pyEquals (pyInt n) (.float x) := by
  rw [Bool.eq_iff_iff, intEqualsFloat_iff, pyInt, integer_equals_float_iff]

theorem pyEquals_float_pyInt (n : Int) (x : Binary64) :
    pyEquals (.float x) (pyInt n) = pyEquals (pyInt n) (.float x) := by
  rw [pyEquals.eq_def, pyEquals.eq_def]
  rfl

/-- Decimals of cells are equal exactly where the cells stand for one number, the sums of factors,
which are what a cell of JSON has whose values are ints, count each key once, and ints equal floats as
they do in containers. -/
theorem callgraphCheck_exact :
    (∀ (a b : SqlCell) (site1 site2 : Text), FiniteNumber a → FiniteNumber b →
      ∃ x y p q, decimalOfCell a site1 = .ok x ∧ decimalOfCell b site2 = .ok y ∧
        (∀ r, Denotes a r ↔ r = p) ∧ (∀ r, Denotes b r ↔ r = q) ∧
        decimalEquals x y = .ok (decide (p = q))) ∧
    (∀ e1 e2 : Factors,
      callgraphSums e1.members e2.members = .ok (.ofInt (e1.difference e2),.ofInt e1.total) ∧
        ∀ cg1 cg2, decimalEquals cg1 cg2 = .ok false →
          callgraphDifference cg1 (.dict e1.members) cg2 (.dict e2.members) =
            callgraphPercent (.ofInt (e1.difference e2)) (.ofInt e1.total)) ∧
    (∀ cell site members, jsonOfCell cell site = .ok (.dict members) →
      (∀ m ∈ members, m.2.kind = .int) → ∃ e : Factors, members = e.members) ∧
    (∀ (n : Int) (x : Binary64), x.Finite →
      intEqualsFloat (bigOf n) x = pyEquals (pyInt n) (.float x) ∧
        intEqualsFloat (bigOf n) x = pyEquals (.float x) (pyInt n)) := by
  refine ⟨fun a b site1 site2 ha hb => ?_, fun e1 e2 => ?_, fun _ _ _ h => Factors.exists_members h,
    fun n x _ => ?_⟩
  · obtain ⟨x, hx, hnormal, hdenotes⟩ := decimalOfCell_spec ha site1
    obtain ⟨y, hy, hnormal', hdenotes'⟩ := decimalOfCell_spec hb site2
    exact ⟨x, y, x.value, y.value, hx, hy, hdenotes, hdenotes',
      PyDecimal.decimalEquals_normal hnormal hnormal'⟩
  · exact ⟨Factors.callgraphSums_eq e1 e2, fun _ _ h => Factors.callgraphDifference_eq e1 e2 h⟩
  · rw [pyEquals_float_pyInt]
    exact ⟨intEqualsFloat_eq n x, intEqualsFloat_eq n x⟩

/-- A written 1.5 and a double, factors with a shared key, and one. -/
theorem callgraphCheck_exact_cells :
    let main : Factors := ⟨[(text "2",3), (text "5",-1)],by decide⟩
    let diff : Factors := ⟨[(text "2",7), (text "3",100)],by decide⟩
    let half : Binary64 := ⟨false,0x3FF8000000000000,by decide⟩
    (∃ x y p q, decimalOfCell (.text (text " +1_5e-1 ")) (text "D:1300") = .ok x ∧
      decimalOfCell (.real half) (text "D:1302") = .ok y ∧
      (∀ r, Denotes (.text (text " +1_5e-1 ")) r ↔ r = p) ∧ (∀ r, Denotes (.real half) r ↔ r = q) ∧
      decimalEquals x y = .ok (decide (p = q))) ∧
    callgraphDifference (decimalOfInt 4) (.dict main.members) (decimalOfInt 5) (.dict diff.members) =
      callgraphPercent (.ofInt (main.difference diff)) (.ofInt main.total) ∧
    (intEqualsFloat (bigOf 1) .one = pyEquals (pyInt 1) (.float .one) ∧
      intEqualsFloat (bigOf 1) .one = pyEquals (.float .one) (pyInt 1)) := by
  intro main diff half
  refine ⟨callgraphCheck_exact.1 _ _ _ _ ⟨{ coefficient := text "15", exponent := -1 }, ?_, rfl⟩ ?_,
    (callgraphCheck_exact.2.1 main diff).2 _ _ ?_, callgraphCheck_exact.2.2.2 1 .one ?_⟩
  · decide +kernel
  · change Binary64.Finite half
    decide
  · decide +kernel
  · decide

end DSigMatcher.Preflight
