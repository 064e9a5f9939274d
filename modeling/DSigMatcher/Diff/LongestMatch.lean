import DSigMatcher.Diff.SequenceMatcher
import Mathlib

namespace DSigMatcher.Diff
open Framework

/-- Longer, or as long and no later in the first sequence and then in the second. -/
def MatchingBlock.Leads (x y : MatchingBlock) : Prop :=
  y.size < x.size ∨ y.size = x.size ∧ (x.a < y.a ∨ x.a = y.a ∧ x.b ≤ y.b)

variable {α : Type*}

/-- A common block of a range that leads every common block of it. -/
structure Longest (a b : List α) (r : Range) (x : MatchingBlock) : Prop where
  common : Matches a b r x
  leads : ∀ y, Matches a b r y → x.Leads y

/-- At each end of the block the range is over, or the elements differ. -/
structure Maximal (a b : List α) (r : Range) (x : MatchingBlock) : Prop where
  left : ¬ (r.alo < x.a ∧ r.blo < x.b ∧ a[x.a-1]? = b[x.b-1]?)
  right : ¬ (x.a+x.size < r.ahi ∧ x.b+x.size < r.bhi ∧ a[x.a+x.size]? = b[x.b+x.size]?)

/-- Every run that ends before row `i` has its length in the row map. -/
def RowComplete (a b : List α) (r : Range) (i : Nat) (prev : List (Nat × Nat)) : Prop :=
  ∀ y, Matches a b r y → y.a+y.size = i → y.size ≤ previous prev (y.b+y.size)

/-- Blocks that end in the rows before `i`, or in row `i` before column `m`. -/
def Seen (i m : Nat) (y : MatchingBlock) : Prop :=
  y.size = 0 ∨ y.a+y.size ≤ i ∨ y.a+y.size = i+1 ∧ y.b+y.size ≤ m

/-- The best of the blocks seen so far, itself one of them. -/
structure BestSeen (a b : List α) (r : Range) (i m : Nat) (x : MatchingBlock) : Prop where
  seen : Seen i m x
  leads : ∀ y, Matches a b r y → Seen i m y → x.Leads y

section
variable {a b : List α} {r : Range} {x y : MatchingBlock}

theorem Longest.maximal (h : Longest a b r x) : Maximal a b r x where
  left := by
    rintro ⟨hi, hj, hsame⟩
    have hx : x = ⟨x.a-1+1, x.b-1+1, x.size⟩ := by
      ext <;> dsimp only <;> omega
    have hcommon := h.common
    rw [hx] at hcommon
    have hlonger := h.leads _ (hcommon.unshift (by omega) (by omega) hsame)
    unfold MatchingBlock.Leads at hlonger
    dsimp only at hlonger
    omega
  right := by
    rintro ⟨hi, hj, hsame⟩
    have hlonger := h.leads _ (h.common.push hi hj hsame)
    unfold MatchingBlock.Leads at hlonger
    dsimp only at hlonger
    omega

/-- The last pair of a block, and the block without it. -/
theorem Matches.pop {k : Nat} (h : Matches a b r y) (hk : y.size = k+1) :
    Matches a b r ⟨y.a, y.b, k⟩ ∧ a[y.a+k]? = b[y.b+k]? := by
  have hahi := h.ahi
  have hbhi := h.bhi
  refine ⟨⟨h.alo, h.blo, ?_, ?_, fun t ht => h.same t ?_⟩, h.same k (by omega)⟩
  · show y.a+k ≤ r.ahi
    omega
  · show y.b+k ≤ r.bhi
    omega
  · have hlt : t < k := ht
    omega

theorem BestSeen.init : BestSeen a b r r.alo 0 ⟨r.alo,r.blo,0⟩ where
  seen := .inl rfl
  leads := by
    intro y hy hseen
    have halo := hy.alo
    have hblo := hy.blo
    unfold Seen at hseen
    unfold MatchingBlock.Leads
    dsimp only
    omega

end

section
variable [DecidableEq α] {autoJunk : Bool} {a b : List α} {r : Range} {x : MatchingBlock}

/-- With the filter off, or on a short sequence, no element is popular. -/
theorem popular_eq_false (h : autoJunk = false ∨ b.length < 200) (x : α) :
    popular autoJunk b x = false := by
  unfold popular
  rcases h with rfl | hshort
  · rfl
  · rw [decide_eq_false (Nat.not_le.mpr hshort), Bool.and_false, Bool.false_and]

/-- Without popular elements a row holds every column of the range with its element. -/
theorem mem_rowOf_of_eq (hp : ∀ x, popular autoJunk b x = false) {i j : Nat}
    (hj : r.blo ≤ j) (hj' : j < r.bhi) (hb : j < b.length) (hsame : a[i]? = b[j]?) :
    j ∈ rowOf autoJunk a b r i := by
  have hx : b[j]? = some b[j] := List.getElem?_eq_getElem hb
  unfold rowOf
  rw [hsame, hx]
  simp [b2j, hp, hb, hj, hj']

theorem foldl_scanAt_fst (i : Nat) (prev : List (Nat × Nat)) (js : List Nat)
    (s : List (Nat × Nat) × MatchingBlock) :
    (js.foldl (scanAt i prev) s).1 = s.1 ++ js.map fun j => (j, previous prev j+1) := by
  induction js generalizing s with
  | nil => exact (List.append_nil _).symm
  | cons j js ih =>
    rw [List.foldl_cons, ih, List.map_cons, ← List.singleton_append, ← List.append_assoc]
    rfl

theorem previous_map {j : Nat} {js : List Nat} (f : Nat → Nat) (hj : j ∈ js) :
    previous (js.map fun j => (j, f j)) (j+1) = f j := by
  induction js with
  | nil => simp at hj
  | cons c js ih =>
    by_cases hc : c = j
    · simp [previous, hc]
    · have hrest : j ∈ js := List.mem_of_ne_of_mem (Ne.symm hc) hj
      rw [← ih hrest]
      simp [previous, hc]

/-- The map of a row is complete for the rows after it. -/
theorem scanRow_complete (hp : ∀ x, popular autoJunk b x = false) (hb : r.bhi ≤ b.length) {i : Nat}
    {s : List (Nat × Nat) × MatchingBlock} (h : RowComplete a b r i s.1) :
    RowComplete a b r (i+1) (scanRow autoJunk a b r s i).1 := by
  intro y hy hend
  rw [scanRow, foldl_scanAt_fst, List.nil_append]
  rcases hk : y.size with - | k
  · exact Nat.zero_le _
  · obtain ⟨hpop, hsame⟩ := hy.pop hk
    have hblo := hy.blo
    have hbhi := hy.bhi
    have hi : y.a+k = i := by omega
    rw [hi] at hsame
    have hmem : y.b+k ∈ rowOf autoJunk a b r i :=
      mem_rowOf_of_eq hp (by omega) (by omega) (by omega) hsame
    have hbefore : k ≤ previous s.1 (y.b+k) := h _ hpop hi
    rw [← Nat.add_assoc, previous_map (fun j => previous s.1 j+1) hmem]
    exact Nat.succ_le_succ hbefore

/-- A column of a row: the run that ends there takes the place of a shorter best. -/
theorem scanAt_best {i j m : Nat} {prev : List (Nat × Nat)} {s : List (Nat × Nat) × MatchingBlock}
    (hsound : RowSound a b r i prev) (hcomplete : RowComplete a b r i prev)
    (hi : r.alo ≤ i) (hi' : i < r.ahi) (hj : j ∈ rowOf autoJunk a b r i) (hm : m ≤ j)
    (hskip : ∀ y, Matches a b r y → 0 < y.size → y.a+y.size = i+1 → m < y.b+y.size →
      j+1 ≤ y.b+y.size)
    (h : BestSeen a b r i m s.2) : BestSeen a b r i (j+1) (scanAt i prev s j).2 := by
  obtain ⟨-, -, -, -, hlo, hhi⟩ := mem_rowOf hj
  obtain ⟨hpi, hpj, -⟩ := previous_sound hsound hi (Nat.le_of_lt hi') hlo (Nat.le_of_lt hhi)
  have hrun : ∀ y, Matches a b r y → y.a+y.size = i+1 → y.b+y.size = j+1 →
      y.size ≤ previous prev j+1 := by
    intro y hy hrow hcolumn
    rcases hk : y.size with - | k
    · exact Nat.zero_le _
    · have hbefore := hcomplete _ (hy.pop hk).1 (show y.a+k = i by omega)
      have hj' : y.b+k = j := by omega
      rw [hj'] at hbefore
      exact Nat.succ_le_succ hbefore
  have hseen := h.seen
  show BestSeen a b r i (j+1) (if s.2.size < previous prev j+1 then
    ⟨i+1-(previous prev j+1), j+1-(previous prev j+1), previous prev j+1⟩ else s.2)
  unfold Seen at hseen
  split_ifs with hlonger
  · refine ⟨.inr (.inr ⟨?_, ?_⟩), fun y hy hyseen => ?_⟩
    · show i+1-(previous prev j+1)+(previous prev j+1) = i+1
      omega
    · show j+1-(previous prev j+1)+(previous prev j+1) ≤ j+1
      omega
    · have hold := h.leads y hy
      have hthere := hrun y hy
      have hbetween := hskip y hy
      unfold Seen MatchingBlock.Leads at *
      dsimp only
      omega
  · refine ⟨?_, fun y hy hyseen => ?_⟩
    · unfold Seen
      omega
    · have hold := h.leads y hy
      have hthere := hrun y hy
      have hbetween := hskip y hy
      unfold Seen MatchingBlock.Leads at *
      omega

/-- A whole row: its columns are taken in ascending order and none between them has a run. -/
theorem scanRow_best (hp : ∀ x, popular autoJunk b x = false) (hb : r.bhi ≤ b.length) {i : Nat}
    {s : List (Nat × Nat) × MatchingBlock} (hsound : RowSound a b r i s.1)
    (hcomplete : RowComplete a b r i s.1) (hi : r.alo ≤ i) (hi' : i < r.ahi)
    (h : BestSeen a b r i 0 s.2) : BestSeen a b r (i+1) 0 (scanRow autoJunk a b r s i).2 := by
  have hcolumn : ∀ y, Matches a b r y → 0 < y.size → y.a+y.size = i+1 →
      y.b+y.size-1 ∈ rowOf autoJunk a b r i := by
    intro y hy hpos hrow
    obtain ⟨k, hk⟩ := Nat.exists_eq_succ_of_ne_zero (Nat.ne_of_gt hpos)
    have hsame := (hy.pop hk).2
    have hblo := hy.blo
    have hbhi := hy.bhi
    have hik : y.a+k = i := by omega
    have hjk : y.b+k = y.b+y.size-1 := by omega
    rw [hik, hjk] at hsame
    exact mem_rowOf_of_eq hp (by omega) (by omega) (by omega) hsame
  -- the columns below `m` are done, and `js` are the others
  have hfold : ∀ (js : List Nat) (m : Nat) (t : List (Nat × Nat) × MatchingBlock),
      js.Pairwise (· < ·) → (∀ j ∈ js, m ≤ j ∧ j ∈ rowOf autoJunk a b r i) →
      (∀ j ∈ rowOf autoJunk a b r i, m ≤ j → j ∈ js) → BestSeen a b r i m t.2 →
      BestSeen a b r (i+1) 0 (js.foldl (scanAt i s.1) t).2 := by
    intro js
    induction js with
    | nil =>
      intro m t _ _ hleft hbest
      rw [List.foldl_nil]
      have hseen := hbest.seen
      refine ⟨?_, fun y hy hyseen => hbest.leads y hy ?_⟩
      · unfold Seen at hseen ⊢
        omega
      · have hnone := hcolumn y hy
        have hleft' := hleft (y.b+y.size-1)
        simp only [List.not_mem_nil] at hleft'
        unfold Seen at hyseen ⊢
        by_contra hnot
        exact hleft' (hnone (by omega) (by omega)) (by omega)
    | cons j js ih =>
      intro m t hsorted hjs hleft hbest
      obtain ⟨hfirst, hsorted⟩ := List.pairwise_cons.mp hsorted
      obtain ⟨⟨hm, hj⟩, hjs⟩ := List.forall_mem_cons.mp hjs
      refine ih (j+1) _ hsorted (fun c hc => ⟨hfirst c hc, (hjs c hc).2⟩) ?_ ?_
      · intro c hc hjc
        rcases List.mem_cons.mp (hleft c hc (by omega)) with rfl | hmem
        · omega
        · exact hmem
      · refine scanAt_best hsound hcomplete hi hi' hj hm ?_ hbest
        intro y hy hpos hrow hmy
        rcases List.mem_cons.mp (hleft _ (hcolumn y hy hpos hrow) (by omega)) with heq | hmem
        · omega
        · have hlt := hfirst _ hmem
          omega
  exact hfold _ 0 _ (rowOf_ascending autoJunk a b r i)
    (fun j hj => ⟨Nat.zero_le j, hj⟩) (fun j hj _ => hj) h

/-- Row after row, the best of the blocks seen; after the last row all blocks are seen. -/
theorem scanRows_longest (hp : ∀ x, popular autoJunk b x = false) (hb : r.bhi ≤ b.length)
    (halo : r.alo ≤ r.ahi) (hblo : r.blo ≤ r.bhi) :
    Longest a b r (scanRows autoJunk a b r).2 := by
  have hfold : ∀ n i, r.alo ≤ i → i+n = r.ahi → ∀ s : List (Nat × Nat) × MatchingBlock,
      RowSound a b r i s.1 ∧ Matches a b r s.2 → RowComplete a b r i s.1 →
      BestSeen a b r i 0 s.2 →
      BestSeen a b r r.ahi 0 ((List.range' i n).foldl (scanRow autoJunk a b r) s).2 := by
    intro n
    induction n with
    | zero =>
      intro i _ hn s _ _ hbest
      obtain rfl : i = r.ahi := hn
      exact hbest
    | succ n ih =>
      intro i hi hn s hsound hcomplete hbest
      rw [List.range'_succ, List.foldl_cons]
      exact ih (i+1) (by omega) (by omega) _ (scanRow_sound hi (by omega) hsound)
        (scanRow_complete hp hb hcomplete) (scanRow_best hp hb hsound.1 hcomplete hi (by omega) hbest)
  have hstart : RowComplete a b r r.alo [] := by
    intro y hy hend
    have hyalo := hy.alo
    omega
  have hbest := hfold (r.ahi-r.alo) r.alo (Nat.le_refl _) (by omega) ([],⟨r.alo,r.blo,0⟩)
    ⟨by simp [RowSound], Nat.le_refl _, Nat.le_refl _, halo, hblo, by simp⟩ hstart .init
  exact ⟨scanRows_sound halo hblo, fun y hy => hbest.leads y hy (.inr (.inl hy.ahi))⟩

end

section
variable [DecidableEq α] {a b : List α} {r : Range}

theorem extendLeft_maximal (i j k : Nat) :
    ¬ (r.alo < (extendLeft a b r.alo r.blo i j k).a ∧
      r.blo < (extendLeft a b r.alo r.blo i j k).b ∧
      a[(extendLeft a b r.alo r.blo i j k).a-1]? = b[(extendLeft a b r.alo r.blo i j k).b-1]?) := by
  fun_induction extendLeft a b r.alo r.blo i j k with
  | case1 i j k hc ih => exact ih
  | case2 i j k hc => exact hc
  | case3 i j k hnone =>
    rintro ⟨hi, hj, -⟩
    have hi' : i ≠ 0 := Nat.ne_of_gt (Nat.zero_lt_of_lt hi)
    have hj' : j ≠ 0 := Nat.ne_of_gt (Nat.zero_lt_of_lt hj)
    exact hnone (i-1) (j-1) (by omega) (by omega)

theorem extendRight_start (n : Nat) (x : MatchingBlock) :
    (extendRight a b r.ahi r.bhi n x).a = x.a ∧ (extendRight a b r.ahi r.bhi n x).b = x.b := by
  fun_induction extendRight a b r.ahi r.bhi n x with
  | case1 x => exact ⟨rfl, rfl⟩
  | case2 n x hc ih => exact ih
  | case3 n x hc => exact ⟨rfl, rfl⟩

theorem extendRight_maximal (n : Nat) (x : MatchingBlock) (hn : r.ahi ≤ x.a+x.size+n) :
    ¬ ((extendRight a b r.ahi r.bhi n x).a+(extendRight a b r.ahi r.bhi n x).size < r.ahi ∧
      (extendRight a b r.ahi r.bhi n x).b+(extendRight a b r.ahi r.bhi n x).size < r.bhi ∧
      a[(extendRight a b r.ahi r.bhi n x).a+(extendRight a b r.ahi r.bhi n x).size]? =
        b[(extendRight a b r.ahi r.bhi n x).b+(extendRight a b r.ahi r.bhi n x).size]?) := by
  fun_induction extendRight a b r.ahi r.bhi n x with
  | case1 x =>
    rintro ⟨hi, -, -⟩
    omega
  | case2 n x hc ih => exact ih (by dsimp only; omega)
  | case3 n x hc => exact hc

/-- A block that cannot be extended stays as it is. -/
theorem Maximal.extendLeft_eq {x : MatchingBlock} (h : Maximal a b r x) :
    extendLeft a b r.alo r.blo x.a x.b x.size = x := by
  obtain ⟨i, j, k⟩ := x
  have hleft := h.left
  cases i with
  | zero => rw [extendLeft]; simp
  | succ i =>
    cases j with
    | zero => rw [extendLeft]; simp
    | succ j =>
      rw [extendLeft]
      exact if_neg hleft

theorem Maximal.extendRight_eq {x : MatchingBlock} (h : Maximal a b r x) (n : Nat) :
    extendRight a b r.ahi r.bhi n x = x := by
  cases n with
  | zero => rfl
  | succ n => rw [extendRight, if_neg h.right]

theorem findLongestMatch_maximal (autoJunk : Bool) (a b : List α) (r : Range) :
    Maximal a b r (findLongestMatch autoJunk a b r) := by
  generalize hbest : (scanRows autoJunk a b r).2 = best
  generalize hleft : extendLeft a b r.alo r.blo best.a best.b best.size = x
  have hx := extendLeft_maximal (a := a) (b := b) (r := r) best.a best.b best.size
  have hfound : findLongestMatch autoJunk a b r =
      extendRight a b r.ahi r.bhi (r.ahi-(x.a+x.size)) x := by
    rw [findLongestMatch, hbest, hleft]
  rw [hleft] at hx
  rw [hfound]
  obtain ⟨ha, hb⟩ := extendRight_start (a := a) (b := b) (r := r) (r.ahi-(x.a+x.size)) x
  refine ⟨?_, extendRight_maximal _ _ (by omega)⟩
  rw [ha, hb]
  exact hx

/-- The result is a common block that cannot be extended; without popular elements it is the longest
one, and of the longest ones the first in `a` and then in `b`. -/
theorem findLongestMatch_longest (autoJunk : Bool) (a b : List α) (r : Range)
    (halo : r.alo ≤ r.ahi) (hblo : r.blo ≤ r.bhi) (hbhi : r.bhi ≤ b.length) :
    Matches a b r (findLongestMatch autoJunk a b r) ∧
      Maximal a b r (findLongestMatch autoJunk a b r) ∧
      (autoJunk = false ∨ b.length < 200 → Longest a b r (findLongestMatch autoJunk a b r)) := by
  refine ⟨findLongestMatch_matches halo hblo, findLongestMatch_maximal autoJunk a b r, ?_⟩
  intro hfilter
  have hlongest := scanRows_longest (a := a) (popular_eq_false hfilter) hbhi halo hblo
  have hsame : findLongestMatch autoJunk a b r = (scanRows autoJunk a b r).2 := by
    rw [findLongestMatch, hlongest.maximal.extendLeft_eq, hlongest.maximal.extendRight_eq]
  rw [hsame]
  exact hlongest

end

/-- Of the two runs `1,2` the one at column 0 is taken. -/
theorem findLongestMatch_longest_tie :
    findLongestMatch true [1,2,3,1,2] [1,2,0,1,2] ⟨1,5,0,5⟩ = ⟨3,0,2⟩ ∧
      Longest [1,2,3,1,2] [1,2,0,1,2] ⟨1,5,0,5⟩
        (findLongestMatch true [1,2,3,1,2] [1,2,0,1,2] ⟨1,5,0,5⟩) :=
  ⟨by decide, (findLongestMatch_longest true [1,2,3,1,2] [1,2,0,1,2] ⟨1,5,0,5⟩ (by decide)
    (by decide) (by decide)).2.2 (.inr (by decide))⟩

end DSigMatcher.Diff
