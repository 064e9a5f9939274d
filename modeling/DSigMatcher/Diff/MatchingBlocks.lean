import DSigMatcher.Framework.EditScript

namespace DSigMatcher.Diff

open Framework

@[ext] structure MatchingBlock where
  a : Nat
  b : Nat
  size : Nat
  deriving DecidableEq

/-- The part of the two sequences a search still has to look at. -/
structure Range where
  alo : Nat
  ahi : Nat
  blo : Nat
  bhi : Nat
  deriving DecidableEq

variable {α : Type*}

/-- A block of equal elements inside a range. -/
structure Matches (a b : List α) (r : Range) (x : MatchingBlock) : Prop where
  alo : r.alo ≤ x.a
  blo : r.blo ≤ x.b
  ahi : x.a+x.size ≤ r.ahi
  bhi : x.b+x.size ≤ r.bhi
  same : ∀ t < x.size, a[x.a+t]? = b[x.b+t]?

/-- What is left of a range before and after a block found in it. -/
def Range.before (r : Range) (x : MatchingBlock) : List Range :=
  if r.alo < x.a ∧ r.blo < x.b then [⟨r.alo, x.a, r.blo, x.b⟩] else []

def Range.after (r : Range) (x : MatchingBlock) : List Range :=
  if x.a+x.size < r.ahi ∧ x.b+x.size < r.bhi then [⟨x.a+x.size, r.ahi, x.b+x.size, r.bhi⟩] else []

/-- The order of the tuples `(a, b, size)`. -/
def MatchingBlock.le (x y : MatchingBlock) : Bool :=
  decide (x.a < y.a) || decide (x.a = y.a) &&
    (decide (x.b < y.b) || decide (x.b = y.b) && decide (x.size ≤ y.size))

/-- Join blocks that touch in both sequences. -/
def collapse : MatchingBlock → List MatchingBlock → List MatchingBlock
  | last, [] => if last.size = 0 then [] else [last]
  | last, x::xs =>
    if last.a+last.size = x.a ∧ last.b+last.size = x.b then
      collapse ⟨last.a, last.b, last.size+x.size⟩ xs
    else (if last.size = 0 then [] else [last]) ++ collapse x xs

/-- What turns the elements between two blocks into each other. -/
def gapOp (i i' j j' : Nat) : List EditOp :=
  if i < i' ∧ j < j' then [⟨.replace, i, i', j, j'⟩]
  else if i < i' then [⟨.delete, i, i', j, j'⟩]
  else if j < j' then [⟨.insert, i, i', j, j'⟩]
  else []

def opcodesFrom : Nat → Nat → List MatchingBlock → List EditOp
  | _, _, [] => []
  | i, j, x::xs =>
    gapOp i x.a j x.b ++
    (if x.size = 0 then [] else [⟨.equal, x.a, x.a+x.size, x.b, x.b+x.size⟩]) ++
    opcodesFrom (x.a+x.size) (x.b+x.size) xs

/-- The first range ends before the second begins, in both sequences. -/
def Range.Before (x y : Range) : Prop := x.ahi ≤ y.alo ∧ x.bhi ≤ y.blo

def Range.Apart (x y : Range) : Prop := x.Before y ∨ y.Before x

def Range.Within (x r : Range) : Prop :=
  r.alo ≤ x.alo ∧ x.ahi ≤ r.ahi ∧ r.blo ≤ x.blo ∧ x.bhi ≤ r.bhi

def MatchingBlock.range (x : MatchingBlock) : Range := ⟨x.a, x.a+x.size, x.b, x.b+x.size⟩

theorem Range.Apart.symm {x y : Range} (h : x.Apart y) : y.Apart x := Or.symm h

theorem Range.Apart.within {x y z : Range} (h : x.Apart y) (hz : z.Within x) : z.Apart y := by
  unfold Range.Within at hz
  unfold Range.Apart Range.Before at h ⊢
  omega

/-- The whole of two sequences. -/
def wholeRange (a b : List α) : Range := ⟨0, a.length, 0, b.length⟩

/-- Blocks of equal elements that follow each other from a pair of positions on. -/
def Chain (a b : List α) : Nat → Nat → List MatchingBlock → Prop
  | _, _, [] => True
  | i, j, x::xs => i ≤ x.a ∧ j ≤ x.b ∧ Matches a b (wholeRange a b) x ∧
      Chain a b (x.a+x.size) (x.b+x.size) xs

section
variable {a b : List α} {r : Range} {x : MatchingBlock}

/-- One more equal pair behind a block. -/
theorem Matches.push {i j k : Nat} (h : Matches a b r ⟨i,j,k⟩) (hi : i+k < r.ahi) (hj : j+k < r.bhi)
    (hsame : a[i+k]? = b[j+k]?) : Matches a b r ⟨i,j,k+1⟩ where
  alo := h.alo
  blo := h.blo
  ahi := hi
  bhi := hj
  same := by
    intro t ht
    rcases Nat.lt_or_eq_of_le (Nat.le_of_lt_succ ht) with hlt | rfl
    · exact h.same t hlt
    · exact hsame

/-- One more equal pair before a block. -/
theorem Matches.unshift {i j k : Nat} (h : Matches a b r ⟨i+1,j+1,k⟩) (hi : r.alo < i+1)
    (hj : r.blo < j+1) (hsame : a[i]? = b[j]?) : Matches a b r ⟨i,j,k+1⟩ where
  alo := Nat.le_of_lt_succ hi
  blo := Nat.le_of_lt_succ hj
  ahi := by
    have hahi : i+1+k ≤ r.ahi := h.ahi
    show i+(k+1) ≤ r.ahi
    omega
  bhi := by
    have hbhi : j+1+k ≤ r.bhi := h.bhi
    show j+(k+1) ≤ r.bhi
    omega
  same := by
    intro t ht
    cases t with
    | zero => exact hsame
    | succ t =>
      have hold : a[i+1+t]? = b[j+1+t]? := h.same t (Nat.lt_of_succ_lt_succ ht)
      have hi' : i+(t+1) = i+1+t := by omega
      have hj' : j+(t+1) = j+1+t := by omega
      show a[i+(t+1)]? = b[j+(t+1)]?
      rw [hi', hj', hold]

/-- Two blocks that touch are one. -/
theorem Matches.join {r : Range} {x y : MatchingBlock} (hx : Matches a b r x)
    (hy : Matches a b r y) (ha : x.a+x.size = y.a) (hb : x.b+x.size = y.b) :
    Matches a b r ⟨x.a, x.b, x.size+y.size⟩ where
  alo := hx.alo
  blo := hx.blo
  ahi := by
    have h := hy.ahi
    show x.a+(x.size+y.size) ≤ r.ahi
    omega
  bhi := by
    have h := hy.bhi
    show x.b+(x.size+y.size) ≤ r.bhi
    omega
  same := by
    intro t ht
    show a[x.a+t]? = b[x.b+t]?
    rcases Nat.lt_or_ge t x.size with hlt | hge
    · exact hx.same t hlt
    · have ht' : t-x.size < y.size := by
        have hlt : t < x.size+y.size := ht
        omega
      have h := hy.same (t-x.size) ht'
      have he1 : y.a+(t-x.size) = x.a+t := by omega
      have he2 : y.b+(t-x.size) = x.b+t := by omega
      rwa [he1, he2] at h

theorem Matches.within {r' : Range} (h : Matches a b r x) (hr : r.Within r') :
    Matches a b r' x where
  alo := Nat.le_trans hr.1 h.alo
  blo := Nat.le_trans hr.2.2.1 h.blo
  ahi := Nat.le_trans h.ahi hr.2.1
  bhi := Nat.le_trans h.bhi hr.2.2.2
  same := h.same

/-- A range and what comes of it once a block is found in it. -/
theorem Range.split (h : Matches a b r x) :
    (r.after x ++ r.before x ++ [x.range]).Pairwise Range.Apart ∧
    (∀ y ∈ r.after x ++ r.before x, y.alo ≤ y.ahi ∧ y.blo ≤ y.bhi) ∧
    (∀ y ∈ r.after x ++ r.before x ++ [x.range], y.Within r) := by
  have halo := h.alo
  have hblo := h.blo
  have hahi := h.ahi
  have hbhi := h.bhi
  unfold Range.after Range.before
  refine ⟨?_, ?_, ?_⟩ <;> split_ifs <;>
    simp [Range.Apart, Range.Before, Range.Within, MatchingBlock.range] <;> omega

theorem MatchingBlock.le_trans (x y z : MatchingBlock) (hxy : x.le y) (hyz : y.le z) : x.le z := by
  simp only [MatchingBlock.le, Bool.or_eq_true, Bool.and_eq_true, decide_eq_true_iff] at *
  omega

theorem MatchingBlock.le_total (x y : MatchingBlock) : (x.le y || y.le x) = true := by
  simp only [MatchingBlock.le, Bool.or_eq_true, Bool.and_eq_true, decide_eq_true_iff]
  omega

/-- Of two blocks apart, the smaller one comes before. -/
theorem MatchingBlock.before_of_le {x y : MatchingBlock} (hx : 0 < y.size) (hle : x.le y)
    (h : x.range.Apart y.range) : x.range.Before y.range := by
  simp only [MatchingBlock.le, Bool.or_eq_true, Bool.and_eq_true, decide_eq_true_iff] at hle
  unfold Range.Apart Range.Before MatchingBlock.range at *
  dsimp only at *
  omega

theorem chain_of_pairwise {i j : Nat} {xs : List MatchingBlock}
    (h : xs.Pairwise fun x y => x.range.Before y.range)
    (hxs : ∀ x ∈ xs, Matches a b (wholeRange a b) x) (hi : ∀ x ∈ xs, i ≤ x.a ∧ j ≤ x.b) :
    Chain a b i j xs := by
  induction xs generalizing i j with
  | nil => trivial
  | cons x xs ih =>
    rw [List.pairwise_cons] at h
    rw [List.forall_mem_cons] at hxs hi
    exact ⟨hi.1.1, hi.1.2, hxs.1, ih h.2 hxs.2 h.1⟩

/-- Joining keeps a chain: the block in hand, then the rest from its end on. -/
theorem collapse_chain {i j : Nat} {last : MatchingBlock} {xs : List MatchingBlock}
    (hi : i ≤ last.a) (hj : j ≤ last.b) (hlast : Matches a b (wholeRange a b) last)
    (h : Chain a b (last.a+last.size) (last.b+last.size) xs) :
    Chain a b i j (collapse last xs ++ [⟨a.length,b.length,0⟩]) := by
  have hend : ∀ i' j', i' ≤ a.length → j' ≤ b.length →
      Chain a b i' j' [⟨a.length,b.length,0⟩] := fun i' j' hi' hj' =>
    ⟨hi', hj', ⟨Nat.zero_le _, Nat.zero_le _, Nat.le_refl _, Nat.le_refl _, by simp⟩, trivial⟩
  induction xs generalizing i j last with
  | nil =>
    have hahi : last.a+last.size ≤ a.length := hlast.ahi
    have hbhi : last.b+last.size ≤ b.length := hlast.bhi
    unfold collapse
    split_ifs
    · exact hend i j (by omega) (by omega)
    · exact ⟨hi, hj, hlast, hend _ _ hahi hbhi⟩
  | cons x xs ih =>
    obtain ⟨hxi, hxj, hx, hrest⟩ := h
    unfold collapse
    split_ifs with htouch hsize
    · refine ih ?_ ?_ (hlast.join hx htouch.1 htouch.2) ?_
      · exact hi
      · exact hj
      · show Chain a b (last.a+(last.size+x.size)) (last.b+(last.size+x.size)) xs
        rwa [← Nat.add_assoc, ← Nat.add_assoc, htouch.1, htouch.2]
    · exact ih (by omega) (by omega) hx hrest
    · exact ⟨hi, hj, hlast, ih hxi hxj hx hrest⟩

theorem Matches.slice_eq {x : MatchingBlock} (h : Matches a b (wholeRange a b) x) :
    slice a x.a (x.a+x.size) = slice b x.b (x.b+x.size) := by
  have ha := length_slice a x.a (x.a+x.size) h.ahi
  have hb := length_slice b x.b (x.b+x.size) h.bhi
  apply List.ext_getElem?
  intro t
  rcases Nat.lt_or_ge t x.size with ht | ht
  · rw [getElem?_slice a _ _ t (by omega), getElem?_slice b _ _ t (by omega)]
    exact h.same t ht
  · rw [List.getElem?_eq_none (by omega), List.getElem?_eq_none (by omega)]

theorem gapOp_segment {i i' j j' : Nat} (hi : i ≤ i') (hj : j ≤ j') (hi' : i' ≤ a.length)
    (hj' : j' ≤ b.length) : Segment a b i j (gapOp i i' j j') i' j' := by
  unfold gapOp
  split_ifs with hboth hfirst hsecond
  · exact Segment.singleton ⟨hi, hj, hi', hj', by simp, by simp, by simp⟩
  · have he : j = j' := by omega
    subst he
    exact Segment.singleton ⟨hi, hj, hi', hj', by simp, fun _ => rfl, by simp⟩
  · have he : i = i' := by omega
    subst he
    exact Segment.singleton ⟨hi, hj, hi', hj', by simp, by simp, fun _ => rfl⟩
  · exact ⟨by omega, by omega⟩

/-- The operations of a chain of blocks up to the ends of the sequences. -/
theorem opcodesFrom_segment {i j : Nat} {xs : List MatchingBlock}
    (h : Chain a b i j (xs ++ [⟨a.length,b.length,0⟩])) :
    Segment a b i j (opcodesFrom i j (xs ++ [⟨a.length,b.length,0⟩])) a.length b.length := by
  induction xs generalizing i j with
  | nil =>
    obtain ⟨hi, hj, -, -⟩ := h
    have hgap := gapOp_segment hi hj (Nat.le_refl _) (Nat.le_refl _)
    simpa [opcodesFrom] using hgap
  | cons x xs ih =>
    obtain ⟨hi, hj, hx, hrest⟩ := h
    have hahi : x.a+x.size ≤ a.length := hx.ahi
    have hbhi : x.b+x.size ≤ b.length := hx.bhi
    have hgap : Segment a b i j (gapOp i x.a j x.b) x.a x.b :=
      gapOp_segment hi hj (by omega) (by omega)
    have hequal : Segment a b x.a x.b
        (if x.size = 0 then [] else [⟨.equal, x.a, x.a+x.size, x.b, x.b+x.size⟩])
        (x.a+x.size) (x.b+x.size) := by
      split_ifs with hsize
      · exact ⟨by omega, by omega⟩
      · apply Segment.singleton
        refine ⟨Nat.le_add_right _ _, Nat.le_add_right _ _, hahi, hbhi, fun _ => ⟨?_, hx.slice_eq⟩,
          by simp, by simp⟩
        show x.a+x.size-x.a = x.b+x.size-x.b
        omega
    rw [List.cons_append, opcodesFrom]
    exact (hgap.append hequal).append (ih hrest)

end

end DSigMatcher.Diff
