import DSigMatcher.Diff.MatchingBlocks
import DSigMatcher.Framework.Loop
import Mathlib

namespace DSigMatcher.Diff

open Framework

variable {α : Type*}

/-- The run recorded for the position before `j`. -/
def previous (prev : List (Nat × Nat)) : Nat → Nat
  | 0 => 0
  | j+1 => ((prev.find? fun e => e.1 = j).map Prod.snd).getD 0

section
variable {a b : List α} {r : Range}

/-- The runs recorded before row `i` end in row `i-1`. -/
def RowSound (a b : List α) (r : Range) (i : Nat) (prev : List (Nat × Nat)) : Prop :=
  ∀ j k, (j,k) ∈ prev → k ≤ i ∧ k ≤ j+1 ∧ Matches a b r ⟨i-k, j+1-k, k⟩

theorem previous_sound {i j : Nat} {prev : List (Nat × Nat)} (h : RowSound a b r i prev)
    (hi : r.alo ≤ i) (hi' : i ≤ r.ahi) (hj : r.blo ≤ j) (hj' : j ≤ r.bhi) :
    previous prev j ≤ i ∧ previous prev j ≤ j ∧
      Matches a b r ⟨i-previous prev j, j-previous prev j, previous prev j⟩ := by
  have hnone : Matches a b r ⟨i-0, j-0, 0⟩ := ⟨hi, hj, hi', hj', by simp⟩
  cases j with
  | zero => exact ⟨Nat.zero_le i, Nat.le_refl 0, hnone⟩
  | succ j =>
    cases hf : prev.find? fun e => e.1 = j with
    | none =>
      have hp : previous prev (j+1) = 0 := by simp [previous, hf]
      rw [hp]
      exact ⟨Nat.zero_le i, Nat.zero_le _, hnone⟩
    | some e =>
      obtain ⟨j', k⟩ := e
      have hmem := List.mem_of_find?_eq_some hf
      have hkey : j' = j := by simpa using List.find?_some hf
      subst hkey
      have hp : previous prev (j'+1) = k := by simp [previous, hf]
      rw [hp]
      exact h j' k hmem

end

/-- The ranges still to search, the next one first, and the blocks found. -/
structure Search where
  queue : List Range
  blocks : List MatchingBlock

/-- The ranges to search and the blocks found lie apart, in the sequences. -/
structure Search.Sound (a b : List α) (s : Search) : Prop where
  apart : (s.queue ++ s.blocks.map MatchingBlock.range).Pairwise Range.Apart
  queue : ∀ r ∈ s.queue, r.alo ≤ r.ahi ∧ r.blo ≤ r.bhi ∧ r.Within (wholeRange a b)
  blocks : ∀ x ∈ s.blocks, 0 < x.size ∧ Matches a b (wholeRange a b) x

section
variable {a b : List α}

/-- Sorting what a search found gives a chain. -/
theorem Search.Sound.chain {s : Search} (hs : s.Sound a b) :
    Chain a b 0 0 (s.blocks.mergeSort MatchingBlock.le) := by
  have hsorted := List.pairwise_mergeSort MatchingBlock.le_trans MatchingBlock.le_total s.blocks
  have hperm := List.mergeSort_perm s.blocks MatchingBlock.le
  have hapart : (s.blocks.mergeSort MatchingBlock.le).Pairwise fun x y =>
      x.range.Apart y.range := by
    have hblocks := (List.pairwise_append.mp hs.apart).2.1
    rw [List.pairwise_map] at hblocks
    exact (hperm.pairwise_iff Range.Apart.symm).mpr hblocks
  have hmem : ∀ x ∈ s.blocks.mergeSort MatchingBlock.le,
      0 < x.size ∧ Matches a b (wholeRange a b) x :=
    fun x hx => hs.blocks x (hperm.mem_iff.mp hx)
  apply chain_of_pairwise
  · apply List.Pairwise.imp_of_mem _ (hsorted.and hapart)
    intro x y _ hy hxy
    exact MatchingBlock.before_of_le (hmem y hy).1 hxy.1 hxy.2
  · exact fun x hx => (hmem x hx).2
  · exact fun x _ => ⟨Nat.zero_le _, Nat.zero_le _⟩

end

variable [DecidableEq α]

/-- An element of a long `b` that stands in more than one position of a hundred. -/
def popular (autoJunk : Bool) (b : List α) (x : α) : Bool :=
  autoJunk && decide (200 ≤ b.length) && decide (b.length/100+1 < b.count x)

/-- The ascending positions of an element in `b`; a popular element has none. -/
def b2j (autoJunk : Bool) (b : List α) (x : α) : List Nat :=
  if popular autoJunk b x then []
  else (List.range b.length).filter fun j => b[j]? = some x

/-- One position of a row: its run goes on from the row before, and a longer run than the best
takes its place. The first one found wins ties. -/
def scanAt (i : Nat) (prev : List (Nat × Nat)) (s : List (Nat × Nat) × MatchingBlock) (j : Nat) :
    List (Nat × Nat) × MatchingBlock :=
  let k := previous prev j+1
  (s.1 ++ [(j,k)], if s.2.size < k then ⟨i+1-k, j+1-k, k⟩ else s.2)

/-- The positions of row `i` inside the range. -/
def rowOf (autoJunk : Bool) (a b : List α) (r : Range) (i : Nat) : List Nat :=
  match a[i]? with
  | none => []
  | some x => (b2j autoJunk b x).filter fun j => r.blo ≤ j && j < r.bhi

def scanRow (autoJunk : Bool) (a b : List α) (r : Range)
    (s : List (Nat × Nat) × MatchingBlock) (i : Nat) : List (Nat × Nat) × MatchingBlock :=
  (rowOf autoJunk a b r i).foldl (scanAt i s.1) ([],s.2)

def scanRows (autoJunk : Bool) (a b : List α) (r : Range) : List (Nat × Nat) × MatchingBlock :=
  (List.range' r.alo (r.ahi-r.alo)).foldl (scanRow autoJunk a b r) ([],⟨r.alo,r.blo,0⟩)

/-- Extend a run over equal elements before it, popular ones included. -/
def extendLeft (a b : List α) (alo blo : Nat) : Nat → Nat → Nat → MatchingBlock
  | i+1, j+1, size =>
    if alo < i+1 ∧ blo < j+1 ∧ a[i]? = b[j]? then extendLeft a b alo blo i j (size+1)
    else ⟨i+1, j+1, size⟩
  | i, j, size => ⟨i, j, size⟩

/-- Extend a run over equal elements after it, at most `n` of them. -/
def extendRight (a b : List α) (ahi bhi : Nat) : Nat → MatchingBlock → MatchingBlock
  | 0, x => x
  | n+1, x =>
    if x.a+x.size < ahi ∧ x.b+x.size < bhi ∧ a[x.a+x.size]? = b[x.b+x.size]? then
      extendRight a b ahi bhi n ⟨x.a, x.b, x.size+1⟩
    else x

def findLongestMatch (autoJunk : Bool) (a b : List α) (r : Range) : MatchingBlock :=
  let best := (scanRows autoJunk a b r).2
  let best := extendLeft a b r.alo r.blo best.a best.b best.size
  extendRight a b r.ahi r.bhi (r.ahi-(best.a+best.size)) best

def Search.round (autoJunk : Bool) (a b : List α) (s : Search) : Option Search :=
  match s.queue with
  | [] => none
  | r::queue =>
    let x := findLongestMatch autoJunk a b r
    if x.size = 0 then some ⟨queue, s.blocks⟩
    else some ⟨r.after x ++ (r.before x ++ queue), s.blocks ++ [x]⟩

def getMatchingBlocks (autoJunk : Bool) (a b : List α) : Option (List MatchingBlock) :=
  (loop (Search.round autoJunk a b) (2*a.length+2) ⟨[wholeRange a b], []⟩).map fun s =>
    collapse ⟨0,0,0⟩ (s.blocks.mergeSort MatchingBlock.le) ++ [⟨a.length,b.length,0⟩]

def getOpcodes (autoJunk : Bool) (a b : List α) : Option (List EditOp) :=
  (getMatchingBlocks autoJunk a b).map (opcodesFrom 0 0)

section
variable {autoJunk : Bool} {a b : List α} {r : Range}

theorem mem_b2j {x : α} {j : Nat} (h : j ∈ b2j autoJunk b x) :
    popular autoJunk b x = false ∧ b[j]? = some x := by
  unfold b2j at h
  split_ifs at h with hp
  · simp at h
  · rw [List.mem_filter, decide_eq_true_iff] at h
    exact ⟨eq_false_of_ne_true hp, h.2⟩

theorem mem_rowOf {i j : Nat} (h : j ∈ rowOf autoJunk a b r i) :
    ∃ x, a[i]? = some x ∧ b[j]? = some x ∧ popular autoJunk b x = false ∧
      r.blo ≤ j ∧ j < r.bhi := by
  unfold rowOf at h
  cases hx : a[i]? with
  | none => simp [hx] at h
  | some x =>
    simp only [hx, List.mem_filter, Bool.and_eq_true, decide_eq_true_iff] at h
    obtain ⟨hj, hlo, hhi⟩ := h
    exact ⟨x, rfl, (mem_b2j hj).2, (mem_b2j hj).1, hlo, hhi⟩

/-- What one position of a row keeps: its run is one of equal elements, and so is the best. -/
theorem scanAt_sound {i j : Nat} {prev : List (Nat × Nat)} {s : List (Nat × Nat) × MatchingBlock}
    (hprev : RowSound a b r i prev) (hi : r.alo ≤ i) (hi' : i < r.ahi)
    (hj : j ∈ rowOf autoJunk a b r i)
    (h : RowSound a b r (i+1) s.1 ∧ Matches a b r s.2) :
    RowSound a b r (i+1) (scanAt i prev s j).1 ∧ Matches a b r (scanAt i prev s j).2 := by
  obtain ⟨x, hax, hbx, -, hlo, hhi⟩ := mem_rowOf hj
  obtain ⟨hpi, hpj, hmatch⟩ := previous_sound hprev hi (Nat.le_of_lt hi') hlo (Nat.le_of_lt hhi)
  have hai : i-previous prev j+previous prev j = i := Nat.sub_add_cancel hpi
  have hbj : j-previous prev j+previous prev j = j := Nat.sub_add_cancel hpj
  have hrun : Matches a b r ⟨i-previous prev j, j-previous prev j, previous prev j+1⟩ := by
    apply hmatch.push
    · rw [hai]
      exact hi'
    · rw [hbj]
      exact hhi
    · rw [hai, hbj, hax, hbx]
  have he1 : i+1-(previous prev j+1) = i-previous prev j := by omega
  have he2 : j+1-(previous prev j+1) = j-previous prev j := by omega
  constructor
  · intro j' k hmem
    rcases List.mem_append.mp hmem with hmem | hmem
    · exact h.1 j' k hmem
    · simp only [List.mem_singleton, Prod.mk.injEq] at hmem
      obtain ⟨rfl, rfl⟩ := hmem
      rw [he1, he2]
      exact ⟨by omega, by omega, hrun⟩
  · show Matches a b r (if s.2.size < previous prev j+1 then _ else s.2)
    split_ifs
    · rw [he1, he2]
      exact hrun
    · exact h.2

theorem scanRow_sound {i : Nat} {s : List (Nat × Nat) × MatchingBlock} (hi : r.alo ≤ i)
    (hi' : i < r.ahi) (h : RowSound a b r i s.1 ∧ Matches a b r s.2) :
    RowSound a b r (i+1) (scanRow autoJunk a b r s i).1 ∧
      Matches a b r (scanRow autoJunk a b r s i).2 := by
  have hfold : ∀ js : List Nat, (∀ j ∈ js, j ∈ rowOf autoJunk a b r i) →
      ∀ t : List (Nat × Nat) × MatchingBlock, RowSound a b r (i+1) t.1 ∧ Matches a b r t.2 →
      RowSound a b r (i+1) (js.foldl (scanAt i s.1) t).1 ∧
        Matches a b r (js.foldl (scanAt i s.1) t).2 := by
    intro js
    induction js with
    | nil => exact fun _ _ ht => ht
    | cons j js ih =>
      intro hjs t ht
      rw [List.forall_mem_cons] at hjs
      exact ih hjs.2 _ (scanAt_sound h.1 hi hi' hjs.1 ht)
  apply hfold _ (fun j hj => hj)
  exact ⟨by simp [RowSound], h.2⟩

theorem scanRows_sound (halo : r.alo ≤ r.ahi) (hblo : r.blo ≤ r.bhi) :
    Matches a b r (scanRows autoJunk a b r).2 := by
  have hfold : ∀ n i, r.alo ≤ i → i+n ≤ r.ahi →
      ∀ s : List (Nat × Nat) × MatchingBlock, RowSound a b r i s.1 ∧ Matches a b r s.2 →
      Matches a b r ((List.range' i n).foldl (scanRow autoJunk a b r) s).2 := by
    intro n
    induction n with
    | zero => exact fun _ _ _ _ hs => hs.2
    | succ n ih =>
      intro i hi hn s hs
      rw [List.range'_succ, List.foldl_cons]
      exact ih (i+1) (by omega) (by omega) _ (scanRow_sound hi (by omega) hs)
  apply hfold _ _ (Nat.le_refl _) (by omega)
  refine ⟨by simp [RowSound], Nat.le_refl _, Nat.le_refl _, halo, hblo, by simp⟩

theorem extendLeft_sound {i j k : Nat} (h : Matches a b r ⟨i,j,k⟩) :
    Matches a b r (extendLeft a b r.alo r.blo i j k) := by
  fun_induction extendLeft a b r.alo r.blo i j k with
  | case1 i j k hc ih => exact ih (h.unshift hc.1 hc.2.1 hc.2.2)
  | case2 i j k hc => exact h
  | case3 i j k => exact h

theorem extendRight_sound {x : MatchingBlock} (n : Nat) (h : Matches a b r x) :
    Matches a b r (extendRight a b r.ahi r.bhi n x) := by
  fun_induction extendRight a b r.ahi r.bhi n x with
  | case1 x => exact h
  | case2 n x hc ih => exact ih (h.push hc.1 hc.2.1 hc.2.2)
  | case3 n x hc => exact h

theorem findLongestMatch_matches (halo : r.alo ≤ r.ahi) (hblo : r.blo ≤ r.bhi) :
    Matches a b r (findLongestMatch autoJunk a b r) := by
  unfold findLongestMatch
  apply extendRight_sound
  apply extendLeft_sound
  exact scanRows_sound halo hblo

end

section
variable {autoJunk : Bool} {a b : List α} {r : Range} {x : MatchingBlock}

/-- What one round does: the next range goes, and a block found in it leaves what is around it. -/
theorem Search.round_cases {s t : Search} (h : s.round autoJunk a b = some t) :
    ∃ r queue, s.queue = r::queue ∧
      ((findLongestMatch autoJunk a b r).size = 0 ∧ t = ⟨queue, s.blocks⟩ ∨
       0 < (findLongestMatch autoJunk a b r).size ∧
        t = ⟨r.after (findLongestMatch autoJunk a b r) ++
          (r.before (findLongestMatch autoJunk a b r) ++ queue),
          s.blocks ++ [findLongestMatch autoJunk a b r]⟩) := by
  unfold Search.round at h
  cases hq : s.queue with
  | nil => simp [hq] at h
  | cons r queue =>
    refine ⟨r, queue, rfl, ?_⟩
    simp only [hq] at h
    split_ifs at h with hsize
    · exact Or.inl ⟨hsize, (Option.some.inj h).symm⟩
    · exact Or.inr ⟨Nat.pos_of_ne_zero hsize, (Option.some.inj h).symm⟩

theorem Search.round_sound {s t : Search} (h : s.round autoJunk a b = some t)
    (hs : s.Sound a b) : t.Sound a b := by
  obtain ⟨r, queue, hq, hcase⟩ := Search.round_cases h
  have hapart := hs.apart
  have hqueue := hs.queue
  rw [hq, List.cons_append, List.pairwise_cons] at hapart
  rw [hq, List.forall_mem_cons] at hqueue
  obtain ⟨⟨halo, hblo, hwithin⟩, hqueue⟩ := hqueue
  rcases hcase with ⟨-, rfl⟩ | ⟨hsize, rfl⟩
  · exact ⟨hapart.2, hqueue, hs.blocks⟩
  · generalize hx : findLongestMatch autoJunk a b r = x at hsize ⊢
    have hmatch : Matches a b r x := hx ▸ findLongestMatch_matches halo hblo
    obtain ⟨hnew, hvalid, hinside⟩ := Range.split hmatch
    refine ⟨?_, ?_, ?_⟩
    · have hperm : (r.after x ++ (r.before x ++ queue) ++
          (s.blocks ++ [x]).map MatchingBlock.range).Perm
          ((r.after x ++ r.before x ++ [x.range]) ++ (queue ++ s.blocks.map MatchingBlock.range)) := by
        rw [List.map_append, List.map_singleton]
        simp only [List.append_assoc]
        apply List.Perm.append_left
        apply List.Perm.append_left
        rw [← List.append_assoc]
        exact List.perm_append_comm
      rw [hperm.pairwise_iff Range.Apart.symm, List.pairwise_append]
      refine ⟨hnew, hapart.2, fun y hy z hz => ?_⟩
      exact (hapart.1 z hz).within (hinside y hy)
    · intro y hy
      rw [← List.append_assoc] at hy
      rcases List.mem_append.mp hy with hy | hy
      · have hy' := hinside y (List.mem_append_left _ hy)
        unfold Range.Within at hy' hwithin ⊢
        have hv := hvalid y hy
        omega
      · exact hqueue y hy
    · intro y hy
      rcases List.mem_append.mp hy with hy | hy
      · exact hs.blocks y hy
      · rw [List.mem_singleton] at hy
        subst hy
        exact ⟨hsize, hmatch.within hwithin⟩

/-- Each range to search counts its length twice, and once for itself. -/
def Search.work (s : Search) : Nat := (s.queue.map fun r => 2*(r.ahi-r.alo)+1).sum

theorem Search.round_work {s t : Search} (hs : s.Sound a b) (h : s.round autoJunk a b = some t) :
    t.work < s.work := by
  obtain ⟨r, queue, hq, hcase⟩ := Search.round_cases h
  have hr := hs.queue r (by simp [hq])
  have hmatch : Matches a b r (findLongestMatch autoJunk a b r) :=
    findLongestMatch_matches hr.1 hr.2.1
  have hwork : s.work = 2*(r.ahi-r.alo)+1+(queue.map fun r => 2*(r.ahi-r.alo)+1).sum := by
    rw [Search.work, hq, List.map_cons, List.sum_cons]
  rcases hcase with ⟨-, rfl⟩ | ⟨hsize, rfl⟩
  · rw [hwork]
    show (queue.map fun r => 2*(r.ahi-r.alo)+1).sum < _
    omega
  · generalize findLongestMatch autoJunk a b r = x at hmatch hsize ⊢
    have halo := hmatch.alo
    have hahi := hmatch.ahi
    have hafter : ((r.after x).map fun r => 2*(r.ahi-r.alo)+1).sum ≤ 2*(r.ahi-(x.a+x.size))+1 := by
      unfold Range.after
      split_ifs <;> simp
    have hbefore : ((r.before x).map fun r => 2*(r.ahi-r.alo)+1).sum ≤ 2*(x.a-r.alo)+1 := by
      unfold Range.before
      split_ifs <;> simp
    rw [hwork, Search.work, List.map_append, List.map_append, List.sum_append, List.sum_append]
    omega

end

/-- The search ends, and its blocks, sorted and joined, are the answer. -/
theorem getMatchingBlocks_search (autoJunk : Bool) (a b : List α) :
    ∃ s : Search, s.Sound a b ∧ getMatchingBlocks autoJunk a b =
      some (collapse ⟨0,0,0⟩ (s.blocks.mergeSort MatchingBlock.le) ++ [⟨a.length,b.length,0⟩]) := by
  have hinit : Search.Sound a b ⟨[wholeRange a b], []⟩ := by
    refine ⟨by simp, ?_, by simp⟩
    intro r hr
    rw [List.mem_singleton] at hr
    subst hr
    exact ⟨Nat.zero_le _, Nat.zero_le _, Nat.le_refl _, Nat.le_refl _, Nat.le_refl _, Nat.le_refl _⟩
  have hround : ∀ s t, Search.round autoJunk a b s = some t → Search.Sound a b s →
      Search.Sound a b t := fun s t h hs => Search.round_sound h hs
  obtain ⟨s, hs⟩ := loop_terminates_of (Search.round autoJunk a b) (Search.Sound a b) hround
    Search.work (fun s t hs h => Search.round_work hs h) (2*a.length+2)
    ⟨[wholeRange a b], []⟩ hinit (by simp [Search.work, wholeRange])
  refine ⟨s, loop_invariant _ _ hround _ _ _ hs hinit, ?_⟩
  rw [getMatchingBlocks, hs, Option.map_some]

theorem getMatchingBlocks_chain (autoJunk : Bool) (a b : List α) :
    ∃ xs, getMatchingBlocks autoJunk a b = some (xs ++ [⟨a.length,b.length,0⟩]) ∧
      Chain a b 0 0 (xs ++ [⟨a.length,b.length,0⟩]) := by
  obtain ⟨s, hsound, hblocks⟩ := getMatchingBlocks_search autoJunk a b
  refine ⟨_, hblocks, collapse_chain ?_ ?_ ?_ hsound.chain⟩
  · exact Nat.le_refl 0
  · exact Nat.le_refl 0
  · exact ⟨Nat.le_refl _, Nat.le_refl _, Nat.zero_le _, Nat.zero_le _, by simp⟩

/-- The operations turn all of `a` into all of `b`. -/
theorem getOpcodes_segment (autoJunk : Bool) (a b : List α) :
    ∃ ops, getOpcodes autoJunk a b = some ops ∧ Segment a b 0 0 ops a.length b.length := by
  obtain ⟨xs, hxs, hchain⟩ := getMatchingBlocks_chain autoJunk a b
  refine ⟨opcodesFrom 0 0 (xs ++ [⟨a.length,b.length,0⟩]), ?_, opcodesFrom_segment hchain⟩
  rw [getOpcodes, hxs, Option.map_some]

section
variable (autoJunk : Bool) (a : List α)

/-- The length of the run of unpopular elements that ends before position `i`. -/
def quietRun : Nat → Nat
  | 0 => 0
  | i+1 =>
    match a[i]? with
    | none => 0
    | some x => if popular autoJunk a x then 0 else quietRun i+1

/-- A sequence scanned against itself up to position `i`: no run is longer than the quiet run at
either of its ends, the best one lies on the diagonal, and once the diagonal of the last row is no
longer pending nothing quiet is longer than the best. -/
structure Diagonal (i : Nat) (pending : Prop) (row : List (Nat × Nat)) (best : MatchingBlock) :
    Prop where
  short : ∀ j k, (j,k) ∈ row → k ≤ quietRun autoJunk a i ∧ k ≤ quietRun autoJunk a (j+1)
  here : ∀ j k, (j,k) ∈ row → j+1 = i → k = quietRun autoJunk a i
  diag : best.a = best.b
  long : ∀ i' < i, quietRun autoJunk a i' ≤ best.size
  found : ¬ pending → quietRun autoJunk a i ≤ best.size ∧
    (0 < quietRun autoJunk a i → ∃ j k, j+1 = i ∧ (j,k) ∈ row)

end

section
variable {autoJunk : Bool} {a : List α}

theorem quietRun_succ {i : Nat} {x : α} (hx : a[i]? = some x) (hquiet : popular autoJunk a x = false) :
    quietRun autoJunk a (i+1) = quietRun autoJunk a i+1 := by
  simp only [quietRun, hx, hquiet, Bool.false_eq_true, if_false]

/-- A row without its diagonal position is that of a popular element. -/
theorem quietRun_of_not_mem {i : Nat} (hi : i < a.length)
    (h : i ∉ rowOf autoJunk a a (wholeRange a a) i) : quietRun autoJunk a (i+1) = 0 := by
  have hx : a[i]? = some a[i] := List.getElem?_eq_getElem hi
  cases hp : popular autoJunk a a[i] with
  | true => simp only [quietRun, hx, hp, if_true]
  | false =>
    apply absurd _ h
    simp [rowOf, b2j, hp, wholeRange, hi]

theorem Diagonal.previous_le {i : Nat} {row : List (Nat × Nat)} {best : MatchingBlock}
    {pending : Prop} (h : Diagonal autoJunk a i pending row best) (j : Nat) :
    previous row j ≤ quietRun autoJunk a i ∧ previous row j ≤ quietRun autoJunk a j := by
  cases j with
  | zero => exact ⟨Nat.zero_le _, Nat.zero_le _⟩
  | succ j =>
    cases hf : row.find? fun e => e.1 = j with
    | none =>
      have hp : previous row (j+1) = 0 := by simp [previous, hf]
      rw [hp]
      exact ⟨Nat.zero_le _, Nat.zero_le _⟩
    | some e =>
      obtain ⟨j', k⟩ := e
      have hkey : j' = j := by simpa using List.find?_some hf
      subst hkey
      have hp : previous row (j'+1) = k := by simp [previous, hf]
      rw [hp]
      exact h.short j' k (List.mem_of_find?_eq_some hf)

theorem Diagonal.previous_eq {i : Nat} {row : List (Nat × Nat)} {best : MatchingBlock}
    (h : Diagonal autoJunk a i False row best) : previous row i = quietRun autoJunk a i := by
  obtain ⟨-, hfound⟩ := h.found id
  cases i with
  | zero => rfl
  | succ i =>
    cases hf : row.find? fun e => e.1 = i with
    | none =>
      have hp : previous row (i+1) = 0 := by simp [previous, hf]
      rw [hp]
      rcases Nat.eq_zero_or_pos (quietRun autoJunk a (i+1)) with hzero | hpos
      · exact hzero.symm
      · obtain ⟨j, k, hj, hmem⟩ := hfound hpos
        have hnot := List.find?_eq_none.mp hf (j,k) hmem
        simp at hnot
        omega
    | some e =>
      obtain ⟨j, k⟩ := e
      have hkey : j = i := by simpa using List.find?_some hf
      subst hkey
      have hp : previous row (j+1) = k := by simp [previous, hf]
      rw [hp]
      exact h.here j k (List.mem_of_find?_eq_some hf) rfl

/-- One position of row `i` keeps the best run on the diagonal: off it, the run is no longer
than a quiet run already seen. -/
theorem scanAt_diagonal {i j : Nat} {js : List Nat} {prev : List (Nat × Nat)}
    {best : MatchingBlock} {s : List (Nat × Nat) × MatchingBlock}
    (hprev : Diagonal autoJunk a i False prev best)
    (hj : j ∈ rowOf autoJunk a a (wholeRange a a) i) (hjs : ∀ j' ∈ js, j < j')
    (h : Diagonal autoJunk a (i+1) (i ∈ j::js) s.1 s.2) :
    Diagonal autoJunk a (i+1) (i ∈ js) (scanAt i prev s j).1 (scanAt i prev s j).2 := by
  obtain ⟨x, hai, haj, hquiet, -, -⟩ := mem_rowOf hj
  have hi1 := quietRun_succ hai hquiet
  have hj1 := quietRun_succ haj hquiet
  obtain ⟨hle1, hle2⟩ := hprev.previous_le j
  have hdiag : j = i → previous prev j = quietRun autoJunk a i := by
    intro he
    rw [he]
    exact hprev.previous_eq
  have hgrow : s.2.size ≤ (scanAt i prev s j).2.size := by
    show _ ≤ (if s.2.size < previous prev j+1 then _ else s.2 : MatchingBlock).size
    split_ifs with hlt
    · exact Nat.le_of_lt hlt
    · exact Nat.le_refl _
  have hreach : previous prev j+1 ≤ (scanAt i prev s j).2.size := by
    show _ ≤ (if s.2.size < previous prev j+1 then _ else s.2 : MatchingBlock).size
    split_ifs with hlt
    · exact Nat.le_refl _
    · exact Nat.not_lt.mp hlt
  refine ⟨?_, ?_, ?_, ?_, ?_⟩
  · intro j' k hmem
    rcases List.mem_append.mp hmem with hmem | hmem
    · exact h.short j' k hmem
    · simp only [List.mem_singleton, Prod.mk.injEq] at hmem
      obtain ⟨rfl, rfl⟩ := hmem
      exact ⟨by omega, by omega⟩
  · intro j' k hmem hj'
    rcases List.mem_append.mp hmem with hmem | hmem
    · exact h.here j' k hmem hj'
    · simp only [List.mem_singleton, Prod.mk.injEq] at hmem
      have hd := hdiag (by omega)
      omega
  · show (if s.2.size < previous prev j+1 then _ else s.2 : MatchingBlock).a =
      (if s.2.size < previous prev j+1 then _ else s.2 : MatchingBlock).b
    split_ifs with hlt
    · -- only the diagonal position can take the best one's place
      rcases Nat.lt_trichotomy j i with hji | hji | hji
      · have hlong := h.long (j+1) (by omega)
        omega
      · rw [hji]
      · have hnot : i ∉ j::js := by
          intro hmem
          rcases List.mem_cons.mp hmem with he | hmem
          · omega
          · have hafter := hjs i hmem
            omega
        have hseen := (h.found hnot).1
        omega
    · exact h.diag
  · intro i' hi'
    exact Nat.le_trans (h.long i' hi') hgrow
  · intro hnot
    by_cases he : j = i
    · have hd := hdiag he
      refine ⟨by omega, fun _ => ⟨j, previous prev j+1, by omega, ?_⟩⟩
      exact List.mem_append_right _ (List.mem_singleton_self _)
    · obtain ⟨hseen, hentry⟩ := h.found (by
        rw [List.mem_cons, not_or]
        exact ⟨fun h => he h.symm, hnot⟩)
      refine ⟨Nat.le_trans hseen hgrow, fun hpos => ?_⟩
      obtain ⟨j', k, hj', hmem⟩ := hentry hpos
      exact ⟨j', k, hj', List.mem_append_left _ hmem⟩

theorem rowOf_ascending (autoJunk : Bool) (a b : List α) (r : Range) (i : Nat) :
    (rowOf autoJunk a b r i).Pairwise (· < ·) := by
  unfold rowOf b2j
  split
  · exact List.Pairwise.nil
  · apply List.Pairwise.filter
    split_ifs
    · exact List.Pairwise.nil
    · exact List.Pairwise.filter _ List.pairwise_lt_range

theorem scanRow_diagonal {i : Nat} {s : List (Nat × Nat) × MatchingBlock} (hi : i < a.length)
    (h : Diagonal autoJunk a i False s.1 s.2) :
    Diagonal autoJunk a (i+1) False (scanRow autoJunk a a (wholeRange a a) s i).1
      (scanRow autoJunk a a (wholeRange a a) s i).2 := by
  have hfold : ∀ js : List Nat, (∀ j ∈ js, j ∈ rowOf autoJunk a a (wholeRange a a) i) →
      js.Pairwise (· < ·) → ∀ t : List (Nat × Nat) × MatchingBlock,
      Diagonal autoJunk a (i+1) (i ∈ js) t.1 t.2 →
      Diagonal autoJunk a (i+1) (i ∈ []) (js.foldl (scanAt i s.1) t).1
        (js.foldl (scanAt i s.1) t).2 := by
    intro js
    induction js with
    | nil => exact fun _ _ _ ht => ht
    | cons j js ih =>
      intro hjs hascending t ht
      rw [List.forall_mem_cons] at hjs
      rw [List.pairwise_cons] at hascending
      exact ih hjs.2 hascending.2 _ (scanAt_diagonal h hjs.1 hascending.1 ht)
  have hdone := hfold _ (fun j hj => hj) (rowOf_ascending autoJunk a a (wholeRange a a) i) ([],s.2)
    (by
      refine ⟨by simp, by simp, h.diag, ?_, ?_⟩
      · intro i' hi'
        rcases Nat.lt_or_eq_of_le (Nat.le_of_lt_succ hi') with hlt | rfl
        · exact h.long i' hlt
        · exact (h.found id).1
      · intro hnot
        rw [quietRun_of_not_mem hi hnot]
        exact ⟨Nat.zero_le _, fun hpos => absurd hpos (Nat.lt_irrefl 0)⟩)
  exact ⟨hdone.short, hdone.here, hdone.diag, hdone.long, fun _ => hdone.found List.not_mem_nil⟩

theorem scanRows_self : (scanRows autoJunk a a (wholeRange a a)).2.a =
    (scanRows autoJunk a a (wholeRange a a)).2.b := by
  have hfold : ∀ n i, i+n ≤ a.length → ∀ s : List (Nat × Nat) × MatchingBlock,
      Diagonal autoJunk a i False s.1 s.2 →
      ((List.range' i n).foldl (scanRow autoJunk a a (wholeRange a a)) s).2.a =
        ((List.range' i n).foldl (scanRow autoJunk a a (wholeRange a a)) s).2.b := by
    intro n
    induction n with
    | zero => exact fun _ _ _ hs => hs.diag
    | succ n ih =>
      intro i hn s hs
      rw [List.range'_succ, List.foldl_cons]
      exact ih (i+1) (by omega) _ (scanRow_diagonal (by omega) hs)
  apply hfold
  · show 0+(a.length-0) ≤ a.length
    omega
  · refine ⟨by simp, by simp, rfl, ?_, fun _ => ⟨Nat.zero_le _, ?_⟩⟩
    · exact fun i' hi' => absurd hi' (Nat.not_lt_zero i')
    · exact fun hpos => absurd hpos (Nat.lt_irrefl 0)

theorem extendLeft_self (i k : Nat) : extendLeft a a 0 0 i i k = ⟨0,0,i+k⟩ := by
  induction i generalizing k with
  | zero => simp [extendLeft]
  | succ i ih =>
    rw [extendLeft, if_pos ⟨Nat.succ_pos i, Nat.succ_pos i, rfl⟩, ih]
    congr 1
    omega

theorem extendRight_self (n k : Nat) (h : k+n = a.length) :
    extendRight a a a.length a.length n ⟨0,0,k⟩ = ⟨0,0,a.length⟩ := by
  induction n generalizing k with
  | zero => rw [extendRight, ← h, Nat.add_zero]
  | succ n ih =>
    have hlt : 0+k < a.length := by omega
    rw [extendRight, if_pos ⟨hlt, hlt, rfl⟩]
    exact ih (k+1) (by omega)

/-- A sequence matches itself as a whole. -/
theorem findLongestMatch_self :
    findLongestMatch autoJunk a a (wholeRange a a) = ⟨0,0,a.length⟩ := by
  have hsound : Matches a a (wholeRange a a) (scanRows autoJunk a a (wholeRange a a)).2 :=
    scanRows_sound (Nat.zero_le _) (Nat.zero_le _)
  have hdiag : (scanRows autoJunk a a (wholeRange a a)).2.a =
    (scanRows autoJunk a a (wholeRange a a)).2.b := scanRows_self
  unfold findLongestMatch
  generalize (scanRows autoJunk a a (wholeRange a a)).2 = best at hsound hdiag ⊢
  have hahi : best.a+best.size ≤ a.length := hsound.ahi
  have hleft : extendLeft a a 0 0 best.a best.b best.size = ⟨0,0,best.a+best.size⟩ := by
    rw [← hdiag, extendLeft_self]
  simp only [wholeRange, hleft]
  exact extendRight_self _ _ (by omega)

theorem getMatchingBlocks_self : getMatchingBlocks autoJunk a a =
    some ((if a = [] then [] else [⟨0,0,a.length⟩]) ++ [⟨a.length,a.length,0⟩]) := by
  have hround : Search.round autoJunk a a ⟨[wholeRange a a],[]⟩ =
      some ⟨[], if a = [] then [] else [⟨0,0,a.length⟩]⟩ := by
    simp only [Search.round, findLongestMatch_self]
    by_cases ha : a = []
    · simp [ha]
    · simp [ha, Range.after, Range.before, wholeRange]
  have hstable : Search.round autoJunk a a ⟨[], if a = [] then [] else [⟨0,0,a.length⟩]⟩ = none := rfl
  rw [getMatchingBlocks, loop_of_round _ _ _ _ hround, loop_of_stable _ _ _ hstable, Option.map_some]
  by_cases ha : a = []
  · simp [ha, collapse]
  · simp [ha, collapse]

theorem getOpcodes_self : getOpcodes autoJunk a a =
    some (if a = [] then [] else [⟨.equal, 0, a.length, 0, a.length⟩]) := by
  rw [getOpcodes, getMatchingBlocks_self, Option.map_some]
  by_cases ha : a = []
  · simp [ha, opcodesFrom, gapOp]
  · simp [ha, opcodesFrom, gapOp]

end

end DSigMatcher.Diff
