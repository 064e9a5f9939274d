import DSigMatcher.Diff.SequenceMatcher
import Mathlib

namespace DSigMatcher.Diff
open Framework

variable {α : Type*}

/-- Between two blocks in order, at least one of the sequences has an element of its own. -/
def MatchingBlock.Parted (x y : MatchingBlock) : Prop := x.a+x.size < y.a ∨ x.b+x.size < y.b

/-- Blocks of equal elements that ascend in both sequences and nowhere touch in both, and the
sentinel at the ends. -/
structure BlockList (a b : List α) (xs : List MatchingBlock) : Prop where
  blocks : ∀ x ∈ xs, 0 < x.size ∧ Matches a b (wholeRange a b) x
  ascending : (xs ++ [(⟨a.length,b.length,0⟩ : MatchingBlock)]).Pairwise fun x y =>
    (x.a < y.a ∧ x.b < y.b) ∧ x.a+x.size ≤ y.a ∧ x.b+x.size ≤ y.b
  parted : xs.IsChain MatchingBlock.Parted

/-- Changes and equal parts take turns. -/
def Alternating (ops : List EditOp) : Prop :=
  ops.IsChain fun x y => (x.tag = .equal ↔ y.tag ≠ .equal)

section
variable {a b : List α} {i j : Nat} {xs : List MatchingBlock}

theorem Chain.after (h : Chain a b i j xs) : ∀ x ∈ xs, i ≤ x.a ∧ j ≤ x.b := by
  induction xs generalizing i j with
  | nil => simp
  | cons x xs ih =>
    obtain ⟨hi, hj, -, hrest⟩ := h
    rw [List.forall_mem_cons]
    refine ⟨⟨hi, hj⟩, fun y hy => ?_⟩
    have hy' := ih hrest y hy
    omega

theorem Chain.matches (h : Chain a b i j xs) : ∀ x ∈ xs, Matches a b (wholeRange a b) x := by
  induction xs generalizing i j with
  | nil => simp
  | cons x xs ih => exact List.forall_mem_cons.mpr ⟨h.2.2.1, ih h.2.2.2⟩

theorem Chain.ordered (h : Chain a b i j xs) :
    xs.Pairwise fun x y => x.a+x.size ≤ y.a ∧ x.b+x.size ≤ y.b := by
  induction xs generalizing i j with
  | nil => exact List.Pairwise.nil
  | cons x xs ih => exact List.pairwise_cons.mpr ⟨h.2.2.2.after, ih h.2.2.2⟩

/-- A block in hand stays at its place until it is listed. -/
theorem collapse_head {last : MatchingBlock} (hlast : last.size ≠ 0) :
    ∀ y ∈ (collapse last xs).head?, y.a = last.a ∧ y.b = last.b := by
  induction xs generalizing last with
  | nil =>
    intro y hy
    rw [collapse, if_neg hlast] at hy
    cases hy
    exact ⟨rfl, rfl⟩
  | cons x xs ih =>
    intro y hy
    unfold collapse at hy
    split_ifs at hy with htouch
    · exact @ih ⟨last.a, last.b, last.size+x.size⟩
        (Nat.ne_of_gt (Nat.add_pos_left (Nat.pos_of_ne_zero hlast) _)) y hy
    · cases hy
      exact ⟨rfl, rfl⟩

/-- What is listed is not empty and nowhere touches. -/
theorem collapse_parted {last : MatchingBlock}
    (h : Chain a b (last.a+last.size) (last.b+last.size) xs) (hxs : ∀ x ∈ xs, 0 < x.size) :
    (∀ y ∈ collapse last xs, 0 < y.size) ∧ (collapse last xs).IsChain MatchingBlock.Parted := by
  induction xs generalizing last with
  | nil =>
    unfold collapse
    split_ifs with hsize
    · exact ⟨by simp, .nil⟩
    · exact ⟨fun y hy => List.mem_singleton.mp hy ▸ Nat.pos_of_ne_zero hsize, .singleton last⟩
  | cons x xs ih =>
    obtain ⟨hxa, hxb, -, hrest⟩ := h
    rw [List.forall_mem_cons] at hxs
    unfold collapse
    split_ifs with htouch hsize
    · refine ih ?_ hxs.2
      show Chain a b (last.a+(last.size+x.size)) (last.b+(last.size+x.size)) xs
      rwa [← Nat.add_assoc, ← Nat.add_assoc, htouch.1, htouch.2]
    · exact ih hrest hxs.2
    · obtain ⟨hpos, hparted⟩ := ih hrest hxs.2
      refine ⟨List.forall_mem_cons.mpr ⟨Nat.pos_of_ne_zero hsize, hpos⟩, hparted.cons ?_⟩
      intro y hy
      obtain ⟨hya, hyb⟩ := collapse_head (Nat.ne_of_gt hxs.1) y hy
      unfold MatchingBlock.Parted
      omega

/-- At most one change stands for a gap, and one does where the gap is not empty. -/
theorem gapOp_cases {i' j' : Nat} (hi : i ≤ i') (hj : j ≤ j') :
    (gapOp i i' j j' = [] ∧ i = i' ∧ j = j') ∨
      ∃ op, gapOp i i' j j' = [op] ∧ op.tag ≠ .equal := by
  unfold gapOp
  split_ifs with hboth hfirst hsecond
  · exact .inr ⟨_, rfl, nofun⟩
  · exact .inr ⟨_, rfl, nofun⟩
  · exact .inr ⟨_, rfl, nofun⟩
  · exact .inl ⟨rfl, by omega, by omega⟩

/-- The operations of blocks that nowhere touch take turns, and begin with a change unless the
first block is at the start. -/
theorem opcodesFrom_alternating {s : MatchingBlock} (hs : s.size = 0)
    (h : Chain a b i j (xs ++ [s])) (hxs : ∀ x ∈ xs, 0 < x.size)
    (hparted : xs.IsChain MatchingBlock.Parted) :
    Alternating (opcodesFrom i j (xs ++ [s])) ∧
      ((∀ x ∈ xs.head?, i < x.a ∨ j < x.b) →
        ∀ op ∈ (opcodesFrom i j (xs ++ [s])).head?, op.tag ≠ .equal) := by
  induction xs generalizing i j with
  | nil =>
    obtain ⟨hi, hj, -, -⟩ := h
    have hops : opcodesFrom i j ([] ++ [s]) = gapOp i s.a j s.b := by
      simp [opcodesFrom, hs]
    rw [hops]
    rcases gapOp_cases hi hj with ⟨hgap, -, -⟩ | ⟨op, hgap, hop⟩
    · rw [hgap]
      refine ⟨.nil, fun _ => ?_⟩
      rintro _ ⟨⟩
    · rw [hgap]
      refine ⟨.singleton op, fun _ => ?_⟩
      rintro _ ⟨⟩
      exact hop
  | cons x xs ih =>
    obtain ⟨hi, hj, -, hrest⟩ := h
    rw [List.forall_mem_cons] at hxs
    obtain ⟨hnext, hparted⟩ := List.isChain_cons.mp hparted
    obtain ⟨halt, hhead⟩ := ih hrest hxs.2 hparted
    have hops : opcodesFrom i j (x::xs ++ [s]) = gapOp i x.a j x.b ++
        (⟨.equal, x.a, x.a+x.size, x.b, x.b+x.size⟩ ::
          opcodesFrom (x.a+x.size) (x.b+x.size) (xs ++ [s])) := by
      rw [List.cons_append, opcodesFrom, if_neg (Nat.ne_of_gt hxs.1), List.append_assoc]
      rfl
    have hequal : Alternating (⟨.equal, x.a, x.a+x.size, x.b, x.b+x.size⟩ ::
        opcodesFrom (x.a+x.size) (x.b+x.size) (xs ++ [s])) :=
      halt.cons fun op hop => iff_of_true rfl (hhead hnext op hop)
    rw [hops]
    rcases gapOp_cases hi hj with ⟨hgap, ha, hb⟩ | ⟨op, hgap, hop⟩
    · rw [hgap]
      refine ⟨hequal, fun hfirst => ?_⟩
      have hx := hfirst x rfl
      omega
    · rw [hgap]
      refine ⟨hequal.cons ?_, fun _ => ?_⟩
      · rintro _ ⟨⟩
        exact iff_of_false hop (not_not_intro rfl)
      · rintro _ ⟨⟩
        exact hop

end

section
variable [DecidableEq α]

/-- The work list comes to an end, and what it leaves is a list of matching blocks. -/
theorem getMatchingBlocks_blockList (autoJunk : Bool) (a b : List α) :
    ∃ xs, getMatchingBlocks autoJunk a b = some (xs ++ [⟨a.length,b.length,0⟩]) ∧
      BlockList a b xs := by
  obtain ⟨s, hsound, hblocks⟩ := getMatchingBlocks_search autoJunk a b
  have hperm := List.mergeSort_perm s.blocks MatchingBlock.le
  have hsizes : ∀ x ∈ s.blocks.mergeSort MatchingBlock.le, 0 < x.size :=
    fun x hx => (hsound.blocks x (hperm.mem_iff.mp hx)).1
  obtain ⟨hpos, hparted⟩ := @collapse_parted _ a b _ ⟨0,0,0⟩ hsound.chain hsizes
  have hchain : Chain a b 0 0
      (collapse ⟨0,0,0⟩ (s.blocks.mergeSort MatchingBlock.le) ++ [⟨a.length,b.length,0⟩]) :=
    collapse_chain (Nat.le_refl 0) (Nat.le_refl 0)
      ⟨Nat.le_refl _, Nat.le_refl _, Nat.zero_le _, Nat.zero_le _, by simp⟩ hsound.chain
  refine ⟨_, hblocks, fun x hx => ⟨hpos x hx, hchain.matches x (List.mem_append_left _ hx)⟩, ?_,
    hparted⟩
  have hordered := List.pairwise_append.mp hchain.ordered
  refine List.pairwise_append.mpr ⟨hordered.1.imp_of_mem ?_, List.pairwise_singleton _ _, ?_⟩
  · intro x y hx _ hxy
    have hsize := hpos x hx
    exact ⟨⟨by omega, by omega⟩, hxy⟩
  · intro x hx y hy
    have hsize := hpos x hx
    have hxy := hordered.2.2 x hx y hy
    exact ⟨⟨by omega, by omega⟩, hxy⟩

/-- The blocks are true matches in order, and the operations tile both sequences, keep equal parts,
turn `a` into `b` and take turns. -/
theorem getOpcodes_exact (autoJunk : Bool) (a b : List α) :
    ∃ xs ops, getMatchingBlocks autoJunk a b = some (xs ++ [⟨a.length,b.length,0⟩]) ∧
      BlockList a b xs ∧ getOpcodes autoJunk a b = some ops ∧
      Segment a b 0 0 ops a.length b.length ∧ applyOps b a ops = b ∧ Alternating ops := by
  obtain ⟨xs, hxs, hlist⟩ := getMatchingBlocks_blockList autoJunk a b
  obtain ⟨ys, hys, hchain⟩ := getMatchingBlocks_chain autoJunk a b
  obtain rfl : ys = xs := List.append_cancel_right (Option.some.inj (hys.symm.trans hxs))
  have hsegment := opcodesFrom_segment hchain
  refine ⟨ys, opcodesFrom 0 0 (ys ++ [⟨a.length,b.length,0⟩]), hxs, hlist, ?_, hsegment, ?_, ?_⟩
  · rw [getOpcodes, hxs, Option.map_some]
  · exact hsegment.applyOps_eq.trans (slice_zero_length b)
  · exact (opcodesFrom_alternating rfl hchain (fun x hx => (hlist.blocks x hx).1) hlist.parted).1

end

end DSigMatcher.Diff
