import Mathlib.Data.List.Basic

namespace DSigMatcher.Framework

variable {α : Type*}

/-- The elements from position `i` up to position `j`. -/
def slice (l : List α) (i j : Nat) : List α := (l.drop i).take (j-i)

@[simp] theorem slice_self (l : List α) (i : Nat) : slice l i i = [] := by simp [slice]

theorem slice_zero_length (l : List α) : slice l 0 l.length = l := by simp [slice]

theorem length_slice (l : List α) (i j : Nat) (hj : j ≤ l.length) :
    (slice l i j).length = j-i := by
  rw [slice, List.length_take, List.length_drop]
  omega

theorem slice_append_drop (l : List α) (i j : Nat) (hij : i ≤ j) :
    slice l i j ++ l.drop j = l.drop i := by
  have h := List.take_append_drop (j-i) (l.drop i)
  rwa [List.drop_drop, Nat.add_sub_cancel' hij] at h

theorem slice_append_slice (l : List α) (i j k : Nat) (hij : i ≤ j) (hjk : j ≤ k) :
    slice l i j ++ slice l j k = slice l i k := by
  have hk : k-i = (j-i)+(k-j) := by omega
  rw [slice, slice, slice, hk, List.take_add, List.drop_drop, Nat.add_sub_cancel' hij]

/-- A part of a slice, by its offsets. -/
theorem slice_offset (l : List α) (i j s t : Nat) (ht : i+t ≤ j) :
    slice l (i+s) (i+t) = slice (slice l i j) s t := by
  rw [slice, slice, slice, List.drop_take, List.drop_drop, List.take_take]
  congr 1
  omega

theorem getElem?_slice (l : List α) (i j t : Nat) (ht : t < j-i) :
    (slice l i j)[t]? = l[i+t]? := by
  rw [slice, List.getElem?_take_of_lt ht, List.getElem?_drop]

inductive EditTag
  | replace | delete | insert | equal
  deriving DecidableEq

/-- Turn the elements `i1..i2` of one list into the elements `j1..j2` of another. -/
structure EditOp where
  tag : EditTag
  i1 : Nat
  i2 : Nat
  j1 : Nat
  j2 : Nat
  deriving DecidableEq

section
variable (a b : List α)

/-- The ranges lie in the lists and are what the tag says. -/
structure EditOp.Sound (op : EditOp) : Prop where
  le1 : op.i1 ≤ op.i2
  le2 : op.j1 ≤ op.j2
  bound1 : op.i2 ≤ a.length
  bound2 : op.j2 ≤ b.length
  equal : op.tag = .equal →
    op.i2-op.i1 = op.j2-op.j1 ∧ slice a op.i1 op.i2 = slice b op.j1 op.j2
  delete : op.tag = .delete → op.j1 = op.j2
  insert : op.tag = .insert → op.i1 = op.i2

/-- Operations that follow each other without a gap, from one pair of positions to another. -/
def Segment : Nat → Nat → List EditOp → Nat → Nat → Prop
  | i, j, [], i', j' => i = i' ∧ j = j'
  | i, j, op::ops, i', j' => op.i1 = i ∧ op.j1 = j ∧ op.Sound a b ∧ Segment op.i2 op.j2 ops i' j'

/-- What an operation puts in the place of the elements it takes. -/
def EditOp.output (op : EditOp) (taken : List α) : List α :=
  match op.tag with
  | .equal => taken
  | .delete => []
  | .replace => slice b op.j1 op.j2
  | .insert => slice b op.j1 op.j2

/-- Apply operations to a list, from its front. -/
def applyOps : List α → List EditOp → List α
  | _, [] => []
  | rest, op::ops =>
    op.output b (rest.take (op.i2-op.i1)) ++ applyOps (rest.drop (op.i2-op.i1)) ops

/-- Groups of operations with nothing but equal elements between them, and after the last. -/
def Covers : Nat → Nat → List (List EditOp) → Prop
  | i, j, [] => a.drop i = b.drop j
  | i, j, ops::groups => ∃ i1 j1 i2 j2, ops ≠ [] ∧ i ≤ i1 ∧ j ≤ j1 ∧
      slice a i i1 = slice b j j1 ∧ Segment a b i1 j1 ops i2 j2 ∧ Covers i2 j2 groups

end

variable {a b : List α}

theorem Segment.append {i j i' j' i'' j'' : Nat} {ops ops' : List EditOp}
    (h : Segment a b i j ops i' j') (h' : Segment a b i' j' ops' i'' j'') :
    Segment a b i j (ops ++ ops') i'' j'' := by
  induction ops generalizing i j with
  | nil =>
    obtain ⟨rfl, rfl⟩ := h
    exact h'
  | cons op ops ih => exact ⟨h.1, h.2.1, h.2.2.1, ih h.2.2.2⟩

theorem Segment.singleton {op : EditOp} (h : op.Sound a b) :
    Segment a b op.i1 op.j1 [op] op.i2 op.j2 := ⟨rfl, rfl, h, rfl, rfl⟩

theorem Segment.le {i j i' j' : Nat} {ops : List EditOp} (h : Segment a b i j ops i' j') :
    i ≤ i' ∧ j ≤ j' := by
  induction ops generalizing i j with
  | nil => exact ⟨Nat.le_of_eq h.1, Nat.le_of_eq h.2⟩
  | cons op ops ih =>
    obtain ⟨rfl, rfl, hop, hrest⟩ := h
    have hle := ih hrest
    exact ⟨Nat.le_trans hop.le1 hle.1, Nat.le_trans hop.le2 hle.2⟩

/-- A segment that is not empty ends inside the lists. -/
theorem Segment.bound {i j i' j' : Nat} {ops : List EditOp} (h : Segment a b i j ops i' j')
    (hops : ops ≠ []) : i' ≤ a.length ∧ j' ≤ b.length := by
  induction ops generalizing i j with
  | nil => exact (hops rfl).elim
  | cons op ops ih =>
    obtain ⟨rfl, rfl, hop, hrest⟩ := h
    by_cases hlast : ops = []
    · subst hlast
      obtain ⟨rfl, rfl⟩ := hrest
      exact ⟨hop.bound1, hop.bound2⟩
    · exact ih hrest hlast

theorem Segment.head {i j i' j' : Nat} {op : EditOp} {ops : List EditOp}
    (h : Segment a b i j (op::ops) i' j') : op.i1 = i ∧ op.j1 = j := ⟨h.1, h.2.1⟩

theorem Segment.getLast {i j i' j' : Nat} {ops : List EditOp} (h : Segment a b i j ops i' j')
    (hops : ops ≠ []) : (ops.getLast hops).i2 = i' ∧ (ops.getLast hops).j2 = j' := by
  induction ops generalizing i j with
  | nil => exact (hops rfl).elim
  | cons op ops ih =>
    obtain ⟨-, -, -, hrest⟩ := h
    by_cases hlast : ops = []
    · subst hlast
      exact hrest
    · rw [List.getLast_cons hlast]
      exact ih hrest hlast

theorem EditOp.Sound.output_eq {op : EditOp} (h : op.Sound a b) :
    op.output b (slice a op.i1 op.i2) = slice b op.j1 op.j2 := by
  unfold EditOp.output
  cases htag : op.tag with
  | replace => rfl
  | insert => rfl
  | equal => exact (h.equal htag).2
  | delete =>
    rw [h.delete htag, slice_self]

/-- Operations without a gap, applied to what follows their start, make their part of the second
list. -/
theorem Segment.applyOps_eq {i j i' j' : Nat} {ops : List EditOp}
    (h : Segment a b i j ops i' j') : applyOps b (a.drop i) ops = slice b j j' := by
  induction ops generalizing i j with
  | nil =>
    obtain ⟨rfl, rfl⟩ := h
    exact (slice_self b j).symm
  | cons op ops ih =>
    obtain ⟨rfl, rfl, hop, hrest⟩ := h
    have htaken : (a.drop op.i1).take (op.i2-op.i1) = slice a op.i1 op.i2 := rfl
    have hleft : (a.drop op.i1).drop (op.i2-op.i1) = a.drop op.i2 := by
      rw [List.drop_drop, Nat.add_sub_cancel' hop.le1]
    rw [applyOps, htaken, hop.output_eq, hleft, ih hrest,
      slice_append_slice b _ _ _ hop.le2 hrest.le.2]

/-- A part of an equal operation is equal. -/
theorem EditOp.Sound.part {op : EditOp} (h : op.Sound a b) (htag : op.tag = .equal) (s t : Nat)
    (hst : s ≤ t) (ht : op.i1+t ≤ op.i2) :
    EditOp.Sound a b ⟨.equal, op.i1+s, op.i1+t, op.j1+s, op.j1+t⟩ := by
  obtain ⟨hlength, hslice⟩ := h.equal htag
  have h1 := h.bound1
  have h2 := h.bound2
  have hle1 := h.le1
  have hle2 := h.le2
  have ht2 : op.j1+t ≤ op.j2 := by omega
  refine ⟨?_, ?_, ?_, ?_, fun _ => ⟨?_, ?_⟩, ?_, ?_⟩
  · show op.i1+s ≤ op.i1+t
    omega
  · show op.j1+s ≤ op.j1+t
    omega
  · show op.i1+t ≤ a.length
    omega
  · show op.j1+t ≤ b.length
    omega
  · show op.i1+t-(op.i1+s) = op.j1+t-(op.j1+s)
    omega
  · show slice a (op.i1+s) (op.i1+t) = slice b (op.j1+s) (op.j1+t)
    rw [slice_offset a op.i1 op.i2 s t ht, slice_offset b op.j1 op.j2 s t ht2, hslice]
  · simp
  · simp

section
variable {β : Type*} {f : α → β}

theorem slice_map (l : List α) (i j : Nat) : slice (l.map f) i j = (slice l i j).map f := by
  rw [slice, slice, ← List.map_drop, List.map_take]

theorem mem_of_mem_slice {l : List α} {i j : Nat} {x : α} (h : x ∈ slice l i j) : x ∈ l :=
  List.mem_of_mem_drop (List.mem_of_mem_take h)

private theorem eq_of_map_eq {xs ys : List α} (hf : ∀ x ∈ xs, ∀ y ∈ ys, f x = f y → x = y)
    (h : xs.map f = ys.map f) : xs = ys := by
  induction xs generalizing ys with
  | nil => simpa using h.symm
  | cons x xs ih =>
    cases ys with
    | nil => simp at h
    | cons y ys =>
      rw [List.map_cons, List.map_cons, List.cons.injEq] at h
      rw [hf x List.mem_cons_self y List.mem_cons_self h.1,
        ih (fun x hx y hy => hf x (List.mem_cons_of_mem _ hx) y (List.mem_cons_of_mem _ hy)) h.2]

variable (hf : ∀ x ∈ a, ∀ y ∈ b, f x = f y → x = y)
include hf

theorem slice_of_map {i j i' j' : Nat} (h : slice (a.map f) i j = slice (b.map f) i' j') :
    slice a i j = slice b i' j' := by
  rw [slice_map, slice_map] at h
  exact eq_of_map_eq (fun x hx y hy => hf x (mem_of_mem_slice hx) y (mem_of_mem_slice hy)) h

theorem EditOp.Sound.of_map {op : EditOp} (h : op.Sound (a.map f) (b.map f)) : op.Sound a b where
  le1 := h.le1
  le2 := h.le2
  bound1 := by simpa using h.bound1
  bound2 := by simpa using h.bound2
  equal := fun htag => ⟨(h.equal htag).1, slice_of_map hf (h.equal htag).2⟩
  delete := h.delete
  insert := h.insert

theorem Segment.of_map {i j i' j' : Nat} {ops : List EditOp}
    (h : Segment (a.map f) (b.map f) i j ops i' j') : Segment a b i j ops i' j' := by
  induction ops generalizing i j with
  | nil => exact h
  | cons op ops ih => exact ⟨h.1, h.2.1, h.2.2.1.of_map hf, ih h.2.2.2⟩

/-- Elements may be replaced by names that tell them apart. -/
theorem Covers.of_map {i j : Nat} {groups : List (List EditOp)}
    (h : Covers (a.map f) (b.map f) i j groups) : Covers a b i j groups := by
  induction groups generalizing i j with
  | nil =>
    have hdrop : (a.drop i).map f = (b.drop j).map f := by
      rw [List.map_drop, List.map_drop]
      exact h
    exact eq_of_map_eq
      (fun x hx y hy => hf x (List.mem_of_mem_drop hx) y (List.mem_of_mem_drop hy)) hdrop
  | cons ops groups ih =>
    obtain ⟨i1, j1, i2, j2, hops, hi, hj, hgap, hsegment, hrest⟩ := h
    exact ⟨i1, j1, i2, j2, hops, hi, hj, slice_of_map hf hgap, hsegment.of_map hf, ih hrest⟩

end

end DSigMatcher.Framework
