import DSigMatcher.Framework.EditScript

namespace DSigMatcher.Framework

variable {α : Type*}

inductive RowKind
  | context | removed | added
  deriving DecidableEq

/-- A run of changed rows, with the start and the length its header prints for each list. -/
structure Hunk (α : Type*) where
  start1 : Nat
  length1 : Nat
  start2 : Nat
  length2 : Nat
  body : List (RowKind × α)
  deriving DecidableEq

/-- The position of the first row: starts count from one, and an empty range begins at the line
just before. -/
def rangePos (start length : Nat) : Nat := if length = 0 then start else start-1

/-- The start a header prints for the rows from position `i` up to `j`. -/
def rangeStart (i j : Nat) : Nat := if j-i = 0 then i else i+1

theorem rangePos_rangeStart (i j : Nat) : rangePos (rangeStart i j) (j-i) = i := by
  unfold rangePos rangeStart
  split_ifs
  · rfl
  · omega

def Hunk.range1 (h : Hunk α) : Nat × Nat := (rangePos h.start1 h.length1, h.length1)

def Hunk.range2 (h : Hunk α) : Nat × Nat := (rangePos h.start2 h.length2, h.length2)

/-- The rows a body takes from the first list. -/
def oldRows : List (RowKind × α) → List α
  | [] => []
  | (.added, _)::body => oldRows body
  | (.removed, x)::body => x :: oldRows body
  | (.context, x)::body => x :: oldRows body

/-- The rows a body takes from the second list. -/
def newRows : List (RowKind × α) → List α
  | [] => []
  | (.added, x)::body => x :: newRows body
  | (.removed, _)::body => newRows body
  | (.context, x)::body => x :: newRows body

/-- What lies outside the given ranges of a list, piece by piece. -/
def outside (l : List α) : Nat → List (Nat × Nat) → List (List α)
  | pos, [] => [l.drop pos]
  | pos, (p,n)::ranges => slice l pos p :: outside l (p+n) ranges

section
variable [DecidableEq α]

/-- Replay a body on the remaining lines: the lines it makes, and what is left after it. A row
that is not there is an error. -/
def applyBody : List (RowKind × α) → List α → Option (List α × List α)
  | [], rest => some ([], rest)
  | (.added, x)::body, rest => (applyBody body rest).map fun r => (x :: r.1, r.2)
  | (.removed, _)::_, [] => none
  | (.removed, x)::body, y::rest => if x = y then applyBody body rest else none
  | (.context, _)::_, [] => none
  | (.context, x)::body, y::rest =>
    if x = y then (applyBody body rest).map fun r => (x :: r.1, r.2) else none

/-- Replay hunks on the lines that are left from position `pos` on. -/
def applyHunks : Nat → List α → List (Hunk α) → Option (List α)
  | _, rest, [] => some rest
  | pos, rest, h::hunks =>
    if h.range1.1 < pos then none
    else match applyBody h.body (rest.drop (h.range1.1-pos)) with
      | none => none
      | some (made, left) => (applyHunks (h.range1.1+h.length1) left hunks).map fun tail =>
          rest.take (h.range1.1-pos) ++ made ++ tail

/-- The hunks are in order and apart, their headers are right, the lists agree outside them, and
replaying them turns `a` into `b`. -/
structure IsPatch (a b : List α) (hunks : List (Hunk α)) : Prop where
  ascending : hunks.Pairwise fun h k =>
    h.range1.1+h.length1 ≤ k.range1.1 ∧ h.range2.1+h.length2 ≤ k.range2.1
  length1 : ∀ h ∈ hunks, h.length1 = (oldRows h.body).length
  length2 : ∀ h ∈ hunks, h.length2 = (newRows h.body).length
  rows1 : ∀ h ∈ hunks, oldRows h.body = slice a h.range1.1 (h.range1.1+h.length1)
  rows2 : ∀ h ∈ hunks, newRows h.body = slice b h.range2.1 (h.range2.1+h.length2)
  outside : outside a 0 (hunks.map Hunk.range1) = outside b 0 (hunks.map Hunk.range2)
  applies : applyHunks 0 a hunks = some b

theorem applyBody_oldRows (body : List (RowKind × α)) (rest : List α) :
    applyBody body (oldRows body ++ rest) = some (newRows body, rest) := by
  induction body with
  | nil => rfl
  | cons row body ih =>
    obtain ⟨kind, x⟩ := row
    cases kind with
    | context => simp only [oldRows, newRows, List.cons_append, applyBody, if_pos, ih, Option.map_some]
    | removed => simp only [oldRows, newRows, List.cons_append, applyBody, if_pos, ih]
    | added => simp only [oldRows, newRows, applyBody, ih, Option.map_some]

end

theorem oldRows_append (body body' : List (RowKind × α)) :
    oldRows (body ++ body') = oldRows body ++ oldRows body' := by
  induction body with
  | nil => rfl
  | cons row body ih =>
    obtain ⟨kind, x⟩ := row
    cases kind <;> simp only [List.cons_append, oldRows, ih]

theorem newRows_append (body body' : List (RowKind × α)) :
    newRows (body ++ body') = newRows body ++ newRows body' := by
  induction body with
  | nil => rfl
  | cons row body ih =>
    obtain ⟨kind, x⟩ := row
    cases kind <;> simp only [List.cons_append, newRows, ih]

/-- Rows of one kind. -/
def rowsOf (kind : RowKind) (xs : List α) : List (RowKind × α) := xs.map fun x => (kind,x)

@[simp] theorem oldRows_context (xs : List α) : oldRows (rowsOf .context xs) = xs := by
  induction xs with
  | nil => rfl
  | cons x xs ih => exact congrArg (x :: ·) ih

@[simp] theorem newRows_context (xs : List α) : newRows (rowsOf .context xs) = xs := by
  induction xs with
  | nil => rfl
  | cons x xs ih => exact congrArg (x :: ·) ih

@[simp] theorem oldRows_removed (xs : List α) : oldRows (rowsOf .removed xs) = xs := by
  induction xs with
  | nil => rfl
  | cons x xs ih => exact congrArg (x :: ·) ih

@[simp] theorem newRows_removed (xs : List α) : newRows (rowsOf .removed xs) = [] := by
  induction xs with
  | nil => rfl
  | cons x xs ih => exact ih

@[simp] theorem oldRows_added (xs : List α) : oldRows (rowsOf .added xs) = [] := by
  induction xs with
  | nil => rfl
  | cons x xs ih => exact ih

@[simp] theorem newRows_added (xs : List α) : newRows (rowsOf .added xs) = xs := by
  induction xs with
  | nil => rfl
  | cons x xs ih => exact congrArg (x :: ·) ih

/-- The rows of one operation. -/
def opRows (a b : List α) (op : EditOp) : List (RowKind × α) :=
  match op.tag with
  | .equal => rowsOf .context (slice a op.i1 op.i2)
  | .delete => rowsOf .removed (slice a op.i1 op.i2)
  | .insert => rowsOf .added (slice b op.j1 op.j2)
  | .replace => rowsOf .removed (slice a op.i1 op.i2) ++ rowsOf .added (slice b op.j1 op.j2)

theorem oldRows_opRows {a b : List α} {op : EditOp} (h : op.Sound a b) :
    oldRows (opRows a b op) = slice a op.i1 op.i2 := by
  unfold opRows
  cases ht : op.tag with
  | equal => exact oldRows_context _
  | delete => exact oldRows_removed _
  | insert =>
    rw [h.insert ht, slice_self]
    exact oldRows_added _
  | replace => simp [oldRows_append]

theorem newRows_opRows {a b : List α} {op : EditOp} (h : op.Sound a b) :
    newRows (opRows a b op) = slice b op.j1 op.j2 := by
  unfold opRows
  cases ht : op.tag with
  | equal =>
    rw [← (h.equal ht).2]
    exact newRows_context _
  | delete =>
    rw [h.delete ht, slice_self]
    exact newRows_removed _
  | insert => exact newRows_added _
  | replace => simp [newRows_append]

/-- The hunk of a group of operations; a header from the first and the last of them. -/
def hunkOf (a b : List α) (ops : List EditOp) : Hunk α :=
  let i1 := (ops.head?.map EditOp.i1).getD 0
  let j1 := (ops.head?.map EditOp.j1).getD 0
  let i2 := (ops.getLast?.map EditOp.i2).getD 0
  let j2 := (ops.getLast?.map EditOp.j2).getD 0
  ⟨rangeStart i1 i2, i2-i1, rangeStart j1 j2, j2-j1, ops.flatMap (opRows a b)⟩

variable {a b : List α}

theorem Segment.rows {i j i' j' : Nat} {ops : List EditOp} (h : Segment a b i j ops i' j') :
    oldRows (ops.flatMap (opRows a b)) = slice a i i' ∧
    newRows (ops.flatMap (opRows a b)) = slice b j j' := by
  induction ops generalizing i j with
  | nil =>
    obtain ⟨rfl, rfl⟩ := h
    simp [oldRows, newRows]
  | cons op ops ih =>
    obtain ⟨rfl, rfl, hop, hrest⟩ := h
    obtain ⟨hold, hnew⟩ := ih hrest
    have hle := hrest.le
    rw [List.flatMap_cons, oldRows_append, newRows_append, oldRows_opRows hop, newRows_opRows hop,
      hold, hnew]
    exact ⟨slice_append_slice a _ _ _ hop.le1 hle.1, slice_append_slice b _ _ _ hop.le2 hle.2⟩

/-- What the hunk of a segment prints and holds. -/
structure HunkAt (a b : List α) (i j i' j' : Nat) (h : Hunk α) : Prop where
  range1 : h.range1 = (i, i'-i)
  range2 : h.range2 = (j, j'-j)
  le1 : i ≤ i'
  le2 : j ≤ j'
  bound1 : i' ≤ a.length
  bound2 : j' ≤ b.length
  rows1 : oldRows h.body = slice a i i'
  rows2 : newRows h.body = slice b j j'

theorem Segment.hunkAt {i j i' j' : Nat} {ops : List EditOp} (h : Segment a b i j ops i' j')
    (hops : ops ≠ []) : HunkAt a b i j i' j' (hunkOf a b ops) := by
  obtain ⟨op, ops', rfl⟩ := List.exists_cons_of_ne_nil hops
  obtain ⟨hi, hj⟩ := h.head
  obtain ⟨hi', hj'⟩ := h.getLast hops
  have hle := h.le
  have hbound := h.bound hops
  have hrows := h.rows
  have he : hunkOf a b (op::ops') =
      ⟨rangeStart i i', i'-i, rangeStart j j', j'-j, (op::ops').flatMap (opRows a b)⟩ := by
    simp only [hunkOf, List.head?_cons, Option.map_some, Option.getD_some,
      List.getLast?_eq_getLast_of_ne_nil hops, hi, hj, hi', hj']
  rw [he]
  refine ⟨?_, ?_, hle.1, hle.2, hbound.1, hbound.2, hrows.1, hrows.2⟩
  · show (rangePos (rangeStart i i') (i'-i), i'-i) = (i, i'-i)
    rw [rangePos_rangeStart]
  · show (rangePos (rangeStart j j') (j'-j), j'-j) = (j, j'-j)
    rw [rangePos_rangeStart]

/-- Every hunk stands behind the position its list of groups starts from. -/
theorem Covers.mem {i j : Nat} {groups : List (List EditOp)} (h : Covers a b i j groups)
    {hunk : Hunk α} (hmem : hunk ∈ groups.map (hunkOf a b)) :
    ∃ i1 j1 i2 j2, i ≤ i1 ∧ j ≤ j1 ∧ HunkAt a b i1 j1 i2 j2 hunk := by
  induction groups generalizing i j with
  | nil => simp at hmem
  | cons ops groups ih =>
    obtain ⟨i1, j1, i2, j2, hops, hi, hj, -, hsegment, hrest⟩ := h
    have hat := hsegment.hunkAt hops
    rw [List.map_cons, List.mem_cons] at hmem
    rcases hmem with rfl | hmem
    · exact ⟨i1, j1, i2, j2, hi, hj, hat⟩
    · obtain ⟨k1, l1, k2, l2, hk, hl, hat'⟩ := ih hrest hmem
      have hle1 := hat.le1
      have hle2 := hat.le2
      exact ⟨k1, l1, k2, l2, by omega, by omega, hat'⟩

theorem Covers.ascending {i j : Nat} {groups : List (List EditOp)} (h : Covers a b i j groups) :
    (groups.map (hunkOf a b)).Pairwise fun h k =>
      h.range1.1+h.length1 ≤ k.range1.1 ∧ h.range2.1+h.length2 ≤ k.range2.1 := by
  induction groups generalizing i j with
  | nil => exact List.Pairwise.nil
  | cons ops groups ih =>
    obtain ⟨i1, j1, i2, j2, hops, -, -, -, hsegment, hrest⟩ := h
    have hat := hsegment.hunkAt hops
    have hlength1 : (hunkOf a b ops).length1 = i2-i1 := congrArg Prod.snd hat.range1
    have hlength2 : (hunkOf a b ops).length2 = j2-j1 := congrArg Prod.snd hat.range2
    have hle1 := hat.le1
    have hle2 := hat.le2
    rw [List.map_cons, List.pairwise_cons]
    refine ⟨fun hunk hmem => ?_, ih hrest⟩
    obtain ⟨k1, l1, k2, l2, hk, hl, hat'⟩ := hrest.mem hmem
    rw [hlength1, hlength2, hat.range1, hat.range2, hat'.range1, hat'.range2]
    constructor
    · show i1+(i2-i1) ≤ k1
      omega
    · show j1+(j2-j1) ≤ l1
      omega

theorem Covers.outside {i j : Nat} {groups : List (List EditOp)} (h : Covers a b i j groups) :
    outside a i ((groups.map (hunkOf a b)).map Hunk.range1) =
      outside b j ((groups.map (hunkOf a b)).map Hunk.range2) := by
  induction groups generalizing i j with
  | nil => exact congrArg (fun l => [l]) h
  | cons ops groups ih =>
    obtain ⟨i1, j1, i2, j2, hops, -, -, hgap, hsegment, hrest⟩ := h
    have hat := hsegment.hunkAt hops
    rw [List.map_cons, List.map_cons, List.map_cons, hat.range1, hat.range2]
    unfold Framework.outside
    rw [Nat.add_sub_cancel' hat.le1, Nat.add_sub_cancel' hat.le2, hgap, ih hrest]

/-- Replaying the hunks on what is left of the first list makes what is left of the second. -/
theorem Covers.applies [DecidableEq α] {i j : Nat} {groups : List (List EditOp)}
    (h : Covers a b i j groups) :
    applyHunks i (a.drop i) (groups.map (hunkOf a b)) = some (b.drop j) := by
  induction groups generalizing i j with
  | nil => exact congrArg some h
  | cons ops groups ih =>
    obtain ⟨i1, j1, i2, j2, hops, hi, hj, hgap, hsegment, hrest⟩ := h
    have hat := hsegment.hunkAt hops
    have hpos : (hunkOf a b ops).range1.1 = i1 := congrArg Prod.fst hat.range1
    have hlength : (hunkOf a b ops).length1 = i2-i1 := congrArg Prod.snd hat.range1
    have hbody : applyBody (hunkOf a b ops).body ((a.drop i).drop (i1-i)) =
        some (slice b j1 j2, a.drop i2) := by
      rw [List.drop_drop, Nat.add_sub_cancel' hi, ← slice_append_drop a i1 i2 hat.le1,
        ← hat.rows1, applyBody_oldRows, hat.rows2]
    have hmade : slice a i i1 ++ slice b j1 j2 ++ b.drop j2 = b.drop j := by
      rw [hgap, List.append_assoc, slice_append_drop b j1 j2 hat.le2, slice_append_drop b j j1 hj]
    rw [List.map_cons, applyHunks, hpos, if_neg (by omega), hbody]
    dsimp only
    rw [hlength, Nat.add_sub_cancel' hat.le1, ih hrest, Option.map_some]
    exact congrArg some hmade

theorem HunkAt.ends {i j i' j' : Nat} {h : Hunk α} (hat : HunkAt a b i j i' j' h) :
    h.range1.1 = i ∧ h.length1 = i'-i ∧ h.range2.1 = j ∧ h.length2 = j'-j :=
  ⟨congrArg Prod.fst hat.range1, congrArg Prod.snd hat.range1, congrArg Prod.fst hat.range2,
    congrArg Prod.snd hat.range2⟩

/-- Groups that cover the lists print a patch. -/
theorem Covers.isPatch [DecidableEq α] {groups : List (List EditOp)} (h : Covers a b 0 0 groups) :
    IsPatch a b (groups.map (hunkOf a b)) where
  ascending := h.ascending
  length1 := by
    intro hunk hmem
    obtain ⟨i, j, i', j', -, -, hat⟩ := h.mem hmem
    rw [hat.rows1, hat.ends.2.1, length_slice a i i' hat.bound1]
  length2 := by
    intro hunk hmem
    obtain ⟨i, j, i', j', -, -, hat⟩ := h.mem hmem
    rw [hat.rows2, hat.ends.2.2.2, length_slice b j j' hat.bound2]
  rows1 := by
    intro hunk hmem
    obtain ⟨i, j, i', j', -, -, hat⟩ := h.mem hmem
    rw [hat.rows1, hat.ends.1, hat.ends.2.1, Nat.add_sub_cancel' hat.le1]
  rows2 := by
    intro hunk hmem
    obtain ⟨i, j, i', j', -, -, hat⟩ := h.mem hmem
    rw [hat.rows2, hat.ends.2.2.1, hat.ends.2.2.2, Nat.add_sub_cancel' hat.le2]
  outside := h.outside
  applies := h.applies

/-- Groups that name no operation cover equal lists only. -/
theorem Covers.eq_of_nil (h : Covers a b 0 0 []) : a = b := h

end DSigMatcher.Framework
