import DSigMatcher.Diff.PyInt
import DSigMatcher.Diff.QuickRatio
import DSigMatcher.Diff.UnifiedDiff
import Mathlib

namespace DSigMatcher.Diff
open DSigMatcher.Base DSigMatcher.Framework

/-- A cell of a text column: SQL NULL, a blob or a text. -/
inductive Cell
  | null
  | blob (bytes : Text)
  | str (bytes : Text)
  deriving DecidableEq

inductive CellState
  | null | emptyStr | blob | text
  deriving DecidableEq

inductive Side
  | main | diff
  deriving DecidableEq

/-- A prepared cell: where its runs begin, how many they are, and the pieces of its text. -/
structure PreparedText where
  state : CellState
  start : UInt32
  count : UInt32
  pieces : Nat
  deriving DecidableEq

/-- The rows of one side, and the runs of all of them: a line id and how often it occurs. -/
structure PreparedSide where
  rows : List PreparedText
  runs : List (UInt32 × UInt32)

structure PreparedColumn where
  main : PreparedSide
  diff : PreparedSide
  lineIds : InsertionDict Text UInt32

/-- `SplitPieces` as Python's `split("\n")` does: empty pieces stay. -/
def splitPieces (t : Text) : List Text := t.splitOn 10

/-- The runs of a sorted list after `n` times `id`. -/
def runsFrom (id : UInt32) (n : Nat) : List UInt32 → List (UInt32 × UInt32)
  | [] => [(id, UInt32.ofNat n)]
  | next::ids =>
    if next = id then runsFrom id (n+1) ids
    else (id, UInt32.ofNat n) :: runsFrom next 1 ids

def runsOf : List UInt32 → List (UInt32 × UInt32)
  | [] => []
  | id::ids => runsFrom id 1 ids

/-- The runs of the lines of a text, in the order of their ids. -/
def sortedRuns (ids : List UInt32) : List (UInt32 × UInt32) :=
  runsOf (ids.insertionSort (· ≤ ·))

def prepareRow (s : InsertionDict Text UInt32 × PreparedSide) (cell : Cell) :
    InsertionDict Text UInt32 × PreparedSide :=
  match cell with
  | .null => (s.1, ⟨s.2.rows ++ [⟨.null,0,0,0⟩], s.2.runs⟩)
  | .blob _ => (s.1, ⟨s.2.rows ++ [⟨.blob,0,0,0⟩], s.2.runs⟩)
  | .str t =>
    if t.isEmpty then (s.1, ⟨s.2.rows ++ [⟨.emptyStr,0,0,0⟩], s.2.runs⟩)
    else
      let pieces := splitPieces t
      let interned := internAll s.1 pieces
      let start := UInt32.ofNat s.2.runs.length
      let runs := s.2.runs ++ sortedRuns interned.2
      (interned.1,
        ⟨s.2.rows ++ [⟨.text, start, UInt32.ofNat runs.length-start, pieces.length⟩], runs⟩)

def prepareSide (lineIds : InsertionDict Text UInt32) (cells : List Cell) :
    InsertionDict Text UInt32 × PreparedSide :=
  cells.foldl prepareRow (lineIds,⟨[],[]⟩)

/-- `PrepareColumn`: the line ids are shared by both sides. -/
def prepareColumn (main diff : List Cell) : PreparedColumn :=
  let first := prepareSide .empty main
  let second := prepareSide first.1 diff
  ⟨first.2, second.2, second.1⟩

def PreparedColumn.side (column : PreparedColumn) : Side → PreparedSide
  | .main => column.main
  | .diff => column.diff

/-- The runs that a prepared cell points to. -/
def PreparedSide.runsAt (side : PreparedSide) (row : PreparedText) : List (UInt32 × UInt32) :=
  (side.runs.drop row.start.toNat).take row.count.toNat

/-- Go through two lists of runs side by side. -/
def mergeRuns : List (UInt32 × UInt32) → List (UInt32 × UInt32) → Nat
  | [], _ => 0
  | _, [] => 0
  | (i,m)::runA, (j,n)::runB =>
    if i < j then mergeRuns runA ((j,n)::runB)
    else if j < i then mergeRuns ((i,m)::runA) runB
    else (min m n).toNat+mergeRuns runA runB
termination_by runA runB => runA.length+runB.length

/-- `2.0 * matches / length`. -/
def ratioOf (counts : Nat × Nat) : Binary64 := (two.mul (.ofNat counts.1)).div (.ofNat counts.2)

/-- The matches and the total length of two prepared cells. -/
def preparedCounts (column : PreparedColumn) (sideA : Side) (a : PreparedText) (sideB : Side)
    (b : PreparedText) : Nat × Nat :=
  (mergeRuns ((column.side sideA).runsAt a) ((column.side sideB).runsAt b), a.pieces+b.pieces)

/-- `QuickPrepared`; a row that is not there has no result. -/
def quickPrepared (column : PreparedColumn) (sideA : Side) (rowA : Nat) (sideB : Side) (rowB : Nat)
    (name : Text) : Option (Except DiffError Binary64) :=
  (column.side sideA).rows[rowA]?.bind fun a =>
  (column.side sideB).rows[rowB]?.map fun b =>
    if a.state = .null ∨ b.state = .null then .ok .zero
    else if a.state = .emptyStr ∨ b.state = .emptyStr then .ok .zero
    else if a.state = .blob ∨ b.state = .blob then
      .error (.wouldRaise (text "D:163 quick_ratio")
        (text "TypeError: a bytes-like object is required, not 'str' (BLOB in " ++ name ++ text ")"))
    else .ok (ratioOf (preparedCounts column sideA a sideB b))

section
variable {α : Type*} [DecidableEq α]

/-- A piece of `b`: one more of it is there. -/
def countPiece (available : InsertionDict α Int) (piece : α) : InsertionDict α Int :=
  available.put piece ((available.find? piece).getD 0+1)

/-- A piece of `a`: it takes one of those left. -/
def takePiece (s : InsertionDict α Int × Nat) (piece : α) : InsertionDict α Int × Nat :=
  match s.1.find? piece with
  | some left => if 0 < left then (s.1.put piece (left-1), s.2+1) else s
  | none => s

end

def directCounts (a b : Text) : Nat × Nat :=
  let piecesA := splitPieces a
  let piecesB := splitPieces b
  let available := piecesB.foldl countPiece .empty
  ((piecesA.foldl takePiece (available,0)).2, piecesA.length+piecesB.length)

/-- `RatioEngine::QuickRatio`. -/
def quickRatio (a b : Option Text) : Binary64 :=
  match a, b with
  | some a, some b => if a.isEmpty || b.isEmpty then .zero else ratioOf (directCounts a b)
  | _, _ => .zero

section
variable {α : Type*} [DecidableEq α]

theorem common_perm {a a' b b' : List α} (ha : a.Perm a') (hb : b.Perm b') :
    common a b = common a' b' := by
  rw [common, common, Multiset.coe_eq_coe.mpr ha, Multiset.coe_eq_coe.mpr hb]

theorem common_comm (a b : List α) : common a b = common b a := by
  rw [common, common, Multiset.inter_comm]

theorem common_self (a : List α) : common a a = a.length := by
  have hself : (a : Multiset α) ∩ (a : Multiset α) = a :=
    le_antisymm Multiset.inter_le_left (Multiset.le_inter (le_refl _) (le_refl _))
  rw [common, hself, Multiset.coe_card]

theorem common_map_le {β : Type*} [DecidableEq β] (f : α → β) (a b : List α) :
    common a b ≤ common (a.map f) (b.map f) := by
  have hle : ((a : Multiset α) ∩ (b : Multiset α)).map f ≤
      ((a.map f : List β) : Multiset β) ∩ ((b.map f : List β) : Multiset β) :=
    Multiset.le_inter (Multiset.map_le_map Multiset.inter_le_left)
      (Multiset.map_le_map Multiset.inter_le_right)
  have hcard := Multiset.card_le_card hle
  rwa [Multiset.card_map] at hcard

/-- Names that tell the elements apart do not change what is in common. -/
theorem common_map {β : Type*} [DecidableEq β] [Nonempty α] (f : α → β) (a b : List α)
    (hf : ∀ x ∈ a ++ b, ∀ y ∈ a ++ b, f x = f y → x = y) :
    common (a.map f) (b.map f) = common a b := by
  have hinj : Set.InjOn f {x | x ∈ a ++ b} := fun x hx y hy hxy => hf x hx y hy hxy
  have hback : ∀ l : List α, (∀ x ∈ l, x ∈ a ++ b) →
      (l.map f).map (Function.invFunOn f {x | x ∈ a ++ b}) = l := by
    intro l hl
    rw [List.map_map]
    exact (List.map_congr_left (g := id) fun x hx => hinj.leftInvOn_invFunOn (hl x hx)).trans
      (List.map_id l)
  apply Nat.le_antisymm _ (common_map_le f a b)
  have hle := common_map_le (Function.invFunOn f {x | x ∈ a ++ b}) (a.map f) (b.map f)
  rwa [hback a fun x => List.mem_append_left b, hback b fun x => List.mem_append_right a] at hle

/-- Elements that the other sequence does not have add nothing. -/
theorem common_append_left {xs a b : List α} (h : ∀ x ∈ xs, x ∉ b) :
    common (xs ++ a) b = common a b := by
  have hsame : ((xs ++ a : List α) : Multiset α) ∩ (b : Multiset α) = (a : Multiset α) ∩ b := by
    ext x
    rw [Multiset.count_inter, Multiset.count_inter, Multiset.coe_count, Multiset.coe_count,
      Multiset.coe_count, List.count_append]
    by_cases hx : x ∈ xs
    · rw [List.count_eq_zero_of_not_mem (h x hx), Nat.min_zero, Nat.min_zero]
    · rw [List.count_eq_zero_of_not_mem hx, Nat.zero_add]
  rw [common, hsame]
  rfl

/-- An element repeated in both sequences, and nowhere else. -/
theorem common_replicate {x : α} {a b : List α} (ha : x ∉ a) (hb : x ∉ b) (m n : Nat) :
    common (List.replicate m x ++ a) (List.replicate n x ++ b) = min m n+common a b := by
  have hsplit : ((List.replicate m x ++ a : List α) : Multiset α) ∩
      ((List.replicate n x ++ b : List α) : Multiset α) =
      ((List.replicate (min m n) x : List α) : Multiset α) + (a : Multiset α) ∩ b := by
    ext y
    rw [Multiset.count_inter, Multiset.count_add, Multiset.count_inter, Multiset.coe_count,
      Multiset.coe_count, Multiset.coe_count, Multiset.coe_count, Multiset.coe_count,
      List.count_append, List.count_append, List.count_replicate, List.count_replicate,
      List.count_replicate]
    by_cases hy : x = y
    · subst hy
      rw [List.count_eq_zero_of_not_mem ha, List.count_eq_zero_of_not_mem hb]
      simp
    · simp [hy]
  rw [common, hsplit, Multiset.card_add, Multiset.coe_card, List.length_replicate]
  rfl

end

/-- The ids that a list of runs stands for. -/
def expandRuns (runs : List (UInt32 × UInt32)) : List UInt32 :=
  runs.flatMap fun r => List.replicate r.2.toNat r.1

def Ascending (runs : List (UInt32 × UInt32)) : Prop := runs.Pairwise fun r s => r.1 < s.1

theorem mem_expandRuns {runs : List (UInt32 × UInt32)} {id : UInt32} (h : id ∈ expandRuns runs) :
    ∃ r ∈ runs, id = r.1 := by
  obtain ⟨r, hr, hid⟩ := List.mem_flatMap.mp h
  exact ⟨r, hr, List.eq_of_mem_replicate hid⟩

theorem expandRuns_runsFrom (id : UInt32) (n : Nat) (ids : List UInt32)
    (h : n+ids.length < 2^32) : expandRuns (runsFrom id n ids) = List.replicate n id ++ ids := by
  have hcount : ∀ m, m < 2^32 → (UInt32.ofNat m).toNat = m := fun m hm =>
    UInt32.toNat_ofNat_of_lt' hm
  induction ids generalizing id n with
  | nil => simp [runsFrom, expandRuns, hcount n (by simpa using h)]
  | cons next ids ih =>
    rw [List.length_cons] at h
    unfold runsFrom
    split_ifs with hnext
    · rw [ih id (n+1) (by omega), hnext, List.replicate_succ', List.append_assoc]
      rfl
    · have hrest := ih next 1 (by omega)
      show List.replicate (UInt32.ofNat n).toNat id ++ expandRuns (runsFrom next 1 ids) = _
      rw [hrest, hcount n (by omega)]
      rfl

theorem runsFrom_ascending (id : UInt32) (n : Nat) (ids : List UInt32)
    (h : (id::ids).Pairwise (· ≤ ·)) :
    Ascending (runsFrom id n ids) ∧ ∀ r ∈ runsFrom id n ids, id ≤ r.1 := by
  induction ids generalizing id n with
  | nil => simp [runsFrom, Ascending]
  | cons next ids ih =>
    obtain ⟨hfirst, hrest⟩ := List.pairwise_cons.mp h
    unfold runsFrom
    split_ifs with hnext
    · subst hnext
      exact ih next (n+1) hrest
    · obtain ⟨hasc, hfrom⟩ := ih next 1 hrest
      have hle : id ≤ next := hfirst next List.mem_cons_self
      have hlt : id < next := UInt32.lt_of_le_of_ne hle (Ne.symm hnext)
      constructor
      · exact List.pairwise_cons.mpr ⟨fun r hr => UInt32.lt_of_lt_of_le hlt (hfrom r hr), hasc⟩
      · rintro r (_ | ⟨_, hr⟩)
        · exact UInt32.le_refl id
        · exact UInt32.le_trans hle (hfrom r hr)

theorem length_runsFrom (id : UInt32) (n : Nat) (ids : List UInt32) :
    (runsFrom id n ids).length ≤ ids.length+1 := by
  induction ids generalizing id n with
  | nil => exact Nat.le_refl 1
  | cons next ids ih =>
    unfold runsFrom
    split_ifs
    · exact Nat.le_succ_of_le (ih id (n+1))
    · exact Nat.succ_le_succ (ih next 1)

/-- The runs of a text are ascending and stand for its ids. -/
theorem sortedRuns_spec (ids : List UInt32) (h : ids.length < 2^32) :
    Ascending (sortedRuns ids) ∧ (expandRuns (sortedRuns ids)).Perm ids ∧
      (sortedRuns ids).length < 2^32 := by
  have hperm := List.perm_insertionSort (· ≤ ·) ids
  have hsorted := List.pairwise_insertionSort (· ≤ ·) ids
  have hlength := hperm.length_eq
  unfold sortedRuns
  generalize ids.insertionSort (· ≤ ·) = sorted at hperm hsorted hlength
  cases sorted with
  | nil => exact ⟨List.Pairwise.nil, hperm, Nat.two_pow_pos 32⟩
  | cons id rest =>
    rw [List.length_cons] at hlength
    refine ⟨(runsFrom_ascending id 1 rest hsorted).1, ?_, ?_⟩
    · have hexpand := expandRuns_runsFrom id 1 rest (by omega)
      rw [runsOf, hexpand]
      exact hperm
    · have hruns := length_runsFrom id 1 rest
      rw [runsOf]
      omega

/-- Ids before all of another list's runs are not among the ids these stand for. -/
theorem not_mem_expandRuns {runs : List (UInt32 × UInt32)} {id : UInt32}
    (h : ∀ r ∈ runs, id < r.1) : id ∉ expandRuns runs := by
  intro hmem
  obtain ⟨r, hr, rfl⟩ := mem_expandRuns hmem
  exact UInt32.lt_irrefl _ (h r hr)

/-- Two ascending lists of runs have in common what they stand for. -/
theorem mergeRuns_eq (runA runB : List (UInt32 × UInt32)) (hA : Ascending runA)
    (hB : Ascending runB) : mergeRuns runA runB = common (expandRuns runA) (expandRuns runB) := by
  fun_induction mergeRuns runA runB with
  | case1 runB => simp [expandRuns, common]
  | case2 runA => simp [expandRuns, common]
  | case3 i m runA j n runB hlt ih =>
    obtain ⟨-, hA'⟩ := List.pairwise_cons.mp hA
    have hB' := (List.pairwise_cons.mp hB).1
    have hnone : i ∉ expandRuns ((j,n)::runB) := by
      apply not_mem_expandRuns
      rintro r (_ | ⟨_, hr⟩)
      · exact hlt
      · exact UInt32.lt_trans hlt (hB' r hr)
    rw [ih hA' hB]
    refine (common_append_left fun x hx => ?_).symm
    rw [List.eq_of_mem_replicate hx]
    exact hnone
  | case4 i m runA j n runB hge hlt ih =>
    have hA' := (List.pairwise_cons.mp hA).1
    obtain ⟨-, hB'⟩ := List.pairwise_cons.mp hB
    have hnone : j ∉ expandRuns ((i,m)::runA) := by
      apply not_mem_expandRuns
      rintro r (_ | ⟨_, hr⟩)
      · exact hlt
      · exact UInt32.lt_trans hlt (hA' r hr)
    rw [ih hA hB', common_comm, common_comm (expandRuns ((i,m)::runA))]
    refine (common_append_left fun x hx => ?_).symm
    rw [List.eq_of_mem_replicate hx]
    exact hnone
  | case5 i m runA j n runB hge hge' ih =>
    obtain ⟨hfirstA, hA'⟩ := List.pairwise_cons.mp hA
    obtain ⟨hfirstB, hB'⟩ := List.pairwise_cons.mp hB
    obtain rfl : i = j := UInt32.le_antisymm (UInt32.not_lt.mp hge') (UInt32.not_lt.mp hge)
    have hmin : (min m n).toNat = min m.toNat n.toNat := by
      show (if m ≤ n then m else n).toNat = _
      split_ifs with hle
      · exact (Nat.min_eq_left (UInt32.le_iff_toNat_le.mp hle)).symm
      · have hge := UInt32.le_iff_toNat_le.not.mp hle
        exact (Nat.min_eq_right (by omega)).symm
    rw [ih hA' hB', hmin]
    exact (common_replicate (not_mem_expandRuns hfirstA) (not_mem_expandRuns hfirstB) _ _).symm

/-- What preparing more cells keeps: the rows, the runs and the ids there are. -/
structure Grows (s s' : InsertionDict Text UInt32 × PreparedSide) : Prop where
  numbered : Numbered s'.1
  ids : ∀ e ∈ s.1.entries, e ∈ s'.1.entries
  rows : s.2.rows <+: s'.2.rows
  runs : s.2.runs <+: s'.2.runs

section
variable {s t u : InsertionDict Text UInt32 × PreparedSide}

theorem Grows.refl (h : Numbered s.1) : Grows s s :=
  ⟨h, fun _ he => he, List.prefix_refl _, List.prefix_refl _⟩

theorem Grows.trans (h : Grows s t) (h' : Grows t u) : Grows s u :=
  ⟨h'.numbered, fun e he => h'.ids e (h.ids e he), h.rows.trans h'.rows, h.runs.trans h'.runs⟩

/-- A text that is not empty: its pieces get ids, and its runs go behind the others. -/
theorem prepareRow_str (h : Numbered s.1) {t : Text} (ht : t ≠ []) :
    Grows s (prepareRow s (.str t)) ∧
      (∀ line ∈ splitPieces t, line ∈ (prepareRow s (.str t)).1.keys) ∧
      (prepareRow s (.str t)).2.runs = s.2.runs ++
        sortedRuns ((splitPieces t).map (idOf (prepareRow s (.str t)).1)) ∧
      (prepareRow s (.str t)).2.rows = s.2.rows ++ [⟨.text, UInt32.ofNat s.2.runs.length,
        UInt32.ofNat (sortedRuns ((splitPieces t).map (idOf (prepareRow s (.str t)).1))).length,
        (splitPieces t).length⟩] := by
  obtain ⟨hinterned, hids⟩ := internAll_spec h (splitPieces t)
  have hempty : t.isEmpty = false := List.isEmpty_eq_false_iff.mpr ht
  have hrow : prepareRow s (.str t) = ((internAll s.1 (splitPieces t)).1,
      ⟨s.2.rows ++ [⟨.text, UInt32.ofNat s.2.runs.length,
        UInt32.ofNat (s.2.runs ++ sortedRuns (internAll s.1 (splitPieces t)).2).length-
          UInt32.ofNat s.2.runs.length, (splitPieces t).length⟩],
        s.2.runs ++ sortedRuns (internAll s.1 (splitPieces t)).2⟩) := by
    simp [prepareRow, hempty]
  have hcount : ∀ m n : Nat, UInt32.ofNat (m+n)-UInt32.ofNat m = UInt32.ofNat n := by
    intro m n
    rw [UInt32.ofNat_add, UInt32.add_comm, UInt32.add_sub_cancel]
  rw [hrow, hids, List.length_append, hcount]
  exact ⟨⟨hinterned.numbered, hinterned.old, List.prefix_append _ _, List.prefix_append _ _⟩,
    hinterned.met, rfl, rfl⟩

/-- Any other cell gives a row without runs. -/
theorem prepareRow_other {cell : Cell} (hcell : ∀ t, cell = .str t → t = []) :
    ∃ row, prepareRow s cell = (s.1, ⟨s.2.rows ++ [row], s.2.runs⟩) := by
  cases cell with
  | null => exact ⟨_, rfl⟩
  | blob bytes => exact ⟨_, rfl⟩
  | str t =>
    obtain rfl := hcell t rfl
    exact ⟨_, rfl⟩

theorem prepareRow_grows (h : Numbered s.1) (cell : Cell) :
    Grows s (prepareRow s cell) ∧ (prepareRow s cell).2.rows.length = s.2.rows.length+1 := by
  by_cases hcell : ∀ t, cell = .str t → t = []
  · obtain ⟨row, hrow⟩ := prepareRow_other (s := s) hcell
    rw [hrow]
    exact ⟨⟨h, fun _ he => he, List.prefix_append _ _, List.prefix_refl _⟩, List.length_append⟩
  · simp only [not_forall] at hcell
    obtain ⟨t, rfl, ht⟩ := hcell
    obtain ⟨hgrows, -, -, hrows⟩ := prepareRow_str h ht
    refine ⟨hgrows, ?_⟩
    rw [hrows, List.length_append]
    rfl

theorem prepareRows_grow (h : Numbered s.1) (cells : List Cell) :
    Grows s (cells.foldl prepareRow s) ∧
      (cells.foldl prepareRow s).2.rows.length = s.2.rows.length+cells.length := by
  induction cells generalizing s with
  | nil => exact ⟨.refl h, rfl⟩
  | cons cell cells ih =>
    obtain ⟨hfirst, hlength⟩ := prepareRow_grows h cell
    obtain ⟨hrest, hlength'⟩ := ih hfirst.numbered
    refine ⟨hfirst.trans hrest, ?_⟩
    rw [List.foldl_cons, hlength', hlength, List.length_cons]
    omega

end

/-- A prepared text in its column: what its row says and points to. -/
structure PreparedAs (ids : InsertionDict Text UInt32) (side : PreparedSide) (t : Text)
    (row : PreparedText) : Prop where
  state : row.state = .text
  pieces : row.pieces = (splitPieces t).length
  lines : ∀ line ∈ splitPieces t, line ∈ ids.keys
  runs : side.runsAt row = sortedRuns ((splitPieces t).map (idOf ids))

theorem PreparedAs.grown {ids ids' : InsertionDict Text UInt32} {side : PreparedSide} {t : Text}
    {row : PreparedText} (h : PreparedAs ids side t row)
    (hold : ∀ e ∈ ids.entries, e ∈ ids'.entries) : PreparedAs ids' side t row := by
  have hids : (splitPieces t).map (idOf ids') = (splitPieces t).map (idOf ids) :=
    List.map_congr_left fun line hline => idOf_of_old hold (h.lines line hline)
  refine ⟨h.state, h.pieces, fun line hline => ?_, ?_⟩
  · obtain ⟨e, he, rfl⟩ := List.mem_map.mp (h.lines line hline)
    exact List.mem_map_of_mem (hold e he)
  · rw [hids]
    exact h.runs

/-- A text stays prepared, as long as the place of its runs fits the 32 bits of its row. -/
theorem prepareSide_at {ids : InsertionDict Text UInt32} (h : Numbered ids) {cells : List Cell}
    {k : Nat} {t : Text} (hk : cells[k]? = some (.str t)) (ht : t ≠ [])
    (hbefore : (prepareSide ids (cells.take k)).2.runs.length < 2^32)
    (hpieces : (splitPieces t).length < 2^32) :
    ∃ row, (prepareSide ids cells).2.rows[k]? = some row ∧
      PreparedAs (prepareSide ids cells).1 (prepareSide ids cells).2 t row := by
  obtain ⟨hlt, hget⟩ := List.getElem?_eq_some_iff.mp hk
  have hsplit : cells = cells.take k ++ .str t :: cells.drop (k+1) := by
    rw [← hget, ← List.drop_eq_getElem_cons hlt, List.take_append_drop]
  obtain ⟨hstart, hrows⟩ := prepareRows_grow (s := (ids,⟨[],[]⟩)) h (cells.take k)
  have hfold : prepareSide ids cells = (cells.drop (k+1)).foldl prepareRow
      (prepareRow (prepareSide ids (cells.take k)) (.str t)) := by
    conv_lhs => rw [hsplit]
    rw [prepareSide, List.foldl_append, List.foldl_cons]
    rfl
  have hnumbered : Numbered (prepareSide ids (cells.take k)).1 := hstart.numbered
  have hlength : (prepareSide ids (cells.take k)).2.rows.length = k := by
    have htake := List.length_take_of_le (Nat.le_of_lt hlt)
    rw [prepareSide, hrows, htake]
    exact Nat.zero_add k
  generalize prepareSide ids (cells.take k) = before at hbefore hfold hnumbered hlength
  obtain ⟨hgrows, hlines, hruns, hrow⟩ := prepareRow_str hnumbered ht
  obtain ⟨hlater, -⟩ := prepareRows_grow hgrows.numbered (cells.drop (k+1))
  rw [← hfold] at hlater
  generalize prepareRow before (.str t) = here at *
  obtain ⟨rows, hrows'⟩ := hlater.rows
  obtain ⟨runs, hruns'⟩ := hlater.runs
  obtain ⟨-, -, hsmall⟩ := sortedRuns_spec ((splitPieces t).map (idOf here.1))
    (by rw [List.length_map]; exact hpieces)
  have hat : (prepareSide ids cells).2.runsAt ⟨.text, UInt32.ofNat before.2.runs.length,
      UInt32.ofNat (sortedRuns ((splitPieces t).map (idOf here.1))).length,
      (splitPieces t).length⟩ = sortedRuns ((splitPieces t).map (idOf here.1)) := by
    rw [PreparedSide.runsAt, ← hruns', hruns, UInt32.toNat_ofNat_of_lt' hbefore,
      UInt32.toNat_ofNat_of_lt' hsmall, List.append_assoc, List.drop_left, List.take_left]
  refine ⟨_, ?_, PreparedAs.grown ⟨rfl, rfl, hlines, hat⟩ hlater.ids⟩
  rw [← hrows', hrow, List.append_assoc, List.getElem?_append_right (Nat.le_of_eq hlength),
    hlength, Nat.sub_self]
  rfl

/-- The runs of the rows before a row of a side. -/
def runsBefore (main diff : List Cell) : Side → Nat → Nat
  | .main, row => (prepareSide .empty (main.take row)).2.runs.length
  | .diff, row => (prepareSide (prepareSide .empty main).1 (diff.take row)).2.runs.length

def cellsOf (main diff : List Cell) : Side → List Cell
  | .main => main
  | .diff => diff

theorem prepareColumn_at {main diff : List Cell} {side : Side} {k : Nat} {t : Text}
    (hk : (cellsOf main diff side)[k]? = some (.str t)) (ht : t ≠ [])
    (hbefore : runsBefore main diff side k < 2^32) (hpieces : (splitPieces t).length < 2^32) :
    ∃ row, ((prepareColumn main diff).side side).rows[k]? = some row ∧
      PreparedAs (prepareColumn main diff).lineIds ((prepareColumn main diff).side side) t row := by
  have hempty : Numbered InsertionDict.empty := by
    intro t line id ht
    simp [InsertionDict.empty] at ht
  obtain ⟨hfirst, -⟩ := prepareRows_grow (s := (.empty,⟨[],[]⟩)) hempty main
  obtain ⟨hsecond, -⟩ := prepareRows_grow (s := ((prepareSide .empty main).1,⟨[],[]⟩))
    hfirst.numbered diff
  cases side with
  | main =>
    obtain ⟨row, hrow, hprepared⟩ := prepareSide_at hempty hk ht hbefore hpieces
    exact ⟨row, hrow, hprepared.grown hsecond.ids⟩
  | diff => exact prepareSide_at hfirst.numbered hk ht hbefore hpieces

theorem prepareColumn_numbered (main diff : List Cell) :
    Numbered (prepareColumn main diff).lineIds := by
  have hempty : Numbered InsertionDict.empty := by
    intro t line id ht
    simp [InsertionDict.empty] at ht
  obtain ⟨hfirst, -⟩ := prepareRows_grow (s := (.empty,⟨[],[]⟩)) hempty main
  exact (prepareRows_grow (s := ((prepareSide .empty main).1,⟨[],[]⟩)) hfirst.numbered diff).1.numbered

/-- Two prepared texts count what their pieces have in common. -/
theorem preparedCounts_eq {column : PreparedColumn} {sideA sideB : Side} {tA tB : Text}
    {a b : PreparedText} (hA : PreparedAs column.lineIds (column.side sideA) tA a)
    (hB : PreparedAs column.lineIds (column.side sideB) tB b) (hids : Numbered column.lineIds)
    (hlines : column.lineIds.entries.length ≤ 2^32) (hlengthA : (splitPieces tA).length < 2^32)
    (hlengthB : (splitPieces tB).length < 2^32) :
    preparedCounts column sideA a sideB b = (common (splitPieces tA) (splitPieces tB),
      (splitPieces tA).length+(splitPieces tB).length) := by
  obtain ⟨hascA, hpermA, -⟩ := sortedRuns_spec ((splitPieces tA).map (idOf column.lineIds))
    (by rw [List.length_map]; exact hlengthA)
  obtain ⟨hascB, hpermB, -⟩ := sortedRuns_spec ((splitPieces tB).map (idOf column.lineIds))
    (by rw [List.length_map]; exact hlengthB)
  have hinj : ∀ x ∈ splitPieces tA ++ splitPieces tB, ∀ y ∈ splitPieces tA ++ splitPieces tB,
      idOf column.lineIds x = idOf column.lineIds y → x = y := by
    have hmem : ∀ x ∈ splitPieces tA ++ splitPieces tB, x ∈ column.lineIds.keys := by
      intro x hx
      exact (List.mem_append.mp hx).elim (hA.lines x) (hB.lines x)
    intro x hx y hy hxy
    exact idOf_inj hids hlines (hmem x hx) (hmem y hy) hxy
  rw [preparedCounts, hA.runs, hB.runs, mergeRuns_eq _ _ hascA hascB, common_perm hpermA hpermB,
    common_map _ _ _ hinj, hA.pieces, hB.pieces]

section
variable {α : Type*} [DecidableEq α]

/-- What is left of the pieces of `b` once those of `done` have taken theirs. -/
structure Taken (b done : List α) (s : InsertionDict α Int × Nat) : Prop where
  left : ∀ x, s.1.find? x =
    if x ∈ b then some ((b.count x-done.count x : Nat) : Int) else none
  found : s.2 = common done b

theorem countPieces_find? (b : List α) (x : α) :
    (b.foldl countPiece .empty).find? x = if x ∈ b then some (b.count x : Int) else none := by
  induction b using List.reverseRecOn with
  | nil => rfl
  | append_singleton b piece ih =>
    rw [List.foldl_append, List.foldl_cons, List.foldl_nil, countPiece, InsertionDict.find?_put,
      count_append_singleton]
    by_cases hx : x = piece
    · subst hx
      rw [if_pos rfl, if_pos (by simp), if_pos rfl, ih]
      by_cases hmem : x ∈ b
      · rw [if_pos hmem]
        rfl
      · rw [if_neg hmem, List.count_eq_zero_of_not_mem hmem]
        rfl
    · rw [if_neg hx, if_neg hx, ih]
      simp [hx]

theorem takePiece_taken {b done : List α} {s : InsertionDict α Int × Nat}
    (h : Taken b done s) (x : α) : Taken b (done ++ [x]) (takePiece s x) := by
  have hfind := h.left x
  unfold takePiece
  by_cases hx : x ∈ b
  · rw [if_pos hx] at hfind
    rw [hfind]
    dsimp only
    by_cases hleft : done.count x < b.count x
    · rw [if_pos (by omega)]
      refine ⟨fun y => ?_, ?_⟩
      · rw [InsertionDict.find?_put, h.left, count_append_singleton]
        by_cases hyx : y = x
        · subst hyx
          rw [if_pos rfl, if_pos hx, if_pos rfl]
          congr 1
          omega
        · rw [if_neg hyx, if_neg hyx]
          rfl
      · rw [h.found, common_append_singleton, if_pos hleft]
    · rw [if_neg (by omega)]
      refine ⟨fun y => ?_, ?_⟩
      · rw [h.left, count_append_singleton]
        by_cases hyx : y = x
        · subst hyx
          rw [if_pos hx, if_pos hx, if_pos rfl]
          congr 2
          omega
        · rw [if_neg hyx]
          rfl
      · rw [h.found, common_append_singleton, if_neg hleft]
  · rw [if_neg hx] at hfind
    rw [hfind]
    dsimp only
    refine ⟨fun y => ?_, ?_⟩
    · rw [h.left, count_append_singleton]
      by_cases hyx : y = x
      · subst hyx
        rw [if_neg hx, if_neg hx]
      · rw [if_neg hyx]
        rfl
    · rw [h.found, common_append_singleton, List.count_eq_zero_of_not_mem hx,
        if_neg (Nat.not_lt_zero _)]

/-- The pieces of `a` that find one left are those in common. -/
theorem takePieces_found (a b : List α) :
    (a.foldl takePiece (b.foldl countPiece .empty,0)).2 = common a b := by
  have hfold : ∀ (rest done : List α) (s : InsertionDict α Int × Nat), Taken b done s →
      Taken b (done ++ rest) (rest.foldl takePiece s) := by
    intro rest
    induction rest with
    | nil =>
      intro done s h
      rwa [List.append_nil]
    | cons x rest ih =>
      intro done s h
      have hnext := ih _ _ (takePiece_taken h x)
      rwa [List.append_assoc] at hnext
  have hstart : Taken b [] ((b.foldl countPiece .empty, 0) : InsertionDict α Int × Nat) := by
    refine ⟨fun x => ?_, ?_⟩
    · rw [countPieces_find?]
      rfl
    · simp [common]
  exact (hfold a [] _ hstart).found

end

theorem directCounts_eq (a b : Text) :
    directCounts a b = (common (splitPieces a) (splitPieces b),
      (splitPieces a).length+(splitPieces b).length) := by
  rw [directCounts, takePieces_found]

theorem length_splitPieces_pos (t : Text) : 0 < (splitPieces t).length :=
  List.length_pos_of_ne_nil (List.splitOn_ne_nil _ _)

/-- Two texts that are not empty, in columns whose counters fit their 32 bits: all three ways count
the same matches and the same total, and their ratios are one. -/
theorem quickRatios_agree (main diff : List Cell) (sideA sideB : Side) (rowA rowB : Nat)
    (tA tB name : Text) (autoJunk : Bool)
    (hA : (cellsOf main diff sideA)[rowA]? = some (.str tA))
    (hB : (cellsOf main diff sideB)[rowB]? = some (.str tB)) (htA : tA ≠ []) (htB : tB ≠ [])
    (hlengthA : (splitPieces tA).length < 2^32-1) (hlengthB : (splitPieces tB).length < 2^32-1)
    (hrunsA : runsBefore main diff sideA rowA < 2^32)
    (hrunsB : runsBefore main diff sideB rowB < 2^32)
    (hlines : (prepareColumn main diff).lineIds.entries.length ≤ 2^32) :
    ∃ (m : SequenceMatcher Text) (a b : PreparedText),
      SequenceMatcher.new? (splitPieces tA) (splitPieces tB) autoJunk = some m ∧
      ((prepareColumn main diff).side sideA).rows[rowA]? = some a ∧
      ((prepareColumn main diff).side sideB).rows[rowB]? = some b ∧
      directCounts tA tB = (quickMatches m.a m.b, m.a.length+m.b.length) ∧
      preparedCounts (prepareColumn main diff) sideA a sideB b =
        (quickMatches m.a m.b, m.a.length+m.b.length) ∧
      quickRatio (some tA) (some tB) = m.quickRatio ∧
      quickPrepared (prepareColumn main diff) sideA rowA sideB rowB name = some (.ok m.quickRatio) := by
  obtain ⟨a, ha, hpreparedA⟩ := prepareColumn_at hA htA hrunsA (by omega)
  obtain ⟨b, hb, hpreparedB⟩ := prepareColumn_at hB htB hrunsB (by omega)
  have hprepared := preparedCounts_eq hpreparedA hpreparedB (prepareColumn_numbered main diff) hlines
    (by omega) (by omega)
  have hdirect := directCounts_eq tA tB
  rw [← quickMatches_eq] at hprepared hdirect
  have hpos := length_splitPieces_pos tA
  have hratio : SequenceMatcher.quickRatio
      ⟨splitPieces tA, splitPieces tB, autoJunk, hlengthA, hlengthB⟩ =
      ratioOf (quickMatches (splitPieces tA) (splitPieces tB),
        (splitPieces tA).length+(splitPieces tB).length) :=
    if_pos (show (splitPieces tA).length+(splitPieces tB).length ≠ 0 by omega)
  refine ⟨⟨splitPieces tA, splitPieces tB, autoJunk, hlengthA, hlengthB⟩, a, b,
    dif_pos ⟨hlengthA, hlengthB⟩, ha, hb, hdirect, hprepared, ?_, ?_⟩
  · have hempty : ¬ (tA.isEmpty || tB.isEmpty) = true := by
      rw [List.isEmpty_eq_false_iff.mpr htA, List.isEmpty_eq_false_iff.mpr htB]
      exact Bool.false_ne_true
    rw [hratio]
    show (if tA.isEmpty || tB.isEmpty then Binary64.zero else ratioOf (directCounts tA tB)) = _
    rw [if_neg hempty, hdirect]
  · rw [quickPrepared, ha, hb, Option.bind_some, Option.map_some, hpreparedA.state,
      hpreparedB.state, hprepared, hratio]
    simp

/-- The lines of the two texts are the same, in another order. -/
theorem quickRatios_agree_swapped :
    ∃ (m : SequenceMatcher Text) (a b : PreparedText),
      SequenceMatcher.new? (splitPieces (text "a\nb")) (splitPieces (text "b\na")) false = some m ∧
      (prepareColumn [.null, .str (text "a\nb")] [.str (text "b\na")]).main.rows[1]? = some a ∧
      (prepareColumn [.null, .str (text "a\nb")] [.str (text "b\na")]).diff.rows[0]? = some b ∧
      directCounts (text "a\nb") (text "b\na") = (quickMatches m.a m.b, m.a.length+m.b.length) ∧
      preparedCounts (prepareColumn [.null, .str (text "a\nb")] [.str (text "b\na")]) .main a .diff b =
        (quickMatches m.a m.b, m.a.length+m.b.length) ∧
      quickRatio (some (text "a\nb")) (some (text "b\na")) = m.quickRatio ∧
      quickPrepared (prepareColumn [.null, .str (text "a\nb")] [.str (text "b\na")]) .main 1 .diff 0
        (text "pseudocode") = some (.ok m.quickRatio) :=
  quickRatios_agree [.null, .str (text "a\nb")] [.str (text "b\na")] .main .diff 1 0 (text "a\nb")
    (text "b\na") (text "pseudocode") false (by decide) (by decide) (by decide) (by decide)
    (by decide) (by decide) (by decide) (by decide) (by decide)

theorem splitPieces_lineFeeds (n : Nat) :
    splitPieces (List.replicate n 10) = List.replicate (n+1) [] := by
  induction n with
  | zero => rfl
  | succ n ih =>
    have hcons : splitPieces (10 :: List.replicate n 10) = [] :: splitPieces (List.replicate n 10) := by
      simp [splitPieces, List.splitOn, List.splitOnP_cons_eq_if_splitOnPPrepend]
    rw [List.replicate_succ, hcons, ih]
    rfl

theorem quickRatio_lineFeeds (n : Nat) (hn : 2^32-2 ≤ n) (autoJunk : Bool) :
    SequenceMatcher.new? (splitPieces (List.replicate n 10)) (splitPieces (List.replicate n 10))
        autoJunk = none ∧
      quickRatio (some (List.replicate n 10)) (some (List.replicate n 10)) =
        ratioOf (n+1, n+1+(n+1)) := by
  have hlength : (splitPieces (List.replicate n 10)).length = n+1 := by
    rw [splitPieces_lineFeeds, List.length_replicate]
  have hne : (List.replicate n (10 : UInt8)).isEmpty = false := by
    rw [List.isEmpty_eq_false_iff]
    intro h
    have hzero := congrArg List.length h
    rw [List.length_replicate, List.length_nil] at hzero
    omega
  constructor
  · rw [SequenceMatcher.new?, dif_neg]
    rw [hlength]
    omega
  · show (if (List.replicate n (10 : UInt8)).isEmpty || (List.replicate n (10 : UInt8)).isEmpty then
      Binary64.zero else _) = _
    rw [hne, if_neg (by simp), directCounts_eq, common_self, hlength]

/-- A text of so many empty lines has a direct quick ratio, and no `SequenceMatcher`. -/
theorem quickRatio_without_sequenceMatcher :
    SequenceMatcher.new? (splitPieces (List.replicate (2^32-2) 10))
        (splitPieces (List.replicate (2^32-2) 10)) false = none ∧
      quickRatio (some (List.replicate (2^32-2) 10)) (some (List.replicate (2^32-2) 10)) =
        ratioOf (2^32-1, 2*(2^32-1)) := quickRatio_lineFeeds (2^32-2) (Nat.le_refl _) false

end DSigMatcher.Diff
