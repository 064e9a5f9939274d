import DSigMatcher.Base.Naming
import Mathlib

namespace DSigMatcher.Port
open DSigMatcher.Base

private def isSpace (c : UInt8) : Bool :=
  c == 32 || c == 9 || c == 10 || c == 13 || c == 12 || c == 11

/-- The digit loop of `ParseDecimalAddress`: value so far, and whether a digit came last. -/
def parseDigits : Nat → Bool → Text → Option Nat
  | value, _, [] => some value
  | value, previousDigit, c::r =>
    if c = 95 then
      if !previousDigit || r.isEmpty then none else parseDigits value false r
    else if c < 48 ∨ 57 < c then none
    else
      let digit := c.toNat-48
      if value > (2^64-1-digit)/10 then none else parseDigits (value*10+digit) true r

/-- Python's `int()` of `functions.address`; out-of-range values are refused. -/
def parseDecimalAddress (t : Text) : Option Nat :=
  let t := ((t.dropWhile isSpace).reverse.dropWhile isSpace).reverse
  let t := if t.head? = some 43 then t.tail else t
  if t.isEmpty then none else parseDigits 0 false t

example : parseDecimalAddress (text " +4_198400 ") = some 4198400 := by decide

/-- The blanks that are trimmed, written out. -/
theorem parseDecimalAddress_blanks (t : Text) (blank : UInt8 → Bool)
    (h : ∀ c, blank c = (c == 32 || c == 9 || c == 10 || c == 13 || c == 12 || c == 11)) :
    parseDecimalAddress t =
      let t := ((t.dropWhile blank).reverse.dropWhile blank).reverse
      let t := if t.head? = some 43 then t.tail else t
      if t.isEmpty then none else parseDigits 0 false t := by
  obtain rfl : blank = isSpace := funext h
  rfl

structure LabelRow where
  address : Text
  name : Option Text
  mangled : Option Text
  deriving DecidableEq

/-- The label columns of an export, ordered by id, each row under its own address. -/
@[ext] structure LabelTable where
  rows : List LabelRow
  eas : List Nat
  parsed : rows.map (fun r => parseDecimalAddress r.address) = eas.map some
  distinct : eas.Nodup

namespace LabelTable

def empty : LabelTable := ⟨[], [], rfl, List.nodup_nil⟩

theorem length_eas (table : LabelTable) : table.eas.length = table.rows.length := by
  simpa using (congrArg List.length table.parsed).symm

/-- `Out.ByEa.emplace` followed by `Out.Rows.push_back`. -/
def push (table : LabelTable) (row : LabelRow) (ea : Nat)
    (hp : parseDecimalAddress row.address = some ea) (hn : ea ∉ table.eas) : LabelTable where
  rows := table.rows ++ [row]
  eas := table.eas ++ [ea]
  parsed := by simp [table.parsed, hp]
  distinct := by
    rw [List.nodup_append]
    refine ⟨table.distinct, List.nodup_singleton ea, ?_⟩
    rintro a ha b hb rfl
    exact hn (List.mem_singleton.mp hb ▸ ha)

/-- `ByEa`: the row at an address. -/
def byEa (table : LabelTable) (ea : Nat) : Option (Fin table.rows.length) :=
  if h : table.eas.idxOf ea < table.rows.length then some ⟨table.eas.idxOf ea, h⟩ else none

theorem eas_get (table : LabelTable) (i : Fin table.rows.length) :
    table.eas[i.val]? = parseDecimalAddress (table.rows.get i).address := by
  have hi : i.val < table.eas.length := table.length_eas.symm ▸ i.isLt
  have h := congrArg (·[i.val]?) table.parsed
  simp only [List.getElem?_map, List.getElem?_eq_getElem hi,
    List.getElem?_eq_getElem i.isLt, Option.map_some, Option.some.injEq] at h
  rw [List.getElem?_eq_getElem hi, ← h]
  rfl

/-- Rows of one table never share an address text. -/
theorem address_injective (table : LabelTable) (i j : Fin table.rows.length)
    (h : (table.rows.get i).address = (table.rows.get j).address) : i = j := by
  have hi : i.val < table.eas.length := table.length_eas.symm ▸ i.isLt
  have he : table.eas[i.val]? = table.eas[j.val]? := by rw [table.eas_get, table.eas_get, h]
  exact Fin.ext ((List.getElem?_inj hi table.distinct).mp he)

/-- The row at an address has that address. -/
theorem byEa_address (table : LabelTable) {ea : Nat} {i : Fin table.rows.length}
    (h : table.byEa ea = some i) : parseDecimalAddress (table.rows.get i).address = some ea := by
  unfold byEa at h
  split_ifs at h with hlt
  obtain rfl := Option.some.inj h
  have hea : table.eas.idxOf ea < table.eas.length := table.length_eas.symm ▸ hlt
  rw [← table.eas_get, List.getElem?_eq_getElem hea, List.getElem_idxOf hea]

/-- Every row is found at its address. -/
theorem byEa_of_mem (table : LabelTable) {row : LabelRow} (hrow : row ∈ table.rows) :
    ∃ ea i, parseDecimalAddress row.address = some ea ∧ table.byEa ea = some i ∧
      table.rows.get i = row := by
  obtain ⟨i, rfl⟩ := List.mem_iff_get.mp hrow
  have hi : i.val < table.eas.length := table.length_eas.symm ▸ i.isLt
  have hindex : table.eas.idxOf table.eas[i.val] = i.val := table.distinct.idxOf_getElem i.val hi
  refine ⟨table.eas[i.val], i, ?_, ?_, rfl⟩
  · rw [← table.eas_get, List.getElem?_eq_getElem hi]
  · rw [byEa, dif_pos (by rw [hindex]; exact i.isLt)]
    exact congrArg some (Fin.ext hindex)

end LabelTable

/-- A stored `functions` row: address, name and mangled_function. -/
structure FunctionsRow where
  address : Option Text
  name : Option Text
  mangled : Option Text
  deriving DecidableEq

/-- `LoadLabelTable`: the rows read so far, then the rest in id order. -/
def loadLabelRows (table : LabelTable) : List FunctionsRow → Except Text LabelTable
  | [] => .ok table
  | row::rest =>
    match row.address with
    | none => .error (text "a functions row has a NULL address")
    | some address =>
      match hp : parseDecimalAddress address with
      | none => .error (text "functions.address '" ++ address ++ text "' is not a decimal address")
      | some ea =>
        if hn : ea ∈ table.eas then
          .error (text "two functions rows share address " ++ address)
        else loadLabelRows (table.push ⟨address, row.name, row.mangled⟩ ea hp hn) rest

def loadLabelTable (rows : List FunctionsRow) : Except Text LabelTable :=
  loadLabelRows LabelTable.empty rows

def LabelRow.stored (row : LabelRow) : FunctionsRow := ⟨some row.address, row.name, row.mangled⟩

private theorem loadLabelRows_rows (table result : LabelTable) (rows : List FunctionsRow)
    (h : loadLabelRows table rows = .ok result) :
    result.rows.map LabelRow.stored = table.rows.map LabelRow.stored ++ rows := by
  induction rows generalizing table with
  | nil =>
    obtain rfl := Except.ok.inj h
    simp
  | cons row rest ih =>
    unfold loadLabelRows at h
    split at h
    · cases h
    next address ha =>
      split at h
      · cases h
      next ea hp =>
        split at h
        · cases h
        next hn =>
          rw [ih _ h]
          simp [LabelTable.push, LabelRow.stored, ← ha]

/-- A loaded table holds exactly the stored rows. -/
theorem loadLabelTable_rows (table : LabelTable) (rows : List FunctionsRow)
    (h : loadLabelTable rows = .ok table) : table.rows.map LabelRow.stored = rows := by
  simpa [LabelTable.empty] using loadLabelRows_rows _ _ rows h

end DSigMatcher.Port
