import DSigMatcher.Port.PlannedNames

namespace DSigMatcher.Port
open DSigMatcher.Base DSigMatcher.Framework

/-- `update functions set name = ?, mangled_function = ? where address = ?`, and the number of
rows it changed. -/
def renameFunction (rows : List FunctionsRow) (address name mangled : Text) :
    List FunctionsRow × Nat :=
  (rows.map fun row =>
      if row.address == some address then ⟨row.address, some name, some mangled⟩ else row,
    rows.countP fun row => row.address == some address)

section
variable {ρ : Type} {reference target : LabelTable}

/-- The rename statements of the write step; each must change exactly one row. -/
def writeNames (rows : List FunctionsRow) :
    List (PlanEntry ρ reference target) → Except Text (List FunctionsRow)
  | [] => .ok rows
  | e::es =>
    if e.decision.action = .applied then
      match renameFunction rows e.decision.targetAddress (e.decision.referenceName.getD [])
          e.decision.writtenMangled with
      | (rows', changes) =>
        if changes ≠ 1 then
          .error (text "cannot rename the function at " ++ e.decision.targetAddress ++
            text ": not an error")
        else writeNames rows' es
    else writeNames rows es

def PlanEntry.writtenRow (e : PlanEntry ρ reference target) : FunctionsRow :=
  ⟨some e.decision.targetAddress, e.decision.referenceName, some e.decision.writtenMangled⟩

/-- The rows of a target with some of its labels rewritten. -/
def SameAddresses (target : LabelTable) (rows : List FunctionsRow) : Prop :=
  rows.map FunctionsRow.address = target.rows.map fun row => some row.address

theorem SameAddresses.unique {rows : List FunctionsRow} (h : SameAddresses target rows)
    (i : Fin target.rows.length) (j : Nat) (row : FunctionsRow) (hj : rows[j]? = some row) :
    (row.address == some (target.rows.get i).address) = true ↔ j = i.val := by
  have hlen : rows.length = target.rows.length := by
    simpa using congrArg List.length h
  have hlt : j < target.rows.length := hlen ▸ (List.getElem?_eq_some_iff.mp hj).1
  have ha := congrArg (·[j]?) h
  simp only [List.getElem?_map, hj, List.getElem?_eq_getElem hlt, Option.map_some,
    Option.some.injEq] at ha
  rw [ha, beq_iff_eq, Option.some.injEq]
  refine ⟨fun he => ?_, fun he => by subst he; rfl⟩
  exact congrArg Fin.val (target.address_injective ⟨j, hlt⟩ i he)

/-- A rename by address is an assignment to the one row at that address. -/
theorem renameFunction_spec {rows : List FunctionsRow} (h : SameAddresses target rows)
    (i : Fin target.rows.length) (name mangled : Text) :
    renameFunction rows (target.rows.get i).address name mangled =
      (rows.set i.val ⟨some (target.rows.get i).address, some name, some mangled⟩, 1) := by
  have hlen : rows.length = target.rows.length := by
    simpa using congrArg List.length h
  have hi : i.val < rows.length := hlen.symm ▸ i.isLt
  have hrow := List.getElem?_eq_getElem hi
  have haddr : rows[i.val].address = some (target.rows.get i).address := by
    simpa using (h.unique i i.val _ hrow).mpr rfl
  unfold renameFunction
  rw [map_ite_eq_set _ _ rows i.val _ hrow (h.unique i), haddr,
    countP_eq_one _ rows i.val _ hrow (h.unique i)]

theorem SameAddresses.set {rows : List FunctionsRow} (h : SameAddresses target rows)
    (i : Fin target.rows.length) (name mangled : Option Text) :
    SameAddresses target (rows.set i.val ⟨some (target.rows.get i).address, name, mangled⟩) := by
  unfold SameAddresses at h ⊢
  rw [List.map_set, h]
  refine List.ext_getElem? fun j => ?_
  by_cases hj : i.val = j
  · subst hj
    rw [List.getElem?_set_self (by simp), List.getElem?_map, List.getElem?_eq_getElem i.isLt]
    rfl
  · rw [List.getElem?_set_ne hj]

theorem sameAddresses_stored (target : LabelTable) :
    SameAddresses target (target.rows.map LabelRow.stored) := by
  unfold SameAddresses
  rw [List.map_map]
  rfl

/-- Applied decisions name their own target row and a reference name. -/
structure Writable (es : List (PlanEntry ρ reference target)) : Prop where
  address : ∀ e ∈ appliedEntries es, e.decision.targetAddress = e.resolved.targetRow.address
  name : ∀ e ∈ appliedEntries es, ∃ name, e.decision.referenceName = some name

/-- The write step never fails and assigns each applied decision to its row. -/
theorem writeNames_spec (rows : List FunctionsRow) (hrows : SameAddresses target rows)
    (es : List (PlanEntry ρ reference target)) (hw : Writable es) :
    writeNames rows es = .ok (assignAll rows
      ((appliedEntries es).map fun e => (e.resolved.targetIndex.val, e.writtenRow))) := by
  induction es generalizing rows with
  | nil => rfl
  | cons e es ih =>
    by_cases happ : e.decision.action = .applied
    · have hcons : appliedEntries (e::es) = e::appliedEntries es :=
        List.filter_cons_of_pos (by simpa using happ)
      have haddr := hw.address e (hcons ▸ List.mem_cons_self)
      obtain ⟨name, hname⟩ := hw.name e (hcons ▸ List.mem_cons_self)
      have hes : Writable es :=
        ⟨fun f hf => hw.address f (hcons ▸ List.mem_cons_of_mem e hf),
          fun f hf => hw.name f (hcons ▸ List.mem_cons_of_mem e hf)⟩
      have hrow : e.writtenRow = ⟨some (target.rows.get e.resolved.targetIndex).address, some name,
          some e.decision.writtenMangled⟩ := by
        rw [PlanEntry.writtenRow, haddr, hname]
        rfl
      rw [writeNames, if_pos happ, haddr, hname, Option.getD_some,
        ResolvedProposal.targetRow, renameFunction_spec hrows]
      simp only [ne_eq, not_true_eq_false, if_false]
      rw [ih _ (hrows.set _ _ _) hes, hcons, List.map_cons, assignAll_cons, hrow]
    · have hcons : appliedEntries (e::es) = appliedEntries es :=
        List.filter_cons_of_neg (by simpa using happ)
      rw [writeNames, if_neg happ, hcons]
      exact ih rows hrows ⟨hcons ▸ hw.address, hcons ▸ hw.name⟩

end

end DSigMatcher.Port
