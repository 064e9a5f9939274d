import Mathlib.Data.Finset.Card
import Mathlib.Logic.Function.Basic

namespace DSigMatcher.Framework

/-- `root` is where the parents of a node end; ranks go up along them. -/
structure Forest {α : Type*} (parent : α → α) (rank : α → Nat) (root : α → α) : Prop where
  step : ∀ v, root (parent v) = root v
  fixed : ∀ v, parent (root v) = root v
  own : ∀ v, parent v = v → root v = v
  parentAbove : ∀ v, parent v ≠ v → rank v < rank (parent v)
  rootAbove : ∀ v, parent v ≠ v → rank v < rank (root v)

namespace Forest

section
variable {α : Type*} {parent : α → α} {rank : α → Nat} {root : α → α}

theorem single (rank : α → Nat) : Forest id rank id :=
  ⟨fun _ => rfl, fun _ => rfl, fun _ _ => rfl, fun _ h => absurd rfl h, fun _ h => absurd rfl h⟩

theorem root_root (h : Forest parent rank root) (v : α) : root (root v) = root v :=
  h.own _ (h.fixed v)

variable [DecidableEq α]

/-- A node is put directly under its root. -/
theorem shortcut (h : Forest parent rank root) (c : α) :
    Forest (Function.update parent c (root c)) rank root := by
  have hat : Function.update parent c (root c) c = root c := Function.update_self ..
  have hoff {v : α} (hv : v ≠ c) : Function.update parent c (root c) v = parent v :=
    Function.update_of_ne hv ..
  have hmoved {v : α} (hv : Function.update parent c (root c) v ≠ v) : parent v ≠ v := by
    by_cases hvc : v = c
    · rw [hvc, hat] at hv
      rw [hvc]
      exact fun hroot => hv (h.own c hroot)
    · rwa [hoff hvc] at hv
  refine ⟨fun v => ?_, fun v => ?_, fun v hv => ?_, fun v hv => ?_, fun v hv => ?_⟩
  · by_cases hvc : v = c
    · rw [hvc, hat, h.root_root]
    · rw [hoff hvc, h.step]
  · by_cases hvc : root v = c
    · rw [hvc, hat, ← hvc, h.root_root]
    · rw [hoff hvc, h.fixed]
  · by_cases hvc : v = c
    · rw [hvc, hat] at hv
      rw [hvc, hv]
    · rw [hoff hvc] at hv
      exact h.own v hv
  · have habove := h.rootAbove v (hmoved hv)
    by_cases hvc : v = c
    · rw [hvc, hat]
      rwa [hvc] at habove
    · rw [hoff hvc]
      exact h.parentAbove v (hmoved hv)
  · exact h.rootAbove v (hmoved hv)

/-- One root is put under another, whose rank may rise. -/
theorem link (h : Forest parent rank root) {l r : α} {k : Nat} (hl : parent l = l)
    (hr : parent r = r) (hne : l ≠ r) (hrk : rank r ≤ k) (hlk : rank l < k) :
    Forest (Function.update parent l r) (Function.update rank r k)
      (fun v => if root v = l then r else root v) := by
  have hat : Function.update parent l r l = r := Function.update_self ..
  have hoff {v : α} (hv : v ≠ l) : Function.update parent l r v = parent v :=
    Function.update_of_ne hv ..
  have hrootr : root r = r := h.own r hr
  have hup (v : α) : rank v ≤ Function.update rank r k v := by
    by_cases hv : v = r
    · rw [hv, Function.update_self]
      exact hrk
    · rw [Function.update_of_ne hv]
  have hkept {v : α} (hv : v ≠ r) : Function.update rank r k v = rank v :=
    Function.update_of_ne hv ..
  refine ⟨fun v => ?_, fun v => ?_, fun v hv => ?_, fun v hv => ?_, fun v hv => ?_⟩
  · by_cases hvl : v = l
    · rw [hvl, hat, hrootr, h.own l hl, if_pos rfl, if_neg hne.symm]
    · rw [hoff hvl, h.step]
  · by_cases hvl : root v = l
    · rw [if_pos hvl, hoff hne.symm, hr]
    · rw [if_neg hvl, hoff hvl, h.fixed]
  · by_cases hvl : v = l
    · rw [hvl, hat] at hv
      exact absurd hv hne.symm
    · rw [hoff hvl] at hv
      rw [h.own v hv, if_neg hvl]
  · by_cases hvl : v = l
    · rw [hvl, hat, hkept hne, Function.update_self]
      exact hlk
    · rw [hoff hvl] at hv ⊢
      have hvr : v ≠ r := fun heq => hv (heq ▸ hr)
      rw [hkept hvr]
      exact (h.parentAbove v hv).trans_le (hup _)
  · by_cases hvl : v = l
    · rw [hvl, h.own l hl, if_pos rfl, hkept hne, Function.update_self]
      exact hlk
    · rw [hoff hvl] at hv
      have hvr : v ≠ r := fun heq => hv (heq ▸ hr)
      have habove := h.rootAbove v hv
      rw [hkept hvr]
      by_cases hroot : root v = l
      · rw [if_pos hroot, Function.update_self]
        rw [hroot] at habove
        exact habove.trans hlk
      · rw [if_neg hroot]
        exact habove.trans_le (hup _)

end

section
variable {α : Type*} (s : Finset α) (rank : α → Nat)

/-- How many nodes are above one. -/
def above (v : α) : Nat := (s.filter fun u => rank v < rank u).card

theorem above_lt_card {v : α} (hv : v ∈ s) : above s rank v < s.card := by
  refine Finset.card_lt_card ((Finset.filter_ssubset).mpr ⟨v, hv, ?_⟩)
  exact Nat.lt_irrefl _

/-- Going up leaves fewer nodes above. -/
theorem above_lt {v w : α} (hw : w ∈ s) (h : rank v < rank w) : above s rank w < above s rank v := by
  refine Finset.card_lt_card (Finset.ssubset_iff_subset_ne.mpr ⟨?_, fun heq => ?_⟩)
  · exact Finset.monotone_filter_right s fun u _ hu => h.trans hu
  · have hmem : w ∈ s.filter fun u => rank v < rank u := Finset.mem_filter.mpr ⟨hw, h⟩
    rw [← heq, Finset.mem_filter] at hmem
    exact Nat.lt_irrefl _ hmem.2

end

end Forest

end DSigMatcher.Framework
