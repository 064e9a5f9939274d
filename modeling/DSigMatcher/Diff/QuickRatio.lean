import DSigMatcher.Diff.SequenceMatcher
import DSigMatcher.Framework.FloatOps
import DSigMatcher.Framework.InsertionDict
import Mathlib

namespace DSigMatcher.Diff
open DSigMatcher.Framework

/-- What the constructor keeps; it refuses longer sequences. -/
structure SequenceMatcher (α : Type*) where
  a : List α
  b : List α
  autoJunk : Bool
  shortA : a.length < 2^32-1
  shortB : b.length < 2^32-1

def SequenceMatcher.new? {α : Type*} (a b : List α) (autoJunk : Bool) :
    Option (SequenceMatcher α) :=
  if h : a.length < 2^32-1 ∧ b.length < 2^32-1 then some ⟨a, b, autoJunk, h.1, h.2⟩ else none

/-- The literal `2.0`. -/
def two : Binary64 := ⟨false, 1024*2^52, by decide⟩

def calculateRatio (found length : Nat) : Binary64 :=
  if length ≠ 0 then (two.mul (.ofNat found)).div (.ofNat length) else .one

section
variable {α : Type*} {a b : List α} {i j : Nat} {xs : List MatchingBlock}

/-- The elements of a chain of blocks, in order. -/
def chainElements (a : List α) (xs : List MatchingBlock) : List α :=
  xs.flatMap fun x => slice a x.a (x.a+x.size)

theorem Chain.length_elements (h : Chain a b i j xs) :
    (chainElements a xs).length = (xs.map MatchingBlock.size).sum := by
  induction xs generalizing i j with
  | nil => rfl
  | cons x xs ih =>
    have hlength := length_slice a x.a (x.a+x.size) h.2.2.1.ahi
    rw [chainElements, List.flatMap_cons, List.length_append, List.map_cons, List.sum_cons, hlength,
      Nat.add_sub_cancel_left]
    exact congrArg (x.size + ·) (ih h.2.2.2)

/-- They come in this order in both sequences. -/
theorem Chain.sublist (h : Chain a b i j xs) :
    (chainElements a xs).Sublist (a.drop i) ∧ (chainElements a xs).Sublist (b.drop j) := by
  induction xs generalizing i j with
  | nil => exact ⟨List.nil_sublist _, List.nil_sublist _⟩
  | cons x xs ih =>
    obtain ⟨hi, hj, hx, hrest⟩ := h
    obtain ⟨hsubA, hsubB⟩ := ih hrest
    have hdrop : ∀ (l : List α) {p q : Nat}, p ≤ q → (l.drop q).Sublist (l.drop p) := by
      intro l p q hpq
      exact (List.drop_suffix_drop_left l hpq).sublist
    rw [chainElements, List.flatMap_cons]
    constructor
    · refine List.Sublist.trans ?_ (hdrop a hi)
      rw [← slice_append_drop a x.a (x.a+x.size) (Nat.le_add_right _ _)]
      exact hsubA.append_left _
    · refine List.Sublist.trans ?_ (hdrop b hj)
      rw [← slice_append_drop b x.b (x.b+x.size) (Nat.le_add_right _ _), ← hx.slice_eq]
      exact hsubB.append_left _

end

variable {α : Type*} [DecidableEq α]

/-- One element of `a`: `avail` holds what is left of the elements of `b` met so far, which may
go below zero. -/
def quickRound (b : List α) (s : InsertionDict α Int × Nat) (x : α) : InsertionDict α Int × Nat :=
  if x ∉ b then s
  else
    let numb := (s.1.find? x).getD (b.count x)
    (s.1.put x (numb-1), if 0 < numb then s.2+1 else s.2)

def quickMatches (a b : List α) : Nat := (a.foldl (quickRound b) (.empty,0)).2

namespace SequenceMatcher

def ratio (m : SequenceMatcher α) : Option Binary64 :=
  (getMatchingBlocks m.autoJunk m.a m.b).map fun blocks =>
    calculateRatio (blocks.map MatchingBlock.size).sum (m.a.length+m.b.length)

def quickRatio (m : SequenceMatcher α) : Binary64 :=
  calculateRatio (quickMatches m.a m.b) (m.a.length+m.b.length)

def realQuickRatio (m : SequenceMatcher α) : Binary64 :=
  calculateRatio (min m.a.length m.b.length) (m.a.length+m.b.length)

end SequenceMatcher

/-- How many elements two sequences have in common, each as often as in both. -/
def common (a b : List α) : Nat := ((a : Multiset α) ∩ (b : Multiset α)).card

theorem count_append_singleton (l : List α) (x y : α) :
    (l ++ [x]).count y = l.count y+if y = x then 1 else 0 := by
  rw [List.count_append]
  split_ifs with hyx
  · rw [hyx, List.count_singleton_self]
  · have hnone : [x].count y = 0 := List.count_eq_zero_of_not_mem (by simpa using hyx)
    rw [hnone]

theorem common_append_singleton (a b : List α) (x : α) :
    common (a ++ [x]) b = if a.count x < b.count x then common a b+1 else common a b := by
  have hsplit : ((a ++ [x] : List α) : Multiset α) ∩ (b : Multiset α) =
      if a.count x < b.count x then ((a : Multiset α) ∩ b) + {x} else (a : Multiset α) ∩ b := by
    ext y
    split_ifs with hlt
    · rw [Multiset.count_add, Multiset.count_inter, Multiset.count_inter, Multiset.coe_count,
        Multiset.coe_count, Multiset.coe_count, count_append_singleton, Multiset.count_singleton]
      split_ifs with hxy
      · subst hxy
        omega
      · rfl
    · rw [Multiset.count_inter, Multiset.count_inter, Multiset.coe_count,
        Multiset.coe_count, Multiset.coe_count, count_append_singleton]
      split_ifs with hxy
      · subst hxy
        omega
      · rfl
  unfold common
  rw [hsplit]
  split_ifs
  · rw [Multiset.card_add, Multiset.card_singleton]
  · rfl

theorem common_le_min (a b : List α) : common a b ≤ min a.length b.length :=
  le_min (Multiset.card_le_card Multiset.inter_le_left)
    (Multiset.card_le_card Multiset.inter_le_right)

/-- What is left is what the elements done have not taken. -/
structure Counted (b done : List α) (s : InsertionDict α Int × Nat) : Prop where
  avail : ∀ x, s.1.find? x =
    if x ∈ done ∧ x ∈ b then some ((b.count x : Int)-done.count x) else none
  found : s.2 = common done b

theorem quickRound_counted {b done : List α} {s : InsertionDict α Int × Nat}
    (h : Counted b done s) (x : α) : Counted b (done ++ [x]) (quickRound b s x) := by
  unfold quickRound
  by_cases hx : x ∈ b
  · rw [if_neg (not_not_intro hx)]
    have hnumb : (s.1.find? x).getD (b.count x) = (b.count x : Int)-done.count x := by
      rw [h.avail]
      by_cases hdone : x ∈ done
      · rw [if_pos ⟨hdone, hx⟩, Option.getD_some]
      · rw [if_neg (fun hh => hdone hh.1), Option.getD_none, List.count_eq_zero_of_not_mem hdone]
        omega
    dsimp only
    rw [hnumb]
    refine ⟨fun y => ?_, ?_⟩
    · rw [InsertionDict.find?_put, h.avail, count_append_singleton]
      by_cases hyx : y = x
      · subst hyx
        simp [hx]
        omega
      · simp [hyx]
    · rw [h.found, common_append_singleton]
      split_ifs <;> omega
  · rw [if_pos hx]
    refine ⟨fun y => ?_, ?_⟩
    · rw [h.avail, count_append_singleton]
      by_cases hyx : y = x
      · subst hyx
        simp [hx]
      · simp [hyx]
    · rw [h.found, common_append_singleton, List.count_eq_zero_of_not_mem hx,
        if_neg (Nat.not_lt_zero _)]

/-- The count of `QuickRatio` is that of the elements in common. -/
theorem quickMatches_eq (a b : List α) : quickMatches a b = common a b := by
  have hfold : ∀ (rest done : List α) (s : InsertionDict α Int × Nat), Counted b done s →
      Counted b (done ++ rest) (rest.foldl (quickRound b) s) := by
    intro rest
    induction rest with
    | nil =>
      intro done s h
      rwa [List.append_nil]
    | cons x rest ih =>
      intro done s h
      have hnext := ih _ _ (quickRound_counted h x)
      rwa [List.append_assoc] at hnext
  have hstart : Counted b [] ((InsertionDict.empty, 0) : InsertionDict α Int × Nat) := by
    refine ⟨fun x => ?_, ?_⟩
    · simp
    · simp [common]
  exact (hfold a [] _ hstart).found

section
variable {a b : List α} {xs : List MatchingBlock}

/-- No element of the blocks is counted twice. -/
theorem Chain.sum_size_le (h : Chain a b 0 0 xs) :
    (xs.map MatchingBlock.size).sum ≤ common a b := by
  obtain ⟨hsubA, hsubB⟩ := h.sublist
  rw [List.drop_zero] at hsubA hsubB
  rw [← h.length_elements]
  have hle : (chainElements a xs : Multiset α) ≤ (a : Multiset α) ∩ (b : Multiset α) :=
    le_inf (Multiset.coe_le.mpr hsubA.subperm) (Multiset.coe_le.mpr hsubB.subperm)
  exact Multiset.card_le_card hle

end

theorem grid_two : Binary64.grid two.magnitude = 2 := by
  have hgrid := Binary64.grid_binade (b := 1023) (k := 2^52) (by norm_num) (.inr (le_refl _))
  have hexp : ((1023 : Nat) : Int)-1074 = -(51 : Nat) := by norm_num
  rw [hexp, zpow_neg, zpow_natCast] at hgrid
  norm_num at hgrid
  exact hgrid

/-- The product by `2.0` is exact, so only the division rounds. -/
theorem calculateRatio_rounds {found length : Nat} (hfound : found < 2^52) (hpos : 0 < length)
    (hlength : length < 2^53) :
    Binary64.Rounds false ((2*found : Nat)/length) (calculateRatio found length) := by
  obtain ⟨hff, hfg⟩ := Binary64.ofNat_exact (n := found) (by omega)
  obtain ⟨hdf, hdg⟩ := Binary64.ofNat_exact (n := 2*found) (by omega)
  obtain ⟨hlf, hlg⟩ := Binary64.ofNat_exact hlength
  have hdouble : two.mul (.ofNat found) = .ofNat (2*found) := by
    have hmul := Binary64.mul_rounds (x := two) (by decide) hff
    have hself := Binary64.Rounds.self hdf
    rw [grid_two, hfg] at hmul
    rw [hdg, Nat.cast_mul, Nat.cast_ofNat] at hself
    exact hmul.unique hself
  have hne : (Binary64.ofNat length).magnitude ≠ 0 := by
    intro hzero
    rw [hzero, Binary64.grid_zero] at hlg
    exact Nat.cast_ne_zero.mpr (Nat.ne_of_gt hpos) hlg.symm
  have hdiv := Binary64.div_rounds hdf hlf hne
  rw [hdg, hlg] at hdiv
  rw [calculateRatio, if_pos (Nat.ne_of_gt hpos), hdouble]
  exact hdiv

theorem calculateRatio_mono {found found' length : Nat} (h : found ≤ found')
    (hfound : found' < 2^52) (hlength : length < 2^53) :
    calculateRatio found length ≤ calculateRatio found' length := by
  rcases Nat.eq_zero_or_pos length with rfl | hpos
  · exact show Binary64.one ≤ Binary64.one by decide
  · refine (calculateRatio_rounds (by omega) hpos hlength).le
      (calculateRatio_rounds hfound hpos hlength) ?_
    exact div_le_div_of_nonneg_right (Nat.cast_le.mpr (by omega)) (Nat.cast_nonneg _)

/-- The blocks hold no more elements than the sequences have in common, and these are no more than
the shorter sequence has; the three ratios are ordered alike. -/
theorem ratio_le_quickRatio_le_realQuickRatio (m : SequenceMatcher α) :
    ∃ blocks ratio, getMatchingBlocks m.autoJunk m.a m.b = some blocks ∧
      (blocks.map MatchingBlock.size).sum ≤ quickMatches m.a m.b ∧
      quickMatches m.a m.b = common m.a m.b ∧
      quickMatches m.a m.b ≤ min m.a.length m.b.length ∧
      m.ratio = some ratio ∧ ratio ≤ m.quickRatio ∧ m.quickRatio ≤ m.realQuickRatio := by
  obtain ⟨xs, hxs, hchain⟩ := getMatchingBlocks_chain m.autoJunk m.a m.b
  have hshortA := m.shortA
  have hshortB := m.shortB
  have hsum := hchain.sum_size_le
  have hmin := common_le_min m.a m.b
  rw [← quickMatches_eq] at hsum hmin
  have hratio := congrArg (Option.map fun blocks : List MatchingBlock =>
    calculateRatio (blocks.map MatchingBlock.size).sum (m.a.length+m.b.length)) hxs
  refine ⟨_, _, hxs, hsum, quickMatches_eq _ _, hmin, hratio, ?_, ?_⟩
  · exact calculateRatio_mono hsum (by omega) (by omega)
  · exact calculateRatio_mono hmin (by omega) (by omega)

end DSigMatcher.Diff
