import DSigMatcher.Diff.MatchState
import Mathlib.Data.Finset.Prod

namespace DSigMatcher.Diff
open DSigMatcher.Base DSigMatcher.Framework

/-- The ratio the tests of the cleanup see. -/
def cleanupRatio (it : Item) : Binary64 := if it.name1 = it.name2 then Binary64.one else it.ratio

/-- A better item of the same main address was kept before. -/
def CleanupScan.above (s : CleanupScan) (it : Item) : Bool :=
  match s.eaRatios.find? it.ea1 with
  | some r => cleanupRatio it < r
  | none => false

/-- The scan after an item that passes both tests. -/
def CleanupScan.keep (s : CleanupScan) (it : Item) : CleanupScan :=
  ⟨namePairKey it::s.dones, s.eaRatios.put it.ea1 (cleanupRatio it)⟩

/-- An item is known, worse than a kept one, or kept. -/
theorem cleanupItem_eq (s : CleanupScan) (it : Item) :
    cleanupItem s it =
      if namePairKey it ∈ s.dones then (s,false)
      else if s.above it then (⟨namePairKey it::s.dones, s.eaRatios⟩,false)
      else (s.keep it,true) := by
  by_cases hdone : namePairKey it ∈ s.dones
  · rw [if_pos hdone, cleanupItem, if_pos hdone]
  · rw [if_neg hdone, cleanupItem, if_neg hdone, CleanupScan.above, CleanupScan.keep]
    change (match s.eaRatios.find? it.ea1 with
      | some r => if cleanupRatio it < r then _ else _
      | none => _) = _
    cases s.eaRatios.find? it.ea1 with
    | none => rfl
    | some r =>
      by_cases hlt : cleanupRatio it < r
      · simp [hlt]
      · simp only [hlt, if_false, decide_false, Bool.false_eq_true]
        rfl

/-- A cleanup of what a cleanup kept keeps it all: items that went left no trace but their key. -/
theorem cleanupItems_again (s t : CleanupScan) (its : List Item) (hdones : t.dones ⊆ s.dones)
    (hratios : t.eaRatios = s.eaRatios) :
    (cleanupItems t (cleanupItems s its).2).2 = (cleanupItems s its).2 ∧
      (cleanupItems t (cleanupItems s its).2).1.dones ⊆ (cleanupItems s its).1.dones ∧
      (cleanupItems t (cleanupItems s its).2).1.eaRatios = (cleanupItems s its).1.eaRatios := by
  induction its generalizing s t with
  | nil => exact ⟨rfl, hdones, hratios⟩
  | cons it its ih =>
    have hstep := cleanupItem_eq s it
    by_cases hknown : namePairKey it ∈ s.dones
    · rw [if_pos hknown] at hstep
      simp only [cleanupItems, hstep, Bool.false_eq_true, if_false]
      exact ih s t hdones hratios
    · rw [if_neg hknown] at hstep
      cases habove : s.above it with
      | true =>
        rw [habove, if_pos rfl] at hstep
        simp only [cleanupItems, hstep, Bool.false_eq_true, if_false]
        exact ih _ t (fun k hk => List.mem_cons_of_mem _ (hdones hk)) hratios
      | false =>
        rw [habove, if_neg Bool.false_ne_true] at hstep
        have hagain : cleanupItem t it = (t.keep it,true) := by
          have habove' : t.above it = false := by
            rw [CleanupScan.above, hratios]
            exact habove
          rw [cleanupItem_eq, if_neg fun h => hknown (hdones h), habove',
            if_neg Bool.false_ne_true]
        have hkeep := ih (s.keep it) (t.keep it) (List.cons_subset_cons _ hdones)
          (by rw [CleanupScan.keep, CleanupScan.keep, hratios])
        simp only [cleanupItems, hstep, if_true, hagain]
        exact ⟨by rw [hkeep.1], hkeep.2⟩

/-- Kept items have keys of their own, none of them done before and all of them done after. -/
theorem cleanupItems_keys (s : CleanupScan) (its : List Item) :
    ((cleanupItems s its).2.map namePairKey).Nodup ∧
      (∀ it ∈ (cleanupItems s its).2, namePairKey it ∉ s.dones) ∧
      (∀ it ∈ (cleanupItems s its).2, namePairKey it ∈ (cleanupItems s its).1.dones) ∧
      s.dones ⊆ (cleanupItems s its).1.dones := by
  induction its generalizing s with
  | nil => simp [cleanupItems]
  | cons it its ih =>
    have hstep := cleanupItem_eq s it
    by_cases hknown : namePairKey it ∈ s.dones
    · rw [if_pos hknown] at hstep
      simp only [cleanupItems, hstep, Bool.false_eq_true, if_false]
      exact ih s
    · rw [if_neg hknown] at hstep
      cases habove : s.above it with
      | true =>
        rw [habove, if_pos rfl] at hstep
        simp only [cleanupItems, hstep, Bool.false_eq_true, if_false]
        obtain ⟨hnodup, hnew, hdone, hsub⟩ := ih ⟨namePairKey it::s.dones, s.eaRatios⟩
        refine ⟨hnodup, fun x hx h => hnew x hx (List.mem_cons_of_mem _ h), hdone, ?_⟩
        exact fun k hk => hsub (List.mem_cons_of_mem _ hk)
      | false =>
        rw [habove, if_neg Bool.false_ne_true] at hstep
        simp only [cleanupItems, hstep, if_true]
        obtain ⟨hnodup, hnew, hdone, hsub⟩ := ih (s.keep it)
        have hself : namePairKey it ∈ (cleanupItems (s.keep it) its).1.dones :=
          hsub (List.mem_cons_self ..)
        refine ⟨?_, ?_, ?_, fun k hk => hsub (List.mem_cons_of_mem _ hk)⟩
        · rw [List.map_cons, List.nodup_cons]
          refine ⟨fun hmem => ?_, hnodup⟩
          obtain ⟨x, hx, hkey⟩ := List.mem_map.mp hmem
          exact hnew x hx (hkey ▸ List.mem_cons_self ..)
        · intro x hx
          rcases List.mem_cons.mp hx with rfl | hx
          · exact hknown
          · exact fun h => hnew x hx (List.mem_cons_of_mem _ h)
        · intro x hx
          rcases List.mem_cons.mp hx with rfl | hx
          · exact hself
          · exact hdone x hx

/-- New pairs with new main addresses are all kept. -/
theorem cleanupItems_all (s : CleanupScan) (its : List Item)
    (hkeys : (its.map namePairKey).Nodup) (hnew : ∀ it ∈ its, namePairKey it ∉ s.dones)
    (heas : (its.map Item.ea1).Nodup) (hfree : ∀ it ∈ its, s.eaRatios.find? it.ea1 = none) :
    (cleanupItems s its).2 = its := by
  induction its generalizing s with
  | nil => rfl
  | cons it its ih =>
    rw [List.map_cons, List.nodup_cons] at hkeys heas
    have habove : s.above it = false := by
      rw [CleanupScan.above, hfree it (List.mem_cons_self ..)]
    have hstep : cleanupItem s it = (s.keep it,true) := by
      rw [cleanupItem_eq, if_neg (hnew it (List.mem_cons_self ..)), habove,
        if_neg Bool.false_ne_true]
    have hrest : (cleanupItems (s.keep it) its).2 = its := by
      refine ih (s.keep it) hkeys.2 (fun x hx => ?_) heas.2 fun x hx => ?_
      · have hne : namePairKey x ≠ namePairKey it := fun h =>
          hkeys.1 (h ▸ List.mem_map_of_mem hx)
        rw [CleanupScan.keep, List.mem_cons, not_or]
        exact ⟨hne, hnew x (List.mem_cons_of_mem _ hx)⟩
      · have hne : x.ea1 ≠ it.ea1 := fun h => heas.1 (h ▸ List.mem_map_of_mem hx)
        rw [CleanupScan.keep, InsertionDict.find?_put_ne _ _ _ _ hne]
        exact hfree x (List.mem_cons_of_mem _ hx)
    simp only [cleanupItems, hstep, if_true, hrest]

/-- Sorted lists stay sorted when items go. -/
theorem sortDescending_cleanupItems (s : CleanupScan) (l : List Item)
    (hl : ∀ it ∈ l, it.ratio.isNaN = false) :
    sortDescending (cleanupItems s (sortDescending l)).2 = (cleanupItems s (sortDescending l)).2 := by
  have hsorted := (sortDescending_pairwise l hl).sublist (cleanupItems_sublist s _)
  have hreal : ∀ it ∈ (cleanupItems s (sortDescending l)).2, it.ratio.isNaN = false := fun it hit =>
    hl it ((mem_sortDescending l it).mp ((cleanupItems_sublist s _).subset hit))
  refine List.Pairwise.insertionSort_eq ?_
  refine hsorted.imp_of_mem fun {a b} ha hb hab => ?_
  rw [Binary64.lt_iff _ _ (hreal a ha) (hreal b hb), not_lt]
  exact hab

namespace MatchState
variable (st : MatchState)

/-- The scans and lists of the three categories, in order. -/
def cleanedBest : CleanupScan × List Item := cleanupItems {} (sortDescending st.best)

def cleanedPartials : CleanupScan × List Item :=
  cleanupItems st.cleanedBest.1 (sortDescending st.partials)

def cleanedUnreliable : CleanupScan × List Item :=
  cleanupItems st.cleanedPartials.1 (sortDescending st.unreliable)

/-- The state a cleanup builds from the lists it keeps. -/
def rebuild (best partials unreliable : List Item) : MatchState :=
  (best ++ partials ++ unreliable).foldl (fun st it => st.putMatched it.name1 it.name2 it.ratio)
    ⟨st.total1, st.total2, best, partials, unreliable, InsertionDict.empty, InsertionDict.empty⟩

theorem cleanup_eq :
    cleanup st = st.rebuild st.cleanedBest.2 st.cleanedPartials.2 st.cleanedUnreliable.2 := rfl

@[simp] theorem foldl_putMatched_totals (its : List Item) :
    (its.foldl (fun st it => st.putMatched it.name1 it.name2 it.ratio) st).total1 = st.total1 ∧
      (its.foldl (fun st it => st.putMatched it.name1 it.name2 it.ratio) st).total2 =
        st.total2 := by
  induction its generalizing st with
  | nil => exact ⟨rfl, rfl⟩
  | cons it its ih => exact ih (st.putMatched it.name1 it.name2 it.ratio)

theorem cleanup_totals : (cleanup st).total1 = st.total1 ∧ (cleanup st).total2 = st.total2 := by
  rw [cleanup_eq, rebuild]
  exact foldl_putMatched_totals _ _

theorem cleanup_best : (cleanup st).best = st.cleanedBest.2 := by
  have h := foldl_putMatched_items (⟨st.total1, st.total2, st.cleanedBest.2, st.cleanedPartials.2,
    st.cleanedUnreliable.2, InsertionDict.empty, InsertionDict.empty⟩ : MatchState)
    (st.cleanedBest.2 ++ st.cleanedPartials.2 ++ st.cleanedUnreliable.2) .best
  exact h

theorem cleanup_partials : (cleanup st).partials = st.cleanedPartials.2 := by
  have h := foldl_putMatched_items (⟨st.total1, st.total2, st.cleanedBest.2, st.cleanedPartials.2,
    st.cleanedUnreliable.2, InsertionDict.empty, InsertionDict.empty⟩ : MatchState)
    (st.cleanedBest.2 ++ st.cleanedPartials.2 ++ st.cleanedUnreliable.2) .partials
  exact h

theorem cleanup_unreliable : (cleanup st).unreliable = st.cleanedUnreliable.2 := by
  have h := foldl_putMatched_items (⟨st.total1, st.total2, st.cleanedBest.2, st.cleanedPartials.2,
    st.cleanedUnreliable.2, InsertionDict.empty, InsertionDict.empty⟩ : MatchState)
    (st.cleanedBest.2 ++ st.cleanedPartials.2 ++ st.cleanedUnreliable.2) .unreliable
  exact h

/-- No listed ratio is a NaN: every producer of a ratio divides by a number that is not zero. -/
def RealRatios : Prop := ∀ c, ∀ it ∈ st.items c, it.ratio.isNaN = false

/-- A second cleanup changes nothing. -/
theorem cleanup_cleanup (hreal : st.RealRatios) : cleanup (cleanup st) = cleanup st := by
  have hbest : (cleanup st).cleanedBest.2 = st.cleanedBest.2 ∧
      (cleanup st).cleanedBest.1.dones ⊆ st.cleanedBest.1.dones ∧
      (cleanup st).cleanedBest.1.eaRatios = st.cleanedBest.1.eaRatios := by
    rw [cleanedBest, cleanup_best]
    unfold cleanedBest
    rw [sortDescending_cleanupItems _ st.best (hreal .best)]
    exact cleanupItems_again _ _ _ (List.Subset.refl _) rfl
  have hpartials : (cleanup st).cleanedPartials.2 = st.cleanedPartials.2 ∧
      (cleanup st).cleanedPartials.1.dones ⊆ st.cleanedPartials.1.dones ∧
      (cleanup st).cleanedPartials.1.eaRatios = st.cleanedPartials.1.eaRatios := by
    rw [cleanedPartials, cleanup_partials]
    unfold cleanedPartials
    rw [sortDescending_cleanupItems _ st.partials (hreal .partials)]
    exact cleanupItems_again _ _ _ hbest.2.1 hbest.2.2
  have hunreliable : (cleanup st).cleanedUnreliable.2 = st.cleanedUnreliable.2 := by
    rw [cleanedUnreliable, cleanup_unreliable]
    unfold cleanedUnreliable
    rw [sortDescending_cleanupItems _ st.unreliable (hreal .unreliable)]
    exact (cleanupItems_again _ _ _ hpartials.2.1 hpartials.2.2).1
  rw [cleanup_eq (cleanup st), hbest.1, hpartials.1, hunreliable, rebuild, (cleanup_totals st).1,
    (cleanup_totals st).2]
  rfl

/-- The items of a cleaned state that count have name pairs of their own. -/
theorem cleanup_keys_nodup :
    (((cleanup st).best ++ (cleanup st).partials).map namePairKey).Nodup := by
  rw [cleanup_best, cleanup_partials]
  obtain ⟨hbest, -, hdone, -⟩ := cleanupItems_keys {} (sortDescending st.best)
  obtain ⟨hpartials, hnew, -, -⟩ :=
    cleanupItems_keys st.cleanedBest.1 (sortDescending st.partials)
  rw [List.map_append, List.nodup_append]
  refine ⟨hbest, hpartials, ?_⟩
  intro a ha b hb hab
  obtain ⟨x, hx, rfl⟩ := List.mem_map.mp ha
  obtain ⟨y, hy, rfl⟩ := List.mem_map.mp hb
  exact hnew y hy (hab ▸ hdone x hx)

/-- A cleaned state lists at most one item a name pair. -/
theorem cleanup_total_le (primary secondary : Finset (Option Text))
    (hnames : ∀ c, ∀ it ∈ st.items c, it.name1 ∈ primary ∧ it.name2 ∈ secondary) :
    (cleanup st).totalMatchedFunctions ≤ (primary ×ˢ secondary).card := by
  let pair : Item → Option Text × Option Text := fun it => (it.name1,it.name2)
  let key : Option Text × Option Text → Text := fun p => keyText p.1 ++ text "-" ++ keyText p.2
  have hnodup : (((cleanup st).best ++ (cleanup st).partials).map pair).Nodup := by
    have hkeys := cleanup_keys_nodup st
    rw [show namePairKey = key ∘ pair from rfl, ← List.map_map] at hkeys
    exact hkeys.of_map key
  have hsub : (((cleanup st).best ++ (cleanup st).partials).map pair).toFinset ⊆
      primary ×ˢ secondary := by
    intro p hp
    obtain ⟨it, hit, rfl⟩ := List.mem_map.mp (List.mem_toFinset.mp hp)
    rw [Finset.mem_product]
    rcases List.mem_append.mp hit with hit | hit
    · exact hnames .best it (cleanup_subset st .best hit)
    · exact hnames .partials it (cleanup_subset st .partials hit)
  calc (cleanup st).totalMatchedFunctions
      = (((cleanup st).best ++ (cleanup st).partials).map pair).length := by
        rw [List.length_map, List.length_append, totalMatchedFunctions]
    _ = (((cleanup st).best ++ (cleanup st).partials).map pair).toFinset.card :=
        (List.toFinset_card_of_nodup hnodup).symm
    _ ≤ (primary ×ˢ secondary).card := Finset.card_le_card hsub

end MatchState

end DSigMatcher.Diff
