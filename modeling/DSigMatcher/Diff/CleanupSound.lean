import DSigMatcher.Diff.Cleanup

namespace DSigMatcher.Diff
open DSigMatcher.Base DSigMatcher.Framework

/-- Which items of a list a cleanup keeps. -/
def cleanupFlags (s : CleanupScan) : List Item → List Bool
  | [] => []
  | it::its => (cleanupItem s it).2::cleanupFlags (cleanupItem s it).1 its

/-- The items a list of flags marks. -/
def flagged {α : Type} (its : List α) (flags : List Bool) : List α :=
  ((its.zip flags).filter Prod.snd).map Prod.fst

theorem flagged_cons {α : Type} (x : α) (b : Bool) (its : List α) (flags : List Bool) :
    flagged (x::its) (b::flags) = if b then x::flagged its flags else flagged its flags := by
  cases b <;> simp [flagged]

theorem flagged_append {α : Type} (its its' : List α) (flags flags' : List Bool)
    (h : its.length = flags.length) :
    flagged (its ++ its') (flags ++ flags') = flagged its flags ++ flagged its' flags' := by
  rw [flagged, List.zip_append h, List.filter_append, List.map_append]
  rfl

@[simp] theorem length_cleanupFlags (s : CleanupScan) (its : List Item) :
    (cleanupFlags s its).length = its.length := by
  induction its generalizing s with
  | nil => rfl
  | cons it its ih => simp [cleanupFlags, ih]

theorem cleanupItems_flagged (s : CleanupScan) (its : List Item) :
    (cleanupItems s its).2 = flagged its (cleanupFlags s its) := by
  induction its generalizing s with
  | nil => rfl
  | cons it its ih =>
    rw [cleanupFlags, flagged_cons, ← ih]
    rfl

theorem cleanupFlags_append (s : CleanupScan) (its its' : List Item) :
    cleanupFlags s (its ++ its') =
      cleanupFlags s its ++ cleanupFlags (cleanupItems s its).1 its' := by
  induction its generalizing s with
  | nil => rfl
  | cons it its ih =>
    rw [List.cons_append, cleanupFlags, cleanupFlags, List.cons_append, ih]
    rfl

/-- What a scan knows of the items it has seen: the name pairs of all of them, and for a main
address the ratio of one it kept. -/
structure CleanupScan.Knows (s : CleanupScan) (seen : List Item) (flags : List Bool) : Prop where
  length : seen.length = flags.length
  dones : ∀ key ∈ s.dones, ∃ y ∈ seen, namePairKey y = key
  ratios : ∀ ea r, s.eaRatios.find? ea = some r →
    ∃ y ∈ flagged seen flags, y.ea1 = ea ∧ cleanupRatio y = r

/-- Why an item goes: one with its name pair came before it, or a better one of its main address was
kept before it. -/
def DroppedFor (seen : List Item) (flags : List Bool) (it : Item) : Prop :=
  (∃ y ∈ seen, namePairKey y = namePairKey it) ∨
    ∃ y ∈ flagged seen flags, y.ea1 = it.ea1 ∧ cleanupRatio it < cleanupRatio y

theorem CleanupScan.Knows.step {s : CleanupScan} {seen : List Item} {flags : List Bool}
    (h : s.Knows seen flags) (it : Item) :
    (cleanupItem s it).1.Knows (seen ++ [it]) (flags ++ [(cleanupItem s it).2]) ∧
      ((cleanupItem s it).2 = false → DroppedFor seen flags it) := by
  have hlength : (seen ++ [it]).length = (flags ++ [(cleanupItem s it).2]).length := by
    simp [h.length]
  have hflagged := flagged_append seen [it] flags [(cleanupItem s it).2] h.length
  have hseen : ∀ key, (∃ y ∈ seen, namePairKey y = key) →
      ∃ y ∈ seen ++ [it], namePairKey y = key := by
    rintro key ⟨y, hy, hkey⟩
    exact ⟨y, List.mem_append_left _ hy, hkey⟩
  have hkept : ∀ ea r, (∃ y ∈ flagged seen flags, y.ea1 = ea ∧ cleanupRatio y = r) →
      ∃ y ∈ flagged (seen ++ [it]) (flags ++ [(cleanupItem s it).2]),
        y.ea1 = ea ∧ cleanupRatio y = r := by
    rintro ea r ⟨y, hy, hratio⟩
    rw [hflagged]
    exact ⟨y, List.mem_append_left _ hy, hratio⟩
  have hnew : ∀ key ∈ namePairKey it::s.dones, ∃ y ∈ seen ++ [it], namePairKey y = key := by
    intro key hkey
    rcases List.mem_cons.mp hkey with rfl | hkey
    · exact ⟨it, by simp, rfl⟩
    · exact hseen key (h.dones key hkey)
  have hstep := cleanupItem_eq s it
  by_cases hknown : namePairKey it ∈ s.dones
  · rw [if_pos hknown] at hstep
    refine ⟨⟨hlength, ?_, ?_⟩, fun _ => .inl (h.dones _ hknown)⟩
    · intro key hkey
      rw [hstep] at hkey
      exact hseen key (h.dones key hkey)
    · intro ea r hr
      rw [hstep] at hr
      exact hkept ea r (h.ratios ea r hr)
  · rw [if_neg hknown] at hstep
    cases habove : s.above it with
    | true =>
      rw [habove, if_pos rfl] at hstep
      refine ⟨⟨hlength, ?_, ?_⟩, fun _ => .inr ?_⟩
      · intro key hkey
        rw [hstep] at hkey
        exact hnew key hkey
      · intro ea r hr
        rw [hstep] at hr
        exact hkept ea r (h.ratios ea r hr)
      · unfold CleanupScan.above at habove
        cases hr : s.eaRatios.find? it.ea1 with
        | none => simp [hr] at habove
        | some r =>
          obtain ⟨y, hy, hea, rfl⟩ := h.ratios _ _ hr
          exact ⟨y, hy, hea, by simpa [hr] using habove⟩
    | false =>
      rw [habove, if_neg Bool.false_ne_true] at hstep
      refine ⟨⟨hlength, ?_, ?_⟩, fun hfalse => by rw [hstep] at hfalse; cases hfalse⟩
      · intro key hkey
        rw [hstep] at hkey
        exact hnew key hkey
      · intro ea r hr
        rw [hstep] at hr
        change (s.eaRatios.put it.ea1 (cleanupRatio it)).find? ea = some r at hr
        rw [InsertionDict.find?_put] at hr
        split_ifs at hr with hea
        · refine ⟨it, ?_, hea.symm, Option.some.inj hr⟩
          rw [hflagged, hstep]
          simp [flagged]
        · exact hkept ea r (h.ratios ea r hr)

/-- Every item a scan drops goes for a reason among the items before it. -/
theorem cleanupFlags_dropped (s : CleanupScan) (seen : List Item) (flags : List Bool)
    (h : s.Knows seen flags) (its : List Item) (i : Nat) (it : Item) (hit : its[i]? = some it)
    (hflag : (cleanupFlags s its)[i]? = some false) :
    DroppedFor (seen ++ its.take i) (flags ++ (cleanupFlags s its).take i) it := by
  induction its generalizing s seen flags i with
  | nil => simp at hit
  | cons x its ih =>
    obtain ⟨hnext, hdrop⟩ := h.step x
    cases i with
    | zero =>
      obtain rfl := Option.some.inj hit
      rw [List.take_zero, List.take_zero, List.append_nil, List.append_nil]
      exact hdrop (Option.some.inj hflag)
    | succ i =>
      have hrest := ih _ _ _ hnext i hit hflag
      rw [List.append_assoc, List.append_assoc] at hrest
      exact hrest

namespace MatchState
variable (st : MatchState)

/-- The items a cleanup visits, in order: each category sorted, one category after the other. -/
def visited : List Item :=
  sortDescending st.best ++ (sortDescending st.partials ++ sortDescending st.unreliable)

/-- All items that the lists show, in the order of the categories. -/
def shown : List Item := st.best ++ (st.partials ++ st.unreliable)

/-- What a cleanup does with the items of a category. -/
def categoryFlags : Chooser → List Bool
  | .best => cleanupFlags {} (sortDescending st.best)
  | .partials => cleanupFlags st.cleanedBest.1 (sortDescending st.partials)
  | .unreliable => cleanupFlags st.cleanedPartials.1 (sortDescending st.unreliable)

theorem cleanup_items_flagged (c : Chooser) :
    (cleanup st).items c = flagged (sortDescending (st.items c)) (st.categoryFlags c) := by
  cases c with
  | best => exact (cleanup_best st).trans (cleanupItems_flagged _ _)
  | partials => exact (cleanup_partials st).trans (cleanupItems_flagged _ _)
  | unreliable => exact (cleanup_unreliable st).trans (cleanupItems_flagged _ _)

theorem length_categoryFlags (c : Chooser) :
    (st.categoryFlags c).length = (sortDescending (st.items c)).length := by
  cases c <;> exact length_cleanupFlags _ _

theorem cleanupFlags_visited : cleanupFlags {} st.visited =
    st.categoryFlags .best ++ (st.categoryFlags .partials ++ st.categoryFlags .unreliable) := by
  rw [visited, cleanupFlags_append, cleanupFlags_append]
  rfl

/-- Cleaned lists are sorted, best ratio first. -/
theorem cleanup_sorted (hreal : st.RealRatios) (c : Chooser) :
    ((cleanup st).items c).Pairwise fun a b => ¬ a.ratio < b.ratio := by
  have hsorted := sortDescending_pairwise (st.items c) (hreal c)
  have hsub : ((cleanup st).items c).Sublist (sortDescending (st.items c)) := by
    cases c with
    | best =>
      have h := cleanupItems_sublist {} (sortDescending st.best)
      rwa [← cleanedBest, ← cleanup_best] at h
    | partials =>
      have h := cleanupItems_sublist st.cleanedBest.1 (sortDescending st.partials)
      rwa [← cleanedPartials, ← cleanup_partials] at h
    | unreliable =>
      have h := cleanupItems_sublist st.cleanedPartials.1 (sortDescending st.unreliable)
      rwa [← cleanedUnreliable, ← cleanup_unreliable] at h
  have hall : ∀ it ∈ (cleanup st).items c, it.ratio.isNaN = false :=
    fun it hit => hreal c it (cleanup_subset st c hit)
  refine (hsorted.sublist hsub).imp_of_mem fun {a b} ha hb hab => ?_
  rw [Binary64.lt_iff _ _ (hall a ha) (hall b hb), not_lt]
  exact hab

/-- No name pair is shown twice, in whatever categories. -/
theorem cleanup_shown_nodup : ((cleanup st).shown.map namePairKey).Nodup := by
  obtain ⟨hbest, -, hbestDone, -⟩ := cleanupItems_keys {} (sortDescending st.best)
  obtain ⟨hpartials, hpartialsNew, hpartialsDone, hpartialsSub⟩ :=
    cleanupItems_keys st.cleanedBest.1 (sortDescending st.partials)
  obtain ⟨hunreliable, hunreliableNew, -, -⟩ :=
    cleanupItems_keys st.cleanedPartials.1 (sortDescending st.unreliable)
  rw [shown, cleanup_best, cleanup_partials, cleanup_unreliable, List.map_append, List.map_append,
    List.nodup_append, List.nodup_append]
  refine ⟨hbest, ⟨hpartials, hunreliable, ?_⟩, ?_⟩
  · intro a ha b hb hab
    obtain ⟨x, hx, rfl⟩ := List.mem_map.mp ha
    obtain ⟨y, hy, rfl⟩ := List.mem_map.mp hb
    exact hunreliableNew y hy (hab ▸ hpartialsDone x hx)
  · intro a ha b hb hab
    obtain ⟨x, hx, rfl⟩ := List.mem_map.mp ha
    rcases List.mem_append.mp hb with hb | hb
    · obtain ⟨y, hy, rfl⟩ := List.mem_map.mp hb
      exact hpartialsNew y hy (hab ▸ hbestDone x hx)
    · obtain ⟨y, hy, rfl⟩ := List.mem_map.mp hb
      exact hunreliableNew y hy (hab ▸ hpartialsSub (hbestDone x hx))

theorem mem_keys_foldl_putMatched (its : List Item) (n : Option Text) :
    (n ∈ (its.foldl (fun st it => st.putMatched it.name1 it.name2 it.ratio) st).primary.keys ↔
      n ∈ st.primary.keys ∨ ∃ it ∈ its, it.name1 = n) ∧
    (n ∈ (its.foldl (fun st it => st.putMatched it.name1 it.name2 it.ratio) st).secondary.keys ↔
      n ∈ st.secondary.keys ∨ ∃ it ∈ its, it.name2 = n) := by
  induction its generalizing st with
  | nil => simp
  | cons it its ih =>
    rw [List.foldl_cons, (ih _).1, (ih _).2]
    simp only [putMatched, InsertionDict.mem_keys_put, List.mem_cons, exists_eq_or_imp]
    have hfront (p q r : Prop) : (p ∨ q) ∨ r ↔ q ∨ p ∨ r := by rw [or_assoc, or_left_comm]
    rw [hfront, hfront, eq_comm (a := n), eq_comm (a := n)]
    exact ⟨Iff.rfl, Iff.rfl⟩

/-- The matched dicts of a cleaned state hold exactly the names of its items. -/
theorem mem_keys_cleanup (n : Option Text) :
    (n ∈ (cleanup st).primary.keys ↔ ∃ it ∈ (cleanup st).shown, it.name1 = n) ∧
      (n ∈ (cleanup st).secondary.keys ↔ ∃ it ∈ (cleanup st).shown, it.name2 = n) := by
  have hkeys := mem_keys_foldl_putMatched (⟨st.total1, st.total2, st.cleanedBest.2,
    st.cleanedPartials.2, st.cleanedUnreliable.2, InsertionDict.empty, InsertionDict.empty⟩)
    (st.cleanedBest.2 ++ st.cleanedPartials.2 ++ st.cleanedUnreliable.2) n
  have hnone : n ∉ (InsertionDict.empty : NameDict).keys := List.not_mem_nil
  rw [shown, cleanup_best, cleanup_partials, cleanup_unreliable, ← List.append_assoc]
  exact ⟨hkeys.1.trans (or_iff_right hnone), hkeys.2.trans (or_iff_right hnone)⟩

end MatchState

/-- A cleanup is idempotent and drops nothing without a reason. -/
theorem cleanup_sound (st : MatchState) (hreal : st.RealRatios) :
    cleanup (cleanup st) = cleanup st ∧
    (∀ c, ((cleanup st).items c).Pairwise fun a b => ¬ a.ratio < b.ratio) ∧
    ((cleanup st).shown.map namePairKey).Nodup ∧
    (∀ c, (cleanup st).items c ⊆ st.items c) ∧
    (∀ n, (n ∈ (cleanup st).primary.keys ↔ ∃ it ∈ (cleanup st).shown, it.name1 = n) ∧
      (n ∈ (cleanup st).secondary.keys ↔ ∃ it ∈ (cleanup st).shown, it.name2 = n)) ∧
    ∃ kept : Chooser → List Bool,
      (∀ c, (kept c).length = (sortDescending (st.items c)).length ∧
        (cleanup st).items c = flagged (sortDescending (st.items c)) (kept c)) ∧
      ∀ (i : Nat) (it : Item), st.visited[i]? = some it →
        (kept .best ++ (kept .partials ++ kept .unreliable))[i]? = some false →
        DroppedFor (st.visited.take i)
          ((kept .best ++ (kept .partials ++ kept .unreliable)).take i) it := by
  refine ⟨st.cleanup_cleanup hreal, st.cleanup_sorted hreal, st.cleanup_shown_nodup,
    cleanup_subset st, st.mem_keys_cleanup, st.categoryFlags, ?_, ?_⟩
  · intro c
    exact ⟨st.length_categoryFlags c, st.cleanup_items_flagged c⟩
  · intro i it hit hflag
    have hempty : CleanupScan.Knows {} [] [] := ⟨rfl, by simp, by simp⟩
    rw [← st.cleanupFlags_visited] at hflag ⊢
    exact cleanupFlags_dropped {} [] [] hempty st.visited i it hit hflag

/-- Among the partial matches, one function has a best match already, one is there with two partners, and
one pair of names is there twice. -/
def contestedMatches : MatchState :=
  { MatchState.initial 4 4 with
    best := [sampleItem "16" "main" "32" "main" .one]
    partials := [sampleItem "16" "main" "48" "start" nineTenths,
      sampleItem "64" "sub_40" "80" "read" fourFifths, sampleItem "64" "sub_40" "96" "scan" nineTenths,
      sampleItem "68" "sub_40" "100" "scan" fourFifths] }

theorem cleanup_sound_contested : cleanup (cleanup contestedMatches) = cleanup contestedMatches ∧
    ((cleanup contestedMatches).shown.map namePairKey).Nodup ∧
    (cleanup contestedMatches).best = contestedMatches.best ∧
    (cleanup contestedMatches).partials = [sampleItem "64" "sub_40" "96" "scan" nineTenths] ∧
    ∃ kept : Chooser → List Bool,
      (∀ c, (cleanup contestedMatches).items c =
        flagged (sortDescending (contestedMatches.items c)) (kept c)) ∧
      ∀ i it, contestedMatches.visited[i]? = some it →
        (kept .best ++ (kept .partials ++ kept .unreliable))[i]? = some false →
        DroppedFor (contestedMatches.visited.take i)
          ((kept .best ++ (kept .partials ++ kept .unreliable)).take i) it := by
  have hreal : contestedMatches.RealRatios := by
    intro c
    cases c <;> decide
  obtain ⟨hagain, -, hnodup, -, -, kept, hkept, hdropped⟩ := cleanup_sound contestedMatches hreal
  exact ⟨hagain, hnodup, by decide, by decide, kept, fun c => (hkept c).2, hdropped⟩

end DSigMatcher.Diff
