import DSigMatcher.Diff.FinalPass

namespace DSigMatcher.Diff
open DSigMatcher.Base DSigMatcher.Framework

/-- After the visits `p`, of which `q` were the first of their pair. -/
structure ScanInvariant (p q : List Item) (s : MultimatchScan) : Prop where
  fresh : q ⊆ p
  seen : ∀ x ∈ p, ∃ y ∈ q, y.pairKey = x.pairKey ∧ x.ratio.key ≤ y.ratio.key
  nodup : (q.map Item.pairKey).Nodup
  dones : ∀ k, k ∈ s.dones ↔ k ∈ q.map Item.pairKey
  main : TopGroups Item.ea1 Item.ratio q s.maxMain s.multiMain
  diff : TopGroups Item.ea2 Item.ratio (q.filter (atMax Item.ea1 Item.ratio s.maxMain))
    s.maxDiff s.multiDiff

theorem scanInvariant_nil : ScanInvariant [] [] {} where
  fresh := by simp
  seen := by simp
  nodup := List.nodup_nil
  dones := by simp
  main := topGroups_nil _ _
  diff := topGroups_nil _ _

/-- What a visit does: the pair was seen before, or the row joins the dicts. -/
theorem scanItem_cases (s : MultimatchScan) (m : Item) :
    (m.pairKey ∈ s.dones ∧ scanItem s m = s) ∨
    (m.pairKey ∉ s.dones ∧ (scanItem s m).dones = m.pairKey::s.dones ∧
      (scanItem s m).maxMain = (keepTop Item.ea1 Item.ratio s.maxMain s.multiMain m).1 ∧
      (scanItem s m).multiMain = (keepTop Item.ea1 Item.ratio s.maxMain s.multiMain m).2.1 ∧
      (scanItem s m).maxDiff =
        (if (keepTop Item.ea1 Item.ratio s.maxMain s.multiMain m).2.2 then
          (keepTop Item.ea2 Item.ratio s.maxDiff s.multiDiff m).1 else s.maxDiff) ∧
      (scanItem s m).multiDiff =
        if (keepTop Item.ea1 Item.ratio s.maxMain s.multiMain m).2.2 then
          (keepTop Item.ea2 Item.ratio s.maxDiff s.multiDiff m).2.1 else s.multiDiff) := by
  by_cases hd : m.pairKey ∈ s.dones
  · left
    simp [scanItem, hd]
  · right
    unfold scanItem
    rw [if_neg hd]
    dsimp only
    split_ifs <;> exact ⟨hd, rfl, rfl, rfl, rfl, rfl⟩

/-- One visit whose ratio is at most those of all earlier ones. -/
theorem scanItem_step {p q : List Item} {s : MultimatchScan} (h : ScanInvariant p q s) (m : Item)
    (hm : m.ratio.isNaN = false) (hp : ∀ y ∈ p, m.ratio.key ≤ y.ratio.key) :
    ∃ q', ScanInvariant (p ++ [m]) q' (scanItem s m) := by
  have hq : ∀ y ∈ q, m.ratio.key ≤ y.ratio.key := fun y hy => hp y (h.fresh hy)
  rcases scanItem_cases s m with ⟨hd, he⟩ | ⟨hd, hdones, hmax, hmulti, hmax2, hmulti2⟩
  · rw [he]
    refine ⟨q, fun y hy => List.mem_append_left _ (h.fresh hy), ?_, h.nodup, h.dones, h.main,
      h.diff⟩
    intro x hx
    rcases List.mem_append.mp hx with hx | hx
    · exact h.seen x hx
    · obtain rfl := List.mem_singleton.mp hx
      obtain ⟨y, hy, hyk⟩ := List.mem_map.mp ((h.dones _).mp hd)
      exact ⟨y, hy, hyk, hq y hy⟩
  · have hat := keepTop_atMax h.main m hm hq
    refine ⟨q ++ [m], ?_, ?_, ?_, ?_, ?_, ?_⟩
    · intro y hy
      rcases List.mem_append.mp hy with hy | hy
      · exact List.mem_append_left _ (h.fresh hy)
      · exact List.mem_append_right _ hy
    · intro x hx
      rcases List.mem_append.mp hx with hx | hx
      · obtain ⟨y, hy, hyk⟩ := h.seen x hx
        exact ⟨y, List.mem_append_left _ hy, hyk⟩
      · obtain rfl := List.mem_singleton.mp hx
        exact ⟨x, by simp, rfl, Int.le_refl _⟩
    · rw [List.map_append, List.nodup_append]
      refine ⟨h.nodup, List.nodup_singleton _, ?_⟩
      intro a ha b hb hab
      obtain rfl := List.mem_singleton.mp hb
      exact hd ((h.dones _).mpr (hab ▸ ha))
    · intro k
      rw [hdones, List.mem_cons, h.dones, List.map_append, List.mem_append]
      simp [or_comm]
    · rw [hmax, hmulti]
      exact keepTop_step h.main m hm hq
    · have hold : q.filter (atMax Item.ea1 Item.ratio
          (keepTop Item.ea1 Item.ratio s.maxMain s.multiMain m).1) =
          q.filter (atMax Item.ea1 Item.ratio s.maxMain) :=
        List.filter_congr fun y hy => hat.2 y hy
      rw [hmax, hmax2, hmulti2, List.filter_append, hold, List.filter_singleton, ← hat.1]
      cases (keepTop Item.ea1 Item.ratio s.maxMain s.multiMain m).2.2 with
      | true => exact keepTop_step h.diff m hm fun y hy => hq y (List.mem_of_mem_filter hy)
      | false => simpa using h.diff

/-- A descending run of visits. -/
theorem scanItem_run (p q l : List Item) (s : MultimatchScan) (h : ScanInvariant p q s)
    (hnan : ∀ m ∈ l, m.ratio.isNaN = false)
    (hdesc : (p ++ l).Pairwise fun a b => b.ratio.key ≤ a.ratio.key) :
    ∃ q', ScanInvariant (p ++ l) q' (l.foldl scanItem s) := by
  induction l generalizing p q s with
  | nil => exact ⟨q, by rwa [List.append_nil]⟩
  | cons m l ih =>
    have hm := hnan m List.mem_cons_self
    have hp : ∀ y ∈ p, m.ratio.key ≤ y.ratio.key := fun y hy =>
      (List.pairwise_append.mp hdesc).2.2 y hy m List.mem_cons_self
    obtain ⟨q', hq'⟩ := scanItem_step h m hm hp
    have happ : p ++ m::l = (p ++ [m]) ++ l := by simp
    rw [happ] at hdesc ⊢
    exact ih (p ++ [m]) q' _ hq' (fun x hx => hnan x (List.mem_cons_of_mem _ hx)) hdesc

/-- The split of the categories that the pass relies on. -/
structure CategorySplit (st : MatchState) : Prop where
  best : ∀ it ∈ st.best, it.ratio.eq Binary64.one = true
  partials : ∀ it ∈ st.partials, it.ratio < Binary64.one
  unreliable : st.unreliable = []

variable {st : MatchState}

/-- Every listed item of the state. -/
def MatchState.listed (st : MatchState) : List Item := choosers.flatMap st.items

theorem mem_listed (st : MatchState) (it : Item) : it ∈ st.listed ↔ ∃ c, it ∈ st.items c := by
  simp only [MatchState.listed, List.mem_flatMap]
  constructor
  · rintro ⟨c, -, hit⟩
    exact ⟨c, hit⟩
  · intro ⟨c, hit⟩
    exact ⟨c, by cases c <;> simp [choosers], hit⟩

theorem mem_visitOrder (st : MatchState) (it : Item) : it ∈ visitOrder st ↔ it ∈ st.listed := by
  simp [visitOrder, MatchState.listed, MatchState.sortedResults]

namespace CategorySplit

theorem isNaN_listed (h : CategorySplit st) (it : Item) (hit : it ∈ st.listed) :
    it.ratio.isNaN = false := by
  obtain ⟨c, hc⟩ := (mem_listed st it).mp hit
  cases c with
  | best =>
    rw [Binary64.eq_one _ (h.best it hc)]
    rfl
  | partials => exact Binary64.not_nan_of_lt_left (h.partials it hc)
  | unreliable =>
    change it ∈ st.unreliable at hc
    rw [h.unreliable] at hc
    exact absurd hc List.not_mem_nil

theorem pairwise_visitOrder (h : CategorySplit st) :
    (visitOrder st).Pairwise fun a b => b.ratio.key ≤ a.ratio.key := by
  have hnan (c : Chooser) (it : Item) (hit : it ∈ st.items c) : it.ratio.isNaN = false :=
    h.isNaN_listed it ((mem_listed st it).mpr ⟨c, hit⟩)
  have hun : st.sortedResults .unreliable = [] := by
    have hu : st.items .unreliable = [] := h.unreliable
    rw [MatchState.sortedResults, hu]
    rfl
  have hvisit : visitOrder st = st.sortedResults .best ++ st.sortedResults .partials := by
    simp [visitOrder, choosers, hun]
  rw [hvisit, List.pairwise_append]
  refine ⟨sortDescending_pairwise _ (hnan .best), sortDescending_pairwise _ (hnan .partials), ?_⟩
  intro a ha b hb
  have ha' := Binary64.eq_one _ (h.best a ((mem_sortDescending _ _).mp ha))
  have hb' := h.partials b ((mem_sortDescending _ _).mp hb)
  rw [ha']
  exact Int.le_of_lt hb'.2.2

/-- What the scan of a split state has recorded. -/
theorem scan_invariant (h : CategorySplit st) :
    ∃ q, ScanInvariant (visitOrder st) q (findUnresolvedMultimatches st) := by
  have hrun := scanItem_run [] [] (visitOrder st) {} scanInvariant_nil
    (fun m hm => h.isNaN_listed m ((mem_visitOrder st m).mp hm))
    (by simpa using h.pairwise_visitOrder)
  simpa [findUnresolvedMultimatches] using hrun

end CategorySplit

end DSigMatcher.Diff
