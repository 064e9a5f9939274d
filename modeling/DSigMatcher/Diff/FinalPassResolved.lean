import DSigMatcher.Diff.FinalPassRows
import DSigMatcher.Diff.FinalPassScan

namespace DSigMatcher.Diff
open DSigMatcher.Base DSigMatcher.Framework

theorem one_lt_length_of_ne {α : Type*} {l : List α} {x y : α} (hx : x ∈ l) (hy : y ∈ l)
    (hne : x ≠ y) : 1 < l.length := by
  match l, hx, hy with
  | [a], hx, hy => exact absurd ((List.mem_singleton.mp hx).trans (List.mem_singleton.mp hy).symm) hne
  | a::b::l, _, _ => simp

/-- Different listed address pairs read differently as `ea1-ea2`. -/
def DistinctPairKeys (st : MatchState) : Prop :=
  ∀ x ∈ st.listed, ∀ y ∈ st.listed, x.pairKey = y.pairKey → x.ea1 = y.ea1 ∧ x.ea2 = y.ea2

theorem distinctPairKeys_of_addressed (st : MatchState) (h : ∀ it ∈ st.listed, it.Addressed) :
    DistinctPairKeys st := by
  intro x hx y hy hxy
  obtain ⟨⟨a, ha, -, hai⟩, b, hb, -, -⟩ := h x hx
  obtain ⟨⟨a', ha', -, hai'⟩, b', hb', -, -⟩ := h y hy
  rw [Item.pairKey, Item.pairKey, ha, hb, ha', hb'] at hxy
  obtain ⟨rfl, rfl⟩ := hyphen_join_injective a a' b b' (hyphenBeforeDigits_of_accepts a hai)
    (hyphenBeforeDigits_of_accepts a' hai') hxy
  exact ⟨ha.trans ha'.symm, hb.trans hb'.symm⟩

/-- The item's ratio is the maximum recorded for its ea1. -/
def atMain (st : MatchState) (m : Item) : Bool :=
  atMax Item.ea1 Item.ratio (findUnresolvedMultimatches st).maxMain m

/-- The item's ratio is the maximum recorded for its ea2. -/
def atDiff (st : MatchState) (m : Item) : Bool :=
  atMax Item.ea2 Item.ratio (findUnresolvedMultimatches st).maxDiff m

/-- The rows recorded at the maximum of one ea1. -/
def mainGroup (st : MatchState) (a : Option Text) : List Item :=
  (findUnresolvedMultimatches st).multiMain.group a

/-- The rows recorded at the maximum of one ea2. -/
def diffGroup (st : MatchState) (b : Option Text) : List Item :=
  (findUnresolvedMultimatches st).multiDiff.group b

def TiedMain (st : MatchState) (a : Option Text) : Prop := 1 < (mainGroup st a).length

/-- An ea2 with several rows of which the main side takes at least one no further. -/
def TiedDiff (st : MatchState) (b : Option Text) : Prop :=
  1 < (diffGroup st b).length ∧ ∃ m ∈ diffGroup st b, ¬ TiedMain st m.ea1

section
variable {st : MatchState} {q : List Item}
  (hs : ScanInvariant (visitOrder st) q (findUnresolvedMultimatches st))
include hs

theorem mem_mainGroup (a : Option Text) (m : Item) :
    m ∈ mainGroup st a ↔ m ∈ q ∧ m.ea1 = a ∧ atMain st m = true :=
  hs.main.mem_group a m

theorem mem_diffGroup (b : Option Text) (m : Item) :
    m ∈ diffGroup st b ↔ m ∈ q ∧ m.ea2 = b ∧ atMain st m = true ∧ atDiff st m = true := by
  rw [diffGroup, hs.diff.mem_group, List.mem_filter, and_assoc, and_left_comm (b := _ = b)]
  rfl

theorem scan_listed (x : Item) (hx : x ∈ q) : x ∈ st.listed :=
  (mem_visitOrder st x).mp (hs.fresh hx)

omit hs in
/-- Two different rows of one group tie its address. -/
theorem tiedMain_of_ne (x y : Item) (a : Option Text) (hx : x ∈ mainGroup st a)
    (hy : y ∈ mainGroup st a) (hne : x ≠ y) : TiedMain st a :=
  one_lt_length_of_ne hx hy hne

variable (hkeys : DistinctPairKeys st)
include hkeys

/-- Every listed item has a recorded row of its pair, with a ratio at least as high. -/
theorem scan_twin (m : Item) (hm : m ∈ st.listed) :
    ∃ y ∈ q, y.ea1 = m.ea1 ∧ y.ea2 = m.ea2 ∧ m.ratio.key ≤ y.ratio.key := by
  obtain ⟨y, hy, hyk, hle⟩ := hs.seen m ((mem_visitOrder st m).mpr hm)
  obtain ⟨h1, h2⟩ := hkeys y (scan_listed hs y hy) m hm hyk
  exact ⟨y, hy, h1, h2, hle⟩

theorem main_recorded (m : Item) (hm : m ∈ st.listed) :
    ∃ r, (findUnresolvedMultimatches st).maxMain.find? m.ea1 = some r ∧ r.isNaN = false ∧
      m.ratio.key ≤ r.key := by
  obtain ⟨y, hy, h1, -, hle⟩ := scan_twin hs hkeys m hm
  obtain ⟨r, hr, hn, hyr⟩ := hs.main.bound y hy
  exact ⟨r, h1 ▸ hr, hn, hle.trans hyr⟩

/-- The recorded row of a pair at the maximum of its ea1 is there too. -/
theorem twin_atMain (m : Item) (hm : m ∈ st.listed) (htop : atMain st m = true) :
    ∃ y ∈ q, y.ea1 = m.ea1 ∧ y.ea2 = m.ea2 ∧ y.ratio.key = m.ratio.key ∧ atMain st y = true := by
  obtain ⟨y, hy, h1, h2, hle⟩ := scan_twin hs hkeys m hm
  obtain ⟨r, hr, -, hyr⟩ := hs.main.bound y hy
  have hmr : m.ratio.key = r.key := by
    simpa [atMain, atMax, ← h1, hr] using htop
  have hym : y.ratio.key = m.ratio.key := by omega
  refine ⟨y, hy, h1, h2, hym, ?_⟩
  simpa [atMain, atMax, hr] using hym.trans hmr

theorem diff_recorded (m : Item) (hm : m ∈ st.listed) (htop : atMain st m = true) :
    ∃ r, (findUnresolvedMultimatches st).maxDiff.find? m.ea2 = some r ∧ r.isNaN = false ∧
      m.ratio.key ≤ r.key := by
  obtain ⟨y, hy, -, h2, hle, hyt⟩ := twin_atMain hs hkeys m hm htop
  obtain ⟨r, hr, hn, hyr⟩ := hs.diff.bound y (List.mem_filter.mpr ⟨hy, hyt⟩)
  exact ⟨r, h2 ▸ hr, hn, hle ▸ hyr⟩

theorem belowMain_iff (m : Item) (hm : m ∈ st.listed) (hn : m.ratio.isNaN = false) :
    belowMax (findUnresolvedMultimatches st).maxMain m.ea1 m.ratio = !atMain st m := by
  obtain ⟨r, hr, hrn, hle⟩ := main_recorded hs hkeys m hm
  simp only [belowMax, atMain, atMax, hr, Binary64.lt_iff _ _ hn hrn, ← decide_not]
  exact decide_eq_decide.mpr (by omega)

theorem belowDiff_iff (m : Item) (hm : m ∈ st.listed) (hn : m.ratio.isNaN = false)
    (htop : atMain st m = true) :
    belowMax (findUnresolvedMultimatches st).maxDiff m.ea2 m.ratio = !atDiff st m := by
  obtain ⟨r, hr, hrn, hle⟩ := diff_recorded hs hkeys m hm htop
  simp only [belowMax, atDiff, atMax, hr, Binary64.lt_iff _ _ hn hrn, ← decide_not]
  exact decide_eq_decide.mpr (by omega)

/-- A listed pair at both maxima has a recorded row in both groups. -/
theorem twin_groups (m : Item) (hm : m ∈ st.listed) (htop : atMain st m = true)
    (hdiff : atDiff st m = true) :
    ∃ y, y.ea1 = m.ea1 ∧ y.ea2 = m.ea2 ∧ y ∈ mainGroup st m.ea1 ∧ y ∈ diffGroup st m.ea2 := by
  obtain ⟨y, hy, h1, h2, hym, hyt⟩ := twin_atMain hs hkeys m hm htop
  have hyd : atDiff st y = true := by simpa [atDiff, atMax, h2, hym] using hdiff
  exact ⟨y, h1, h2, (mem_mainGroup hs _ _).mpr ⟨hy, h1, hyt⟩,
    (mem_diffGroup hs _ _).mpr ⟨hy, h2, hyt, hyd⟩⟩

end

/-- What a completed pass has placed and what it holds ambiguous. -/
structure Resolved (st : MatchState) (q : List Item) (final : FinalChoosers) : Prop where
  multimatch : ∀ m, m ∈ final.multimatch ↔
    (m ∈ mainGroup st m.ea1 ∧ TiedMain st m.ea1) ∨
    (m ∈ diffGroup st m.ea2 ∧ 1 < (diffGroup st m.ea2).length ∧ ¬ TiedMain st m.ea1)
  placed : ∀ c m, m ∈ final.items c ↔ m ∈ st.items c ∧ ¬ TiedMain st m.ea1 ∧
    ¬ TiedDiff st m.ea2 ∧ atMain st m = true ∧ atDiff st m = true

section
variable {st : MatchState} {q : List Item} {final : FinalChoosers}
  (hs : ScanInvariant (visitOrder st) q (findUnresolvedMultimatches st))
  (hkeys : DistinctPairKeys st)
include hs

/-- The first call adds every tied row of the main side. -/
theorem mainAdded {main : MultimatchAdd}
    (h : addMultimatchesToChooser ⟨[], [], []⟩
      (findUnresolvedMultimatches st).multiMain.entries = .ok main) :
    (∀ m, m ∈ main.rows ↔ m ∈ mainGroup st m.ea1 ∧ TiedMain st m.ea1) ∧
    (∀ k, k ∈ main.dones ↔ ∃ m ∈ main.rows, m.pairKey = k) ∧
    ∀ a, a ∈ main.ignore ↔ TiedMain st a := by
  have hnodup : (((findUnresolvedMultimatches st).multiMain.entries.flatMap Prod.snd).map
      Item.pairKey).Nodup :=
    (hs.main.entries_nodup hs.nodup.of_map).map_on fun x hx y hy =>
      List.inj_on_of_nodup_map hs.nodup (hs.main.entries_subset hx) (hs.main.entries_subset hy)
  have hadd := addMultimatchesToChooser_ok _ _ _ hnodup h
  have hrows : main.rows = tiedRows (findUnresolvedMultimatches st).multiMain.entries := by
    rw [hadd.rows]
    simp
  refine ⟨fun m => ?_, fun k => ?_, fun a => ?_⟩
  · rw [hrows, mem_tiedRows]
    exact hs.main.mem_tied_iff m
  · rw [hadd.dones, hrows, List.mem_map]
    simp
  · rw [hadd.ignore]
    simp only [List.not_mem_nil, false_or, not_false_eq_true, and_true]
    constructor
    · rintro ⟨ms, he, hlen, -⟩
      rw [TiedMain, mainGroup, GroupDict.group_of_mem _ _ _ he]
      exact hlen
    · intro htied
      obtain ⟨m, hm⟩ := List.exists_mem_of_length_pos (Nat.zero_lt_of_lt htied)
      exact ⟨_, GroupDict.mem_entries_group _ a m hm, htied, m, hm⟩

/-- The second call adds the tied rows of the diff side that the first one left. -/
theorem diffAdded {main diff : MultimatchAdd}
    (h : addMultimatchesToChooser ⟨[], [], []⟩
      (findUnresolvedMultimatches st).multiMain.entries = .ok main)
    (h' : addMultimatchesToChooser ⟨[], main.dones, main.rows⟩
      (findUnresolvedMultimatches st).multiDiff.entries = .ok diff) :
    (∀ m, m ∈ diff.rows ↔ m ∈ main.rows ∨
      m ∈ diffGroup st m.ea2 ∧ 1 < (diffGroup st m.ea2).length ∧ ¬ TiedMain st m.ea1) ∧
    ∀ b, b ∈ diff.ignore ↔ TiedDiff st b := by
  obtain ⟨hrows, hdones, -⟩ := mainAdded hs h
  have hinj := List.inj_on_of_nodup_map hs.nodup
  have hnodup : (((findUnresolvedMultimatches st).multiDiff.entries.flatMap Prod.snd).map
      Item.pairKey).Nodup :=
    (hs.diff.entries_nodup (hs.nodup.of_map.filter _)).map_on fun x hx y hy =>
      hinj (List.mem_of_mem_filter (hs.diff.entries_subset hx))
        (List.mem_of_mem_filter (hs.diff.entries_subset hy))
  -- the first call has done exactly the pairs of tied ea1
  have hnew : ∀ b, ∀ m ∈ diffGroup st b, m.pairKey ∉ main.dones ↔ ¬ TiedMain st m.ea1 := by
    intro b m hm
    obtain ⟨hmq, -, hmt, -⟩ := (mem_diffGroup hs b m).mp hm
    rw [hdones, not_iff_not]
    constructor
    · rintro ⟨x, hx, hxm⟩
      obtain ⟨hxg, htied⟩ := (hrows x).mp hx
      exact hinj ((mem_mainGroup hs _ x).mp hxg).1 hmq hxm ▸ htied
    · intro htied
      exact ⟨m, (hrows m).mpr ⟨(mem_mainGroup hs _ m).mpr ⟨hmq, rfl, hmt⟩, htied⟩, rfl⟩
  have hadd := addMultimatchesToChooser_ok _ _ _ hnodup h'
  refine ⟨fun m => ?_, fun b => ?_⟩
  · rw [hadd.rows, List.mem_append, List.mem_filter, mem_tiedRows, hs.diff.mem_tied_iff,
      decide_eq_true_eq, and_assoc]
    refine or_congr_right (and_congr_right fun hm => and_congr_right fun _ => hnew _ m hm)
  · rw [hadd.ignore]
    simp only [List.not_mem_nil, false_or]
    constructor
    · rintro ⟨ms, he, hlen, m, hm, hmd⟩
      obtain rfl := GroupDict.group_of_mem _ _ _ he
      exact ⟨hlen, m, hm, (hnew b m hm).mp hmd⟩
    · intro ⟨hlen, m, hm, hmt⟩
      exact ⟨_, GroupDict.mem_entries_group _ b m hm, hlen, m, hm, (hnew b m hm).mpr hmt⟩

include hkeys in
/-- A completed pass resolves the state. -/
theorem resolveMatches_resolved (hsplit : CategorySplit st) (h : resolveMatches st = .ok final) :
    Resolved st q final := by
  unfold resolveMatches at h
  dsimp only at h
  split at h
  · cases h
  rename_i main hmain
  split at h
  · cases h
  rename_i diff hdiff
  obtain ⟨hmulti, hitems⟩ := addFinalChooserItems_ok st _ _ _ (by decide) h
  obtain ⟨hrows, -, hignore⟩ := mainAdded hs hmain
  obtain ⟨hrows', hignore'⟩ := diffAdded hs hmain hdiff
  constructor
  · intro m
    rw [hmulti, hrows', hrows]
  · intro c m
    have hc : c ∈ choosers := by cases c <;> decide
    have hempty (rows : List Item) : (FinalChoosers.mk [] [] [] rows).items c = [] := by
      cases c <;> rfl
    rw [hitems, if_pos hc, hempty, List.nil_append, List.mem_filter, MatchState.sortedResults,
      mem_sortDescending]
    refine and_congr_right fun hm => ?_
    have hl : m ∈ st.listed := (mem_listed st m).mpr ⟨c, hm⟩
    have hn := hsplit.isNaN_listed m hl
    simp only [isPlaced, belowMain_iff hs hkeys m hl hn, hignore, hignore', Bool.and_eq_true,
      decide_eq_true_eq, Bool.not_not, and_assoc]
    refine and_congr_right fun _ => and_congr_right fun _ => and_congr_right fun htop => ?_
    rw [belowDiff_iff hs hkeys m hl hn htop, Bool.not_not]

include hkeys in
/-- On addresses `int()` accepts the pass completes. -/
theorem resolveMatches_addressed (hsplit : CategorySplit st)
    (hea : ∀ m ∈ st.listed, m.Addressed) : ∃ final, resolveMatches st = .ok final := by
  obtain ⟨main, hmain⟩ := addMultimatchesToChooser_addressed ⟨[], [], []⟩
    (findUnresolvedMultimatches st).multiMain.entries fun e he m hm =>
      hea m (scan_listed hs m (hs.main.entries_subset (List.mem_flatMap.mpr ⟨e, he, hm⟩)))
  obtain ⟨diff, hdiff⟩ := addMultimatchesToChooser_addressed ⟨[], main.dones, main.rows⟩
    (findUnresolvedMultimatches st).multiDiff.entries fun e he m hm =>
      hea m (scan_listed hs m (List.mem_of_mem_filter
        (hs.diff.entries_subset (List.mem_flatMap.mpr ⟨e, he, hm⟩))))
  unfold resolveMatches
  dsimp only
  rw [hmain]
  dsimp only
  rw [hdiff]
  refine addFinalChooserItems_addressed st _ _ fun c target => ?_
  have hl (m : Item) (hm : m ∈ st.sortedResults c) : m ∈ st.listed :=
    (mem_listed st m).mpr ⟨c, (mem_sortDescending _ _).mp hm⟩
  refine addFinalItems_addressed target _ (fun m hm => hea m (hl m hm)) (fun m hm => ?_)
    fun m hm hb => ?_
  · obtain ⟨r, hr, -⟩ := main_recorded hs hkeys m (hl m hm)
    exact ⟨r, hr⟩
  · rw [belowMain_iff hs hkeys m (hl m hm) (hsplit.isNaN_listed m (hl m hm)),
      Bool.not_eq_false'] at hb
    obtain ⟨r, hr, -⟩ := diff_recorded hs hkeys m (hl m hm) hb
    exact ⟨r, hr⟩

end

end DSigMatcher.Diff
