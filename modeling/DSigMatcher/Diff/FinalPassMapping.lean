import DSigMatcher.Diff.FinalPassResolved
import Mathlib.Logic.Basic

namespace DSigMatcher.Diff
open DSigMatcher.Base DSigMatcher.Framework

/-- The list has a row of the item's address pair. -/
def HasPair (l : List Item) (m : Item) : Prop := ∃ z ∈ l, z.ea1 = m.ea1 ∧ z.ea2 = m.ea2

/-- Every item of the three result choosers. -/
def FinalChoosers.placed (f : FinalChoosers) : List Item := choosers.flatMap f.items

theorem FinalChoosers.mem_placed (f : FinalChoosers) (m : Item) :
    m ∈ f.placed ↔ ∃ c, m ∈ f.items c := by
  simp only [FinalChoosers.placed, List.mem_flatMap]
  constructor
  · rintro ⟨c, -, hm⟩
    exact ⟨c, hm⟩
  · rintro ⟨c, hm⟩
    exact ⟨c, by cases c <;> simp [choosers], hm⟩

/-- A maximum is recorded for the address of every row, the greatest ratio of a row there. -/
structure GreatestAt (rows : List Item) (ea : Item → Option Text) (max : RatioDict) : Prop where
  bound : ∀ x ∈ rows, ∃ r, max.find? (ea x) = some r ∧ ¬ r < x.ratio
  attained : ∀ a r, max.find? a = some r → ∃ x ∈ rows, ea x = a ∧ x.ratio.eq r = true

/-- The maxima of the pass: for an ea1 over every listed item, for an ea2 over those that the maximum of
their ea1 lets through. -/
structure RecordsMaxima (st : MatchState) : Prop where
  main : GreatestAt st.listed Item.ea1 (findUnresolvedMultimatches st).maxMain
  diff : GreatestAt (st.listed.filter (atMain st)) Item.ea2 (findUnresolvedMultimatches st).maxDiff

/-- The final choosers map addresses one to one, and the tied pairs are multimatches. -/
structure Unambiguous (st : MatchState) (final : FinalChoosers) : Prop where
  maxima : RecordsMaxima st
  main : ∀ x ∈ final.placed, ∀ y ∈ final.placed, x.ea1 = y.ea1 → x.ea2 = y.ea2
  diff : ∀ x ∈ final.placed, ∀ y ∈ final.placed, x.ea2 = y.ea2 → x.ea1 = y.ea1
  tiedMain : ∀ x ∈ st.listed, ∀ y ∈ st.listed, x.ea1 = y.ea1 → x.ea2 ≠ y.ea2 →
    atMain st x = true → atMain st y = true → HasPair final.multimatch x
  tiedDiff : ∀ x ∈ st.listed, ∀ y ∈ st.listed, x.ea2 = y.ea2 → x.ea1 ≠ y.ea1 →
    atMain st x = true → atMain st y = true → atDiff st x = true → atDiff st y = true →
    HasPair final.multimatch x

/-- Every listed pair is placed once, multimatched, or below a maximum. -/
structure LosesNothing (st : MatchState) (final : FinalChoosers) : Prop where
  maxima : RecordsMaxima st
  settled : ∀ c, ∀ m ∈ st.items c, atMain st m = true → atDiff st m = true →
    Xor (HasPair (final.items c) m) (HasPair final.multimatch m)
  below : ∀ c, ∀ m ∈ st.items c, ¬ HasPair (final.items c) m → ¬ HasPair final.multimatch m →
    belowMax (findUnresolvedMultimatches st).maxMain m.ea1 m.ratio = true ∨
    belowMax (findUnresolvedMultimatches st).maxDiff m.ea2 m.ratio = true
  rows : ∀ m ∈ final.multimatch,
    (m ∈ mainGroup st m.ea1 ∧ 1 < (mainGroup st m.ea1).length ∧ atMain st m = true) ∨
    (m ∈ diffGroup st m.ea2 ∧ 1 < (diffGroup st m.ea2).length ∧ atDiff st m = true)

section
variable {st : MatchState} {q : List Item} {final : FinalChoosers}
  (hs : ScanInvariant (visitOrder st) q (findUnresolvedMultimatches st))
  (hkeys : DistinctPairKeys st) (hr : Resolved st q final)

include hr in
/-- A recorded row of both groups whose ea1 or ea2 is held ambiguous is a multimatch. -/
theorem Resolved.multimatch_of_tied (y : Item) (hmain : y ∈ mainGroup st y.ea1)
    (hdiff : y ∈ diffGroup st y.ea2)
    (htied : TiedMain st y.ea1 ∨ 1 < (diffGroup st y.ea2).length) : y ∈ final.multimatch := by
  rw [hr.multimatch]
  by_cases ht : TiedMain st y.ea1
  · exact Or.inl ⟨hmain, ht⟩
  · exact Or.inr ⟨hdiff, htied.resolve_left ht, ht⟩

include hs hkeys

/-- What the scan has recorded is what is listed. -/
theorem recordsMaxima (hsplit : CategorySplit st) : RecordsMaxima st := by
  -- a maximum of the recorded rows is one of the listed rows that they stand for
  have hgreatest {rows rows' : List Item} {ea : Item → Option Text} {max : RatioDict}
      {groups : GroupDict (Option Text) Item} (htop : TopGroups ea Item.ratio rows max groups)
      (hsub : ∀ x ∈ rows, x ∈ rows') (hlisted : ∀ x ∈ rows', x ∈ st.listed)
      (hrecorded : ∀ x ∈ rows', ∃ r, max.find? (ea x) = some r ∧ r.isNaN = false ∧
        x.ratio.key ≤ r.key) : GreatestAt rows' ea max := by
    constructor
    · intro x hx
      obtain ⟨r, hr, -, hle⟩ := hrecorded x hx
      exact ⟨r, hr, fun hlt => absurd hlt.2.2 (Int.not_lt.mpr hle)⟩
    · intro a r hr
      obtain ⟨x, hx, rfl, hkey⟩ := htop.attained a r hr
      obtain ⟨r', hr', hnan, -⟩ := htop.bound x hx
      obtain rfl := Option.some.inj (hr'.symm.trans hr)
      have hx' := hsplit.isNaN_listed x (hlisted x (hsub x hx))
      exact ⟨x, hsub x hx, rfl, (Binary64.eq_iff _ _ hx' hnan).mpr hkey⟩
  constructor
  · exact hgreatest hs.main (scan_listed hs) (fun _ hx => hx) (main_recorded hs hkeys)
  · refine hgreatest hs.diff (fun x hx => ?_) (fun x hx => (List.mem_filter.mp hx).1) fun x hx => ?_
    · obtain ⟨hq, htop⟩ := List.mem_filter.mp hx
      exact List.mem_filter.mpr ⟨scan_listed hs x hq, htop⟩
    · obtain ⟨hlisted, htop⟩ := List.mem_filter.mp hx
      exact diff_recorded hs hkeys x hlisted htop

include hr

theorem Resolved.placed_listed (m : Item) (hm : m ∈ final.placed) :
    m ∈ st.listed ∧ ¬ TiedMain st m.ea1 ∧ ¬ TiedDiff st m.ea2 ∧ ∃ y, y.ea1 = m.ea1 ∧
      y.ea2 = m.ea2 ∧ y ∈ mainGroup st m.ea1 ∧ y ∈ diffGroup st m.ea2 := by
  obtain ⟨c, hc⟩ := (final.mem_placed m).mp hm
  obtain ⟨hit, hmain, hdiff, htop, htop'⟩ := (hr.placed c m).mp hc
  have hl : m ∈ st.listed := (mem_listed st m).mpr ⟨c, hit⟩
  exact ⟨hl, hmain, hdiff, twin_groups hs hkeys m hl htop htop'⟩

theorem Resolved.unambiguous (hsplit : CategorySplit st) : Unambiguous st final where
  maxima := recordsMaxima hs hkeys hsplit
  main x hx y hy hxy := by
    obtain ⟨-, hmain, -, x', -, hx2, hxg, -⟩ := hr.placed_listed hs hkeys x hx
    obtain ⟨-, -, -, y', -, hy2, hyg, -⟩ := hr.placed_listed hs hkeys y hy
    rw [← hxy] at hyg
    have heq : x' = y' := by
      by_contra hne
      exact hmain (tiedMain_of_ne x' y' _ hxg hyg hne)
    rw [← hx2, ← hy2, heq]
  diff x hx y hy hxy := by
    obtain ⟨-, hmain, hdiff, x', hx1, -, -, hxg⟩ := hr.placed_listed hs hkeys x hx
    obtain ⟨-, -, -, y', hy1, -, -, hyg⟩ := hr.placed_listed hs hkeys y hy
    rw [← hxy] at hyg
    have heq : x' = y' := by
      by_contra hne
      exact hdiff ⟨one_lt_length_of_ne hxg hyg hne, x', hxg, hx1 ▸ hmain⟩
    rw [← hx1, ← hy1, heq]
  tiedMain x hx y hy h1 h2 hxt hyt := by
    obtain ⟨x', hx', hx1, hx2, -, hxt'⟩ := twin_atMain hs hkeys x hx hxt
    obtain ⟨y', hy', hy1, hy2, -, hyt'⟩ := twin_atMain hs hkeys y hy hyt
    have hxg : x' ∈ mainGroup st x'.ea1 := (mem_mainGroup hs _ x').mpr ⟨hx', rfl, hxt'⟩
    have hyg : y' ∈ mainGroup st x'.ea1 :=
      (mem_mainGroup hs _ y').mpr ⟨hy', by rw [hy1, hx1, h1], hyt'⟩
    have hne : x' ≠ y' := fun heq => h2 (by rw [← hx2, ← hy2, heq])
    exact ⟨x', (hr.multimatch x').mpr (Or.inl ⟨hxg, tiedMain_of_ne _ _ _ hxg hyg hne⟩), hx1, hx2⟩
  tiedDiff x hx y hy h2 h1 hxt hyt hxd hyd := by
    obtain ⟨x', hx1, hx2, hxm, hxg⟩ := twin_groups hs hkeys x hx hxt hxd
    obtain ⟨y', hy1, -, -, hyg⟩ := twin_groups hs hkeys y hy hyt hyd
    have hne : x' ≠ y' := fun heq => h1 (by rw [← hx1, ← hy1, heq])
    rw [← h2] at hyg
    have hlen := one_lt_length_of_ne hxg hyg hne
    rw [← hx1] at hxm
    rw [← hx2] at hxg hlen
    exact ⟨x', hr.multimatch_of_tied x' hxm hxg (Or.inr hlen), hx1, hx2⟩

theorem Resolved.losesNothing (hsplit : CategorySplit st) : LosesNothing st final := by
  have hsettled : ∀ c, ∀ m ∈ st.items c, atMain st m = true → atDiff st m = true →
      Xor (HasPair (final.items c) m) (HasPair final.multimatch m) := by
    intro c m hm htop htop'
    have hl : m ∈ st.listed := (mem_listed st m).mpr ⟨c, hm⟩
    obtain ⟨y, hy1, hy2, hmain, hdiff⟩ := twin_groups hs hkeys m hl htop htop'
    by_cases htied : TiedMain st m.ea1 ∨ TiedDiff st m.ea2
    · right
      refine ⟨⟨y, ?_, hy1, hy2⟩, ?_⟩
      · refine hr.multimatch_of_tied y (hy1 ▸ hmain) (hy2 ▸ hdiff) ?_
        rw [hy1, hy2]
        exact htied.imp_right fun h => h.1
      · rintro ⟨z, hz, hz1, hz2⟩
        obtain ⟨-, hzm, hzd, -⟩ := (hr.placed c z).mp hz
        rw [hz1] at hzm
        rw [hz2] at hzd
        exact htied.elim hzm hzd
    · left
      rw [not_or] at htied
      refine ⟨⟨m, (hr.placed c m).mpr ⟨hm, htied.1, htied.2, htop, htop'⟩, rfl, rfl⟩, ?_⟩
      rintro ⟨z, hz, hz1, hz2⟩
      rw [hr.multimatch, hz1, hz2] at hz
      rcases hz with ⟨-, ht⟩ | ⟨hzg, hlen, ht⟩
      · exact htied.1 ht
      · exact htied.2 ⟨hlen, z, hzg, hz1 ▸ ht⟩
  refine ⟨recordsMaxima hs hkeys hsplit, hsettled, fun c m hm hplaced hmulti => ?_, fun m hm => ?_⟩
  · have hl : m ∈ st.listed := (mem_listed st m).mpr ⟨c, hm⟩
    have hn := hsplit.isNaN_listed m hl
    rw [belowMain_iff hs hkeys m hl hn]
    cases htop : atMain st m with
    | false => exact Or.inl rfl
    | true =>
      right
      rw [belowDiff_iff hs hkeys m hl hn htop]
      cases htop' : atDiff st m with
      | false => rfl
      | true =>
        rcases hsettled c m hm htop htop' with ⟨h, -⟩ | ⟨h, -⟩
        · exact absurd h hplaced
        · exact absurd h hmulti
  · rcases (hr.multimatch m).mp hm with ⟨hg, htied⟩ | ⟨hg, hlen, -⟩
    · exact Or.inl ⟨hg, htied, ((mem_mainGroup hs _ m).mp hg).2.2⟩
    · exact Or.inr ⟨hg, hlen, ((mem_diffGroup hs _ m).mp hg).2.2.2⟩

end

/-- On canonical addresses the pass completes and its mapping is one to one. -/
theorem stageFinalPass_unambiguous (st : MatchState) (hsplit : CategorySplit (cleanup st))
    (hea : ∀ it ∈ (cleanup st).listed, CanonicalDecimal it.ea1 ∧ CanonicalDecimal it.ea2) :
    ∃ final, stageFinalPass st = .ok (cleanup st, final) ∧ Unambiguous (cleanup st) final := by
  have haddr : ∀ it ∈ (cleanup st).listed, it.Addressed := fun it hit =>
    ⟨isPyInt_of_canonical _ (hea it hit).1, isPyInt_of_canonical _ (hea it hit).2⟩
  have hkeys := distinctPairKeys_of_addressed _ haddr
  obtain ⟨q, hs⟩ := hsplit.scan_invariant
  obtain ⟨final, hfinal⟩ := resolveMatches_addressed hs hkeys hsplit haddr
  refine ⟨final, by rw [stageFinalPass, hfinal], ?_⟩
  exact (resolveMatches_resolved hs hkeys hsplit hfinal).unambiguous hs hkeys hsplit

/-- One function of the second side tied between two of the first. -/
def tiedState : MatchState :=
  { MatchState.initial 4 4 with
    best := [sampleItem "4096" "main" "8192" "main" Binary64.one]
    partials := [sampleItem "10" "a" "7" "b" fourFifths, sampleItem "11" "c" "7" "d" fourFifths] }

theorem stageFinalPass_unambiguous_tied :
    ∃ final, stageFinalPass tiedState = .ok (cleanup tiedState, final) ∧
      Unambiguous (cleanup tiedState) final :=
  stageFinalPass_unambiguous tiedState ⟨by decide +kernel, by decide +kernel, by decide +kernel⟩ (by
    have hlisted : (cleanup tiedState).listed = tiedState.best ++ tiedState.partials := by
      decide +kernel
    rw [hlisted]
    simp only [tiedState, List.cons_append, List.nil_append, List.forall_mem_cons]
    exact ⟨⟨⟨4096, by decide⟩, ⟨8192, by decide⟩⟩, ⟨⟨10, by decide⟩, ⟨7, by decide⟩⟩,
      ⟨⟨11, by decide⟩, ⟨7, by decide⟩⟩, by simp⟩)

/-- Where pair keys are distinct, a completed pass loses nothing; it completes on every address
`int()` accepts. -/
theorem stageFinalPass_losesNothing (st : MatchState) (hsplit : CategorySplit (cleanup st))
    (hkeys : DistinctPairKeys (cleanup st)) :
    ((∀ it ∈ (cleanup st).listed, it.Addressed) →
      ∃ final, stageFinalPass st = .ok (cleanup st, final)) ∧
    ∀ clean final, stageFinalPass st = .ok (clean, final) →
      clean = cleanup st ∧ LosesNothing clean final := by
  obtain ⟨q, hs⟩ := hsplit.scan_invariant
  constructor
  · intro haddr
    obtain ⟨final, hfinal⟩ := resolveMatches_addressed hs hkeys hsplit haddr
    exact ⟨final, by rw [stageFinalPass, hfinal]⟩
  · intro clean final h
    unfold stageFinalPass at h
    split at h
    · cases h
    · rename_i final' hfinal
      obtain ⟨rfl, rfl⟩ := Prod.ext_iff.mp (Except.ok.inj h)
      exact ⟨rfl, (resolveMatches_resolved hs hkeys hsplit hfinal).losesNothing hs hkeys hsplit⟩

theorem stageFinalPass_losesNothing_tied :
    ((∀ it ∈ (cleanup tiedState).listed, it.Addressed) →
      ∃ final, stageFinalPass tiedState = .ok (cleanup tiedState, final)) ∧
    ∀ clean final, stageFinalPass tiedState = .ok (clean, final) →
      clean = cleanup tiedState ∧ LosesNothing clean final :=
  stageFinalPass_losesNothing tiedState ⟨by decide +kernel, by decide +kernel, by decide +kernel⟩
    (by unfold DistinctPairKeys; decide +kernel)

/-- Two pairs that both read `5-6-7`. -/
def hyphenState : MatchState :=
  { MatchState.initial 9 9 with
    best := [sampleItem "5" "a" "1" "b" Binary64.one, sampleItem "9" "c" "8" "d" Binary64.one]
    partials := [sampleItem "5" "same" "6-7" "same" nineTenths,
      sampleItem "5-6" "e" "8" "f" fourFifths, sampleItem "5-6" "g" "7" "h" fourFifths,
      sampleItem "10" "i" "7" "j" fourFifths, sampleItem "11" "k" "7" "l" fourFifths] }

instance (l : List Item) (m : Item) : Decidable (HasPair l m) :=
  inferInstanceAs (Decidable (∃ z ∈ l, z.ea1 = m.ea1 ∧ z.ea2 = m.ea2))

/-- The pair (5-6, 7) equals both its maxima and is lost. -/
theorem stageFinalPass_loses_hyphen_pair :
    CategorySplit (cleanup hyphenState) ∧
    ∃ final, stageFinalPass hyphenState = .ok (cleanup hyphenState, final) ∧
    ∃ m ∈ (cleanup hyphenState).items .partials,
      atMain (cleanup hyphenState) m = true ∧ atDiff (cleanup hyphenState) m = true ∧
      ¬ HasPair (final.items .partials) m ∧ ¬ HasPair final.multimatch m := by
  refine ⟨⟨by decide +kernel, by decide +kernel, by decide +kernel⟩,
    ⟨hyphenState.best, [], [], [sampleItem "10" "i" "7" "j" fourFifths,
      sampleItem "11" "k" "7" "l" fourFifths]⟩, by decide +kernel,
    sampleItem "5-6" "g" "7" "h" fourFifths, by decide +kernel, by decide +kernel,
    by decide +kernel, by decide +kernel, by decide +kernel⟩

end DSigMatcher.Diff
