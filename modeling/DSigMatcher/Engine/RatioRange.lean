import DSigMatcher.Engine.RatioEngine
import DSigMatcher.Framework.Fallible
import DSigMatcher.Framework.UnitInterval
import Mathlib

namespace DSigMatcher.Engine
open DSigMatcher.Base DSigMatcher.Framework DSigMatcher.Diff DSigMatcher.Json
open Binary64 (InUnit Rounds grid grid_magnitude_zero grid_magnitude_one rounds_one)

/-- The 32-bit counters of a prepared column hold what they count. -/
structure ColumnFits (main diff : List Cell) : Prop where
  pieces : ∀ (side : Side) (k : Nat) (t : Text), (cellsOf main diff side)[k]? = some (Cell.str t) →
    (splitPieces t).length < 2^32
  runs : ∀ (side : Side) (k : Nat), runsBefore main diff side k < 2^32
  lines : (prepareColumn main diff).lineIds.entries.length ≤ 2^32

def stateOf : Cell → CellState
  | .null => .null
  | .blob _ => .blob
  | .str t => if t.isEmpty then .emptyStr else .text

theorem prepareRow_states (s : InsertionDict Text UInt32 × PreparedSide) (cell : Cell) :
    (prepareRow s cell).2.rows.map PreparedText.state =
      s.2.rows.map PreparedText.state ++ [stateOf cell] := by
  cases cell with
  | null => simp [prepareRow, stateOf]
  | blob bytes => simp [prepareRow, stateOf]
  | str t => by_cases ht : t.isEmpty <;> simp [prepareRow, stateOf, ht]

theorem prepareRows_states (s : InsertionDict Text UInt32 × PreparedSide) (cells : List Cell) :
    (cells.foldl prepareRow s).2.rows.map PreparedText.state =
      s.2.rows.map PreparedText.state ++ cells.map stateOf := by
  induction cells generalizing s with
  | nil => simp
  | cons cell cells ih => rw [List.foldl_cons, ih, prepareRow_states]; simp

section
variable {main diff : List Cell}

/-- The row of a cell says what the cell holds. -/
theorem prepareColumn_state {side : Side} {k : Nat} {row : PreparedText}
    (h : ((prepareColumn main diff).side side).rows[k]? = some row) :
    ∃ cell, (cellsOf main diff side)[k]? = some cell ∧ row.state = stateOf cell := by
  have hstates : ((prepareColumn main diff).side side).rows.map PreparedText.state =
      (cellsOf main diff side).map stateOf := by
    cases side with
    | main => exact prepareRows_states (.empty,⟨[],[]⟩) main
    | diff => exact prepareRows_states ((prepareSide .empty main).1,⟨[],[]⟩) diff
  have hat := congrArg (·[k]?) hstates
  simp only [List.getElem?_map, h, Option.map_some] at hat
  cases hcell : (cellsOf main diff side)[k]? with
  | none =>
    rw [hcell] at hat
    cases hat
  | some cell =>
    rw [hcell] at hat
    exact ⟨cell, rfl, Option.some.inj hat⟩

theorem stateOf_text {cell : Cell} (hnull : stateOf cell ≠ .null) (hempty : stateOf cell ≠ .emptyStr)
    (hblob : stateOf cell ≠ .blob) : ∃ t, cell = .str t ∧ t ≠ [] := by
  cases cell with
  | null => exact absurd rfl hnull
  | blob bytes => exact absurd rfl hblob
  | str t =>
    refine ⟨t, rfl, ?_⟩
    intro ht
    exact hempty (by rw [ht]; rfl)

/-- Two texts that are not empty are compared by the lines they have in common. -/
theorem quickPrepared_text (h : ColumnFits main diff) {row1 row2 : Nat} {t1 t2 name : Text}
    (hcell1 : main[row1]? = some (.str t1)) (hcell2 : diff[row2]? = some (.str t2)) (ht1 : t1 ≠ [])
    (ht2 : t2 ≠ []) :
    quickPrepared (prepareColumn main diff) .main row1 .diff row2 name =
      some (.ok (calculateRatio (common (splitPieces t1) (splitPieces t2))
        ((splitPieces t1).length+(splitPieces t2).length))) := by
  have hlength1 := h.pieces .main _ _ hcell1
  have hlength2 := h.pieces .diff _ _ hcell2
  have hpos := length_splitPieces_pos t1
  have hside1 : (cellsOf main diff .main)[row1]? = some (.str t1) := hcell1
  have hside2 : (cellsOf main diff .diff)[row2]? = some (.str t2) := hcell2
  obtain ⟨a, ha, hprepared1⟩ := prepareColumn_at hside1 ht1 (h.runs _ _) hlength1
  obtain ⟨b, hb, hprepared2⟩ := prepareColumn_at hside2 ht2 (h.runs _ _) hlength2
  have hcounts := preparedCounts_eq hprepared1 hprepared2 (prepareColumn_numbered main diff) h.lines
    hlength1 hlength2
  have hratio : ratioOf (common (splitPieces t1) (splitPieces t2),
      (splitPieces t1).length+(splitPieces t2).length) =
      calculateRatio (common (splitPieces t1) (splitPieces t2))
        ((splitPieces t1).length+(splitPieces t2).length) := by
    rw [calculateRatio, if_pos (by omega)]
    rfl
  rw [quickPrepared, ha, hb, Option.bind_some, Option.map_some, hprepared1.state, hprepared2.state,
    hcounts, hratio]
  simp

/-- Two texts with the same lines, in whatever order. -/
def SameLines (a b : Cell) : Prop :=
  ∃ t1 t2, a = .str t1 ∧ b = .str t2 ∧ t1 ≠ [] ∧ t2 ≠ [] ∧ (splitPieces t1).Perm (splitPieces t2)

/-- A quick ratio of rows that hold no two texts is zero. -/
theorem quickPrepared_cases (h : ColumnFits main diff) {row1 row2 : Nat} {name : Text} {x : Binary64}
    (hx : quickPrepared (prepareColumn main diff) .main row1 .diff row2 name = some (.ok x)) :
    (x = .zero ∧ ∀ a b, main[row1]? = some a → diff[row2]? = some b → ¬ SameLines a b) ∨
      ∃ t1 t2, main[row1]? = some (.str t1) ∧ diff[row2]? = some (.str t2) ∧ t1 ≠ [] ∧ t2 ≠ [] ∧
        x = calculateRatio (common (splitPieces t1) (splitPieces t2))
          ((splitPieces t1).length+(splitPieces t2).length) := by
  by_cases htexts : ∃ t1 t2, main[row1]? = some (.str t1) ∧ diff[row2]? = some (.str t2) ∧
      t1 ≠ [] ∧ t2 ≠ []
  · right
    obtain ⟨t1, t2, hcell1, hcell2, ht1, ht2⟩ := htexts
    rw [quickPrepared_text h hcell1 hcell2 ht1 ht2] at hx
    exact ⟨t1, t2, hcell1, hcell2, ht1, ht2, (Except.ok.inj (Option.some.inj hx)).symm⟩
  · left
    constructor
    · unfold quickPrepared at hx
      cases ha : ((prepareColumn main diff).side .main).rows[row1]? with
      | none =>
        rw [ha] at hx
        cases hx
      | some a =>
        cases hb : ((prepareColumn main diff).side .diff).rows[row2]? with
        | none =>
          rw [ha, hb] at hx
          cases hx
        | some b =>
          rw [ha, hb, Option.bind_some, Option.map_some, Option.some_inj] at hx
          obtain ⟨cell1, hcell1, hstate1⟩ := prepareColumn_state ha
          obtain ⟨cell2, hcell2, hstate2⟩ := prepareColumn_state hb
          rw [hstate1, hstate2] at hx
          split_ifs at hx with hnull hempty hblob
          · exact (Except.ok.inj hx).symm
          · exact (Except.ok.inj hx).symm
          · exfalso
            rw [not_or] at hnull hempty hblob
            obtain ⟨t1, rfl, ht1⟩ := stateOf_text hnull.1 hempty.1 hblob.1
            obtain ⟨t2, rfl, ht2⟩ := stateOf_text hnull.2 hempty.2 hblob.2
            exact htexts ⟨t1, t2, hcell1, hcell2, ht1, ht2⟩
    · intro a b hcell1 hcell2 hsame
      obtain ⟨t1, t2, rfl, rfl, ht1, ht2, -⟩ := hsame
      exact htexts ⟨t1, t2, hcell1, hcell2, ht1, ht2⟩

end

/-- A number of the unit interval rounded to seven decimals. -/
def SevenPlaces (x : Binary64) : Prop := ∃ k : Nat, k ≤ 10^7 ∧ Rounds false (k/10^7 : ℚ) x

theorem SevenPlaces.zero : SevenPlaces .zero := by
  refine ⟨0, Nat.zero_le _, ?_⟩
  have h := Rounds.self (x := .zero) (by decide)
  rw [grid_magnitude_zero] at h
  norm_num
  exact h

theorem SevenPlaces.inUnit {x : Binary64} (h : SevenPlaces x) : InUnit x := by
  obtain ⟨k, hk, hround⟩ := h
  apply InUnit.of_rounds hround
  rw [div_le_one (by positivity)]
  exact_mod_cast hk

/-- Under one there is a gap of more than an ulp of a single. -/
theorem below_of_places {x : Binary64} {k : Nat} (hround : Rounds false (k/10^7 : ℚ) x)
    (hk : k < 10^7) : grid x.magnitude ≤ 1-1/2^24 := by
  have hcast : (k : ℚ) ≤ 10^7-1 := by
    have hle := (Nat.cast_le (α := ℚ)).mpr (show k+1 ≤ 10^7 by omega)
    push_cast at hle
    linarith
  have hle := hround.grid_le_binade (b := 1021) (k := 2^53-2^29) (by norm_num) (by norm_num)
    (by norm_num) (by
    rw [div_le_iff₀ (by positivity)]
    norm_num
    linarith)
  norm_num at hle ⊢
  exact hle.2

theorem one_of_places {x : Binary64} (hround : Rounds false ((10^7 : Nat)/10^7 : ℚ) x) : x = .one := by
  have hone : ((10^7 : Nat) : ℚ)/10^7 = 1 := by norm_num
  rw [hone] at hround
  exact hround.unique rounds_one

theorem SevenPlaces.one_or_below {x : Binary64} (h : SevenPlaces x) :
    x = .one ∨ grid x.magnitude ≤ 1-1/2^24 := by
  obtain ⟨k, hk, hround⟩ := h
  rcases Nat.lt_or_eq_of_le hk with hlt | rfl
  · exact .inr (below_of_places hround hlt)
  · exact .inl (one_of_places hround)

theorem places_one : RoundsTo (fun k : Nat => (k : ℚ)*(1/10^7)) 1 (10^7) := by
  have hself := RoundsTo.self (strictMono_places 7) (10^7)
  norm_num at hself ⊢
  exact hself

theorem places_below : RoundsTo (fun k : Nat => (k : ℚ)*(1/10^7)) (1-1/2^24) (10^7-1) where
  lower k hk := by
    obtain rfl : k = 10^7-2 := by omega
    left
    norm_num
  upper := by
    left
    norm_num

theorem round7_places {v x : Binary64} (hv : InUnit v) (hx : round7 v = .ok x) :
    ∃ k : Nat, k ≤ 10^7 ∧ RoundsTo (fun k : Nat => (k : ℚ)*(1/10^7)) (grid v.magnitude) k ∧
      Rounds false (k/10^7 : ℚ) x := by
  obtain ⟨k, y, hround, hplaces, hrounds⟩ := roundDecimal7_rounds hv.finite
  rw [round7, hround] at hx
  obtain rfl := Except.ok.inj hx
  rw [hv.sign] at hrounds
  exact ⟨k, hplaces.mono (strictMono_places 7) places_one hv.grid_le, hplaces, hrounds⟩

theorem round7_zero {x : Binary64} (hx : round7 .zero = .ok x) : x = .zero := by
  have hzero : round7 .zero = .ok .zero := by
    simp [round7, roundDecimal7, Binary64.isZero, Binary64.zero]
  exact (Except.ok.inj (hzero.symm.trans hx)).symm

section
variable {α : Type*} [DecidableEq α] {a b : List α}

theorem common_of_perm (h : a.Perm b) : common a b = a.length := by
  have heq : (a : Multiset α) = (b : Multiset α) := Multiset.coe_eq_coe.mpr h
  have hself : (a : Multiset α) ∩ a = a :=
    Multiset.inter_le_left.antisymm (Multiset.le_inter (le_refl _) (le_refl _))
  rw [common, ← heq, hself, Multiset.coe_card]

/-- All of both in common: a rearrangement. -/
theorem perm_of_common (h : 2*common a b = a.length+b.length) : a.Perm b := by
  have hmin := common_le_min a b
  have ha : common a b = (a : Multiset α).card := by
    rw [Multiset.coe_card]
    omega
  have hb : common a b = (b : Multiset α).card := by
    rw [Multiset.coe_card]
    omega
  have hinter := Multiset.eq_of_le_of_card_le (Multiset.inter_le_left (s := (a : Multiset α)) (t := b))
    (Nat.le_of_eq ha.symm)
  have hinter' := Multiset.eq_of_le_of_card_le
    (Multiset.inter_le_right (s := (a : Multiset α)) (t := b))
    (Nat.le_of_eq hb.symm)
  exact Multiset.coe_eq_coe.mp (hinter.symm.trans hinter')

end

/-- The rounded ratio of two lists of lines; up to 2^24 lines it is one for a rearrangement only. -/
theorem round7_ratio {lines1 lines2 : List Text} {x : Binary64} (hpos : 0 < lines1.length)
    (hlength1 : lines1.length < 2^32) (hlength2 : lines2.length < 2^32)
    (hx : round7 (calculateRatio (common lines1 lines2) (lines1.length+lines2.length)) = .ok x) :
    SevenPlaces x ∧ (lines1.Perm lines2 → x = .one) ∧
      (x = .one → lines1.length+lines2.length ≤ 2^24 → lines1.Perm lines2) := by
  have hmin := common_le_min lines1 lines2
  have hfound : common lines1 lines2 < 2^52 := by omega
  have hsum : 0 < lines1.length+lines2.length := by omega
  have hratio := calculateRatio_rounds hfound hsum (by omega)
  have hbelow : ((2*common lines1 lines2 : Nat) : ℚ)/(lines1.length+lines2.length : Nat) ≤ 1 := by
    rw [div_le_one (Nat.cast_pos.mpr (by omega))]
    exact Nat.cast_le.mpr (by omega)
  obtain ⟨k, hk, hplaces, hround⟩ := round7_places (InUnit.of_rounds hratio hbelow) hx
  refine ⟨⟨k, hk, hround⟩, ?_, ?_⟩
  · intro hperm
    have hlength := hperm.length_eq
    have hone : calculateRatio (common lines1 lines2) (lines1.length+lines2.length) = .one := by
      rw [common_of_perm hperm, ← hlength, ← two_mul, div_self (Nat.cast_ne_zero.mpr (by omega))]
        at hratio
      rw [common_of_perm hperm, ← hlength, ← two_mul]
      exact hratio.unique rounds_one
    rw [hone, grid_magnitude_one] at hplaces
    obtain rfl := hplaces.unique (strictMono_places 7) places_one
    exact one_of_places hround
  · intro hone hshort
    by_contra hperm
    have hless : 2*common lines1 lines2+1 ≤ lines1.length+lines2.length := by
      by_contra hge
      exact hperm (perm_of_common (by omega))
    have hgap :
        ((2*common lines1 lines2 : Nat) : ℚ)/(lines1.length+lines2.length : Nat) ≤ 1-1/2^24 := by
      have hleft := (Nat.cast_le (α := ℚ)).mpr hless
      have hright := (Nat.cast_le (α := ℚ)).mpr hshort
      rw [div_le_iff₀ (Nat.cast_pos.mpr (by omega))]
      push_cast at hleft hright ⊢
      linarith
    have hfar := hratio.grid_le_binade (b := 1021) (k := 2^53-2^29) (by norm_num) (by norm_num)
      (by norm_num) (by
        norm_num at hgap ⊢
        exact hgap)
    have hlow : grid (calculateRatio (common lines1 lines2) (lines1.length+lines2.length)).magnitude ≤
        1-1/2^24 := by
      norm_num at hfar ⊢
      exact hfar.2
    have hk' := hplaces.mono (strictMono_places 7) places_below hlow
    have hx' := below_of_places hround (by omega)
    rw [hone, grid_magnitude_one] at hx'
    norm_num at hx'

/-- No more lines together than a single has steps in a binade. -/
def ShortTexts (a b : Cell) : Prop :=
  ∀ t1 t2, a = .str t1 → b = .str t2 → (splitPieces t1).length+(splitPieces t2).length ≤ 2^24

theorem ShortTexts.null : ShortTexts .null .null := by
  intro t1 t2 h
  cases h

/-- A rounded ratio is one for the same lines, and for short texts for these only. -/
theorem quickRound7_spec {main diff : List Cell} (h : ColumnFits main diff) {row1 row2 : Nat}
    {name : Text} {x : Binary64}
    (hx : quickRound7 (prepareColumn main diff) row1 row2 name = .ok x) :
    SevenPlaces x ∧ ∀ a b, main[row1]? = some a → diff[row2]? = some b →
      (SameLines a b → x = .one) ∧ (x = .one → ShortTexts a b → SameLines a b) := by
  cases hquick : quickPrepared (prepareColumn main diff) .main row1 .diff row2 name with
  | none =>
    rw [quickRound7, hquick] at hx
    cases hx
  | some result =>
    cases result with
    | error e =>
      rw [quickRound7, hquick] at hx
      cases hx
    | ok v =>
      rw [quickRound7, hquick] at hx
      change round7 v = .ok x at hx
      rcases quickPrepared_cases h hquick with ⟨rfl, hno⟩ | ⟨t1, t2, hcell1, hcell2, ht1, ht2, rfl⟩
      · obtain rfl := round7_zero hx
        refine ⟨SevenPlaces.zero, fun a b ha hb => ⟨fun hsame => absurd hsame (hno a b ha hb), ?_⟩⟩
        intro hone
        exact absurd hone (by decide)
      · obtain ⟨hplaces, hperm, hone⟩ := round7_ratio (length_splitPieces_pos t1)
          (h.pieces .main _ _ hcell1) (h.pieces .diff _ _ hcell2) hx
        refine ⟨hplaces, fun a b ha hb => ?_⟩
        obtain rfl := Option.some.inj (hcell1.symm.trans ha)
        obtain rfl := Option.some.inj (hcell2.symm.trans hb)
        constructor
        · intro hsame
          obtain ⟨t1', t2', h1, h2, -, -, hlines⟩ := hsame
          cases h1
          cases h2
          exact hperm hlines
        · intro hx hshort
          exact ⟨t1, t2, rfl, rfl, ht1, ht2, hone hx (hshort t1 t2 rfl rfl)⟩

section
variable {v1 v2 : Binary64}

/-- The sum of two numbers of the unit interval and three. -/
theorem mean_sum (h1 : InUnit v1) (h2 : InUnit v2) :
    let sum := ((v1.add v2).add .zero).add (.ofNat 3)
    sum.Finite ∧ sum.negative = false ∧ grid sum.magnitude ≤ 5 ∧
      (grid v1.magnitude ≤ 1-1/2^24 → grid v2.magnitude ≤ 1-1/2^24 →
        grid sum.magnitude ≤ 5-1/2^23) := by
  have hround := Binary64.add_rounds h1.finite h2.finite h1.sign h2.sign
  have hle1 := h1.grid_le
  have hle2 := h2.grid_le
  obtain ⟨hfinite, hle⟩ := hround.grid_le (n := 2) (by push_cast; linarith) (by norm_num)
  have hsign := Binary64.add_sign h1.sign h2.sign
  have hthree := Binary64.ofNat_exact (n := 3) (by norm_num)
  have hsum := Binary64.add_rounds hfinite hthree.1 hsign rfl
  rw [hthree.2] at hsum
  obtain ⟨hfinite', hle'⟩ := hsum.grid_le (n := 5) (by push_cast at hle ⊢; linarith) (by norm_num)
  dsimp only
  rw [Binary64.add_zero hfinite hsign]
  refine ⟨hfinite', Binary64.add_sign hsign rfl, by exact_mod_cast hle', ?_⟩
  intro hbelow1 hbelow2
  have htwo := hround.grid_le_binade (b := 1022) (k := 2^53-2^29) (by norm_num) (by norm_num)
    (by norm_num) (by norm_num at hbelow1 hbelow2 ⊢; linarith)
  have hfive := hsum.grid_le_binade (b := 1024) (k := 5*2^50-2^27) (by norm_num) (by norm_num)
    (by norm_num) (by norm_num at htwo ⊢; linarith [htwo.2])
  norm_num at hfive ⊢
  exact hfive.2

/-- The mean over five is of the unit interval, and below one where both ratios are. -/
theorem mean_inUnit (h1 : InUnit v1) (h2 : InUnit v2) :
    let mean := (((v1.add v2).add .zero).add (.ofNat 3)).div (.ofNat 5)
    InUnit mean ∧ (grid v1.magnitude ≤ 1-1/2^24 → grid v2.magnitude ≤ 1-1/2^24 → mean ≠ .one) := by
  obtain ⟨hfinite, hsign, hle, hbelow⟩ := mean_sum h1 h2
  obtain ⟨hffinite, hfive⟩ := Binary64.ofNat_exact (n := 5) (by norm_num)
  have hround := Binary64.div_rounds hfinite hffinite (by
    intro hzero
    rw [hzero] at hfive
    norm_num at hfive)
  have hsign' : ((((v1.add v2).add .zero).add (.ofNat 3)).negative != (Binary64.ofNat 5).negative) =
      false := by
    rw [hsign]
    rfl
  rw [hsign', hfive] at hround
  refine ⟨InUnit.of_rounds hround ?_, ?_⟩
  · rw [div_le_one (by norm_num)]
    exact_mod_cast hle
  · intro hbelow1 hbelow2 hone
    have hsum := hbelow hbelow1 hbelow2
    have hfar := hround.grid_le_binade (b := 1021) (k := 2^53-2^27) (by norm_num) (by norm_num)
      (by norm_num) (by
        rw [div_le_iff₀ (by norm_num)]
        norm_num at hsum ⊢
        linarith)
    rw [hone, grid_magnitude_one] at hfar
    norm_num at hfar

end

theorem mdRatio_spec (md1 md2 : Binary64) {v1 v2 : Binary64} (h1 : SevenPlaces v1)
    (h2 : SevenPlaces v2) : InUnit (mdRatio md1 md2 v1 v2) ∧
      (mdRatio md1 md2 v1 v2 = .one → md1.eq md2 = true ∧ (v1 = .one ∨ v2 = .one)) := by
  obtain ⟨hunit, hbelow⟩ := mean_inUnit h1.inUnit h2.inUnit
  unfold mdRatio
  by_cases hmd : (md1.eq md2 && decide (Binary64.zero < md1)) = true
  · rw [if_pos hmd]
    dsimp only
    rw [if_neg (fun hlt => Nat.not_lt.mpr hunit.bound ((InUnit.one.lt_iff hunit).mp hlt))]
    refine ⟨hunit, fun hone => ⟨(Bool.and_eq_true_iff.mp hmd).1, ?_⟩⟩
    rcases h1.one_or_below with hv1 | hv1
    · exact .inl hv1
    · rcases h2.one_or_below with hv2 | hv2
      · exact .inr hv2
      · exact absurd hone (hbelow hv1 hv2)
  · rw [if_neg hmd]
    refine ⟨InUnit.zero, fun hone => ?_⟩
    exact absurd hone (by decide)

/-- The greatest of the values is one of them. -/
theorem maxFrom_spec {first : Binary64} {values : List Binary64}
    (hall : ∀ v ∈ first::values, InUnit v) : maxFrom first values ∈ first::values ∧
      ∀ v ∈ first::values, v.magnitude ≤ (maxFrom first values).magnitude := by
  induction values generalizing first with
  | nil =>
    refine ⟨List.mem_cons_self, fun v hv => ?_⟩
    obtain rfl := List.mem_singleton.mp hv
    exact le_refl _
  | cons w values ih =>
    have hfirst := hall first List.mem_cons_self
    have hw := hall w (List.mem_cons_of_mem _ List.mem_cons_self)
    have hrest := fun v hv => hall v (List.mem_cons_of_mem _ (List.mem_cons_of_mem _ hv))
    change maxFrom (if first < w then w else first) values ∈ first::w::values ∧
      ∀ v ∈ first::w::values, v.magnitude ≤ (maxFrom (if first < w then w else first) values).magnitude
    have hkeep : ∀ top, InUnit top → (top = first ∨ top = w) → first.magnitude ≤ top.magnitude →
        w.magnitude ≤ top.magnitude → maxFrom top values ∈ first::w::values ∧
          ∀ v ∈ first::w::values, v.magnitude ≤ (maxFrom top values).magnitude := by
      intro top htop hone hle hle'
      have hkept : ∀ v ∈ top::values, InUnit v := by
        intro v hv
        rcases List.mem_cons.mp hv with rfl | hv
        · exact htop
        · exact hrest v hv
      obtain ⟨hmem, hmax⟩ := ih hkept
      have htop' := hmax top List.mem_cons_self
      constructor
      · rcases List.mem_cons.mp hmem with htop | hmem
        · rw [htop]
          rcases hone with rfl | rfl <;> simp
        · exact List.mem_cons_of_mem _ (List.mem_cons_of_mem _ hmem)
      · intro v hv
        simp only [List.mem_cons] at hv
        rcases hv with rfl | rfl | hv
        · omega
        · omega
        · exact hmax v (List.mem_cons_of_mem _ hv)
    by_cases hlt : first < w
    · rw [if_pos hlt]
      exact hkeep w hw (.inr rfl) (Nat.le_of_lt ((hfirst.lt_iff hw).mp hlt)) (le_refl _)
    · rw [if_neg hlt]
      exact hkeep first hfirst (.inl rfl) (le_refl _)
        (Nat.le_of_not_lt fun hge => hlt ((hfirst.lt_iff hw).mpr hge))

/-- The greatest value is one if a value is and the MD-Indices are equal. -/
theorem greatest_spec {md1 md2 v1 : Binary64} {values : List Binary64}
    (hall : ∀ v ∈ v1::values, InUnit v) : InUnit (greatest md1 md2 v1 values) ∧
      (greatest md1 md2 v1 values = .one ↔ md1.eq md2 = true ∧ Binary64.one ∈ v1::values) := by
  have hall' : ∀ v ∈ v1::v1::values, InUnit v := by
    intro v hv
    rcases List.mem_cons.mp hv with rfl | hv
    · exact hall _ List.mem_cons_self
    · exact hall v hv
  obtain ⟨hmem, hmax⟩ := maxFrom_spec hall'
  have hmem' : maxFrom v1 (v1::values) ∈ v1::values := by
    rcases List.mem_cons.mp hmem with heq | hmem
    · rw [heq]
      exact List.mem_cons_self
    · exact hmem
  have hunit := hall _ hmem'
  have hone : maxFrom v1 (v1::values) = .one ↔ Binary64.one ∈ v1::values := by
    constructor
    · intro heq
      rwa [heq] at hmem'
    · intro hin
      have hle := hmax .one (List.mem_cons_of_mem _ hin)
      exact Binary64.ext hunit.sign (Nat.le_antisymm hunit.bound hle)
  unfold greatest
  dsimp only
  by_cases hmd : md1.eq md2 = true
  · rw [hmd, Bool.not_true, Bool.and_false, if_neg Bool.false_ne_true, hone]
    exact ⟨hunit, ⟨fun hin => ⟨rfl, hin⟩, fun h => h.2⟩⟩
  · rw [Bool.not_eq_true] at hmd
    rw [hmd, Bool.not_false, Bool.and_true]
    by_cases heq : (maxFrom v1 (v1::values)).eq .one = true
    · rw [if_pos heq]
      have hrest : ∀ v ∈ Binary64.zero::(v1::values).filter fun v => !v.eq .one,
          InUnit v ∧ v ≠ .one := by
        intro v hv
        rcases List.mem_cons.mp hv with rfl | hv
        · exact ⟨InUnit.zero, by decide⟩
        · obtain ⟨hv, hne⟩ := List.mem_filter.mp hv
          refine ⟨hall v hv, fun hone => ?_⟩
          rw [Binary64.eq_one_iff.mpr hone] at hne
          cases hne
      have hin := hrest _ (maxFrom_spec fun v hv => (hrest v hv).1).1
      refine ⟨hin.1, fun hone => absurd hone hin.2, fun h => ?_⟩
      cases h.1
    · rw [if_neg heq]
      refine ⟨hunit, fun hone => ?_, fun h => ?_⟩
      · exact absurd (Binary64.eq_one_iff.mpr hone) heq
      · cases h.1

theorem literal_sign (n d : Nat) : (literal n d).negative = false := rfl

theorem scored_sign {holds : Bool} {step score : Binary64} (hstep : step.negative = false)
    (hscore : score.negative = false) : (scored holds step score).negative = false := by
  cases holds with
  | false => exact hscore
  | true => exact Binary64.add_sign hscore hstep

theorem constantsScore_sign {sameCpu : Bool} {m d : ExportRow} {score x : Binary64}
    (hscore : score.negative = false) (hx : constantsScore sameCpu m d score = .ok x) :
    x.negative = false := by
  unfold constantsScore at hx
  split_ifs at hx with hconstants hcpu
  · simp only [bind_eq_ok] at hx
    obtain ⟨set1, -, set2, -, common, -, hx⟩ := hx
    obtain rfl := Except.ok.inj hx
    exact scored_sign (Binary64.mul_sign rfl (literal_sign _ _)) hscore
  · simp only [bind_eq_ok] at hx
    obtain ⟨set1, -, set2, -, common, -, hx⟩ := hx
    obtain rfl := Except.ok.inj hx
    exact scored_sign (Binary64.mul_sign rfl (literal_sign _ _)) hscore
  · obtain rfl := Except.ok.inj hx
    exact hscore

/-- The score has no sign: only steps of the constants are added. -/
theorem deepScore_sign {sameCpu : Bool} {m d : ExportRow} {x : Binary64}
    (hx : deepScore sameCpu m d = .ok x) : x.negative = false := by
  simp only [deepScore, bind_eq_ok] at hx
  obtain ⟨sameIndegree, -, sameOutdegree, -, sameComplexity, -, hx⟩ := hx
  apply constantsScore_sign _ hx
  repeat' apply scored_sign
  all_goals rfl

theorem deepRatioByAddress_sign {t : Tables} {sameCpu : Bool} {ea1 ea2 : Option Text} {x : Binary64}
    (hx : deepRatioByAddress t sameCpu ea1 ea2 = .ok x) : x.negative = false := by
  simp only [deepRatioByAddress, bind_eq_ok] at hx
  obtain ⟨address1, -, address2, -, mainRow, -, diffRow, -, hx⟩ := hx
  cases mainRow with
  | none => cases hx
  | some m =>
    cases diffRow with
    | none => cases hx
    | some d => exact deepScore_sign hx

/-- What the score makes of a ratio below one stays below one. -/
theorem withScore_spec {r score : Binary64} (hr : InUnit r) (hscore : score.negative = false) :
    InUnit (withScore r score) ∧ withScore r score ≠ .one := by
  unfold withScore
  split_ifs with hlt
  · have hunit := InUnit.of_lt_one (Binary64.add_sign hr.sign hscore) hlt
    exact ⟨hunit, hunit.lt_one_iff.mp hlt⟩
  · have hround : Rounds false ((99 : Nat)/(100 : Nat) : ℚ) (literal 99 100) :=
      ⟨_, Binary64.ratioMagnitude_roundsTo 99 (by norm_num), rfl⟩
    refine ⟨InUnit.of_rounds hround (by norm_num), fun hone => ?_⟩
    have hle := hround.grid_le_binade (b := 1021) (k := 2^53-2^40) (by norm_num) (by norm_num)
      (by norm_num) (by norm_num)
    rw [hone, grid_magnitude_one] at hle
    norm_num at hle

/-- The columns of the engine are such columns. -/
structure Tables.Fits (t : Tables) : Prop where
  pseudo : ColumnFits (t.main.rows.map ExportRow.cleanPseudo) (t.diff.rows.map ExportRow.cleanPseudo)
  assembly : ColumnFits (t.main.rows.map ExportRow.cleanAssembly)
    (t.diff.rows.map ExportRow.cleanAssembly)
  microcode : ColumnFits (t.main.rows.map ExportRow.cleanMicrocode)
    (t.diff.rows.map ExportRow.cleanMicrocode)

theorem ExportTable.map_row {α : Type} {t : ExportTable} (column : ExportRow → α) {r : Nat}
    (hr : r < t.count) : (t.rows.map column)[r]? = some (column (t.row r)) := by
  rw [ExportTable.row, List.getElem?_map, List.getD_eq_getElem?_getD, List.getElem?_eq_getElem hr]
  rfl

/-- Both functions have pseudo-code. -/
def HasPseudocode (m d : ExportRow) : Prop :=
  m.pseudocode ≠ .null ∧ d.pseudocode ≠ .null ∧ m.pseudocode ≠ .str [] ∧ d.pseudocode ≠ .str []

section
variable {t : Tables} {row1 row2 : Nat} {x : Binary64}

theorem pseudoRatio_spec (h : t.Fits) (hx : pseudoRatio t row1 row2 = .ok x) :
    SevenPlaces x ∧ (row1 < t.main.count → row2 < t.diff.count →
      (HasPseudocode (t.main.row row1) (t.diff.row row2) →
        SameLines (t.main.row row1).cleanPseudo (t.diff.row row2).cleanPseudo → x = .one) ∧
      (x = .one → ShortTexts (t.main.row row1).cleanPseudo (t.diff.row row2).cleanPseudo →
        HasPseudocode (t.main.row row1) (t.diff.row row2) ∧
          SameLines (t.main.row row1).cleanPseudo (t.diff.row row2).cleanPseudo)) := by
  unfold pseudoRatio at hx
  dsimp only at hx
  split_ifs at hx with hhas hempty
  · obtain rfl := Except.ok.inj hx
    refine ⟨SevenPlaces.zero, fun _ _ => ⟨fun _ hsame => ?_, fun hone => absurd hone (by decide)⟩⟩
    obtain ⟨t1, t2, h1, h2, ht1, ht2, -⟩ := hsame
    simp [isEmptyStr, h1, h2, ht1, ht2] at hempty
  · obtain ⟨hplaces, hlines⟩ := quickRound7_spec h.pseudo hx
    refine ⟨hplaces, fun hrow1 hrow2 => ?_⟩
    obtain ⟨hsame, hone⟩ := hlines _ _ (ExportTable.map_row _ hrow1) (ExportTable.map_row _ hrow2)
    simp only [pyNe, Bool.and_eq_true, decide_eq_true_eq] at hhas
    refine ⟨fun _ => hsame, fun hx hshort => ⟨?_, hone hx hshort⟩⟩
    exact ⟨hhas.1.1.1, hhas.1.1.2, hhas.1.2, hhas.2⟩
  · obtain rfl := Except.ok.inj hx
    refine ⟨SevenPlaces.zero, fun _ _ => ⟨fun hboth _ => ?_, fun hone => absurd hone (by decide)⟩⟩
    obtain ⟨h1, h2, h3, h4⟩ := hboth
    simp [pyNe, h1, h2, h3, h4] at hhas

theorem microRatio_spec (h : t.Fits) (hx : microRatio t row1 row2 = .ok x) :
    SevenPlaces x ∧ (row1 < t.main.count → row2 < t.diff.count →
      (SameLines (t.main.row row1).cleanMicrocode (t.diff.row row2).cleanMicrocode → x = .one) ∧
      (x = .one → ShortTexts (t.main.row row1).cleanMicrocode (t.diff.row row2).cleanMicrocode →
        SameLines (t.main.row row1).cleanMicrocode (t.diff.row row2).cleanMicrocode)) := by
  unfold microRatio at hx
  split_ifs at hx with hhas
  · obtain ⟨hplaces, hlines⟩ := quickRound7_spec h.microcode hx
    exact ⟨hplaces, fun hrow1 hrow2 =>
      hlines _ _ (ExportTable.map_row _ hrow1) (ExportTable.map_row _ hrow2)⟩
  · obtain rfl := Except.ok.inj hx
    refine ⟨SevenPlaces.zero, fun _ _ => ⟨fun hsame => ?_, fun hone => absurd hone (by decide)⟩⟩
    obtain ⟨t1, t2, h1, h2, -⟩ := hsame
    simp [h1, h2] at hhas

/-- The part behind the bytes hash: a number of the unit interval, and one if the microcode is one
and the other's, or the MD-Indices are equal and the pseudo-code or the assembly is. -/
theorem computeRatio_spec (h : t.Fits) {sameCpu : Bool} {ea1 ea2 : Option Text} {md1 md2 : Binary64}
    (hx : computeRatio t sameCpu ea1 ea2 row1 row2 md1 md2 = .ok x) :
    ∃ v1 v2 v5, pseudoRatio t row1 row2 = .ok v1 ∧
      quickRound7 t.cleanAssembly row1 row2 (text "clean_assembly") = .ok v2 ∧
      microRatio t row1 row2 = .ok v5 ∧ InUnit x ∧
      (x = .one ↔ v5 = .one ∨ md1.eq md2 = true ∧ (v1 = .one ∨ v2 = .one)) := by
  simp only [computeRatio, bind_eq_ok] at hx
  obtain ⟨v1, hv1, v2, hv2, v5, hv5, hx⟩ := hx
  refine ⟨v1, v2, v5, hv1, hv2, hv5, ?_⟩
  have h1 := (pseudoRatio_spec h hv1).1
  have h2 := (quickRound7_spec h.assembly hv2).1
  have h5 := (microRatio_spec h hv5).1
  obtain ⟨h4, hmean⟩ := mdRatio_spec md1 md2 h1 h2
  by_cases hmicro : v5.eq .one = true
  · rw [if_pos hmicro] at hx
    obtain rfl := Except.ok.inj hx
    exact ⟨InUnit.one, ⟨fun _ => .inl (Binary64.eq_one_iff.mp hmicro), fun _ => rfl⟩⟩
  · rw [if_neg hmicro] at hx
    have hv5 : v5 ≠ .one := fun hone => hmicro (Binary64.eq_one_iff.mpr hone)
    have hall : ∀ v ∈ [v1,v2,.zero,mdRatio md1 md2 v1 v2,v5], InUnit v := by
      intro v hv
      simp only [List.mem_cons, List.not_mem_nil, or_false] at hv
      rcases hv with rfl | rfl | rfl | rfl | rfl
      · exact h1.inUnit
      · exact h2.inUnit
      · exact InUnit.zero
      · exact h4
      · exact h5.inUnit
    obtain ⟨hunit, hone⟩ := greatest_spec hall
    have hiff : greatest md1 md2 v1 [v2,.zero,mdRatio md1 md2 v1 v2,v5] = .one ↔
        md1.eq md2 = true ∧ (v1 = .one ∨ v2 = .one) := by
      rw [hone]
      apply and_congr_right
      intro _
      constructor
      · intro hin
        simp only [List.mem_cons, List.not_mem_nil, or_false] at hin
        rcases hin with hin | hin | hin | hin | hin
        · exact .inl hin.symm
        · exact .inr hin.symm
        · exact absurd hin (by decide)
        · exact (hmean hin.symm).2
        · exact absurd hin.symm hv5
      · intro hin
        rcases hin with hin | hin <;> simp [hin]
    split_ifs at hx with hlt
    · obtain ⟨score, hscore, hx⟩ := bind_eq_ok.mp hx
      obtain rfl := Except.ok.inj hx
      obtain ⟨hin, hne⟩ := withScore_spec hunit (deepRatioByAddress_sign hscore)
      refine ⟨hin, ⟨fun hone => absurd hone hne, fun hor => ?_⟩⟩
      rcases hor with hor | hor
      · exact absurd hor hv5
      · exact absurd (hiff.mpr hor) (hunit.lt_one_iff.mp hlt)
    · obtain rfl := Except.ok.inj hx
      have heq : greatest md1 md2 v1 [v2,.zero,mdRatio md1 md2 v1 v2,v5] = .one := by
        by_contra hne
        exact hlt (hunit.lt_one_iff.mpr hne)
      exact ⟨hunit, ⟨fun _ => .inr (hiff.mp heq), fun _ => heq⟩⟩

end

/-- A similarity ratio is a number between zero and one, with no sign and no NaN. -/
theorem compute_inUnit (t : Tables) (h : t.Fits) (sameCpu : Bool) (ea1 ea2 : Option Text)
    (row1 row2 : Nat) (src : MdSource) (sqlMd1 sqlMd2 : Option Binary64) (x : Binary64)
    (hx : compute t sameCpu ea1 ea2 row1 row2 src sqlMd1 sqlMd2 = .ok x) : InUnit x := by
  simp only [compute, bind_eq_ok] at hx
  obtain ⟨md1, -, md2, -, hx⟩ := hx
  split_ifs at hx with hbytes
  · obtain rfl := Except.ok.inj hx
    exact InUnit.one
  · obtain ⟨-, -, -, -, -, -, hunit, -⟩ := computeRatio_spec h hx
    exact hunit

/-- The lines of the texts of a column. -/
def columnLines (cells : List Cell) : Nat :=
  (cells.map fun cell =>
    match cell with
    | .str t => (splitPieces t).length
    | _ => 0).sum

theorem length_sortedRuns_le (ids : List UInt32) : (sortedRuns ids).length ≤ ids.length := by
  have hlength := (List.perm_insertionSort (· ≤ ·) ids).length_eq
  unfold sortedRuns
  generalize ids.insertionSort (· ≤ ·) = sorted at hlength
  cases sorted with
  | nil => exact Nat.zero_le _
  | cons id rest =>
    have hruns := length_runsFrom id 1 rest
    rw [List.length_cons] at hlength
    rw [runsOf]
    omega

/-- A line gets at most one new id. -/
theorem length_internAll (ids : InsertionDict Text UInt32) (lines : List Text) :
    (internAll ids lines).1.entries.length ≤ ids.entries.length+lines.length ∧
      (internAll ids lines).2.length = lines.length := by
  induction lines generalizing ids with
  | nil => exact ⟨Nat.le_refl _, rfl⟩
  | cons line lines ih =>
    have hfirst : (intern ids line).1.entries.length ≤ ids.entries.length+1 := by
      unfold intern
      cases hline : ids.find? line with
      | some id => exact Nat.le_succ _
      | none =>
        dsimp only
        rw [InsertionDict.entries_put_of_new _ _ _ hline, List.length_append, List.length_singleton]
    obtain ⟨hids, hlength⟩ := ih (intern ids line).1
    rw [internAll, List.length_cons]
    exact ⟨by dsimp only; omega, by dsimp only; rw [List.length_cons, hlength]⟩

theorem length_prepareRow (s : InsertionDict Text UInt32 × PreparedSide) (cell : Cell) :
    (prepareRow s cell).1.entries.length ≤ s.1.entries.length+columnLines [cell] ∧
      (prepareRow s cell).2.runs.length ≤ s.2.runs.length+columnLines [cell] := by
  cases cell with
  | null => exact ⟨Nat.le_refl _, Nat.le_refl _⟩
  | blob bytes => exact ⟨Nat.le_refl _, Nat.le_refl _⟩
  | str t =>
    obtain ⟨hids, hlength⟩ := length_internAll s.1 (splitPieces t)
    have hruns := length_sortedRuns_le (internAll s.1 (splitPieces t)).2
    have hlines : columnLines [.str t] = (splitPieces t).length := Nat.add_zero _
    unfold prepareRow
    dsimp only
    split_ifs
    · exact ⟨Nat.le_add_right _ _, Nat.le_add_right _ _⟩
    · rw [hlines]
      refine ⟨hids, ?_⟩
      rw [List.length_append]
      omega

theorem columnLines_cons (cell : Cell) (cells : List Cell) :
    columnLines (cell::cells) = columnLines [cell]+columnLines cells := by
  simp [columnLines]

/-- A column has as many runs and line ids as it has lines, or fewer. -/
theorem length_prepareRows (s : InsertionDict Text UInt32 × PreparedSide) (cells : List Cell) :
    (cells.foldl prepareRow s).1.entries.length ≤ s.1.entries.length+columnLines cells ∧
      (cells.foldl prepareRow s).2.runs.length ≤ s.2.runs.length+columnLines cells := by
  induction cells generalizing s with
  | nil => exact ⟨Nat.le_refl _, Nat.le_refl _⟩
  | cons cell cells ih =>
    obtain ⟨hids, hruns⟩ := length_prepareRow s cell
    obtain ⟨hids', hruns'⟩ := ih (prepareRow s cell)
    rw [List.foldl_cons, columnLines_cons]
    omega

theorem columnLines_append (cells cells' : List Cell) :
    columnLines (cells ++ cells') = columnLines cells+columnLines cells' := by
  simp [columnLines]

theorem columnLines_take_le (cells : List Cell) (k : Nat) :
    columnLines (cells.take k) ≤ columnLines cells := by
  have hsplit := columnLines_append (cells.take k) (cells.drop k)
  rw [List.take_append_drop] at hsplit
  omega

/-- The counters hold what they count where both exports together have fewer lines than they go to. -/
theorem ColumnFits.of_lines {main diff : List Cell} (h : columnLines main+columnLines diff < 2^32) :
    ColumnFits main diff where
  pieces side k t hk := by
    have hcells : columnLines (cellsOf main diff side) < 2^32 := by
      cases side
      · exact Nat.lt_of_le_of_lt (Nat.le_add_right _ _) h
      · exact Nat.lt_of_le_of_lt (Nat.le_add_left _ _) h
    have hle : (splitPieces t).length ≤ columnLines (cellsOf main diff side) :=
      List.single_le_sum (fun _ _ => Nat.zero_le _) _
        (List.mem_map.mpr ⟨.str t, List.mem_of_getElem? hk, rfl⟩)
    exact Nat.lt_of_le_of_lt hle hcells
  runs side k := by
    cases side with
    | main =>
      have hruns := (length_prepareRows (.empty,⟨[],[]⟩) (main.take k)).2
      have htake := columnLines_take_le main k
      have hmain : runsBefore main diff .main k ≤ 0+columnLines (main.take k) := hruns
      omega
    | diff =>
      have hruns := (length_prepareRows ((prepareSide .empty main).1,⟨[],[]⟩) (diff.take k)).2
      have htake := columnLines_take_le diff k
      have hdiff : runsBefore main diff .diff k ≤ 0+columnLines (diff.take k) := hruns
      omega
  lines := by
    have hmain := (length_prepareRows (.empty,⟨[],[]⟩) main).1
    have hdiff := (length_prepareRows ((prepareSide .empty main).1,⟨[],[]⟩) diff).1
    have hfirst : (prepareSide .empty main).1.entries.length ≤ 0+columnLines main := hmain
    have hall : (prepareColumn main diff).lineIds.entries.length ≤
        (prepareSide .empty main).1.entries.length+columnLines diff := hdiff
    omega

/-- A function of an export, with its columns. -/
def sampleFunction (ea : String) (address : Nat) (name assembly pseudocode : String) (nodes : Int) :
    ExportRow where
  address := .str (text ea)
  name := .str (text name)
  nodes := { value := nodes, isNull := false }
  mdSqlReal := .one
  mdSqlNull := false
  addressSqlReal := .ofNat address
  addressSqlNull := false
  addrIdOf := some (text ea)
  nameIdOf := some (text name)
  bytesHash := .str (text ea ++ text name)
  pseudocode := .str (text pseudocode)
  assembly := .str (text assembly)
  cleanPseudo := .str (text pseudocode)
  cleanAssembly := .str (text assembly)
  mdIndex := .str (text "1")
  switches := .str (text "[]")
  constants := .str (text "[]")
  indegree := { value := 0, isNull := false }
  outdegree := { value := 0, isNull := false }
  cyclomaticComplexity := { value := 2, isNull := false }
  pseudocodeLines := { value := nodes, isNull := false }

/-- Two exports: `main` is the same in both, `parse` has changed, two functions of the new one are as near
to `close` as each other, `swap` has its lines in another order, `sub_2400` has got a name,
and either export has one function of its own. -/
def sampleTables : Tables where
  main := ⟨[
    sampleFunction "4096" 4096 "main" "push\nret" "return 0;" 1,
    sampleFunction "8192" 8192 "parse" "push\nmov\ncall\nret" "if ( a )\ncall();\nreturn a;" 3,
    sampleFunction "12288" 12288 "close" "push\nadd\nret" "x += 1;\nreturn x;" 3,
    sampleFunction "16384" 16384 "gone" "nop" "return 1;" 1,
    sampleFunction "20480" 20480 "swap" "push\nmov\nret" "a = b;\nb = c;" 2,
    sampleFunction "9216" 9216 "sub_2400" "push\ninc\nret" "i += 1;\nreturn i;" 2]⟩
  diff := ⟨[
    sampleFunction "4096" 4096 "main" "push\nret" "return 0;" 1,
    sampleFunction "8208" 8208 "parse" "push\nmov\nret" "call();\nreturn a;" 3,
    sampleFunction "12304" 12304 "shut" "push\nsub\nret" "x -= 1;\nreturn x;" 3,
    sampleFunction "12320" 12320 "stop" "push\nxor\nret" "x ^= 1;\nreturn x;" 3,
    sampleFunction "16400" 16400 "fresh" "nop" "return 2;" 1,
    sampleFunction "20496" 20496 "swap" "mov\npush\nret" "b = c;\na = b;" 2,
    sampleFunction "9232" 9232 "walk" "push\ndec\nret" "i -= 1;\nreturn i;" 2]⟩

theorem sampleTables_fits : sampleTables.Fits where
  pseudo := .of_lines (by decide +kernel)
  assembly := .of_lines (by decide +kernel)
  microcode := .of_lines (by decide +kernel)

/-- Exactly one is the ratio of equal bytes hashes, of the same lines of microcode, and where the
MD-Indices are equal of the same lines of cleaned assembly or pseudo-code; of nothing else. -/
theorem compute_one_iff (t : Tables) (h : t.Fits) (sameCpu : Bool) (ea1 ea2 : Option Text)
    (row1 row2 : Nat) (src : MdSource) (sqlMd1 sqlMd2 : Option Binary64) (x md1 md2 : Binary64)
    (hrow1 : row1 < t.main.count) (hrow2 : row2 < t.diff.count)
    (hpseudo : ShortTexts (t.main.row row1).cleanPseudo (t.diff.row row2).cleanPseudo)
    (hassembly : ShortTexts (t.main.row row1).cleanAssembly (t.diff.row row2).cleanAssembly)
    (hmicro : ShortTexts (t.main.row row1).cleanMicrocode (t.diff.row row2).cleanMicrocode)
    (hmd1 : mdOf src (t.main.row row1) sqlMd1 = .ok md1)
    (hmd2 : mdOf src (t.diff.row row2) sqlMd2 = .ok md2)
    (hx : compute t sameCpu ea1 ea2 row1 row2 src sqlMd1 sqlMd2 = .ok x) :
    x = .one ↔ (t.main.row row1).bytesHash = (t.diff.row row2).bytesHash ∨
      SameLines (t.main.row row1).cleanMicrocode (t.diff.row row2).cleanMicrocode ∨
      md1.eq md2 = true ∧
        (SameLines (t.main.row row1).cleanAssembly (t.diff.row row2).cleanAssembly ∨
          HasPseudocode (t.main.row row1) (t.diff.row row2) ∧
            SameLines (t.main.row row1).cleanPseudo (t.diff.row row2).cleanPseudo) := by
  rw [compute, hmd1, hmd2, ok_bind, ok_bind] at hx
  by_cases hbytes : (t.main.row row1).bytesHash = (t.diff.row row2).bytesHash
  · have hpy : pyEq (t.main.row row1).bytesHash (t.diff.row row2).bytesHash = true :=
      decide_eq_true hbytes
    rw [if_pos hpy] at hx
    exact ⟨fun _ => .inl hbytes, fun _ => (Except.ok.inj hx).symm⟩
  · have hpy : ¬ pyEq (t.main.row row1).bytesHash (t.diff.row row2).bytesHash = true :=
      fun heq => hbytes (of_decide_eq_true heq)
    rw [if_neg hpy] at hx
    obtain ⟨v1, v2, v5, hv1, hv2, hv5, -, hone⟩ := computeRatio_spec h hx
    obtain ⟨hsame1, hone1⟩ := (pseudoRatio_spec h hv1).2 hrow1 hrow2
    obtain ⟨hsame2, hone2⟩ := (quickRound7_spec h.assembly hv2).2 _ _
      (ExportTable.map_row _ hrow1) (ExportTable.map_row _ hrow2)
    obtain ⟨hsame5, hone5⟩ := (microRatio_spec h hv5).2 hrow1 hrow2
    rw [hone]
    constructor
    · intro hor
      right
      rcases hor with h5 | ⟨hmd, h1 | h2⟩
      · exact .inl (hone5 h5 hmicro)
      · exact .inr ⟨hmd, .inr (hone1 h1 hpseudo)⟩
      · exact .inr ⟨hmd, .inl (hone2 h2 hassembly)⟩
    · intro hor
      rcases hor with heq | h5 | ⟨hmd, h2 | ⟨hhas, h1⟩⟩
      · exact absurd heq hbytes
      · exact .inl (hsame5 h5)
      · exact .inr ⟨hmd, .inr (hsame2 h2)⟩
      · exact .inr ⟨hmd, .inl (hsame1 hhas h1)⟩

/-- Texts whose lines are counted are short. -/
theorem ShortTexts.of_lines {t1 t2 : Text} (h : (splitPieces t1).length+(splitPieces t2).length ≤ 2^24) :
    ShortTexts (.str t1) (.str t2) := by
  rintro _ _ ⟨⟩ ⟨⟩
  exact h

/-- The function whose lines are in another order has the ratio one for it, and the changed function has
another ratio: it has other lines. -/
theorem compute_one_iff_sample :
    let f (r : Nat) := sampleTables.main.row r
    let df (r : Nat) := sampleTables.diff.row r
    let ratio (r1 r2 : Nat) :=
      compute sampleTables true (f r1).addrIdOf (df r2).addrIdOf r1 r2 .python none none
    (ratio 4 5 = .ok .one ∧ ((f 4).bytesHash = (df 5).bytesHash ∨
      SameLines (f 4).cleanMicrocode (df 5).cleanMicrocode ∨ Binary64.one.eq .one = true ∧
        (SameLines (f 4).cleanAssembly (df 5).cleanAssembly ∨ HasPseudocode (f 4) (df 5) ∧
          SameLines (f 4).cleanPseudo (df 5).cleanPseudo))) ∧
    ∃ x, ratio 1 1 = .ok x ∧ x ≠ .one ∧ ¬ SameLines (f 1).cleanAssembly (df 1).cleanAssembly := by
  intro f df ratio
  have hswap : ratio 4 5 = .ok .one := by decide +kernel
  refine ⟨⟨hswap, ?_⟩, ?_⟩
  · exact (compute_one_iff sampleTables sampleTables_fits true _ _ 4 5 .python none none .one .one .one
      (by decide) (by decide) (.of_lines (by decide +kernel)) (.of_lines (by decide +kernel)) .null
      (by decide +kernel) (by decide +kernel) hswap).mp rfl
  · obtain ⟨x, hx, hone⟩ : ∃ x, ratio 1 1 = .ok x ∧ x ≠ .one :=
      ⟨.ofBits 0x3FEDD674761E9542, by decide +kernel, by decide +kernel⟩
    refine ⟨x, hx, hone, fun hsame => hone ?_⟩
    exact (compute_one_iff sampleTables sampleTables_fits true _ _ 1 1 .python none none x .one .one
      (by decide) (by decide) (.of_lines (by decide +kernel)) (.of_lines (by decide +kernel)) .null
      (by decide +kernel) (by decide +kernel) hx).mpr (.inr (.inr ⟨by decide, .inl hsame⟩))

end DSigMatcher.Engine
