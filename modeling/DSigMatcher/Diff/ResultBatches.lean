import DSigMatcher.Diff.ResultIter
import Mathlib.Data.List.TakeDrop
import Mathlib.Tactic.SplitIfs

namespace DSigMatcher.Diff
open DSigMatcher.Base DSigMatcher.Framework

/-- Fetching gives the rows one by one, and then ends or fails. -/
def SmallRows.Gives (r : SmallRows) : List SmallRow → Option FetchError → Prop
  | [], none => r.fetch.1 = .ok none
  | [], some e => r.fetch.1 = .error e
  | row::rows, fault => r.fetch.1 = .ok (some row) ∧ SmallRows.Gives r.fetch.2 rows fault

/-- Of the rows before a fault, those whose batches it does not belong to. -/
def FetchError.behind (e : FetchError) (n : Nat) : Nat := if e.defers then n else n-1

/-- The rows that are delivered before a fault: whole batches only. -/
def delivered (rows : List SmallRow) : Option FetchError → List SmallRow
  | none => rows
  | some e => rows.take (kArraySize*(e.behind rows.length/kArraySize))

def endingOf : Option FetchError → ResultIter.Ending
  | none => .exhausted
  | some e => .raised e

theorem kArraySize_pos : 0 < kArraySize := by decide

theorem delivered_some (rows : List SmallRow) (e : FetchError) :
    delivered rows (some e) = rows.take (kArraySize*(e.behind rows.length/kArraySize)) := rfl

/-- A batch in front of the others is delivered first. -/
theorem delivered_append {batch rows : List SmallRow} (fault : Option FetchError)
    (hbatch : batch.length = kArraySize) (hrows : (∀ e ∈ fault, e.defers) ∨ rows ≠ []) :
    delivered (batch ++ rows) fault = batch ++ delivered rows fault := by
  cases fault with
  | none => rfl
  | some e =>
    have hcount : e.behind (batch ++ rows).length = kArraySize+e.behind rows.length := by
      rw [List.length_append, hbatch]
      unfold FetchError.behind
      split_ifs with hdefers
      · rfl
      · have hpos := List.length_pos_iff.mpr (hrows.resolve_left fun h => hdefers (h e rfl))
        omega
    rw [delivered_some, delivered_some, hcount, Nat.add_div_left _ kArraySize_pos, Nat.mul_succ,
      Nat.add_comm, ← hbatch, List.take_length_add_append]

/-- A fault that belongs to the first batch loses it. -/
theorem delivered_lost {rows : List SmallRow} {e : FetchError}
    (h : e.behind rows.length < kArraySize) : delivered rows (some e) = [] := by
  rw [delivered_some, Nat.div_eq_of_lt h, Nat.mul_zero, List.take_zero]

theorem behind_le (e : FetchError) (n : Nat) : e.behind n ≤ n := by
  unfold FetchError.behind
  split_ifs <;> omega

namespace ResultIter
variable {it : ResultIter} {rows : List SmallRow} {fault : Option FetchError}

/-- Filling takes what a batch has room for. -/
theorem fillBatch_full {n : Nat} (hn : it.batch.length+n = kArraySize) (hopen : it.exhausted = false)
    (hgives : it.rows.Gives rows fault) (hrows : n ≤ rows.length) :
    ∃ rest, fillBatch n it = .ok { it with rows := rest, batch := it.batch ++ rows.take n } ∧
      rest.Gives (rows.drop n) fault := by
  induction n generalizing it rows with
  | zero => exact ⟨it.rows, by simp [fillBatch], hgives⟩
  | succ n ih =>
    cases rows with
    | nil => exact absurd hrows (Nat.not_succ_le_zero n)
    | cons row rows =>
      obtain ⟨hfetch, hrest⟩ := hgives
      have hroom : ¬ (it.exhausted || decide (kArraySize ≤ it.batch.length)) = true := by
        simp only [hopen, Bool.false_or, decide_eq_true_eq]
        omega
      have hstep := @ih { it with rows := it.rows.fetch.2, batch := it.batch ++ [row] } rows
        (by simp only [List.length_append, List.length_singleton]; omega) hopen hrest
        (Nat.le_of_succ_le_succ hrows)
      obtain ⟨rest, hfill, hgives⟩ := hstep
      refine ⟨rest, ?_, hgives⟩
      rw [fillBatch, if_neg hroom, ← Prod.mk.eta (p := it.rows.fetch), hfetch]
      simp only [hfill, List.append_assoc, List.singleton_append, List.take_succ_cons]

/-- Rows that end before the batch is full. -/
theorem fillBatch_short {n : Nat} (hn : it.batch.length+n = kArraySize) (hopen : it.exhausted = false)
    (hgives : it.rows.Gives rows fault) (hrows : rows.length < n) :
    (fault = none → ∃ rest, fillBatch n it =
      .ok { it with rows := rest, batch := it.batch ++ rows, exhausted := true }) ∧
    ∀ e, fault = some e → fillBatch n it = .error e := by
  induction n generalizing it rows with
  | zero => exact absurd hrows (Nat.not_lt_zero _)
  | succ n ih =>
    have hroom : ¬ (it.exhausted || decide (kArraySize ≤ it.batch.length)) = true := by
      simp only [hopen, Bool.false_or, decide_eq_true_eq]
      omega
    rw [fillBatch, if_neg hroom, ← Prod.mk.eta (p := it.rows.fetch)]
    cases rows with
    | nil =>
      constructor
      · rintro rfl
        rw [show it.rows.fetch.1 = .ok none from hgives, List.append_nil]
        exact ⟨it.rows.fetch.2, rfl⟩
      · rintro e rfl
        rw [show it.rows.fetch.1 = .error e from hgives]
    | cons row rows =>
      obtain ⟨hfetch, hrest⟩ := hgives
      have hstep := @ih { it with rows := it.rows.fetch.2, batch := it.batch ++ [row] } rows
        (by simp only [List.length_append, List.length_singleton]; omega) hopen hrest
        (Nat.lt_of_succ_lt_succ hrows)
      rw [hfetch]
      simpa only [List.append_assoc, List.singleton_append] using hstep

/-- The rows of the batch are seen one by one. -/
theorem drain_batch (fuel : Nat) (it : ResultIter) :
    drain (it.batch.length-it.pos+fuel) it =
      (it.batch.drop it.pos ++ (drain fuel { it with pos := max it.pos it.batch.length }).1,
        (drain fuel { it with pos := max it.pos it.batch.length }).2) := by
  generalize hleft : it.batch.length-it.pos = left
  induction left generalizing it with
  | zero =>
    have hpos : it.batch.length ≤ it.pos := Nat.le_of_sub_eq_zero hleft
    rw [Nat.max_eq_left hpos, List.drop_eq_nil_of_le hpos, Nat.zero_add]
    rfl
  | succ left ih =>
    have hpos : it.pos < it.batch.length := by omega
    have hstep := ih { it with pos := it.pos+1 } (by simp only; omega)
    have hmax : max (it.pos+1) it.batch.length = max it.pos it.batch.length := by omega
    rw [hmax] at hstep
    rw [Nat.add_right_comm, drain, next, if_neg (Nat.not_le.mpr hpos), take,
      List.getElem?_eq_getElem hpos, List.drop_eq_getElem_cons hpos]
    simp only [hstep, List.cons_append]

/-- What filling leaves, from the row ahead and the rows behind it. -/
theorem fill_spec (hdeferred : it.deferred = none) (hopen : it.exhausted = false)
    (hgives : it.rows.Gives rows fault) :
    let pending := it.ahead.toList ++ rows
    (pending.length < kArraySize →
      (fault = none → ∃ rest, fill it = .ok ⟨rest,pending,0,none,none,true⟩) ∧
      ∀ e, fault = some e → fill it = .error e) ∧
    (kArraySize ≤ pending.length → ∃ rest,
      fill it = lookAhead ⟨rest,pending.take kArraySize,0,none,none,false⟩ ∧
      rest.Gives (pending.drop kArraySize) fault) := by
  intro pending
  have hahead : it.ahead.toList.length ≤ 1 := by cases it.ahead <;> simp
  have hone : 1 < kArraySize := by decide
  have hn : it.ahead.toList.length+(kArraySize-it.ahead.toList.length) = kArraySize := by omega
  have hlength : pending.length = it.ahead.toList.length+rows.length := List.length_append
  let start : ResultIter := ⟨it.rows,it.ahead.toList,0,none,none,false⟩
  have hfill : fill it = (fillBatch (kArraySize-it.ahead.toList.length) start).bind lookAhead := by
    rw [fill, hdeferred]
    simp only [hopen]
    rfl
  constructor
  · intro hshort
    obtain ⟨hend, hfault⟩ := @fillBatch_short start rows fault _ hn rfl hgives (by omega)
    constructor
    · intro hnone
      obtain ⟨rest, hrest⟩ := hend hnone
      refine ⟨rest, ?_⟩
      rw [hfill, hrest]
      rfl
    · intro e he
      rw [hfill, hfault e he]
      rfl
  · intro hlong
    obtain ⟨rest, hrest, hlater⟩ := @fillBatch_full start rows fault _ hn rfl hgives (by omega)
    have hfits : it.ahead.toList.length ≤ kArraySize := by omega
    refine ⟨rest, ?_, ?_⟩
    · rw [hfill, hrest, List.take_append, List.take_of_length_le hfits]
      rfl
    · rwa [List.drop_append, List.drop_eq_nil_of_le hfits, List.nil_append]

/-- The step behind a full batch. -/
theorem lookAhead_spec (hopen : it.exhausted = false) (hfull : it.batch.length = kArraySize)
    (hgives : it.rows.Gives rows fault) :
    (∀ row later, rows = row::later →
      lookAhead it = .ok { it with rows := it.rows.fetch.2, ahead := some row } ∧
      it.rows.fetch.2.Gives later fault) ∧
    (rows = [] → fault = none →
      lookAhead it = .ok { it with rows := it.rows.fetch.2, exhausted := true }) ∧
    ∀ e, rows = [] → fault = some e → lookAhead it =
      if e.defers then .ok { it with rows := it.rows.fetch.2, deferred := some e } else .error e := by
  have hroom : (!it.exhausted && decide (it.batch.length = kArraySize)) = true := by
    rw [hopen, hfull]
    rfl
  rw [lookAhead, if_pos hroom, ← Prod.mk.eta (p := it.rows.fetch)]
  refine ⟨?_, ?_, ?_⟩
  · rintro row later rfl
    rw [hgives.1]
    exact ⟨rfl, hgives.2⟩
  · rintro rfl rfl
    rw [show it.rows.fetch.1 = .ok none from hgives]
  · rintro e rfl rfl
    rw [show it.rows.fetch.1 = .error e from hgives]

theorem drain_filled {it' : ResultIter} (hpos : it.batch.length ≤ it.pos) (hopen : it.exhausted = false)
    (hfill : fill it = .ok it') (hbatch : it'.pos < it'.batch.length) (fuel : Nat) :
    drain fuel it = drain fuel it' := by
  have hnext : it.next = it'.next := by
    rw [next, if_pos hpos, hopen, hfill, next, if_neg (Nat.not_le.mpr hbatch)]
    rfl
  cases fuel with
  | zero => rfl
  | succ fuel => rw [drain, drain, hnext]

theorem drain_failed {e : FetchError} (hpos : it.batch.length ≤ it.pos) (hopen : it.exhausted = false)
    (hfill : fill it = .error e) {fuel : Nat} (hfuel : 0 < fuel) :
    drain fuel it = ([],.raised e) := by
  obtain ⟨fuel, rfl⟩ := Nat.exists_eq_succ_of_ne_zero (Nat.pos_iff_ne_zero.mp hfuel)
  rw [Nat.succ_eq_add_one, drain, next, if_pos hpos, hopen, hfill]
  rfl

/-- A filled batch is seen as a whole, and then what comes behind it. -/
theorem drain_whole {it' : ResultIter} (hpos : it.batch.length ≤ it.pos) (hopen : it.exhausted = false)
    (hfill : fill it = .ok it') (hstart : it'.pos = 0) (hbatch : it'.batch ≠ []) {fuel : Nat}
    (hfuel : it'.batch.length ≤ fuel) :
    drain fuel it =
      (it'.batch ++ (drain (fuel-it'.batch.length) { it' with pos := it'.batch.length }).1,
        (drain (fuel-it'.batch.length) { it' with pos := it'.batch.length }).2) := by
  have hlength : it'.pos < it'.batch.length := hstart ▸ List.length_pos_iff.mpr hbatch
  have hseen := drain_batch (fuel-it'.batch.length) it'
  have hcalls : it'.batch.length-it'.pos+(fuel-it'.batch.length) = fuel := by omega
  rw [hcalls, hstart, List.drop_zero, Nat.max_eq_right (Nat.zero_le _)] at hseen
  rw [drain_filled hpos hopen hfill hlength, hseen]

/-- Nothing is left behind the last batch. -/
theorem drain_done (hpos : it.batch.length ≤ it.pos) (hahead : it.ahead = none)
    (hdeferred : it.deferred = none) (hdone : it.exhausted = true) {fuel : Nat} (hfuel : 0 < fuel) :
    drain fuel it = ([],.exhausted) := by
  obtain ⟨fuel, rfl⟩ := Nat.exists_eq_succ_of_ne_zero (Nat.pos_iff_ne_zero.mp hfuel)
  rw [Nat.succ_eq_add_one, drain, next, if_pos hpos, hahead, hdeferred, hdone]
  rfl

/-- The fault that was put off ends the run. -/
theorem drain_deferred {e : FetchError} (hpos : it.batch.length ≤ it.pos) (hdeferred : it.deferred = some e)
    (hopen : it.exhausted = false) {fuel : Nat} (hfuel : 0 < fuel) :
    drain fuel it = ([],.raised e) := by
  apply drain_failed hpos hopen _ hfuel
  rw [fill, hdeferred]

/-- From the end of a batch on, whole batches are delivered, and the fault is raised. -/
theorem drain_pending (hpos : it.batch.length ≤ it.pos) (hdeferred : it.deferred = none)
    (hopen : it.exhausted = false) (hgives : it.rows.Gives rows fault) {fuel : Nat}
    (hfuel : (it.ahead.toList ++ rows).length < fuel) :
    drain fuel it = (delivered (it.ahead.toList ++ rows) fault,endingOf fault) := by
  induction hn : (it.ahead.toList ++ rows).length using Nat.strong_induction_on
    generalizing it rows fuel with
  | _ n ih =>
  obtain ⟨hshort, hlong⟩ := fill_spec hdeferred hopen hgives
  generalize it.ahead.toList ++ rows = pending at *
  subst hn
  have hcalls : 0 < fuel := by omega
  rcases Nat.lt_or_ge pending.length kArraySize with hlt | hge
  · cases fault with
    | none =>
      obtain ⟨rest, hfill⟩ := (hshort hlt).1 rfl
      cases pending with
      | nil =>
        obtain ⟨fuel, rfl⟩ := Nat.exists_eq_succ_of_ne_zero (Nat.pos_iff_ne_zero.mp hcalls)
        rw [Nat.succ_eq_add_one, drain, next, if_pos hpos, hopen, hfill]
        rfl
      | cons row pending =>
        rw [drain_whole hpos hopen hfill rfl (List.cons_ne_nil _ _) (Nat.le_of_lt hfuel),
          drain_done (Nat.le_refl _) rfl rfl rfl (Nat.sub_pos_of_lt hfuel), List.append_nil]
        rfl
    | some e =>
      rw [drain_failed hpos hopen ((hshort hlt).2 e rfl) hcalls,
        delivered_lost (Nat.lt_of_le_of_lt (behind_le e _) hlt)]
      rfl
  · obtain ⟨rest, hfill, hlater⟩ := hlong hge
    have hbatch : (pending.take kArraySize).length = kArraySize := by
      rw [List.length_take, Nat.min_eq_left hge]
    have hne : pending.take kArraySize ≠ [] := by
      rw [← List.length_pos_iff, hbatch]
      exact kArraySize_pos
    have hsplit := List.take_append_drop kArraySize pending
    have hrest : (pending.drop kArraySize).length < fuel-kArraySize := by
      rw [List.length_drop]
      exact Nat.sub_lt_sub_right hge hfuel
    have hseen {it' : ResultIter} (hfill : fill it = .ok it') (hstart : it'.pos = 0)
        (htaken : it'.batch = pending.take kArraySize)
        (hbehind : drain (fuel-kArraySize) { it' with pos := it'.batch.length } =
          (delivered (pending.drop kArraySize) fault,endingOf fault))
        (hdefers : (∀ e ∈ fault, e.defers) ∨ pending.drop kArraySize ≠ []) :
        drain fuel it = (delivered pending fault,endingOf fault) := by
      have hlength : it'.batch.length = kArraySize := htaken ▸ hbatch
      have henough : it'.batch.length ≤ fuel := by omega
      have hwhole := drain_whole hpos hopen hfill hstart (htaken ▸ hne) henough
      rw [hlength] at hwhole hbehind
      rw [hwhole, hbehind, htaken, ← delivered_append fault hbatch hdefers, hsplit]
    obtain ⟨hmore, hend, hfault⟩ := @lookAhead_spec
      ⟨rest,pending.take kArraySize,0,none,none,false⟩ _ _ rfl hbatch hlater
    cases hdrop : pending.drop kArraySize with
    | cons row behind =>
      obtain ⟨hahead, hgives⟩ := hmore row behind hdrop
      have hcalls : (row::behind).length < fuel-kArraySize := hdrop ▸ hrest
      apply hseen (hfill.trans hahead) rfl rfl _ (Or.inr (hdrop ▸ List.cons_ne_nil _ _))
      have hless : (pending.drop kArraySize).length < pending.length := by
        rw [List.length_drop]
        exact Nat.sub_lt (Nat.lt_of_lt_of_le kArraySize_pos hge) kArraySize_pos
      let it' : ResultIter := ⟨rest.fetch.2,pending.take kArraySize,
        (pending.take kArraySize).length,some row,none,false⟩
      rw [hdrop]
      exact @ih _ hless it' behind (Nat.le_refl _) rfl rfl hgives _ hcalls (hdrop ▸ rfl)
    | nil =>
      rw [hdrop] at hrest
      cases fault with
      | none =>
        apply hseen (hfill.trans (hend hdrop rfl)) rfl rfl _ (Or.inl nofun)
        rw [hdrop]
        exact drain_done (Nat.le_refl _) rfl rfl rfl hrest
      | some e =>
        have herror := hfault e hdrop rfl
        by_cases hdefers : e.defers
        · rw [if_pos hdefers] at herror
          apply hseen (hfill.trans herror) rfl rfl _ (Or.inl fun _ he => Option.some.inj he ▸ hdefers)
          have hlost : delivered [] (some e) = [] :=
            delivered_lost (Nat.lt_of_le_of_lt (behind_le e _) kArraySize_pos)
          rw [hdrop, hlost]
          apply drain_deferred _ _ _ hrest
          · exact Nat.le_refl _
          · rfl
          · rfl
        · rw [if_neg hdefers] at herror
          rw [drain_failed hpos hopen (hfill.trans herror) hcalls, delivered_lost]
          · rfl
          · have hlength : pending.length = kArraySize :=
              Nat.le_antisymm (List.drop_eq_nil_iff.mp hdrop) hge
            rw [FetchError.behind, if_neg hdefers, hlength]
            decide

end ResultIter

end DSigMatcher.Diff
