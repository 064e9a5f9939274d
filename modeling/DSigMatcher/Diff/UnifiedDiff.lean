import DSigMatcher.Base.Text
import DSigMatcher.Diff.SequenceMatcher
import DSigMatcher.Framework.InsertionDict
import DSigMatcher.Framework.Patch
import Mathlib.Data.List.Dedup

namespace DSigMatcher.Diff

open Base Framework

/-- What the diff throws. -/
inductive TextDiffError
  | lengthError (what : Text)
  | invalidArgument (what : Text)
  deriving DecidableEq

/-- Only the last `n` elements of an operation. -/
def lastPart (n : Nat) (c : EditOp) : EditOp :=
  ⟨c.tag, max c.i1 (c.i2-n), c.i2, max c.j1 (c.j2-n), c.j2⟩

/-- Only the first `n` elements of an operation. -/
def firstPart (n : Nat) (c : EditOp) : EditOp :=
  ⟨c.tag, c.i1, min c.i2 (c.i1+n), c.j1, min c.j2 (c.j1+n)⟩

def trimFront (n : Nat) : List EditOp → List EditOp
  | [] => []
  | c::codes => (if c.tag = .equal then lastPart n c else c) :: codes

def trimBack (n : Nat) : List EditOp → List EditOp
  | [] => []
  | [c] => [if c.tag = .equal then firstPart n c else c]
  | c::d::codes => c :: trimBack n (d::codes)

/-- A group that is empty or a single range without changes. -/
def unchanged : List EditOp → Bool
  | [] => true
  | [c] => c.tag = .equal
  | _ => false

/-- End the current group and start a new one at every large range without changes. -/
def groupCodes (n : Nat) (group : List EditOp) : List EditOp → List (List EditOp)
  | [] => if unchanged group then [] else [group]
  | c::codes =>
    if c.tag = .equal ∧ n+n < c.i2-c.i1 then
      (group ++ [firstPart n c]) :: groupCodes n [lastPart n c] codes
    else groupCodes n (group ++ [c]) codes

def getGroupedOpcodes {α : Type*} [DecidableEq α] (a b : List α) (n : Int) :
    Option (Except TextDiffError (List (List EditOp))) :=
  if n < 0 then some (.error (.invalidArgument
    (text "SequenceMatcher::GetGroupedOpcodes: negative context size is not supported")))
  else (getOpcodes true a b).map fun codes =>
    let codes := if codes = [] then [⟨.equal, 0, 1, 0, 1⟩] else codes
    .ok (groupCodes n.toNat [] (trimBack n.toNat (trimFront n.toNat codes)))

/-- The id of a line is the number of lines met before its first appearance. -/
def intern (ids : InsertionDict Text UInt32) (line : Text) : InsertionDict Text UInt32 × UInt32 :=
  match ids.find? line with
  | some id => (ids, id)
  | none => (ids.put line (UInt32.ofNat ids.entries.length), UInt32.ofNat ids.entries.length)

def internAll (ids : InsertionDict Text UInt32) :
    List Text → InsertionDict Text UInt32 × List UInt32
  | [] => (ids, [])
  | line::lines =>
    let first := intern ids line
    let rest := internAll first.1 lines
    (rest.1, first.2 :: rest.2)

def formatRangeUnified (start stop : Nat) : Text :=
  let beginning := start+1
  let length := stop-start
  if length = 1 then decimal beginning
  else
    -- an empty range begins at the line just before it
    let beginning := if length = 0 then beginning-1 else beginning
    decimal beginning ++ text "," ++ decimal length

def prefixed (c : UInt8) (line : Text) : Text := c :: line

/-- The rows of one operation: `' '`, `'-'` and `'+'`. -/
def codeRows (a b : List Text) (c : EditOp) : List Text :=
  if c.tag = .equal then (slice a c.i1 c.i2).map (prefixed 32)
  else
    (if c.tag = .replace ∨ c.tag = .delete then (slice a c.i1 c.i2).map (prefixed 45) else []) ++
    (if c.tag = .replace ∨ c.tag = .insert then (slice b c.j1 c.j2).map (prefixed 43) else [])

def groupRows (a b : List Text) (lineTerm : Text) (group : List EditOp) : List Text :=
  let i1 := (group.head?.map EditOp.i1).getD 0
  let j1 := (group.head?.map EditOp.j1).getD 0
  let i2 := (group.getLast?.map EditOp.i2).getD 0
  let j2 := (group.getLast?.map EditOp.j2).getD 0
  (text "@@ -" ++ formatRangeUnified i1 i2 ++ text " +" ++ formatRangeUnified j1 j2 ++ text " @@" ++
    lineTerm) :: group.flatMap (codeRows a b)

def unifiedDiff (a b : List Text) (n : Int) (lineTerm : Text) :
    Option (Except TextDiffError (List Text)) :=
  let idsA := internAll InsertionDict.empty a
  let idsB := internAll idsA.1 b
  if 2^32-1 ≤ idsA.2.length ∨ 2^32-1 ≤ idsB.2.length then
    some (.error (.lengthError (text "SequenceMatcher: sequence too long")))
  else (getGroupedOpcodes idsA.2 idsB.2 n).map fun result => result.map fun groups =>
    if groups = [] then []
    else (text "--- " ++ lineTerm) :: (text "+++ " ++ lineTerm) ::
      groups.flatMap (groupRows a b lineTerm)

section
variable {α : Type*} {a b : List α} {c : EditOp}

/-- The last part of an equal range, and what goes before it. -/
theorem lastPart_sound (n : Nat) (h : c.Sound a b) (htag : c.tag = .equal) :
    (lastPart n c).Sound a b ∧ c.i1 ≤ (lastPart n c).i1 ∧ c.j1 ≤ (lastPart n c).j1 ∧
      slice a c.i1 (lastPart n c).i1 = slice b c.j1 (lastPart n c).j1 := by
  obtain ⟨hlength, -⟩ := h.equal htag
  have hle1 := h.le1
  have hle2 := h.le2
  have he : lastPart n c = ⟨.equal, c.i1+(c.i2-c.i1-n), c.i1+(c.i2-c.i1),
      c.j1+(c.i2-c.i1-n), c.j1+(c.i2-c.i1)⟩ := by
    unfold lastPart
    rw [htag]
    congr 1 <;> omega
  have hgap := (h.part htag 0 (c.i2-c.i1-n) (Nat.zero_le _) (by omega)).equal rfl
  rw [he]
  refine ⟨h.part htag _ _ (by omega) (by omega), Nat.le_add_right _ _, Nat.le_add_right _ _, ?_⟩
  exact hgap.2

/-- The first part of an equal range, and what comes after it. -/
theorem firstPart_sound (n : Nat) (h : c.Sound a b) (htag : c.tag = .equal) :
    (firstPart n c).Sound a b ∧ (firstPart n c).i2 ≤ c.i2 ∧ (firstPart n c).j2 ≤ c.j2 ∧
      slice a (firstPart n c).i2 c.i2 = slice b (firstPart n c).j2 c.j2 := by
  obtain ⟨hlength, -⟩ := h.equal htag
  have hle1 := h.le1
  have hle2 := h.le2
  have he : firstPart n c = ⟨.equal, c.i1+0, c.i1+min (c.i2-c.i1) n, c.j1+0,
      c.j1+min (c.i2-c.i1) n⟩ := by
    unfold firstPart
    rw [htag]
    congr 1 <;> omega
  have hi2 : c.i1+(c.i2-c.i1) = c.i2 := by omega
  have hj2 : c.j1+(c.i2-c.i1) = c.j2 := by omega
  have hgap := (h.part htag (min (c.i2-c.i1) n) (c.i2-c.i1) (by omega) (by omega)).equal rfl
  rw [he]
  refine ⟨h.part htag _ _ (by omega) (by omega), ?_, ?_, ?_⟩
  · show c.i1+min (c.i2-c.i1) n ≤ c.i2
    omega
  · show c.j1+min (c.i2-c.i1) n ≤ c.j2
    omega
  · have hslice := hgap.2
    dsimp only at hslice ⊢
    rwa [hi2, hj2] at hslice

/-- Between the two parts of a large equal range nothing changes. -/
theorem middle_eq (n : Nat) (h : c.Sound a b) (htag : c.tag = .equal) (hn : n+n < c.i2-c.i1) :
    (firstPart n c).i2 ≤ (lastPart n c).i1 ∧ (firstPart n c).j2 ≤ (lastPart n c).j1 ∧
      slice a (firstPart n c).i2 (lastPart n c).i1 =
        slice b (firstPart n c).j2 (lastPart n c).j1 := by
  obtain ⟨hlength, -⟩ := h.equal htag
  have hgap := (h.part htag n (c.i2-c.i1-n) (by omega) (by omega)).equal rfl
  have h1 : (firstPart n c).i2 = c.i1+n := by
    show min c.i2 (c.i1+n) = c.i1+n
    omega
  have h2 : (firstPart n c).j2 = c.j1+n := by
    show min c.j2 (c.j1+n) = c.j1+n
    omega
  have h3 : (lastPart n c).i1 = c.i1+(c.i2-c.i1-n) := by
    show max c.i1 (c.i2-n) = c.i1+(c.i2-c.i1-n)
    omega
  have h4 : (lastPart n c).j1 = c.j1+(c.i2-c.i1-n) := by
    show max c.j1 (c.j2-n) = c.j1+(c.i2-c.i1-n)
    omega
  rw [h1, h2, h3, h4]
  exact ⟨by omega, by omega, hgap.2⟩

theorem trimFront_segment {i j i' j' : Nat} {codes : List EditOp} (n : Nat)
    (h : Segment a b i j codes i' j') :
    ∃ i1 j1, i ≤ i1 ∧ j ≤ j1 ∧ slice a i i1 = slice b j j1 ∧
      Segment a b i1 j1 (trimFront n codes) i' j' := by
  cases codes with
  | nil => exact ⟨i, j, Nat.le_refl i, Nat.le_refl j, by simp, h⟩
  | cons c codes =>
    obtain ⟨rfl, rfl, hc, hrest⟩ := h
    rw [trimFront]
    split_ifs with htag
    · obtain ⟨hsound, hi, hj, hgap⟩ := lastPart_sound n hc htag
      exact ⟨_, _, hi, hj, hgap, rfl, rfl, hsound, hrest⟩
    · exact ⟨c.i1, c.j1, Nat.le_refl _, Nat.le_refl _, by simp, rfl, rfl, hc, hrest⟩

theorem trimBack_segment {i j i' j' : Nat} {codes : List EditOp} (n : Nat)
    (h : Segment a b i j codes i' j') (hend : a.drop i' = b.drop j') :
    ∃ i2 j2, Segment a b i j (trimBack n codes) i2 j2 ∧ a.drop i2 = b.drop j2 := by
  fun_induction trimBack n codes generalizing i j with
  | case1 => exact ⟨i', j', h, hend⟩
  | case2 c =>
    obtain ⟨rfl, rfl, hc, rfl, rfl⟩ := h
    split_ifs with htag
    · obtain ⟨hsound, hi, hj, hgap⟩ := firstPart_sound n hc htag
      refine ⟨_, _, ⟨rfl, rfl, hsound, rfl, rfl⟩, ?_⟩
      rw [← slice_append_drop a _ c.i2 hi, ← slice_append_drop b _ c.j2 hj, hgap, hend]
    · exact ⟨c.i2, c.j2, ⟨rfl, rfl, hc, rfl, rfl⟩, hend⟩
  | case3 c d codes ih =>
    obtain ⟨hi, hj, hc, hrest⟩ := h
    obtain ⟨i2, j2, hsegment, hdrop⟩ := ih hrest
    exact ⟨i2, j2, ⟨hi, hj, hc, hsegment⟩, hdrop⟩

/-- A group without changes leaves equal elements only. -/
theorem unchanged_slice {i j i' j' : Nat} {group : List EditOp} (h : Segment a b i j group i' j')
    (hgroup : unchanged group = true) : slice a i i' = slice b j j' := by
  match group, h, hgroup with
  | [], h, _ =>
    obtain ⟨rfl, rfl⟩ := h
    simp
  | [c], h, htag =>
    obtain ⟨rfl, rfl, hc, rfl, rfl⟩ := h
    exact (hc.equal (by simpa [unchanged] using htag)).2

/-- Grouping loses no change: what stays outside the groups is equal. -/
theorem groupCodes_covers {i0 j0 i1 j1 i j i' j' : Nat} {group codes : List EditOp} (n : Nat)
    (hi : i0 ≤ i1) (hj : j0 ≤ j1) (hgap : slice a i0 i1 = slice b j0 j1)
    (hgroup : Segment a b i1 j1 group i j) (hcodes : Segment a b i j codes i' j')
    (hend : a.drop i' = b.drop j') : Covers a b i0 j0 (groupCodes n group codes) := by
  induction codes generalizing i0 j0 i1 j1 i j group with
  | nil =>
    obtain ⟨rfl, rfl⟩ := hcodes
    unfold groupCodes
    split_ifs with hunchanged
    · have hle := hgroup.le
      have hslice := unchanged_slice hgroup hunchanged
      show a.drop i0 = b.drop j0
      rw [← slice_append_drop a i0 i1 hi, ← slice_append_drop b j0 j1 hj,
        ← slice_append_drop a i1 i hle.1, ← slice_append_drop b j1 j hle.2, hgap, hslice, hend]
    · refine ⟨i1, j1, i, j, ?_, hi, hj, hgap, hgroup, hend⟩
      intro hnil
      rw [hnil] at hunchanged
      exact hunchanged rfl
  | cons c codes ih =>
    obtain ⟨rfl, rfl, hc, hrest⟩ := hcodes
    unfold groupCodes
    split_ifs with hlarge
    · obtain ⟨hfirst, -, -, -⟩ := firstPart_sound n hc hlarge.1
      obtain ⟨hlast, -, -, -⟩ := lastPart_sound n hc hlarge.1
      obtain ⟨hmi, hmj, hmiddle⟩ := middle_eq n hc hlarge.1 hlarge.2
      have hsingle := Segment.singleton hfirst
      have hnext := Segment.singleton hlast
      refine ⟨i1, j1, (firstPart n c).i2, (firstPart n c).j2, by simp, hi, hj, hgap,
        hgroup.append hsingle, ?_⟩
      exact ih hmi hmj hmiddle hnext hrest
    · exact ih hi hj hgap (hgroup.append (Segment.singleton hc)) hrest

/-- A single range without changes leaves no group. -/
theorem groupCodes_equal (n : Nat) (h : c.tag = .equal) :
    groupCodes n [] (trimBack n (trimFront n [c])) = [] := by
  have hsmall : ¬ n+n < (firstPart n (lastPart n c)).i2-(firstPart n (lastPart n c)).i1 := by
    show ¬ n+n < min c.i2 (max c.i1 (c.i2-n)+n)-max c.i1 (c.i2-n)
    omega
  have htag : (firstPart n (lastPart n c)).tag = .equal := h
  have he : trimBack n (trimFront n [c]) = [firstPart n (lastPart n c)] := by
    have hlast : (lastPart n c).tag = .equal := h
    rw [trimFront, if_pos h, trimBack, if_pos hlast]
  rw [he, groupCodes, if_neg (fun hlarge => hsmall hlarge.2), List.nil_append, groupCodes, if_pos]
  simp [unchanged, htag]

theorem getGroupedOpcodes_covers [DecidableEq α] (a b : List α) (n : Int) (hn : 0 ≤ n) :
    ∃ groups, getGroupedOpcodes a b n = some (.ok groups) ∧ Covers a b 0 0 groups ∧
      (a = b → groups = []) := by
  obtain ⟨codes, hcodes, hsegment⟩ := getOpcodes_segment true a b
  refine ⟨_, by rw [getGroupedOpcodes, if_neg (Int.not_lt.mpr hn), hcodes, Option.map_some], ?_, ?_⟩
  · by_cases hnil : codes = []
    · subst hnil
      obtain ⟨ha, hb⟩ := hsegment
      rw [if_pos rfl, groupCodes_equal _ rfl]
      rw [List.eq_nil_of_length_eq_zero ha.symm, List.eq_nil_of_length_eq_zero hb.symm]
      rfl
    · rw [if_neg hnil]
      obtain ⟨i1, j1, hi, hj, hgap, hfront⟩ := trimFront_segment n.toNat hsegment
      obtain ⟨i2, j2, hback, hend⟩ := trimBack_segment n.toNat hfront (by simp)
      exact groupCodes_covers n.toNat hi hj hgap ⟨rfl, rfl⟩ hback hend
  · rintro rfl
    rw [getOpcodes_self] at hcodes
    obtain rfl := Option.some.inj hcodes
    by_cases ha : a = []
    · rw [if_pos ha, if_pos rfl]
      exact groupCodes_equal _ rfl
    · rw [if_neg ha, if_neg (List.cons_ne_nil _ _)]
      exact groupCodes_equal _ rfl

end

/-- Every line holds the number of lines met before it. -/
def Numbered (ids : InsertionDict Text UInt32) : Prop :=
  ∀ t line id, ids.entries[t]? = some (line,id) → id = UInt32.ofNat t

/-- The id of a line that was met. -/
def idOf (ids : InsertionDict Text UInt32) (line : Text) : UInt32 := (ids.find? line).getD 0

/-- What interning keeps: earlier lines keep their ids, and only the lines given are added. -/
structure Interned (ids ids' : InsertionDict Text UInt32) (lines : List Text) : Prop where
  numbered : Numbered ids'
  old : ∀ e ∈ ids.entries, e ∈ ids'.entries
  met : ∀ line ∈ lines, line ∈ ids'.keys
  new : ∀ line ∈ ids'.keys, line ∈ ids.keys ∨ line ∈ lines

theorem idOf_of_old {ids ids' : InsertionDict Text UInt32} {line : Text}
    (hold : ∀ e ∈ ids.entries, e ∈ ids'.entries) (hline : line ∈ ids.keys) :
    idOf ids' line = idOf ids line := by
  obtain ⟨id, hid⟩ := Option.isSome_iff_exists.mp ((ids.mem_keys_iff line).mp hline)
  have hid' := (ids'.mem_entries_iff line id).mp (hold _ ((ids.mem_entries_iff line id).mpr hid))
  rw [idOf, idOf, hid, hid']

theorem Interned.idOf_eq {ids ids' : InsertionDict Text UInt32} {lines : List Text} {line : Text}
    (h : Interned ids ids' lines) (hline : line ∈ ids.keys) : idOf ids' line = idOf ids line :=
  idOf_of_old h.old hline

theorem intern_spec {ids : InsertionDict Text UInt32} (h : Numbered ids) (line : Text) :
    Interned ids (intern ids line).1 [line] ∧
      (intern ids line).2 = idOf (intern ids line).1 line := by
  unfold intern
  cases hf : ids.find? line with
  | some id =>
    refine ⟨⟨h, fun _ he => he, ?_, fun _ hk => Or.inl hk⟩, by simp [idOf, hf]⟩
    intro k hk
    rw [List.mem_singleton.mp hk, ids.mem_keys_iff, hf]
    rfl
  | none =>
    have hentries := ids.entries_put_of_new line (UInt32.ofNat ids.entries.length) hf
    refine ⟨⟨?_, ?_, ?_, ?_⟩, by simp [idOf]⟩
    · intro t k id ht
      rw [hentries] at ht
      rcases Nat.lt_trichotomy t ids.entries.length with hlt | rfl | hgt
      · rw [List.getElem?_append_left hlt] at ht
        exact h t k id ht
      · rw [List.getElem?_concat_length] at ht
        exact (congrArg Prod.snd (Option.some.inj ht)).symm
      · rw [List.getElem?_eq_none (by simp; omega)] at ht
        simp at ht
    · intro e he
      rw [hentries]
      exact List.mem_append_left _ he
    · intro k hk
      rw [List.mem_singleton.mp hk, InsertionDict.mem_keys_iff, InsertionDict.find?_put_self]
      rfl
    · intro k hk
      rw [InsertionDict.keys, hentries, List.map_append, List.mem_append] at hk
      rcases hk with hk | hk
      · exact Or.inl hk
      · exact Or.inr hk

theorem internAll_spec {ids : InsertionDict Text UInt32} (h : Numbered ids) (lines : List Text) :
    Interned ids (internAll ids lines).1 lines ∧
      (internAll ids lines).2 = lines.map (idOf (internAll ids lines).1) := by
  induction lines generalizing ids with
  | nil => exact ⟨⟨h, fun _ he => he, by simp, fun _ hk => Or.inl hk⟩, rfl⟩
  | cons line lines ih =>
    obtain ⟨hfirst, hid⟩ := intern_spec h line
    obtain ⟨hrest, hids⟩ := ih hfirst.numbered
    have hline := hfirst.met line (List.mem_singleton_self line)
    have hkeep : ∀ k ∈ (intern ids line).1.keys, k ∈ (internAll (intern ids line).1 lines).1.keys := by
      intro k hk
      obtain ⟨e, he, rfl⟩ := List.mem_map.mp hk
      exact List.mem_map_of_mem (hrest.old e he)
    constructor
    · refine ⟨hrest.numbered, fun e he => hrest.old e (hfirst.old e he), ?_, ?_⟩
      · intro k hk
        rcases List.mem_cons.mp hk with rfl | hk
        · exact hkeep k hline
        · exact hrest.met k hk
      · intro k hk
        rcases hrest.new k hk with hk | hk
        · rcases hfirst.new k hk with hk | hk
          · exact Or.inl hk
          · exact Or.inr (List.mem_cons.mpr (Or.inl (List.mem_singleton.mp hk)))
        · exact Or.inr (List.mem_cons_of_mem _ hk)
    · show (intern ids line).2 :: (internAll (intern ids line).1 lines).2 = _
      rw [hid, hids, List.map_cons, ← hrest.idOf_eq hline]
      rfl

/-- Where at most `2^32` lines were met, ids tell lines apart. -/
theorem idOf_inj {ids : InsertionDict Text UInt32} (h : Numbered ids)
    (hsize : ids.entries.length ≤ 2^32) {x y : Text} (hx : x ∈ ids.keys) (hy : y ∈ ids.keys)
    (he : idOf ids x = idOf ids y) : x = y := by
  have hplace : ∀ k ∈ ids.keys, ∃ t < 2^32, ids.entries[t]? = some (k, UInt32.ofNat t) ∧
      idOf ids k = UInt32.ofNat t := by
    intro k hk
    obtain ⟨⟨k', id⟩, hmem, rfl⟩ := List.mem_map.mp hk
    obtain ⟨t, ht⟩ := List.mem_iff_getElem?.mp hmem
    obtain rfl := h t k' id ht
    have hlt : t < ids.entries.length := (List.getElem?_eq_some_iff.mp ht).1
    refine ⟨t, by omega, ht, ?_⟩
    rw [idOf, (ids.mem_entries_iff k' _).mp hmem, Option.getD_some]
  obtain ⟨t, htlt, ht, hxt⟩ := hplace x hx
  obtain ⟨u, hult, hu, hyu⟩ := hplace y hy
  rw [hxt, hyu] at he
  have htu : t = u := by
    have hnat := congrArg UInt32.toNat he
    rwa [UInt32.toNat_ofNat_of_lt' htlt, UInt32.toNat_ofNat_of_lt' hult] at hnat
  subst htu
  rw [ht] at hu
  exact congrArg Prod.fst (Option.some.inj hu)

/-- Interning names the lines of two lists by ids that tell them apart. -/
theorem internAll_two (a b : List Text) (hids : (a ++ b).dedup.length ≤ 2^32) :
    ∃ f : Text → UInt32, (internAll InsertionDict.empty a).2 = a.map f ∧
      (internAll (internAll InsertionDict.empty a).1 b).2 = b.map f ∧
      ∀ x ∈ a ++ b, ∀ y ∈ a ++ b, f x = f y → x = y := by
  have hempty : Numbered InsertionDict.empty := by
    intro t line id ht
    simp [InsertionDict.empty] at ht
  obtain ⟨hA, hidsA⟩ := internAll_spec hempty a
  obtain ⟨hB, hidsB⟩ := internAll_spec hA.numbered b
  generalize (internAll InsertionDict.empty a).1 = dA at hA hidsA hB hidsB ⊢
  generalize (internAll dA b).1 = dB at hB hidsB
  have hsize : dB.entries.length ≤ 2^32 := by
    have hsub : dB.keys ⊆ (a ++ b).dedup := by
      intro k hk
      rw [List.mem_dedup, List.mem_append]
      rcases hB.new k hk with hk | hk
      · rcases hA.new k hk with hk | hk
        · simp [InsertionDict.empty, InsertionDict.keys] at hk
        · exact Or.inl hk
      · exact Or.inr hk
    have hle : dB.keys.length ≤ (a ++ b).dedup.length :=
      (List.subperm_of_subset dB.nodup hsub).length_le
    have hkeys : dB.keys.length = dB.entries.length := List.length_map _
    omega
  have hmet : ∀ x ∈ a ++ b, x ∈ dB.keys := by
    intro x hx
    rcases List.mem_append.mp hx with hx | hx
    · obtain ⟨e, he, rfl⟩ := List.mem_map.mp (hA.met x hx)
      exact List.mem_map_of_mem (hB.old e he)
    · exact hB.met x hx
  refine ⟨idOf dB, ?_, hidsB, ?_⟩
  · rw [hidsA]
    apply List.map_congr_left
    intro x hx
    exact (hB.idOf_eq (hA.met x hx)).symm
  · intro x hx y hy he
    exact idOf_inj hB.numbered hsize (hmet x hx) (hmet y hy) he

/-- How a range of a header is printed. -/
def renderRange (start length : Nat) : Text :=
  if length = 1 then decimal start else decimal start ++ text "," ++ decimal length

def renderRow : RowKind × Text → Text
  | (.context, line) => 32 :: line
  | (.removed, line) => 45 :: line
  | (.added, line) => 43 :: line

def renderHunk (lineTerm : Text) (h : Hunk Text) : List Text :=
  (text "@@ -" ++ renderRange h.start1 h.length1 ++ text " +" ++ renderRange h.start2 h.length2 ++
    text " @@" ++ lineTerm) :: h.body.map renderRow

/-- The rows of a unified diff. -/
def renderHunks (lineTerm : Text) (hunks : List (Hunk Text)) : List Text :=
  if hunks = [] then []
  else (text "--- " ++ lineTerm) :: (text "+++ " ++ lineTerm) ::
    hunks.flatMap (renderHunk lineTerm)

theorem formatRangeUnified_eq (i j : Nat) :
    formatRangeUnified i j = renderRange (rangeStart i j) (j-i) := by
  unfold formatRangeUnified renderRange rangeStart
  dsimp only
  by_cases h1 : j-i = 1
  · have h0 : ¬ j-i = 0 := by omega
    rw [if_pos h1, if_pos h1, if_neg h0]
  · rw [if_neg h1, if_neg h1]
    by_cases h0 : j-i = 0
    · rw [if_pos h0, if_pos h0, Nat.add_sub_cancel]
    · rw [if_neg h0, if_neg h0]

theorem map_rowsOf (kind : RowKind) (c : UInt8) (xs : List Text)
    (h : ∀ line, renderRow (kind,line) = c :: line) :
    (rowsOf kind xs).map renderRow = xs.map (prefixed c) := by
  rw [rowsOf, List.map_map]
  exact List.map_congr_left fun line _ => h line

theorem codeRows_eq (a b : List Text) (c : EditOp) :
    codeRows a b c = (opRows a b c).map renderRow := by
  have hcontext := map_rowsOf .context 32 (slice a c.i1 c.i2) fun _ => rfl
  have hremoved := map_rowsOf .removed 45 (slice a c.i1 c.i2) fun _ => rfl
  have hadded := map_rowsOf .added 43 (slice b c.j1 c.j2) fun _ => rfl
  unfold codeRows opRows
  cases htag : c.tag with
  | equal => simp [hcontext]
  | delete => simp [hremoved]
  | insert => simp [hadded]
  | replace => simp [hremoved, hadded]

theorem groupRows_eq (a b : List Text) (lineTerm : Text) (group : List EditOp) :
    groupRows a b lineTerm group = renderHunk lineTerm (hunkOf a b group) := by
  unfold groupRows renderHunk hunkOf
  simp only [formatRangeUnified_eq, List.map_flatMap, ← codeRows_eq]

/-- The rows that are printed are those of a patch, and there are none only where nothing
changed. -/
theorem unifiedDiff_isPatch (a b : List Text) (n : Int) (lineTerm : Text) (hn : 0 ≤ n)
    (ha : a.length < 2^32-1) (hb : b.length < 2^32-1) (hids : (a ++ b).dedup.length ≤ 2^32) :
    ∃ hunks, unifiedDiff a b n lineTerm = some (.ok (renderHunks lineTerm hunks)) ∧
      IsPatch a b hunks ∧ (renderHunks lineTerm hunks = [] ↔ a = b) := by
  obtain ⟨f, hfa, hfb, hinj⟩ := internAll_two a b hids
  have hinj' : ∀ x ∈ a, ∀ y ∈ b, f x = f y → x = y := fun x hx y hy =>
    hinj x (List.mem_append_left _ hx) y (List.mem_append_right _ hy)
  obtain ⟨groups, hgroups, hcovers, hsame⟩ := getGroupedOpcodes_covers (a.map f) (b.map f) n hn
  have hcovers' := hcovers.of_map hinj'
  refine ⟨groups.map (hunkOf a b), ?_, hcovers'.isPatch, ?_⟩
  · have hlength : ¬ (2^32-1 ≤ (a.map f).length ∨ 2^32-1 ≤ (b.map f).length) := by
      rw [List.length_map, List.length_map]
      omega
    have hrows : groups.flatMap (groupRows a b lineTerm) =
        (groups.map (hunkOf a b)).flatMap (renderHunk lineTerm) := by
      rw [List.flatMap_map]
      exact List.flatMap_congr fun group _ => groupRows_eq a b lineTerm group
    simp only [unifiedDiff, hfa, hfb, if_neg hlength, hgroups, Option.map_some, Except.map,
      renderHunks, hrows, List.map_eq_nil_iff]
  · rw [renderHunks, ite_eq_left_iff]
    constructor
    · intro hnil
      have hempty : groups.map (hunkOf a b) = [] := by
        by_contra hne
        exact List.cons_ne_nil _ _ (hnil hne)
      rw [List.map_eq_nil_iff.mp hempty] at hcovers'
      exact hcovers'.eq_of_nil
    · intro he hne
      rw [hsame (by rw [he])] at hne
      exact absurd rfl hne

/-- One more line on each side of a common one, without context. -/
theorem unifiedDiff_isPatch_sample : ∃ hunks,
    unifiedDiff [text "a", text "b"] [text "b", text "c"] 0 [] = some (.ok (renderHunks [] hunks)) ∧
      IsPatch [text "a", text "b"] [text "b", text "c"] hunks ∧
      (renderHunks [] hunks = [] ↔ [text "a", text "b"] = [text "b", text "c"]) :=
  unifiedDiff_isPatch [text "a", text "b"] [text "b", text "c"] 0 [] (by decide) (by decide)
    (by decide) (by decide)

/-- A list of `2^32-1` lines is refused. -/
theorem unifiedDiff_too_long : unifiedDiff (List.replicate (2^32-1) []) [] 3 [] =
    some (.error (.lengthError (text "SequenceMatcher: sequence too long"))) := by
  have hempty : Numbered InsertionDict.empty := by
    intro t line id ht
    simp [InsertionDict.empty] at ht
  have hids := (internAll_spec hempty (List.replicate (2^32-1) [])).2
  have hlength : 2^32-1 ≤ (internAll InsertionDict.empty (List.replicate (2^32-1) [])).2.length := by
    rw [hids, List.length_map, List.length_replicate]
  rw [unifiedDiff, if_pos (Or.inl hlength)]

end DSigMatcher.Diff
