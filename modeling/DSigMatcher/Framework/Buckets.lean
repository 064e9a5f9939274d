import Mathlib

namespace DSigMatcher.Framework.Buckets

variable {α : Type*}

/-- How often each key below `n` occurs. -/
def counts (n : Nat) (keys : List Nat) : List Nat :=
  keys.foldl (fun counts key => counts.modify key (· + 1)) (List.replicate n 0)

/-- Where each bucket starts: the sum of the sizes before it, from `running` on. -/
def firsts : Nat → List Nat → List Nat
  | _, [] => []
  | running, size::sizes => running::firsts (running+size) sizes

/-- An entry is written at its key's cursor, which moves on. -/
def place (placed : List α × List Nat) (entry : Nat × α) : List α × List Nat :=
  match placed.2[entry.1]? with
  | none => placed
  | some cursor => (placed.1.set cursor entry.2,placed.2.set entry.1 (cursor+1))

/-- The number of entries of a key. -/
def size (entries : List (Nat × α)) (key : Nat) : Nat := entries.countP (·.1 == key)

/-- The number of entries below a key. -/
def below (entries : List (Nat × α)) (key : Nat) : Nat := ((List.range key).map (size entries)).sum

/-- The values of a key, in order. -/
def bucket (entries : List (Nat × α)) (key : Nat) : List α :=
  (entries.filter (·.1 == key)).map Prod.snd

theorem bucket_length (entries : List (Nat × α)) (key : Nat) :
    (bucket entries key).length = size entries key := by
  rw [bucket, List.length_map, size, List.countP_eq_length_filter]

theorem size_append (p q : List (Nat × α)) (key : Nat) :
    size (p ++ q) key = size p key+size q key := List.countP_append

theorem below_succ (entries : List (Nat × α)) (key : Nat) :
    below entries (key+1) = below entries key+size entries key := by
  rw [below, List.range_succ, List.map_append, List.sum_append]
  rfl

theorem countP_lt_succ (entries : List (Nat × α)) (key : Nat) :
    entries.countP (fun e => e.1 < key+1) =
      entries.countP (fun e => e.1 < key)+size entries key := by
  induction entries with
  | nil => rfl
  | cons e entries ih =>
    rw [size] at ih ⊢
    simp only [List.countP_cons, ih, decide_eq_true_eq, beq_iff_eq]
    split_ifs <;> omega

theorem below_eq_countP (entries : List (Nat × α)) (key : Nat) :
    below entries key = entries.countP fun e => e.1 < key := by
  induction key with
  | zero => simp [below]
  | succ key ih => rw [below_succ, ih, countP_lt_succ]

/-- The buckets hold every entry. -/
theorem below_eq_length {n : Nat} {entries : List (Nat × α)} (h : ∀ e ∈ entries, e.1 < n) :
    below entries n = entries.length := by
  rw [below_eq_countP, List.countP_eq_length]
  exact fun e he => decide_eq_true (h e he)

/-- A bucket ends before the next one starts. -/
theorem below_add_size_le (entries : List (Nat × α)) {key key' : Nat} (h : key < key') :
    below entries key+size entries key ≤ below entries key' := by
  rw [← below_succ]
  induction key' with
  | zero => omega
  | succ key' ih =>
    rcases Nat.lt_or_eq_of_le (Nat.le_of_lt_succ h) with hlt | rfl
    · have hle := ih hlt
      rw [below_succ entries key']
      omega
    · exact Nat.le_refl _

theorem counts_getElem? (n : Nat) (entries : List (Nat × α)) {key : Nat} (h : key < n) :
    (counts n (entries.map Prod.fst))[key]? = some (size entries key) := by
  induction entries using List.reverseRecOn with
  | nil => simp [counts, size, h]
  | append_singleton entries e ih =>
    rw [counts] at ih
    rw [counts, List.map_append, List.foldl_append, List.map_singleton, List.foldl_cons,
      List.foldl_nil, List.getElem?_modify, ih, size_append, Option.map_eq_map, Option.map_some]
    by_cases hkey : e.1 = key
    · simp [size, hkey]
    · simp [size, hkey]

@[simp] theorem counts_length (n : Nat) (keys : List Nat) : (counts n keys).length = n := by
  induction keys using List.reverseRecOn with
  | nil => simp [counts]
  | append_singleton keys key ih =>
    rw [counts] at ih ⊢
    rw [List.foldl_append, List.foldl_cons, List.foldl_nil, List.length_modify, ih]

theorem counts_eq (n : Nat) (entries : List (Nat × α)) :
    counts n (entries.map Prod.fst) = (List.range n).map (size entries) := by
  refine List.ext_getElem? fun key => ?_
  by_cases hkey : key < n
  · rw [counts_getElem? n entries hkey, List.getElem?_map, List.getElem?_range hkey]
    rfl
  · rw [List.getElem?_eq_none (by rw [counts_length]; omega),
      List.getElem?_eq_none (by rw [List.length_map, List.length_range]; omega)]

theorem counts_sum (n : Nat) (entries : List (Nat × α)) :
    (counts n (entries.map Prod.fst)).sum = below entries n := by
  rw [counts_eq]
  rfl

theorem firsts_getElem? (running : Nat) (sizes : List Nat) {key : Nat} (h : key < sizes.length) :
    (firsts running sizes)[key]? = some (running+(sizes.take key).sum) := by
  induction sizes generalizing running key with
  | nil => cases h
  | cons size sizes ih =>
    cases key with
    | zero => rfl
    | succ key =>
      rw [firsts, List.getElem?_cons_succ, ih _ (Nat.lt_of_succ_lt_succ h), List.take_succ_cons,
        List.sum_cons, Nat.add_assoc]

theorem firsts_counts (n : Nat) (entries : List (Nat × α)) {key : Nat} (h : key < n) :
    (firsts 0 (counts n (entries.map Prod.fst)))[key]? = some (below entries key) := by
  rw [firsts_getElem? 0 _ (by rw [counts_length]; exact h), counts_eq, ← List.map_take,
    List.take_range, Nat.min_eq_left (Nat.le_of_lt h), Nat.zero_add]
  rfl

/-- The entries of `p` are placed, those of `entries` will be. -/
structure Placed (n : Nat) (entries p : List (Nat × α)) (placed : List α × List Nat) : Prop where
  length : placed.1.length = below entries n
  cursor : ∀ key < n, placed.2[key]? = some (below entries key+size p key)
  value : ∀ key < n, ∀ i < size p key,
    placed.1[below entries key+i]? = (bucket p key)[i]?

theorem Placed.step {n : Nat} {entries p q : List (Nat × α)} {e : Nat × α}
    {placed : List α × List Nat} (hsplit : entries = p ++ e::q) (he : e.1 < n)
    (h : Placed n entries p placed) : Placed n entries (p ++ [e]) (place placed e) := by
  have hsize (key : Nat) : size p key+size [e] key ≤ size entries key := by
    rw [hsplit, List.append_cons, size_append, size_append]
    exact Nat.le_add_right _ _
  have hone : size [e] e.1 = 1 := by simp [size]
  have hzero {key : Nat} (hkey : key ≠ e.1) : size [e] key = 0 := by simp [size, hkey.symm]
  have hat : below entries e.1+size p e.1 < below entries n := by
    have hends := below_add_size_le entries he
    have hle := hsize e.1
    omega
  rw [place, h.cursor e.1 he]
  refine ⟨?_, ?_, ?_⟩
  · rw [List.length_set]
    exact h.length
  · intro key hkey
    simp only
    rw [size_append]
    rcases eq_or_ne key e.1 with rfl | hne
    · have hlength := (List.getElem?_eq_some_iff.mp (h.cursor e.1 he)).1
      rw [List.getElem?_set_self hlength, hone, Nat.add_assoc]
    · rw [List.getElem?_set_ne hne.symm, h.cursor key hkey, hzero hne, Nat.add_zero]
  · intro key hkey i hi
    rw [size_append] at hi
    rcases eq_or_ne key e.1 with rfl | hne
    · have hbucket : bucket (p ++ [e]) e.1 = bucket p e.1 ++ [e.2] := by simp [bucket]
      rw [hone] at hi
      rw [hbucket]
      rcases Nat.lt_or_eq_of_le (Nat.le_of_lt_succ hi) with hlt | rfl
      · rw [List.getElem?_set_ne (by omega), h.value e.1 he i hlt,
          List.getElem?_append_left (by rw [bucket_length]; exact hlt)]
      · rw [List.getElem?_set_self (by rw [h.length]; exact hat),
          List.getElem?_append_right (by rw [bucket_length]), bucket_length, Nat.sub_self]
        rfl
    · have hbucket : bucket (p ++ [e]) key = bucket p key := by simp [bucket, hne.symm]
      rw [hzero hne, Nat.add_zero] at hi
      have hle := hsize key
      have hle' := hsize e.1
      rw [hone] at hle'
      have hapart : below entries e.1+size p e.1 ≠ below entries key+i := by
        rcases Nat.lt_or_gt_of_ne hne with hlt | hgt
        · have hends := below_add_size_le entries hlt
          omega
        · have hends := below_add_size_le entries hgt
          omega
      rw [hbucket, List.getElem?_set_ne hapart, h.value key hkey i hi]

/-- Entries placed at cursors that start where the buckets do fill the buckets in order. -/
theorem placed_bucket (n : Nat) (entries : List (Nat × α)) (hkeys : ∀ e ∈ entries, e.1 < n)
    (d : α) {key : Nat} (h : key < n) :
    ((entries.foldl place (List.replicate (below entries n) d,
        firsts 0 (counts n (entries.map Prod.fst)))).1.drop (below entries key)).take
      (size entries key) = bucket entries key := by
  have hplaced (p : List (Nat × α)) : ∀ q, entries = p ++ q → Placed n entries p
      (p.foldl place (List.replicate (below entries n) d,
        firsts 0 (counts n (entries.map Prod.fst)))) := by
    induction p using List.reverseRecOn with
    | nil =>
      intro q _
      refine ⟨List.length_replicate, fun key hkey => ?_, fun key _ i hi => absurd hi (Nat.not_lt_zero i)⟩
      rw [List.foldl_nil, firsts_counts n entries hkey]
      rfl
    | append_singleton p e ih =>
      intro q hsplit
      rw [List.append_assoc] at hsplit
      rw [List.foldl_append]
      exact (ih _ hsplit).step hsplit (hkeys e (by rw [hsplit]; simp))
  have hall := hplaced entries [] (List.append_nil _).symm
  refine List.ext_getElem? fun i => ?_
  rw [List.getElem?_take]
  split_ifs with hi
  · rw [List.getElem?_drop, hall.value key h i hi]
  · rw [List.getElem?_eq_none (by rw [bucket_length]; omega)]

/-- Elements grouped by their keys are the elements in another order. -/
theorem flatMap_filter_perm (key : α → Nat) (n : Nat) (l : List α) (h : ∀ a ∈ l, key a < n) :
    ((List.range n).flatMap fun i => l.filter fun a => key a = i).Perm l := by
  induction n generalizing l with
  | zero =>
    have hl : l = [] := List.eq_nil_iff_forall_not_mem.mpr fun a ha => absurd (h a ha) (Nat.not_lt_zero _)
    rw [hl]
    rfl
  | succ n ih =>
    have hlow : ∀ a ∈ l.filter (key · < n), key a < n := fun a ha =>
      of_decide_eq_true (List.mem_filter.mp ha).2
    have hgroups : (List.range n).flatMap (fun i => l.filter fun a => key a = i) =
        (List.range n).flatMap fun i => (l.filter (key · < n)).filter fun a => key a = i := by
      refine List.flatMap_congr fun i hi => ?_
      rw [List.filter_filter]
      refine List.filter_congr fun a _ => ?_
      have hin := List.mem_range.mp hi
      by_cases ha : key a = i
      · rw [ha, decide_eq_true hin, Bool.and_true]
      · rw [decide_eq_false ha, Bool.false_and]
    have hhigh : l.filter (fun a => key a = n) = l.filter fun a => !decide (key a < n) := by
      refine List.filter_congr fun a ha => ?_
      have hlt := h a ha
      rw [Bool.eq_iff_iff, decide_eq_true_iff, Bool.not_eq_true', decide_eq_false_iff_not]
      omega
    rw [List.range_succ, List.flatMap_append, List.flatMap_singleton, hgroups, hhigh]
    exact ((ih _ hlow).append_right _).trans (List.filter_append_perm _ l)

theorem flatMap_ite_singleton {β : Type*} (c : α → Bool) (f : α → β) (l : List α) :
    (l.flatMap fun a => if c a then [f a] else []) = (l.filter c).map f := by
  induction l with
  | nil => rfl
  | cons a l ih =>
    rw [List.flatMap_cons, ih]
    by_cases ha : c a
    · rw [if_pos ha, List.filter_cons_of_pos ha]
      rfl
    · rw [if_neg ha, List.filter_cons_of_neg ha]
      rfl

/-- The places that elements mark. -/
theorem foldl_mark (c : α → Bool) (key : α → Nat) (l : List α) (marks : List Bool) {i : Nat}
    (hi : i < marks.length) :
    (l.foldl (fun m a => if c a then m.set (key a) true else m) marks).getD i false = true ↔
      marks.getD i false = true ∨ ∃ a ∈ l, c a = true ∧ key a = i := by
  induction l generalizing marks with
  | nil =>
    rw [List.foldl_nil]
    refine (or_iff_left ?_).symm
    rintro ⟨a, ha, -⟩
    exact absurd ha List.not_mem_nil
  | cons a l ih =>
    rw [List.foldl_cons, List.exists_mem_cons_iff, ← or_assoc]
    by_cases ha : c a = true
    · rw [if_pos ha, ih _ (by rwa [List.length_set]), and_iff_right ha]
      refine or_congr_left ?_
      rw [List.getD_eq_getElem?_getD, List.getD_eq_getElem?_getD]
      by_cases hkey : key a = i
      · rw [hkey, List.getElem?_set_self hi]
        exact iff_of_true rfl (.inr rfl)
      · rw [List.getElem?_set_ne hkey, or_iff_left hkey]
    · rw [if_neg ha, ih _ hi]
      exact or_congr_left (or_iff_left fun hand => ha hand.1).symm

theorem length_foldl_mark (c : α → Bool) (key : α → Nat) (l : List α) (marks : List Bool) :
    (l.foldl (fun m a => if c a then m.set (key a) true else m) marks).length = marks.length := by
  induction l generalizing marks with
  | nil => rfl
  | cons a l ih =>
    rw [List.foldl_cons, ih]
    split_ifs
    · exact List.length_set
    · rfl

/-- The number of marks. -/
theorem countP_id_eq (marks : List Bool) :
    marks.countP id = ((Finset.range marks.length).filter fun i => marks.getD i false = true).card := by
  induction marks using List.reverseRecOn with
  | nil => rfl
  | append_singleton marks b ih =>
    have hold : ((Finset.range marks.length).filter fun i => (marks ++ [b]).getD i false = true) =
        (Finset.range marks.length).filter fun i => marks.getD i false = true := by
      refine Finset.filter_congr fun i hi => ?_
      rw [List.getD_eq_getElem?_getD, List.getElem?_append_left (Finset.mem_range.mp hi),
        ← List.getD_eq_getElem?_getD]
    have hlast : (marks ++ [b]).getD marks.length false = b := by
      rw [List.getD_eq_getElem?_getD, List.getElem?_concat_length]
      rfl
    rw [List.countP_append, List.countP_singleton, List.length_append, List.length_singleton,
      Finset.range_add_one, Finset.filter_insert, hlast, hold, ih]
    cases b with
    | false => rfl
    | true =>
      rw [if_pos rfl, Finset.card_insert_of_notMem]
      · rfl
      · rw [Finset.mem_filter, Finset.mem_range]
        exact fun hand => lt_irrefl _ hand.1

end DSigMatcher.Framework.Buckets
