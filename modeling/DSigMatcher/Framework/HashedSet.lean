import Mathlib

namespace DSigMatcher.Framework

/-- Items in the order of their insertion, and the hash and the 32-bit place of each. -/
structure HashedSet {α : Type*} (hash : α → UInt64) where
  items : List α
  index : List (UInt64 × UInt32)
  linked : index = items.mapIdx fun i v => (hash v,UInt32.ofNat i)

namespace HashedSet
variable {α : Type*} {hash : α → UInt64} (same : α → α → Bool)

def empty : HashedSet hash := ⟨[], [], rfl⟩

/-- Whether one of the places under the hash of the value holds the same. -/
def contains (s : HashedSet hash) (v : α) : Bool :=
  (s.index.filter fun e => e.1 = hash v).any fun e => s.items[e.2.toNat]?.any (same · v)

/-- A new item goes to the end; whether the value is new. -/
def insert (s : HashedSet hash) (v : α) : HashedSet hash × Bool :=
  if s.contains same v then (s,false)
  else
    ({ items := s.items ++ [v]
       index := s.index ++ [(hash v,UInt32.ofNat s.items.length)]
       linked := by rw [List.mapIdx_concat, s.linked] },true)

def ofList (l : List α) : HashedSet hash := l.foldl (fun s v => (s.insert same v).1) empty

/-- One item for each class of the list, which is there to stay. -/
structure Represents (s : HashedSet hash) (l : List α) : Prop where
  listed : ∀ v ∈ s.items, v ∈ l
  one : ∀ v ∈ l, s.items.countP (same · v) = 1
  kept : ∀ v ∈ l, s.insert same v = (s,false)

/-- No more than so many values of the list differ from each other. -/
def AtMost (n : Nat) (l : List α) : Prop :=
  ∀ m : List α, (∀ v ∈ m, v ∈ l) → m.Pairwise (fun a b => same a b = false) → m.length ≤ n

section
variable {same} {s : HashedSet hash} {v : α}

theorem mem_index_iff (e : UInt64 × UInt32) :
    e ∈ s.index ↔ ∃ i w, s.items[i]? = some w ∧ e = (hash w,UInt32.ofNat i) := by
  rw [s.linked, List.mem_mapIdx]
  constructor
  · rintro ⟨i, hi, rfl⟩
    exact ⟨i, s.items[i], List.getElem?_eq_getElem hi, rfl⟩
  · rintro ⟨i, w, hw, rfl⟩
    obtain ⟨hi, rfl⟩ := List.getElem?_eq_some_iff.mp hw
    exact ⟨i, hi, rfl⟩

/-- Places wrap, so a value is found only among the first `2^32` items. -/
theorem contains_eq (hhash : ∀ a b, same a b = true → hash a = hash b) :
    s.contains same v = (s.items.take (2^32)).any (same · v) := by
  rw [Bool.eq_iff_iff, contains, List.any_eq_true, List.any_eq_true]
  constructor
  · rintro ⟨e, he, hat⟩
    obtain ⟨u, hu, hsame⟩ := (Option.any_eq_true _ _).mp hat
    refine ⟨u, ?_, hsame⟩
    apply List.mem_of_getElem? (i := e.2.toNat)
    rw [List.getElem?_take_of_lt e.2.toNat_lt]
    exact hu
  · rintro ⟨u, hu, hsame⟩
    obtain ⟨i, hi⟩ := List.mem_iff_getElem?.mp hu
    have hlt : i < 2^32 := by
      have hlength := (List.getElem?_eq_some_iff.mp hi).1
      rw [List.length_take] at hlength
      omega
    rw [List.getElem?_take_of_lt hlt] at hi
    refine ⟨(hash u,UInt32.ofNat i), ?_, ?_⟩
    · rw [List.mem_filter, mem_index_iff]
      exact ⟨⟨i, u, hi, rfl⟩, decide_eq_true (hhash u v hsame)⟩
    · rw [UInt32.toNat_ofNat_of_lt' hlt, hi]
      exact hsame

theorem items_insert : (s.insert same v).1.items =
    if s.contains same v then s.items else s.items ++ [v] := by
  rw [insert]
  split_ifs <;> rfl

theorem insert_eq_self_iff : s.insert same v = (s,false) ↔ s.contains same v = true := by
  rw [insert]
  split_ifs with h
  · exact iff_of_true rfl h
  · exact iff_of_false (fun heq => Bool.noConfusion (Prod.ext_iff.mp heq).2) h

theorem ofList_append (l : List α) (v : α) :
    (ofList same (l ++ [v]) : HashedSet hash) = ((ofList same l).insert same v).1 := by
  rw [ofList, List.foldl_append]
  rfl

end

section
variable {same} (hequiv : Equivalence fun a b => same a b = true)

/-- The class of a value. -/
def classOf (v : α) : Quotient (Setoid.mk _ hequiv) := Quotient.mk _ v

variable {hequiv}

theorem classOf_eq_iff {a b : α} : classOf hequiv a = classOf hequiv b ↔ same a b = true :=
  Quotient.eq

theorem classes_nodup_iff {l : List α} :
    (l.map (classOf hequiv)).Nodup ↔ l.Pairwise fun a b => same a b = false := by
  rw [List.Nodup, List.pairwise_map]
  apply List.Pairwise.iff
  intro a b
  rw [ne_eq, classOf_eq_iff, Bool.not_eq_true]

theorem mem_classes_iff {l : List α} {v : α} :
    classOf hequiv v ∈ l.map (classOf hequiv) ↔ l.any (same · v) = true := by
  rw [List.mem_map, List.any_eq_true]
  simp only [classOf_eq_iff]

theorem countP_eq_one {l : List α} {v : α} (hl : l.Pairwise fun a b => same a b = false)
    (hv : l.any (same · v) = true) (hequiv : Equivalence fun a b => same a b = true) :
    l.countP (same · v) = 1 := by
  classical
  have hcount : l.countP (same · v) = (l.map (classOf hequiv)).count (classOf hequiv v) := by
    rw [List.count, List.countP_map]
    apply List.countP_congr
    intro a _
    simp [classOf_eq_iff]
  rw [hcount]
  exact List.count_eq_one_of_mem (classes_nodup_iff.mpr hl) (mem_classes_iff.mpr hv)

/-- Lists that cover each other's classes compare in length as sets. -/
theorem length_le_of_covered {l m : List α} (hl : l.Pairwise fun a b => same a b = false)
    (hcover : ∀ v ∈ l, m.any (same · v) = true)
    (hequiv : Equivalence fun a b => same a b = true) : l.length ≤ m.length := by
  classical
  have hsub : l.map (classOf hequiv) ⊆ m.map (classOf hequiv) := by
    intro c hc
    obtain ⟨v, hv, rfl⟩ := List.mem_map.mp hc
    exact mem_classes_iff.mpr (hcover v hv)
  have hnodup : (l.map (classOf hequiv)).Nodup := classes_nodup_iff.mpr hl
  have hle := (hnodup.subperm hsub).length_le
  rwa [List.length_map, List.length_map] at hle

/-- How many classes two lists share does not depend on which of them is counted in. -/
theorem countP_common {l m : List α} (hl : l.Pairwise fun a b => same a b = false)
    (hm : m.Pairwise fun a b => same a b = false)
    (hequiv : Equivalence fun a b => same a b = true) :
    l.countP (fun v => m.any (same · v)) = m.countP (fun v => l.any (same · v)) := by
  classical
  have hcount (l m : List α) : l.countP (fun v => m.any (same · v)) =
      ((l.map (classOf hequiv)).filter (· ∈ m.map (classOf hequiv))).length := by
    rw [← List.countP_eq_length_filter, List.countP_map]
    apply List.countP_congr
    intro v _
    rw [Function.comp_apply, decide_eq_true_iff, mem_classes_iff]
  rw [hcount, hcount]
  apply List.Perm.length_eq
  rw [List.perm_ext_iff_of_nodup ((classes_nodup_iff.mpr hl).filter _)
    ((classes_nodup_iff.mpr hm).filter _)]
  intro c
  simp only [List.mem_filter, decide_eq_true_eq]
  exact and_comm

end

section
variable {same} {s : HashedSet hash} {l : List α} {v : α}

/-- The items are among the values of the list and differ from each other; each value has one. -/
structure Distinct (same : α → α → Bool) (s : HashedSet hash) (l : List α) : Prop where
  listed : ∀ v ∈ s.items, v ∈ l
  covered : ∀ v ∈ l, s.items.any (same · v) = true
  apart : s.items.Pairwise fun a b => same a b = false

theorem Distinct.empty : (empty : HashedSet hash).Distinct same [] :=
  ⟨fun _ h => h, fun _ h => absurd h List.not_mem_nil, .nil⟩

theorem contains_of_length (hhash : ∀ a b, same a b = true → hash a = hash b)
    (hlength : s.items.length ≤ 2^32) : s.contains same v = s.items.any (same · v) := by
  rw [contains_eq hhash, List.take_of_length_le hlength]

theorem Distinct.insert (hequiv : Equivalence fun a b => same a b = true)
    (hhash : ∀ a b, same a b = true → hash a = hash b) (h : s.Distinct same l)
    (hlength : s.items.length ≤ 2^32) : (s.insert same v).1.Distinct same (l ++ [v]) := by
  have hitems : (s.insert same v).1.items =
      if s.contains same v then s.items else s.items ++ [v] := items_insert
  rw [contains_of_length hhash hlength] at hitems
  cases hfound : s.items.any (same · v) with
  | true =>
    rw [hfound, if_pos rfl] at hitems
    refine ⟨?_, ?_, ?_⟩
    · intro w hw
      rw [hitems] at hw
      exact List.mem_append_left _ (h.listed w hw)
    · intro w hw
      rw [hitems]
      rcases List.mem_append.mp hw with hw | hw
      · exact h.covered w hw
      · rw [List.mem_singleton.mp hw]
        exact hfound
    · rw [hitems]
      exact h.apart
  | false =>
    rw [hfound, if_neg Bool.false_ne_true] at hitems
    refine ⟨?_, ?_, ?_⟩
    · intro w hw
      rw [hitems] at hw
      rcases List.mem_append.mp hw with hw | hw
      · exact List.mem_append_left _ (h.listed w hw)
      · exact List.mem_append_right _ hw
    · intro w hw
      rw [hitems, List.any_append, Bool.or_eq_true]
      rcases List.mem_append.mp hw with hw | hw
      · exact .inl (h.covered w hw)
      · refine .inr (List.any_eq_true.mpr ⟨v, List.mem_singleton_self v, ?_⟩)
        rw [List.mem_singleton.mp hw]
        exact hequiv.refl v
    · rw [hitems, List.pairwise_append]
      refine ⟨h.apart, List.pairwise_singleton _ _, ?_⟩
      intro a ha b hb
      rw [List.mem_singleton.mp hb]
      rw [List.any_eq_false] at hfound
      exact Bool.not_eq_true _ ▸ hfound a ha

theorem Distinct.length_le {n : Nat} (h : s.Distinct same l) (hmost : AtMost same n l) :
    s.items.length ≤ n := hmost _ h.listed h.apart

theorem AtMost.of_append {n : Nat} {m : List α} (h : AtMost same n (l ++ m)) : AtMost same n l :=
  fun k hk hapart => h k (fun v hv => List.mem_append_left _ (hk v hv)) hapart

theorem ofList_distinct (hequiv : Equivalence fun a b => same a b = true)
    (hhash : ∀ a b, same a b = true → hash a = hash b) (hmost : AtMost same (2^32) l) :
    (ofList same l : HashedSet hash).Distinct same l := by
  induction l using List.reverseRecOn with
  | nil => exact Distinct.empty
  | append_singleton l v ih =>
    have hold := ih hmost.of_append
    rw [ofList_append]
    exact hold.insert hequiv hhash (hold.length_le hmost.of_append)

/-- A set represents its list exactly when the places of the first items of all classes fit. -/
theorem ofList_represents_iff (hequiv : Equivalence fun a b => same a b = true)
    (hhash : ∀ a b, same a b = true → hash a = hash b) :
    (ofList same l : HashedSet hash).Represents same l ↔ AtMost same (2^32) l := by
  constructor
  · intro h m hm hapart
    have hcover : ∀ v ∈ m, ((ofList same l : HashedSet hash).items.take (2^32)).any
        (same · v) = true := by
      intro v hv
      rw [← contains_eq hhash]
      exact insert_eq_self_iff.mp (h.kept v (hm v hv))
    calc m.length ≤ _ := length_le_of_covered hapart hcover hequiv
      _ ≤ 2^32 := List.length_take_le _ _
  · intro hmost
    have h := ofList_distinct hequiv hhash hmost
    refine ⟨h.listed, fun v hv => countP_eq_one h.apart (h.covered v hv) hequiv, ?_⟩
    intro v hv
    rw [insert_eq_self_iff, contains_of_length hhash (h.length_le hmost)]
    exact h.covered v hv

/-- Values that differ from each other are all kept. -/
theorem items_ofList (hhash : ∀ a b, same a b = true → hash a = hash b)
    (hl : l.Pairwise fun a b => same a b = false) :
    (ofList same l : HashedSet hash).items = l := by
  induction l using List.reverseRecOn with
  | nil => rfl
  | append_singleton l v ih =>
    rw [List.pairwise_append] at hl
    have hnew : ¬ (ofList same l : HashedSet hash).contains same v = true := by
      rw [contains_eq hhash, ih hl.1, List.any_eq_true]
      rintro ⟨u, hu, hsame⟩
      rw [hl.2.2 u (List.mem_of_mem_take hu) v (List.mem_singleton_self v)] at hsame
      cases hsame
    rw [ofList_append, items_insert, if_neg hnew, ih hl.1]

/-- A value behind the first `2^32` is kept a second time. -/
theorem items_ofList_again {i : Nat} (hhash : ∀ a b, same a b = true → hash a = hash b)
    (hl : l.Pairwise fun a b => same a b = false) (hi : 2^32 ≤ i) (hv : l[i]? = some v) :
    (ofList same (l ++ [v]) : HashedSet hash).items = l ++ [v] := by
  have hnew : ¬ (ofList same l : HashedSet hash).contains same v = true := by
    rw [contains_eq hhash, items_ofList hhash hl, List.any_eq_true]
    rintro ⟨u, hu, hsame⟩
    obtain ⟨j, hj, rfl⟩ := List.mem_take_iff_getElem.mp hu
    obtain ⟨hi', rfl⟩ := List.getElem?_eq_some_iff.mp hv
    rw [List.pairwise_iff_getElem.mp hl j i (by omega) hi' (by omega)] at hsame
    cases hsame
  rw [ofList_append, items_insert, if_neg hnew, items_ofList hhash hl]

end

end HashedSet
end DSigMatcher.Framework
