import Mathlib.Data.List.Nodup

namespace DSigMatcher.Framework

/-- Entries that are put back in their order are as they were, when a new key goes to the end. -/
theorem foldl_entries {σ α κ : Type*} {entries : σ → List α} {step : σ → α → σ} {key : α → κ}
    {R : κ → κ → Prop}
    (hstep : ∀ s x, (∀ y ∈ entries s, R (key y) (key x)) → entries (step s x) = entries s ++ [x])
    (xs : List α) (s : σ) (h : ((entries s ++ xs).map key).Pairwise R) :
    entries (xs.foldl step s) = entries s ++ xs := by
  induction xs generalizing s with
  | nil => rw [List.foldl_nil, List.append_nil]
  | cons x xs ih =>
    have hlast : entries (step s x) = entries s ++ [x] := by
      refine hstep s x fun y hy => ?_
      rw [List.map_append, List.pairwise_append] at h
      exact h.2.2 (key y) (List.mem_map_of_mem hy) (key x) List.mem_cons_self
    have hcons : entries s ++ x::xs = entries (step s x) ++ xs := by
      rw [hlast, List.append_assoc, List.singleton_append]
    rw [List.foldl_cons, hcons]
    exact ih (step s x) (hcons ▸ h)

/-- A dictionary that keeps the order in which its keys were first inserted. -/
@[ext] structure InsertionDict (κ ν : Type*) where
  entries : List (κ × ν)
  nodup : (entries.map Prod.fst).Nodup

namespace InsertionDict
variable {κ ν : Type*}

def empty : InsertionDict κ ν := ⟨[], List.nodup_nil⟩

def keys (d : InsertionDict κ ν) : List κ := d.entries.map Prod.fst

variable [DecidableEq κ]

instance [DecidableEq ν] : DecidableEq (InsertionDict κ ν) := fun a b =>
  decidable_of_iff (a.entries = b.entries) InsertionDict.ext_iff.symm

def find? (d : InsertionDict κ ν) (k : κ) : Option ν :=
  (d.entries.find? fun e => e.1 = k).map Prod.snd

/-- Re-assigning a key keeps its place; a new key goes to the end. -/
def putEntries (k : κ) (v : ν) : List (κ × ν) → List (κ × ν)
  | [] => [(k,v)]
  | e::es => if e.1 = k then (k,v)::es else e::putEntries k v es

theorem keys_putEntries (k : κ) (v : ν) (es : List (κ × ν)) :
    (putEntries k v es).map Prod.fst =
      if k ∈ es.map Prod.fst then es.map Prod.fst else es.map Prod.fst ++ [k] := by
  induction es with
  | nil => simp [putEntries]
  | cons e es ih =>
    unfold putEntries
    by_cases he : e.1 = k
    · rw [if_pos he, if_pos (by simp [he])]
      simp [he]
    · rw [if_neg he, List.map_cons, ih, List.map_cons]
      by_cases hk : k ∈ es.map Prod.fst
      · rw [if_pos hk, if_pos (List.mem_cons_of_mem _ hk)]
      · rw [if_neg hk, if_neg]
        · rfl
        · rw [List.mem_cons, not_or]
          exact ⟨Ne.symm he, hk⟩

theorem putEntries_new {k : κ} (v : ν) {es : List (κ × ν)} (h : ∀ e ∈ es, e.1 ≠ k) :
    putEntries k v es = es ++ [(k,v)] := by
  induction es with
  | nil => rfl
  | cons e es ih =>
    rw [List.forall_mem_cons] at h
    rw [putEntries, if_neg h.1, ih h.2, List.cons_append]

def put (d : InsertionDict κ ν) (k : κ) (v : ν) : InsertionDict κ ν where
  entries := putEntries k v d.entries
  nodup := by
    rw [keys_putEntries]
    split_ifs with hk
    · exact d.nodup
    · rw [List.nodup_append]
      refine ⟨d.nodup, List.nodup_singleton k, ?_⟩
      intro a ha b hb hab
      rw [List.mem_singleton] at hb
      exact hk (hb ▸ hab ▸ ha)

/-- `try_emplace`: an existing key keeps its value. -/
def putNew (d : InsertionDict κ ν) (k : κ) (v : ν) : InsertionDict κ ν :=
  if (d.find? k).isSome then d else d.put k v

private theorem find?_putEntries (k j : κ) (v : ν) (es : List (κ × ν)) :
    ((putEntries k v es).find? fun e => e.1 = j) =
      if j = k then some (k,v) else es.find? fun e => e.1 = j := by
  induction es with
  | nil =>
    by_cases hj : j = k
    · simp [putEntries, hj]
    · simp [putEntries, hj, Ne.symm hj]
  | cons e es ih =>
    unfold putEntries
    by_cases he : e.1 = k
    · rw [if_pos he]
      by_cases hj : j = k
      · simp [hj]
      · have hkj : ¬ k = j := fun h => hj h.symm
        simp [hj, hkj, he]
    · rw [if_neg he, List.find?_cons, ih, List.find?_cons]
      by_cases hj : j = k
      · simp [hj, he]
      · simp [hj]

@[simp] theorem find?_empty (k : κ) : (empty : InsertionDict κ ν).find? k = none := rfl

theorem find?_put (d : InsertionDict κ ν) (k j : κ) (v : ν) :
    (d.put k v).find? j = if j = k then some v else d.find? j := by
  unfold find? put
  rw [find?_putEntries]
  split_ifs <;> rfl

@[simp] theorem find?_put_self (d : InsertionDict κ ν) (k : κ) (v : ν) :
    (d.put k v).find? k = some v := by
  rw [find?_put, if_pos rfl]

theorem find?_put_ne (d : InsertionDict κ ν) (k j : κ) (v : ν) (h : j ≠ k) :
    (d.put k v).find? j = d.find? j := by
  rw [find?_put, if_neg h]

theorem find?_putNew (d : InsertionDict κ ν) (k j : κ) (v : ν) :
    (d.putNew k v).find? j = if j = k then some ((d.find? k).getD v) else d.find? j := by
  unfold putNew
  cases hk : d.find? k with
  | none =>
    rw [Option.isSome_none, if_neg Bool.false_ne_true, find?_put, Option.getD_none]
  | some w =>
    rw [Option.isSome_some, if_pos rfl, Option.getD_some]
    split_ifs with hj
    · rw [hj, hk]
    · rfl

/-- The entries are exactly what lookup finds. -/
theorem mem_entries_iff (d : InsertionDict κ ν) (k : κ) (v : ν) :
    (k,v) ∈ d.entries ↔ d.find? k = some v := by
  obtain ⟨es, hes⟩ := d
  change (k,v) ∈ es ↔ (es.find? fun e => e.1 = k).map Prod.snd = some v
  induction es with
  | nil => simp
  | cons e es ih =>
    rw [List.map_cons, List.nodup_cons] at hes
    rw [List.mem_cons, List.find?_cons]
    by_cases he : e.1 = k
    · have hk : ∀ w, (k,w) ∉ es := fun w hw => hes.1 (he ▸ List.mem_map_of_mem hw)
      simp only [he, decide_true, Option.map_some, Option.some.injEq, hk v, or_false]
      exact ⟨fun h => h ▸ rfl, fun h => Prod.ext he.symm h.symm⟩
    · have hne : ¬ (k,v) = e := fun h => he (h ▸ rfl)
      simp only [he, decide_false, hne, false_or]
      exact ih hes.2

/-- A new key goes to the end. -/
theorem entries_put_of_new (d : InsertionDict κ ν) (k : κ) (v : ν) (h : d.find? k = none) :
    (d.put k v).entries = d.entries ++ [(k,v)] := by
  obtain ⟨es, hes⟩ := d
  change (es.find? fun e => e.1 = k).map Prod.snd = none at h
  show putEntries k v es = es ++ [(k,v)]
  induction es with
  | nil => rfl
  | cons e es ih =>
    rw [List.map_cons, List.nodup_cons] at hes
    have hk : ¬ e.1 = k := fun he => by simp [he] at h
    rw [List.find?_cons_of_neg (by simpa using hk)] at h
    rw [putEntries, if_neg hk, ih hes.2 h, List.cons_append]

theorem mem_keys_iff (d : InsertionDict κ ν) (k : κ) : k ∈ d.keys ↔ (d.find? k).isSome := by
  rw [keys, List.mem_map]
  constructor
  · rintro ⟨e, he, rfl⟩
    rw [(d.mem_entries_iff e.1 e.2).mp he]
    rfl
  · intro h
    obtain ⟨v, hv⟩ := Option.isSome_iff_exists.mp h
    exact ⟨(k,v), (d.mem_entries_iff k v).mpr hv, rfl⟩

theorem mem_keys_put (d : InsertionDict κ ν) (k j : κ) (v : ν) :
    j ∈ (d.put k v).keys ↔ j = k ∨ j ∈ d.keys := by
  rw [mem_keys_iff, mem_keys_iff, find?_put]
  by_cases hj : j = k
  · simp [hj]
  · simp [hj]

/-- Re-assigning a key leaves the order as it is. -/
theorem keys_put_of_mem (d : InsertionDict κ ν) (k : κ) (v : ν) (h : k ∈ d.keys) :
    (d.put k v).keys = d.keys := by
  have hmem : k ∈ d.entries.map Prod.fst := h
  exact (keys_putEntries k v d.entries).trans (if_pos hmem)

end InsertionDict

end DSigMatcher.Framework
