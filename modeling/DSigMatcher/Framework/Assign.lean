import Mathlib.Data.List.Nodup

namespace DSigMatcher.Framework

variable {α : Type*}

/-- Indexed assignments in order; a later one to the same index wins. -/
def assignAll (l : List α) (ws : List (Nat × α)) : List α :=
  ws.foldl (fun l w => l.set w.1 w.2) l

@[simp] theorem assignAll_nil (l : List α) : assignAll l [] = l := rfl

@[simp] theorem assignAll_cons (l : List α) (w : Nat × α) (ws : List (Nat × α)) :
    assignAll l (w::ws) = assignAll (l.set w.1 w.2) ws := rfl

@[simp] theorem length_assignAll (l : List α) (ws : List (Nat × α)) :
    (assignAll l ws).length = l.length := by
  induction ws generalizing l with
  | nil => rfl
  | cons w ws ih => rw [assignAll_cons, ih, List.length_set]

/-- An index that is never assigned keeps its value. -/
theorem assignAll_frame (l : List α) (ws : List (Nat × α)) (i : Nat)
    (hi : i ∉ ws.map Prod.fst) : (assignAll l ws)[i]? = l[i]? := by
  induction ws generalizing l with
  | nil => rfl
  | cons w ws ih =>
    simp only [List.map_cons, List.mem_cons, not_or] at hi
    rw [assignAll_cons, ih _ hi.2, List.getElem?_set_ne (Ne.symm hi.1)]

/-- With distinct indices every assignment is found in the result. -/
theorem assignAll_hit (l : List α) (ws : List (Nat × α)) (hw : (ws.map Prod.fst).Nodup)
    (i : Nat) (v : α) (hi : i < l.length) (hv : (i,v) ∈ ws) :
    (assignAll l ws)[i]? = some v := by
  induction ws generalizing l with
  | nil => cases hv
  | cons w ws ih =>
    rw [List.map_cons, List.nodup_cons] at hw
    rw [assignAll_cons]
    rcases List.mem_cons.mp hv with rfl | hv
    · rw [assignAll_frame _ ws i hw.1, List.getElem?_set_self hi]
    · exact ih _ hw.2 (by rwa [List.length_set]) hv

/-- Rewriting the one element that passes a test is an assignment at its place. -/
theorem map_ite_eq_set (p : α → Bool) (f : α → α) (l : List α) (i : Nat) (a : α)
    (ha : l[i]? = some a) (hu : ∀ j b, l[j]? = some b → (p b = true ↔ j = i)) :
    l.map (fun x => if p x then f x else x) = l.set i (f a) := by
  refine List.ext_getElem? fun j => ?_
  rw [List.getElem?_map]
  by_cases hj : j = i
  · subst hj
    have hlt : j < l.length := (List.getElem?_eq_some_iff.mp ha).1
    rw [List.getElem?_set_self hlt, ha, Option.map_some, if_pos ((hu j a ha).mpr rfl)]
  · rw [List.getElem?_set_ne (Ne.symm hj)]
    cases hb : l[j]? with
    | none => rfl
    | some b => rw [Option.map_some, if_neg fun hp => hj ((hu j b hb).mp hp)]

theorem countP_eq_one (p : α → Bool) (l : List α) (i : Nat) (a : α) (ha : l[i]? = some a)
    (hu : ∀ j b, l[j]? = some b → (p b = true ↔ j = i)) : l.countP p = 1 := by
  induction l generalizing i with
  | nil => simp at ha
  | cons x l ih =>
    rw [List.countP_cons]
    cases i with
    | zero =>
      have hl : l.countP p = 0 := by
        rw [List.countP_eq_zero]
        intro b hb hp
        obtain ⟨j, hj⟩ := List.mem_iff_getElem?.mp hb
        exact Nat.succ_ne_zero j ((hu (j+1) b hj).mp hp)
      rw [hl, if_pos ((hu 0 x rfl).mpr rfl)]
    | succ i =>
      have hx : ¬ p x = true := fun hp => Nat.succ_ne_zero i ((hu 0 x rfl).mp hp).symm
      rw [if_neg hx, ih i ha]
      intro j b hb
      have h := hu (j+1) b hb
      rwa [Nat.succ_inj] at h

/-- Two places that satisfy a test are counted twice. -/
theorem one_lt_countP (p : α → Bool) (l : List α) (i j : Nat) (hij : i ≠ j)
    (a b : α) (ha : l[i]? = some a) (hb : l[j]? = some b) (hpa : p a = true)
    (hpb : p b = true) : 1 < l.countP p := by
  induction l generalizing i j with
  | nil => simp at ha
  | cons x l ih =>
    rw [List.countP_cons]
    have hpos (k : Nat) (c : α) (hc : l[k]? = some c) (hpc : p c = true) : 0 < l.countP p :=
      List.countP_pos_iff.mpr ⟨c, List.mem_of_getElem? hc, hpc⟩
    cases i with
    | zero =>
      obtain rfl := Option.some.inj ha
      cases j with
      | zero => exact absurd rfl hij
      | succ j =>
        have := hpos j b hb hpb
        rw [if_pos hpa]
        omega
    | succ i =>
      cases j with
      | zero =>
        obtain rfl := Option.some.inj hb
        have := hpos i a ha hpa
        rw [if_pos hpb]
        omega
      | succ j =>
        have := ih i j (by omega) ha hb
        omega

end DSigMatcher.Framework
