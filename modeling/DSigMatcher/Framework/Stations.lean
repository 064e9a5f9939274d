import Mathlib

namespace DSigMatcher.Framework

variable {σ κ : Type*}

/-- Named steps in their order, without those that are done. -/
def performUnless (done : κ → Bool) : List (κ × (σ → σ)) → σ → σ
  | [], s => s
  | x::xs, s => performUnless done xs (if done x.1 then s else x.2 s)

def performAll : List (κ × (σ → σ)) → σ → σ
  | [], s => s
  | x::xs, s => performAll xs (x.2 s)

/-- The states behind the single steps, each with the name of its step. -/
def stations : List (κ × (σ → σ)) → σ → List (κ × σ)
  | [], _ => []
  | x::xs, s => (x.1,x.2 s)::stations xs (x.2 s)

section
variable {done : κ → Bool} {xs : List (κ × (σ → σ))} {s : σ} {k : κ} {u : σ}

theorem performUnless_ahead (h : ∀ x ∈ xs, done x.1 = false) :
    performUnless done xs s = performAll xs s := by
  induction xs generalizing s with
  | nil => rfl
  | cons x xs ih =>
    rw [List.forall_mem_cons] at h
    simp only [performUnless, h.1, Bool.false_eq_true, if_false]
    exact ih h.2

theorem performUnless_behind (h : ∀ x ∈ xs, done x.1 = true) : performUnless done xs s = s := by
  induction xs with
  | nil => rfl
  | cons x xs ih =>
    rw [List.forall_mem_cons] at h
    simp only [performUnless, h.1, if_true]
    exact ih h.2

theorem performUnless_congr {done' : κ → Bool} (h : ∀ x ∈ xs, done x.1 = done' x.1) :
    performUnless done xs s = performUnless done' xs s := by
  induction xs generalizing s with
  | nil => rfl
  | cons x xs ih =>
    rw [List.forall_mem_cons] at h
    simp only [performUnless, h.1]
    exact ih h.2

theorem mem_names_of_station (h : (k,u) ∈ stations xs s) : ∃ x ∈ xs, x.1 = k := by
  induction xs generalizing s with
  | nil => cases h
  | cons x xs ih =>
    rcases List.mem_cons.mp h with h | h
    · exact ⟨x, List.mem_cons_self, (Prod.mk.inj h).1.symm⟩
    · obtain ⟨y, hy, hk⟩ := ih h
      exact ⟨y, List.mem_cons_of_mem x hy, hk⟩

/-- What every step keeps holds at every station. -/
theorem station_invariant {P : σ → Prop} (h : ∀ x ∈ xs, ∀ s, P s → P (x.2 s)) (hs : P s)
    (hu : (k,u) ∈ stations xs s) : P u := by
  induction xs generalizing s with
  | nil => cases hu
  | cons x xs ih =>
    rw [List.forall_mem_cons] at h
    rcases List.mem_cons.mp hu with hu | hu
    · rw [(Prod.mk.inj hu).2]
      exact h.1 s hs
    · exact ih h.2 (h.1 s hs) hu

theorem performUnless_invariant {P : σ → Prop} (h : ∀ x ∈ xs, ∀ s, P s → P (x.2 s)) (hs : P s) :
    P (performUnless done xs s) := by
  induction xs generalizing s with
  | nil => exact hs
  | cons x xs ih =>
    rw [List.forall_mem_cons] at h
    rw [performUnless]
    split_ifs
    · exact ih h.2 hs
    · exact ih h.2 (h.1 s hs)

theorem performAll_invariant {P : σ → Prop} (h : ∀ x ∈ xs, ∀ s, P s → P (x.2 s)) (hs : P s) :
    P (performAll xs s) := by
  have hall : performUnless (fun _ => false) xs s = performAll xs s :=
    performUnless_ahead fun _ _ => rfl
  rw [← hall]
  exact performUnless_invariant h hs

end

section
variable {R : σ → σ → Prop} {xs : List (κ × (σ → σ))} {s t u : σ}

/-- Steps that respect a relation do so together. -/
theorem performUnless_related (done : κ → Bool) (h : ∀ x ∈ xs, ∀ s t, R s t → R (x.2 s) (x.2 t))
    (hst : R s t) : R (performUnless done xs s) (performUnless done xs t) := by
  induction xs generalizing s t with
  | nil => exact hst
  | cons x xs ih =>
    rw [List.forall_mem_cons] at h
    rw [performUnless, performUnless]
    by_cases hdone : done x.1 = true
    · rw [if_pos hdone, if_pos hdone]
      exact ih h.2 hst
    · rw [if_neg hdone, if_neg hdone]
      exact ih h.2 (h.1 s t hst)

theorem performAll_related (h : ∀ x ∈ xs, ∀ s t, R s t → R (x.2 s) (x.2 t)) (hst : R s t) :
    R (performAll xs s) (performAll xs t) := by
  have hall (s : σ) : performUnless (fun _ => false) xs s = performAll xs s :=
    performUnless_ahead fun _ _ => rfl
  rw [← hall, ← hall]
  exact performUnless_related _ h hst

/-- Going on from a station, or from a state that is related to it, is related to going all the way. -/
theorem resume_at_station {α : Type*} [LinearOrder α] {rank : κ → α} {k : κ}
    (h : ∀ x ∈ xs, ∀ s t, R s t → R (x.2 s) (x.2 t))
    (hsorted : xs.Pairwise fun x y => rank x.1 < rank y.1) (hu : (k,u) ∈ stations xs s)
    (htu : R t u) : R (performUnless (fun j => rank j ≤ rank k) xs t) (performAll xs s) := by
  induction xs generalizing s with
  | nil => cases hu
  | cons x xs ih =>
    rw [List.forall_mem_cons] at h
    rw [List.pairwise_cons] at hsorted
    rcases List.mem_cons.mp hu with hu | hu
    · -- the first step is the one that is done; the others lie ahead
      obtain ⟨rfl, rfl⟩ := Prod.mk.inj hu
      have hahead : ∀ y ∈ xs, decide (rank y.1 ≤ rank x.1) = false := by
        intro y hy
        exact decide_eq_false (not_le_of_gt (hsorted.1 y hy))
      simp only [performUnless, le_refl, decide_true, if_true]
      rw [performUnless_ahead hahead]
      exact performAll_related h.2 htu
    · obtain ⟨y, hy, rfl⟩ := mem_names_of_station hu
      have hbehind : rank x.1 ≤ rank y.1 := le_of_lt (hsorted.1 y hy)
      simp only [performUnless, hbehind, decide_true, if_true]
      exact ih h.2 hsorted.2 hu

end

end DSigMatcher.Framework
