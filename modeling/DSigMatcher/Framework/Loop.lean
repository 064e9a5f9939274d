import Mathlib.Data.Nat.Init

namespace DSigMatcher.Framework

variable {σ : Type*}

/-- Repeat `round` until it reports a stable state; at most `n` rounds. -/
def loop (round : σ → Option σ) : Nat → σ → Option σ
  | 0, _ => none
  | n+1, s =>
    match round s with
    | none => some s
    | some t => loop round n t

theorem loop_of_stable (round : σ → Option σ) (n : Nat) (s : σ) (hs : round s = none) :
    loop round (n+1) s = some s := by
  simp only [loop, hs]

theorem loop_of_round (round : σ → Option σ) (n : Nat) (s t : σ) (ht : round s = some t) :
    loop round (n+1) s = loop round n t := by
  simp only [loop, ht]

/-- A loop that ends does so in a state its round leaves alone. -/
theorem loop_stable (round : σ → Option σ) (n : Nat) (s r : σ) (h : loop round n s = some r) :
    round r = none := by
  induction n generalizing s with
  | zero => simp [loop] at h
  | succ n ih =>
    cases hs : round s with
    | none =>
      rw [loop_of_stable round n s hs] at h
      obtain rfl := Option.some.inj h
      exact hs
    | some t =>
      rw [loop_of_round round n s t hs] at h
      exact ih t h

/-- What every round keeps holds where the loop ends. -/
theorem loop_invariant (round : σ → Option σ) (P : σ → Prop)
    (hround : ∀ s t, round s = some t → P s → P t)
    (n : Nat) (s r : σ) (h : loop round n s = some r) (hs : P s) : P r := by
  induction n generalizing s with
  | zero => simp [loop] at h
  | succ n ih =>
    cases ht : round s with
    | none =>
      rw [loop_of_stable round n s ht] at h
      obtain rfl := Option.some.inj h
      exact hs
    | some t =>
      rw [loop_of_round round n s t ht] at h
      exact ih t h (hround s t ht hs)

/-- A measure that every continuing round lowers, where an invariant holds, bounds the number of
rounds. -/
theorem loop_terminates_of (round : σ → Option σ) (P : σ → Prop)
    (hround : ∀ s t, round s = some t → P s → P t) (μ : σ → Nat)
    (hdec : ∀ s t, P s → round s = some t → μ t < μ s) (n : Nat) (s : σ) (hs : P s)
    (hn : μ s < n) : ∃ r, loop round n s = some r := by
  induction n generalizing s with
  | zero => omega
  | succ n ih =>
    cases ht : round s with
    | none => exact ⟨s, loop_of_stable round n s ht⟩
    | some t =>
      have hlt := hdec s t hs ht
      rw [loop_of_round round n s t ht]
      exact ih t (hround s t ht hs) (by omega)

theorem loop_terminates (round : σ → Option σ) (μ : σ → Nat)
    (hdec : ∀ s t, round s = some t → μ t < μ s) (n : Nat) (s : σ) (hn : μ s < n) :
    ∃ r, loop round n s = some r :=
  loop_terminates_of round (fun _ => True) (fun _ _ _ h => h) μ (fun s t _ => hdec s t) n s trivial hn

/-- More fuel does not change a result. -/
theorem loop_mono (round : σ → Option σ) (m n : Nat) (s r : σ) (hmn : m ≤ n)
    (h : loop round m s = some r) : loop round n s = some r := by
  induction m generalizing n s with
  | zero => simp [loop] at h
  | succ m ih =>
    obtain ⟨n, rfl⟩ : ∃ k, n = k+1 := ⟨n-1, by omega⟩
    cases ht : round s with
    | none =>
      rw [loop_of_stable round m s ht] at h
      rw [loop_of_stable round n s ht, h]
    | some t =>
      rw [loop_of_round round m s t ht] at h
      rw [loop_of_round round n s t ht]
      exact ih n t (by omega) h

end DSigMatcher.Framework
