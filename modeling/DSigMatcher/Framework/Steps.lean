import Mathlib.Data.Option.Basic

namespace DSigMatcher.Framework

variable {σ ε : Type*} (step : σ → ε → Option σ)

/-- Take the events one after the other; an event that is not possible ends it. -/
def exec : σ → List ε → Option σ
  | s, [] => some s
  | s, e::es =>
    match step s e with
    | none => none
    | some t => exec t es

/-- A condition on every event of a run and the state it meets. -/
def Along (P : σ → ε → Prop) : σ → List ε → Prop
  | _, [] => True
  | s, e::es => P s e ∧ ∀ t, step s e = some t → Along P t es

variable {step}

theorem Along.cons {P : σ → ε → Prop} {s t : σ} {e : ε} {es : List ε} (he : P s e)
    (ht : step s e = some t) (h : Along step P t es) : Along step P s (e::es) := by
  refine ⟨he, ?_⟩
  intro u hu
  obtain rfl := Option.some.inj (ht.symm.trans hu)
  exact h

/-- What every event keeps, where its condition holds, holds wherever a run ends. -/
theorem exec_invariant {P : σ → ε → Prop} {I : σ → Prop}
    (hstep : ∀ s e t, P s e → I s → step s e = some t → I t) {s t : σ} {es : List ε}
    (hP : Along step P s es) (hs : I s) (ht : exec step s es = some t) : I t := by
  induction es generalizing s with
  | nil =>
    obtain rfl := Option.some.inj ht
    exact hs
  | cons e es ih =>
    obtain ⟨he, hrest⟩ := hP
    rw [exec] at ht
    cases hu : step s e with
    | none => simp [hu] at ht
    | some u =>
      rw [hu] at ht
      apply ih (hrest u hu) _ ht
      exact hstep s e u he hs hu

end DSigMatcher.Framework
