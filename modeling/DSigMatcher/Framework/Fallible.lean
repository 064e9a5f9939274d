import Mathlib.Logic.Basic

namespace DSigMatcher.Framework
variable {ε ε' α β : Type}

@[simp] theorem ok_bind (x : α) (f : α → Except ε β) : ((Except.ok x : Except ε α) >>= f) = f x := rfl

@[simp] theorem error_bind (e : ε) (f : α → Except ε β) :
    ((Except.error e : Except ε α) >>= f) = .error e := rfl

/-- What a sequence that succeeds went through. -/
theorem bind_eq_ok {x : Except ε α} {f : α → Except ε β} {r : β} :
    (x >>= f) = .ok r ↔ ∃ a, x = .ok a ∧ f a = .ok r := by
  cases x with
  | error e => simp
  | ok a => simp

/-- Two checks that fail alike do so in front of what follows them. -/
theorem mapError_bind_congr {kind : ε → ε'} {x y : Except ε Unit}
    (h : x.mapError kind = y.mapError kind) (rest : Except ε α) :
    (x >>= fun _ => rest).mapError kind = (y >>= fun _ => rest).mapError kind := by
  cases x with
  | error e =>
    cases y with
    | error e' => exact congrArg Except.error (Except.error.inj h)
    | ok u => cases h
  | ok u =>
    cases y with
    | error e' => cases h
    | ok u' => rfl

theorem mapM_ok {f : α → Except ε β} {g : α → β} {l : List α} (h : ∀ x ∈ l, f x = .ok (g x)) :
    l.mapM f = .ok (l.map g) := by
  induction l with
  | nil => rfl
  | cons x l ih =>
    rw [List.mapM_cons, h x List.mem_cons_self, ih fun y hy => h y (List.mem_cons_of_mem _ hy)]
    rfl

theorem forM_ok {f : α → Except ε Unit} {l : List α} (h : ∀ x ∈ l, f x = .ok ()) :
    l.forM f = .ok () := by
  rw [List.forM_eq_forM]
  induction l with
  | nil => rfl
  | cons x l ih =>
    rw [List.forM_cons, h x List.mem_cons_self, ok_bind]
    exact ih fun y hy => h y (List.mem_cons_of_mem _ hy)

end DSigMatcher.Framework
