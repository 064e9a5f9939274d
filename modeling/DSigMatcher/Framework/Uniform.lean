import Mathlib

namespace DSigMatcher.Framework

/-- A computation over a state that may raise; what it did to the state before that stays. In related
states it does alike. -/
@[ext] structure Uniform {σ : Type} (R : σ → σ → Prop) (ε α : Type) where
  run : σ → Except ε α × σ
  alike : ∀ s t, R s t → (run s).1 = (run t).1 ∧ R (run s).2 (run t).2

namespace Uniform

variable {σ ε α β : Type} {R : σ → σ → Prop}

protected def pure (a : α) : Uniform R ε α := ⟨fun s => (.ok a,s), fun _ _ h => ⟨rfl, h⟩⟩

def raise (e : ε) : Uniform R ε α := ⟨fun s => (.error e,s), fun _ _ h => ⟨rfl, h⟩⟩

/-- What follows a result: nothing where it is an error. -/
def andThen (f : α → Uniform R ε β) : Except ε α × σ → Except ε β × σ
  | (.ok a,s) => (f a).run s
  | (.error e,s) => (.error e,s)

protected def bind (m : Uniform R ε α) (f : α → Uniform R ε β) : Uniform R ε β where
  run s := andThen f (m.run s)
  alike s t h := by
    have hrun := m.alike s t h
    revert hrun
    rcases m.run s with ⟨x, s'⟩
    rcases m.run t with ⟨y, t'⟩
    intro ⟨hresult, hstate⟩
    obtain rfl : x = y := hresult
    cases x with
    | error e => exact ⟨rfl, hstate⟩
    | ok a => exact (f a).alike s' t' hstate

instance : Monad (Uniform R ε) where
  pure := Uniform.pure
  bind := Uniform.bind

@[simp] theorem run_pure (a : α) (s : σ) : (pure a : Uniform R ε α).run s = (.ok a,s) := rfl

@[simp] theorem run_raise (e : ε) (s : σ) : (raise e : Uniform R ε α).run s = (.error e,s) := rfl

theorem run_bind (m : Uniform R ε α) (f : α → Uniform R ε β) (s : σ) :
    (m >>= f).run s = andThen f (m.run s) := rfl

/-- Two computations end well together where both do. -/
theorem run_bind_eq_ok {m : Uniform R ε α} {f : α → Uniform R ε β} {s u : σ} {b : β} :
    (m >>= f).run s = (.ok b,u) ↔ ∃ a t, m.run s = (.ok a,t) ∧ (f a).run t = (.ok b,u) := by
  rw [run_bind]
  rcases m.run s with ⟨x, t⟩
  cases x with
  | error e =>
    constructor
    · intro h
      cases h
    · intro ⟨a, t', h, _⟩
      cases h
  | ok a =>
    constructor
    · exact fun h => ⟨a, t, rfl, h⟩
    · intro ⟨a', t', h, hrun⟩
      cases h
      exact hrun

instance : LawfulMonad (Uniform R ε) := LawfulMonad.mk' (Uniform R ε)
  (by
    intro α m
    refine Uniform.ext (funext fun s => ?_)
    change (andThen (fun a => Uniform.pure (id a)) (m.run s)) = m.run s
    rcases m.run s with ⟨x, t⟩
    cases x <;> rfl)
  (by
    intro α β a f
    rfl)
  (by
    intro α β γ m f g
    refine Uniform.ext (funext fun s => ?_)
    change andThen g (andThen f (m.run s)) = andThen (fun a => f a >>= g) (m.run s)
    rcases m.run s with ⟨x, t⟩
    cases x <;> rfl)

def lift (x : Except ε α) : Uniform R ε α := ⟨fun s => (x,s), fun _ _ h => ⟨rfl, h⟩⟩

theorem run_lift_eq_ok {x : Except ε α} {s t : σ} {a : α} :
    (lift x : Uniform R ε α).run s = (.ok a,t) ↔ x = .ok a ∧ s = t := Prod.mk_inj

/-- What the state shows alike in related states. -/
def gets (get : σ → α) (hget : ∀ s t, R s t → get s = get t) : Uniform R ε α where
  run s := (.ok (get s),s)
  alike s t h := ⟨congrArg Except.ok (hget s t h), h⟩

theorem run_gets_eq_ok {get : σ → α} {hget : ∀ s t, R s t → get s = get t} {s t : σ} {a : α} :
    (gets get hget : Uniform R ε α).run s = (.ok a,t) ↔ get s = a ∧ s = t := by
  rw [gets, Prod.mk_inj, Except.ok.injEq]

def change (f : σ → σ) (hf : ∀ s t, R s t → R (f s) (f t)) : Uniform R ε Unit where
  run s := (.ok (),f s)
  alike s t h := ⟨rfl, hf s t h⟩

/-- Another state, or an error in this one. -/
def attempt (f : σ → Except ε σ)
    (hf : ∀ s t, R s t →
      (∃ s' t', f s = .ok s' ∧ f t = .ok t' ∧ R s' t') ∨ ∃ e, f s = .error e ∧ f t = .error e) :
    Uniform R ε Unit where
  run s :=
    match f s with
    | .ok s' => (.ok (),s')
    | .error e => (.error e,s)
  alike s t h := by
    rcases hf s t h with ⟨s', t', hs, ht, hst⟩ | ⟨e, hs, ht⟩
    · rw [hs, ht]
      exact ⟨rfl, hst⟩
    · rw [hs, ht]
      exact ⟨rfl, h⟩

/-- An error that is caught is handled; another goes on. -/
def catching (m : Uniform R ε α) (handle : ε → Option (Uniform R ε α)) : Uniform R ε α where
  run s :=
    match m.run s with
    | (.ok a,t) => (.ok a,t)
    | (.error e,t) =>
      match handle e with
      | some h => h.run t
      | none => (.error e,t)
  alike s t h := by
    have hrun := m.alike s t h
    revert hrun
    rcases m.run s with ⟨x, s'⟩
    rcases m.run t with ⟨y, t'⟩
    intro ⟨hresult, hstate⟩
    obtain rfl : x = y := hresult
    cases x with
    | ok a => exact ⟨rfl, hstate⟩
    | error e =>
      dsimp only
      cases handle e with
      | none => exact ⟨rfl, hstate⟩
      | some f => exact f.alike s' t' hstate

/-- From a state with `I` the computation leads to one with `I`, whether it raises or not, and what it
returns has `Q`. -/
def Keeps (m : Uniform R ε α) (I : σ → Prop) (Q : α → Prop) : Prop :=
  ∀ s, I s → I (m.run s).2 ∧ ∀ a, (m.run s).1 = .ok a → Q a

namespace Keeps

variable {m : Uniform R ε α} {I : σ → Prop} {Q Q' : α → Prop} {P : β → Prop}

theorem mono (hm : m.Keeps I Q) (h : ∀ a, Q a → Q' a) : m.Keeps I Q' :=
  fun s hs => ⟨(hm s hs).1, fun a ha => h a ((hm s hs).2 a ha)⟩

theorem pure {a : α} (ha : Q a) : (Pure.pure a : Uniform R ε α).Keeps I Q := by
  intro s hs
  refine ⟨hs, fun b hb => ?_⟩
  rw [run_pure] at hb
  exact Except.ok.inj hb ▸ ha

theorem raise (e : ε) : (Uniform.raise e : Uniform R ε α).Keeps I Q := by
  intro s hs
  refine ⟨hs, fun a ha => ?_⟩
  cases ha

theorem lift {x : Except ε α} (hx : ∀ a, x = .ok a → Q a) :
    (Uniform.lift x : Uniform R ε α).Keeps I Q :=
  fun _ hs => ⟨hs, hx⟩

theorem gets {get : σ → α} {hget : ∀ s t, R s t → get s = get t} (h : ∀ s, I s → Q (get s)) :
    (Uniform.gets (ε := ε) get hget).Keeps I Q := by
  intro s hs
  refine ⟨hs, fun a ha => ?_⟩
  exact Except.ok.inj ha ▸ h s hs

theorem change {f : σ → σ} {hf : ∀ s t, R s t → R (f s) (f t)} {Q : Unit → Prop}
    (h : ∀ s, I s → I (f s)) (hQ : Q ()) : (Uniform.change (ε := ε) f hf).Keeps I Q :=
  fun s hs => ⟨h s hs, fun _ _ => hQ⟩

theorem attempt {f : σ → Except ε σ} {hf} {Q : Unit → Prop}
    (h : ∀ s s', I s → f s = .ok s' → I s') (hQ : Q ()) :
    (Uniform.attempt (R := R) f hf).Keeps I Q := by
  intro s hs
  refine ⟨?_, fun _ _ => hQ⟩
  change I (match f s with
    | .ok s' => (Except.ok (),s')
    | .error e => (Except.error e,s)).2
  cases hfs : f s with
  | ok s' => exact h s s' hs hfs
  | error e => exact hs

theorem bind {f : α → Uniform R ε β} (hm : m.Keeps I Q) (hf : ∀ a, Q a → (f a).Keeps I P) :
    (m >>= f).Keeps I P := by
  intro s hs
  have hrun := hm s hs
  rw [run_bind]
  revert hrun
  rcases m.run s with ⟨x, t⟩
  intro ⟨hstate, hresult⟩
  cases x with
  | error e =>
    refine ⟨hstate, fun b hb => ?_⟩
    cases hb
  | ok a => exact hf a (hresult a rfl) t hstate

theorem catching {handle : ε → Option (Uniform R ε α)} (hm : m.Keeps I Q)
    (hhandle : ∀ e f, handle e = some f → f.Keeps I Q) : (m.catching handle).Keeps I Q := by
  intro s hs
  have hrun := hm s hs
  unfold Uniform.catching
  dsimp only
  revert hrun
  rcases m.run s with ⟨x, t⟩
  intro ⟨hstate, hresult⟩
  cases x with
  | ok a => exact ⟨hstate, hresult⟩
  | error e =>
    dsimp only
    cases he : handle e with
    | none => exact ⟨hstate, hresult⟩
    | some f => exact hhandle e f he t hstate

theorem ite {c : Prop} [Decidable c] {n : Uniform R ε α} (hm : c → m.Keeps I Q)
    (hn : ¬ c → n.Keeps I Q) : (if c then m else n).Keeps I Q := by
  split_ifs with hc
  · exact hm hc
  · exact hn hc

theorem forM {γ : Type} {l : List γ} {f : γ → Uniform R ε PUnit} {Q : PUnit → Prop}
    (hf : ∀ x ∈ l, (f x).Keeps I fun _ => True) (hQ : Q ⟨⟩) : (l.forM f).Keeps I Q := by
  rw [List.forM_eq_forM]
  induction l with
  | nil => exact Keeps.pure hQ
  | cons x l ih =>
    rw [List.forM_cons]
    exact (hf x List.mem_cons_self).bind fun _ _ => ih fun y hy => hf y (List.mem_cons_of_mem _ hy)

end Keeps

end Uniform

end DSigMatcher.Framework
