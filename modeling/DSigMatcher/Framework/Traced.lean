import Mathlib.Data.List.Basic

namespace DSigMatcher.Framework

universe u

/-- What a computation did on its way, and what came of it. -/
structure Traced (ε κ : Type*) (α : Type u) where
  events : List ε
  result : Except κ α

namespace Traced
variable {ε κ : Type*} {α β : Type u}

def fail (k : κ) : Traced ε κ α := ⟨[], .error k⟩

def note (e : ε) (a : α) : Traced ε κ α := ⟨[e], .ok a⟩

/-- One computation after the other; an error ends them. -/
def andThen (m : Traced ε κ α) (f : α → Traced ε κ β) : Traced ε κ β :=
  match m.result with
  | .ok a => ⟨m.events ++ (f a).events, (f a).result⟩
  | .error k => ⟨m.events, .error k⟩

instance : Monad (Traced ε κ) where
  pure a := ⟨[], .ok a⟩
  bind := andThen

/-- The results for the elements of a list, in order. -/
def collect (f : α → Traced ε κ β) : List α → Traced ε κ (List β)
  | [] => pure []
  | a::as => do
    let b ← f a
    let bs ← collect f as
    pure (b::bs)

/-- A state that is passed on from element to element. -/
def thread (f : β → α → Traced ε κ β) (b : β) : List α → Traced ε κ β
  | [] => pure b
  | a::as => do thread f (← f b a) as

theorem result_bind (m : Traced ε κ α) (f : α → Traced ε κ β) :
    (m >>= f).result = m.result.bind fun a => (f a).result := by
  show (andThen m f).result = _
  rw [andThen]
  cases m.result <;> rfl

theorem bind_ok_iff {m : Traced ε κ α} {f : α → Traced ε κ β} {b : β} :
    (m >>= f).result = .ok b ↔ ∃ a, m.result = .ok a ∧ (f a).result = .ok b := by
  rw [result_bind]
  cases m.result with
  | error k =>
    refine iff_of_false (fun h => ?_) ?_
    · cases h
    · rintro ⟨a, h, -⟩
      cases h
  | ok a =>
    constructor
    · intro h
      exact ⟨a, rfl, h⟩
    · rintro ⟨a', h, hb⟩
      cases h
      exact hb

/-- All events are good, and where a value comes of it, it is as asked for. -/
structure Runs (good : ε → Prop) (m : Traced ε κ α) (Q : α → Prop) : Prop where
  events : ∀ e ∈ m.events, good e
  result : ∀ a, m.result = .ok a → Q a

section
variable {good : ε → Prop} {m : Traced ε κ α} {f : α → Traced ε κ β} {P : α → Prop} {Q : β → Prop}

theorem Runs.pure {a : α} (h : P a) : Runs good (Pure.pure a : Traced ε κ α) P := by
  refine ⟨fun _ he => absurd he List.not_mem_nil, ?_⟩
  rintro _ ⟨⟩
  exact h

theorem Runs.fail {k : κ} : Runs good (Traced.fail k : Traced ε κ α) P := by
  refine ⟨fun _ he => absurd he List.not_mem_nil, ?_⟩
  intro a h
  cases h

theorem Runs.note {e : ε} {a : α} (he : good e) (h : P a) :
    Runs good (Traced.note e a : Traced ε κ α) P := by
  refine ⟨?_, ?_⟩
  · intro e' he'
    rw [List.mem_singleton.mp he']
    exact he
  · rintro _ ⟨⟩
    exact h

theorem Runs.mono {P' : α → Prop} (h : Runs good m P) (hP : ∀ a, P a → P' a) : Runs good m P' :=
  ⟨h.events, fun a ha => hP a (h.result a ha)⟩

theorem Runs.bind (h : Runs good m P) (hf : ∀ a, P a → Runs good (f a) Q) :
    Runs good (m >>= f) Q := by
  show Runs good (andThen m f) Q
  rw [andThen]
  cases hm : m.result with
  | error k =>
    refine ⟨h.events, ?_⟩
    intro b hb
    cases hb
  | ok a =>
    have hrest := hf a (h.result a hm)
    refine ⟨?_, hrest.result⟩
    intro e he
    rcases List.mem_append.mp he with he | he
    · exact h.events e he
    · exact hrest.events e he

theorem Runs.ite {c : Prop} [Decidable c] {m' : Traced ε κ α} (h : c → Runs good m P)
    (h' : ¬ c → Runs good m' P) : Runs good (if c then m else m') P := by
  by_cases hc : c
  · rw [if_pos hc]
    exact h hc
  · rw [if_neg hc]
    exact h' hc

theorem Runs.collect {f : α → Traced ε κ β} {as : List α} (h : ∀ a ∈ as, Runs good (f a) Q) :
    Runs good (Traced.collect f as) fun bs => ∀ b ∈ bs, Q b := by
  induction as with
  | nil => exact .pure fun b hb => absurd hb List.not_mem_nil
  | cons a as ih =>
    refine Runs.bind (h a List.mem_cons_self) fun b hb => ?_
    refine Runs.bind (ih fun a' ha' => h a' (List.mem_cons_of_mem _ ha')) fun bs hbs => .pure ?_
    intro b' hb'
    rcases List.mem_cons.mp hb' with rfl | hb'
    · exact hb
    · exact hbs b' hb'

/-- What every element keeps holds at the end. -/
theorem Runs.thread {f : β → α → Traced ε κ β} {as : List α} {b : β} (hb : Q b)
    (h : ∀ b a, Q b → a ∈ as → Runs good (f b a) Q) : Runs good (Traced.thread f b as) Q := by
  induction as generalizing b with
  | nil => exact .pure hb
  | cons a as ih =>
    refine Runs.bind (h b a hb List.mem_cons_self) fun b' hb' => ?_
    exact ih hb' fun c a' hc ha' => h c a' hc (List.mem_cons_of_mem _ ha')

end

/-- A value comes of it, and it is as asked for. -/
def Gives (m : Traced ε κ α) (Q : α → Prop) : Prop := ∃ a, m.result = .ok a ∧ Q a

section
variable {m : Traced ε κ α} {f : α → Traced ε κ β} {P : α → Prop} {Q : β → Prop}

theorem Gives.pure {a : α} (h : P a) : (Pure.pure a : Traced ε κ α).Gives P := ⟨a, rfl, h⟩

theorem Gives.note {e : ε} {a : α} (h : P a) : (Traced.note e a : Traced ε κ α).Gives P := ⟨a, rfl, h⟩

theorem Gives.mono {P' : α → Prop} (h : m.Gives P) (hP : ∀ a, P a → P' a) : m.Gives P' := by
  obtain ⟨a, ha, hp⟩ := h
  exact ⟨a, ha, hP a hp⟩

theorem Gives.bind (h : m.Gives P) (hf : ∀ a, P a → (f a).Gives Q) : (m >>= f).Gives Q := by
  obtain ⟨a, ha, hp⟩ := h
  obtain ⟨b, hb, hq⟩ := hf a hp
  exact ⟨b, bind_ok_iff.mpr ⟨a, ha, hb⟩, hq⟩

theorem Gives.ite {c : Prop} [Decidable c] {m' : Traced ε κ α} (h : c → m.Gives P)
    (h' : ¬ c → m'.Gives P) : (if c then m else m').Gives P := by
  by_cases hc : c
  · rw [if_pos hc]
    exact h hc
  · rw [if_neg hc]
    exact h' hc

theorem Gives.collect {f : α → Traced ε κ β} {as : List α}
    (h : ∀ a ∈ as, (f a).Gives fun _ => True) : (Traced.collect f as).Gives fun _ => True := by
  induction as with
  | nil => exact .pure trivial
  | cons a as ih =>
    refine Gives.bind (h a List.mem_cons_self) fun b _ => ?_
    exact Gives.bind (ih fun a' ha' => h a' (List.mem_cons_of_mem _ ha')) fun bs _ => .pure trivial

/-- Where every round gives what a function does, the rounds give its fold. -/
theorem Gives.thread {f : β → α → Traced ε κ β} {g : β → α → β} {as : List α} {b : β}
    (h : ∀ b, ∀ a ∈ as, (f b a).Gives (· = g b a)) :
    (Traced.thread f b as).Gives (· = as.foldl g b) := by
  induction as generalizing b with
  | nil => exact .pure rfl
  | cons a as ih =>
    refine Gives.bind (h b a List.mem_cons_self) fun b' hb' => ?_
    rw [hb']
    exact ih fun c a' ha' => h c a' (List.mem_cons_of_mem _ ha')

end

end Traced
end DSigMatcher.Framework
