import Mathlib.Data.List.Basic

namespace DSigMatcher.Framework

variable {ρ α β : Type}

/-- How a computation stops without a value: with a reason, or by raising. -/
inductive Stop (ρ : Type)
  | reason (why : ρ)
  | raised
  deriving DecidableEq

/-- It does not raise, and a value that it gives is as asked for. -/
structure Answers (x : Except (Stop ρ) α) (Q : α → Prop) : Prop where
  answers : x ≠ .error .raised
  value : ∀ a, x = .ok a → Q a

namespace Answers
variable {x y : Except (Stop ρ) α} {P Q : α → Prop}

theorem pure {a : α} (h : Q a) : Answers (Pure.pure a : Except (Stop ρ) α) Q := by
  constructor
  · intro hraised
    cases hraised
  · intro b hb
    cases hb
    exact h

theorem reason {why : ρ} : Answers (.error (.reason why) : Except (Stop ρ) α) Q := by
  constructor
  · intro hraised
    cases hraised
  · intro b hb
    cases hb

theorem mono (h : Answers x P) (hPQ : ∀ a, P a → Q a) : Answers x Q :=
  ⟨h.answers, fun a ha => hPQ a (h.value a ha)⟩

theorem bind {f : α → Except (Stop ρ) β} {R : β → Prop} (h : Answers x P)
    (hf : ∀ a, P a → Answers (f a) R) : Answers (x >>= f) R := by
  cases hx : x with
  | ok a => exact hf a (h.value a hx)
  | error stop =>
    cases stop with
    | reason why => exact reason
    | raised => exact absurd hx h.answers

theorem ite {c : Prop} [Decidable c] (h : c → Answers x Q) (h' : ¬ c → Answers y Q) :
    Answers (if c then x else y) Q := by
  by_cases hc : c
  · rw [if_pos hc]
    exact h hc
  · rw [if_neg hc]
    exact h' hc

end Answers

/-- The number whose bytes these are, the lowest first. -/
def littleEndian : List UInt8 → Nat
  | [] => 0
  | b::r => b.toNat+256*littleEndian r

/-- The bytes of a range, as far as the data goes. -/
def bytesAt (data : List UInt8) (offset length : Nat) : List UInt8 := (data.drop offset).take length

/-- The number at an offset. -/
def field (data : List UInt8) (offset width : Nat) : Nat := littleEndian (bytesAt data offset width)

/-- The bytes of a structure of a size; it raises where they are not all there. -/
def unpackFrom (size : Nat) (data : List UInt8) (offset : Nat) : Except (Stop ρ) (List UInt8) :=
  if offset+size ≤ data.length then .ok (bytesAt data offset size) else .error .raised

/-- The rows of a table, up to the first that is not all there. -/
def tableRows (stride size : Nat) (row : List UInt8 → α) (data : List UInt8) (base : Nat) :
    Nat → Nat → Except (Stop ρ) (List α)
  | 0, _ => pure []
  | n+1, index =>
    if base+stride*index+stride > data.length then pure []
    else do
      let bytes ← unpackFrom size data (base+stride*index)
      let rows ← tableRows stride size row data base n (index+1)
      pure (row bytes::rows)

/-- Each row is what the data holds at its place, from a first index on. -/
def RowsFrom (stride size : Nat) (row : List UInt8 → α) (data : List UInt8) (base index : Nat)
    (rows : List α) : Prop :=
  ∀ i x, rows[i]? = some x → base+stride*(index+i)+stride ≤ data.length ∧
    x = row (bytesAt data (base+stride*(index+i)) size)

section
variable {stride size base offset length place width : Nat} {row : List UInt8 → α}
  {data : List UInt8}

theorem bytesAt_bytesAt (h : place+width ≤ length) :
    bytesAt (bytesAt data offset length) place width = bytesAt data (offset+place) width := by
  rw [bytesAt, bytesAt, bytesAt, List.drop_take, List.take_take, List.drop_drop]
  congr 1
  omega

theorem field_bytesAt (h : place+width ≤ length) :
    field (bytesAt data offset length) place width = field data (offset+place) width :=
  congrArg littleEndian (bytesAt_bytesAt h)

theorem bytesAt_length (h : offset+length ≤ data.length) :
    (bytesAt data offset length).length = length := by
  rw [bytesAt, List.length_take, List.length_drop]
  omega

theorem unpackFrom_ok (h : offset+size ≤ data.length) :
    (unpackFrom size data offset : Except (Stop ρ) _) = .ok (bytesAt data offset size) := if_pos h

theorem unpackFrom_raised (h : data.length < offset+size) :
    (unpackFrom size data offset : Except (Stop ρ) _) = .error .raised := if_neg (by omega)

theorem unpackFrom_answers (h : offset+size ≤ data.length) :
    Answers (unpackFrom size data offset : Except (Stop ρ) _) (· = bytesAt data offset size) := by
  rw [unpackFrom_ok h]
  exact .pure rfl

/-- A table never asks for bytes behind the data, and each of its rows is one of the data. -/
theorem tableRows_answers (hsize : size ≤ stride) (n index : Nat) :
    Answers (tableRows stride size row data base n index : Except (Stop ρ) _)
      (RowsFrom stride size row data base index) := by
  induction n generalizing index with
  | zero =>
    refine .pure ?_
    intro i x hx
    cases hx
  | succ n ih =>
    refine .ite (fun hend => .pure ?_) fun hinside => ?_
    · intro i x hx
      cases hx
    refine .bind (unpackFrom_answers (by omega)) fun bytes hbytes => ?_
    refine .bind (ih (index+1)) fun rows hrows => .pure ?_
    intro i x hx
    cases i with
    | zero =>
      rw [List.getElem?_cons_zero, Option.some.injEq] at hx
      rw [Nat.add_zero, ← hx, hbytes]
      exact ⟨by omega, rfl⟩
    | succ i =>
      rw [List.getElem?_cons_succ] at hx
      have hindex : index+1+i = index+(i+1) := by omega
      rw [← hindex]
      exact hrows i x hx

end

end DSigMatcher.Framework
