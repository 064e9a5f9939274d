import Mathlib

namespace DSigMatcher.Framework

/-- An IEEE binary64 word: the sign bit and the 63 bits below it. -/
@[ext] structure Binary64 where
  negative : Bool
  magnitude : Nat
  bounded : magnitude < 2^63
  deriving DecidableEq

namespace Binary64

/-- Magnitude of the infinities; every larger one is a NaN. -/
def infinityMagnitude : Nat := 2047*2^52

def isNaN (x : Binary64) : Bool := infinityMagnitude < x.magnitude

/-- Order-preserving key of the words that are no NaN; both zeros have key 0. -/
def key (x : Binary64) : Int := if x.negative then -x.magnitude else x.magnitude

instance : LT Binary64 := ⟨fun x y => x.isNaN = false ∧ y.isNaN = false ∧ x.key < y.key⟩

instance : DecidableLT Binary64 := fun x y =>
  inferInstanceAs (Decidable (x.isNaN = false ∧ y.isNaN = false ∧ x.key < y.key))

/-- The `==` of the source: false on NaN, and the two zeros are equal. -/
def eq (x y : Binary64) : Bool := !x.isNaN && !y.isNaN && x.key == y.key

def toBits (x : Binary64) : Nat := (if x.negative then 2^63 else 0) + x.magnitude

def ofBits (w : Nat) : Binary64 where
  negative := 2^63 ≤ w % 2^64
  magnitude := w % 2^63
  bounded := Nat.mod_lt _ (Nat.two_pow_pos 63)

theorem toBits_lt (x : Binary64) : x.toBits < 2^64 := by
  have h := x.bounded
  unfold toBits
  split_ifs <;> omega

theorem ofBits_toBits (x : Binary64) : ofBits x.toBits = x := by
  have h := x.bounded
  ext
  · cases hn : x.negative <;> simp [ofBits, toBits, hn] <;> omega
  · unfold ofBits toBits
    dsimp only
    split_ifs <;> omega

def zero : Binary64 := ⟨false, 0, by decide⟩

def one : Binary64 := ⟨false, 1023*2^52, by decide⟩

theorem lt_iff (x y : Binary64) (hx : x.isNaN = false) (hy : y.isNaN = false) :
    x < y ↔ x.key < y.key := by
  change (_ ∧ _ ∧ _) ↔ _
  rw [and_iff_right hx, and_iff_right hy]

theorem eq_iff (x y : Binary64) (hx : x.isNaN = false) (hy : y.isNaN = false) :
    x.eq y = true ↔ x.key = y.key := by
  simp [eq, hx, hy]

/-- A word that compares equal to 1 is the word 1. -/
theorem eq_one (x : Binary64) (h : x.eq one = true) : x = one := by
  have hk : x.key = one.key := by
    simp only [eq, Bool.and_eq_true, beq_iff_eq] at h
    exact h.2
  have h1 : one.key = 1023*2^52 := by decide
  rw [h1] at hk
  unfold key at hk
  cases hn : x.negative with
  | true =>
    rw [hn, if_pos rfl] at hk
    omega
  | false =>
    rw [hn, if_neg Bool.false_ne_true] at hk
    refine Binary64.ext hn ?_
    change x.magnitude = 1023*2^52
    omega

/-- Two words of the same key are one word, the zeros apart. -/
theorem eq_of_key (x y : Binary64) (hx : x.key ≠ 0) (h : x.key = y.key) : x = y := by
  unfold key at hx h
  ext
  · cases hxn : x.negative <;> cases hyn : y.negative <;> simp [hxn, hyn] at hx h ⊢ <;> omega
  · cases hxn : x.negative <;> cases hyn : y.negative <;> simp [hxn, hyn] at hx h ⊢ <;> omega

theorem not_nan_of_lt_left {x y : Binary64} (h : x < y) : x.isNaN = false := h.1

end Binary64

end DSigMatcher.Framework
