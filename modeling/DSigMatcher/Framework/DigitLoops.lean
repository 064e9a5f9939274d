import Mathlib

namespace DSigMatcher.Framework
namespace DigitLoops

/-- Digits in base `b`, the lowest first, are added to a carry. -/
def add (b : Nat) : Nat → List Nat → List Nat → List Nat
  | carry, [], [] => Nat.digits b carry
  | carry, x::xs, [] => (carry+x)%b::add b ((carry+x)/b) xs []
  | carry, [], y::ys => (carry+y)%b::add b ((carry+y)/b) [] ys
  | carry, x::xs, y::ys => (carry+x+y)%b::add b ((carry+x+y)/b) xs ys

/-- Digits are taken away with a borrow, which is dropped where the first digits end. -/
def sub (b : Nat) : Nat → List Nat → List Nat → List Nat
  | _, [], _ => []
  | borrow, x::xs, ys =>
    let digit : Int := x-borrow-ys.headD 0
    let next : Nat := if digit < 0 then 1 else 0
    (digit+next*b).toNat::sub b next xs ys.tail

/-- Digits times a factor, and a carry. -/
def mul (b factor : Nat) : Nat → List Nat → List Nat
  | carry, [] => Nat.digits b carry
  | carry, x::xs => (x*factor+carry)%b::mul b factor ((x*factor+carry)/b) xs

section
variable {b : Nat}

theorem ofDigits_step (n rest : Nat) : n%b+b*(n/b+rest) = n+b*rest := by
  rw [Nat.mul_add, ← Nat.add_assoc, Nat.mod_add_div]

theorem ofDigits_add (carry : Nat) (xs ys : List Nat) :
    Nat.ofDigits b (add b carry xs ys) = Nat.ofDigits b xs+Nat.ofDigits b ys+carry := by
  induction carry, xs, ys using add.induct b with
  | case1 carry =>
    rw [add, Nat.ofDigits_digits]
    simp
  | case2 carry x xs ih =>
    have hstep := @ofDigits_step b (carry+x) (Nat.ofDigits b xs)
    rw [add, Nat.ofDigits_cons, ih, Nat.ofDigits_cons, Nat.ofDigits_nil]
    linarith
  | case3 carry y ys ih =>
    have hstep := @ofDigits_step b (carry+y) (Nat.ofDigits b ys)
    rw [add, Nat.ofDigits_cons, ih, Nat.ofDigits_cons, Nat.ofDigits_nil]
    linarith
  | case4 carry x xs y ys ih =>
    have hstep := @ofDigits_step b (carry+x+y) (Nat.ofDigits b xs+Nat.ofDigits b ys)
    rw [add, Nat.ofDigits_cons, ih, Nat.ofDigits_cons, Nat.ofDigits_cons]
    linarith

theorem ofDigits_mul (factor carry : Nat) (xs : List Nat) :
    Nat.ofDigits b (mul b factor carry xs) = Nat.ofDigits b xs*factor+carry := by
  induction xs generalizing carry with
  | nil =>
    rw [mul, Nat.ofDigits_digits]
    simp
  | cons x xs ih =>
    have hstep := @ofDigits_step b (x*factor+carry) (Nat.ofDigits b xs*factor)
    rw [mul, Nat.ofDigits_cons, ih, Nat.ofDigits_cons]
    linarith

/-- One digit: what the rest gives back is what the digit borrows from it. -/
theorem sub_step {x y high low borrow : Nat} {f : Nat → Nat} (hx : x < b) (hy : y < b)
    (hborrow : borrow ≤ 1) (hle : y+b*low+borrow ≤ x+b*high)
    (hrest : ∀ next ≤ 1, low+next ≤ high → f next+low+next = high) :
    let digit : Int := x-borrow-y
    let next : Nat := if digit < 0 then 1 else 0
    (digit+next*b).toNat+b*f next+(y+b*low)+borrow = x+b*high := by
  intro digit next
  by_cases hneg : digit < 0
  · have hnext : next = 1 := if_pos hneg
    have hlow : low+1 ≤ high := by
      by_contra hlt
      have hmul : b*high ≤ b*low := Nat.mul_le_mul_left b (by omega)
      omega
    have hprod : b*f 1+b*low+b = b*high := by
      rw [← hrest 1 le_rfl hlow]
      ring
    rw [hnext]
    omega
  · have hnext : next = 0 := if_neg hneg
    have hlow : low ≤ high := by
      by_contra hlt
      have hmul : b*(high+1) ≤ b*low := Nat.mul_le_mul_left b (by omega)
      rw [Nat.mul_add, Nat.mul_one] at hmul
      omega
    have hprod : b*f 0+b*low = b*high := by
      rw [← hrest 0 (Nat.zero_le 1) hlow]
      ring
    rw [hnext]
    omega

/-- Adding back what was taken away gives the first number again. -/
theorem ofDigits_sub {borrow : Nat} {xs ys : List Nat} (hb : 0 < b) (hborrow : borrow ≤ 1)
    (hxs : ∀ x ∈ xs, x < b) (hys : ∀ y ∈ ys, y < b)
    (hle : Nat.ofDigits b ys+borrow ≤ Nat.ofDigits b xs) :
    Nat.ofDigits b (sub b borrow xs ys)+Nat.ofDigits b ys+borrow = Nat.ofDigits b xs := by
  induction xs generalizing borrow ys with
  | nil =>
    rw [Nat.ofDigits_nil] at hle ⊢
    rw [sub, Nat.ofDigits_nil]
    omega
  | cons x xs ih =>
    have hx := hxs x List.mem_cons_self
    have hrest : ∀ x ∈ xs, x < b := fun x hx => hxs x (List.mem_cons_of_mem _ hx)
    have hsplit : Nat.ofDigits b ys = ys.headD 0+b*Nat.ofDigits b ys.tail := by
      cases ys with
      | nil => simp
      | cons y ys => exact Nat.ofDigits_cons
    have hy : ys.headD 0 < b := by
      cases ys with
      | nil => exact hb
      | cons y ys => exact hys y List.mem_cons_self
    have htail : ∀ y ∈ ys.tail, y < b := fun y hy => hys y (List.mem_of_mem_tail hy)
    rw [Nat.ofDigits_cons, hsplit] at hle
    rw [sub, Nat.ofDigits_cons, Nat.ofDigits_cons, hsplit]
    exact sub_step (f := fun next => Nat.ofDigits b (sub b next xs ys.tail)) hx hy hborrow hle
      fun next hnext hlow => ih hnext hrest htail hlow

theorem add_lt (hb : 1 < b) (carry : Nat) (xs ys : List Nat) :
    ∀ d ∈ add b carry xs ys, d < b := by
  induction carry, xs, ys using add.induct b with
  | case1 carry =>
    rw [add]
    exact fun d hd => Nat.digits_lt_base hb hd
  | case2 carry x xs ih | case3 carry y ys ih | case4 carry x xs y ys ih =>
    rw [add]
    exact List.forall_mem_cons.mpr ⟨Nat.mod_lt _ (by omega), ih⟩

theorem mul_lt (hb : 1 < b) (factor carry : Nat) (xs : List Nat) :
    ∀ d ∈ mul b factor carry xs, d < b := by
  induction xs generalizing carry with
  | nil =>
    rw [mul]
    exact fun d hd => Nat.digits_lt_base hb hd
  | cons x xs ih =>
    rw [mul]
    exact List.forall_mem_cons.mpr ⟨Nat.mod_lt _ (by omega), ih _⟩

theorem sub_lt {borrow : Nat} {xs ys : List Nat} (hb : 0 < b) (hborrow : borrow ≤ 1)
    (hxs : ∀ x ∈ xs, x < b) (hys : ∀ y ∈ ys, y < b) : ∀ d ∈ sub b borrow xs ys, d < b := by
  induction xs generalizing borrow ys with
  | nil =>
    rw [sub]
    simp
  | cons x xs ih =>
    have hx := hxs x List.mem_cons_self
    have hy : ys.headD 0 < b := by
      cases ys with
      | nil => exact hb
      | cons y ys => exact hys y List.mem_cons_self
    rw [sub]
    refine List.forall_mem_cons.mpr ⟨?_, ?_⟩
    · split_ifs <;> omega
    · exact ih (by split_ifs <;> simp) (fun x hx => hxs x (List.mem_cons_of_mem _ hx))
        fun y hy => hys y (List.mem_of_mem_tail hy)

/-- A product has no zero at the top if the number has none. -/
theorem mul_getLast (hb : 1 < b) {factor : Nat} (hfactor : 0 < factor) (carry : Nat) {xs : List Nat}
    (hne : xs ≠ []) (hlast : xs.getLast? ≠ some 0) : (mul b factor carry xs).getLast? ≠ some 0 := by
  induction xs generalizing carry with
  | nil => exact absurd rfl hne
  | cons x xs ih =>
    rw [mul]
    by_cases hxs : xs = []
    · subst hxs
      have hx : x ≠ 0 := fun h => hlast (by rw [h]; rfl)
      have hpos : 0 < x*factor := Nat.mul_pos (Nat.pos_of_ne_zero hx) hfactor
      rw [mul]
      by_cases hcarry : (x*factor+carry)/b = 0
      · rw [hcarry, Nat.digits_zero, List.getLast?_singleton, Ne, Option.some.injEq,
          Nat.mod_eq_of_lt ((Nat.div_eq_zero_iff_lt (by omega)).mp hcarry)]
        omega
      · have hdigits : Nat.digits b ((x*factor+carry)/b) ≠ [] :=
          Nat.digits_ne_nil_iff_ne_zero.mpr hcarry
        rw [List.getLast?_cons_of_ne_nil hdigits, List.getLast?_eq_some_getLast hdigits]
        exact fun h => Nat.getLast_digit_ne_zero b hcarry (Option.some.inj h)
    · have hrest : mul b factor ((x*factor+carry)/b) xs ≠ [] := by
        obtain ⟨y, ys, rfl⟩ := List.exists_cons_of_ne_nil hxs
        rw [mul]
        exact List.cons_ne_nil _ _
      rw [List.getLast?_cons_of_ne_nil hxs] at hlast
      rw [List.getLast?_cons_of_ne_nil hrest]
      exact ih _ hxs hlast

end

end DigitLoops

section
variable {b m n : Nat} {e f : Int}

theorem scaled_exponent_le (hb : 0 < b) (hm : ¬ b ∣ m) (h : (m : ℚ)*b^e = n*b^f) : f ≤ e := by
  by_contra hlt
  have hb' : (b : ℚ) ≠ 0 := Nat.cast_ne_zero.mpr (Nat.ne_of_gt hb)
  obtain ⟨k, rfl⟩ : ∃ k : Nat, f = e+(k+1 : Nat) := ⟨(f-e-1).toNat, by omega⟩
  rw [zpow_add₀ hb', zpow_natCast, mul_comm ((b : ℚ)^e), ← mul_assoc] at h
  have hcast := mul_right_cancel₀ (zpow_ne_zero e hb') h
  have hnat : m = n*b^(k+1) := by exact_mod_cast hcast
  apply hm
  rw [hnat, pow_succ, ← mul_assoc]
  exact Nat.dvd_mul_left b _

/-- A number has one coefficient that the base does not divide. -/
theorem scaled_inj (hb : 0 < b) (hm : ¬ b ∣ m) (hn : ¬ b ∣ n) (h : (m : ℚ)*b^e = n*b^f) :
    m = n ∧ e = f := by
  have hexp : e = f :=
    Int.le_antisymm (scaled_exponent_le hb hn h.symm) (scaled_exponent_le hb hm h)
  subst hexp
  have hb' : (b : ℚ) ≠ 0 := Nat.cast_ne_zero.mpr (Nat.ne_of_gt hb)
  have hcast := mul_right_cancel₀ (zpow_ne_zero e hb') h
  exact ⟨Nat.cast_injective hcast, rfl⟩

end

end DSigMatcher.Framework
