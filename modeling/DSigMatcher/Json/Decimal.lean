import DSigMatcher.Json.Read
import Mathlib

namespace DSigMatcher.Json
open DSigMatcher.Base JsonValue

/-- The number that digits times a power of ten are. -/
def decimalRat (digits : Text) (exp10 : Int) : ℚ := digitsValue digits*10^exp10

theorem digitsValue_join (s t : Text) :
    digitsValue (s ++ t) = digitsValue s*10^t.length+digitsValue t := by
  induction t using List.reverseRecOn with
  | nil => simp [digitsValue]
  | append_singleton t c ih =>
    rw [← List.append_assoc, digitsValue_append, ih, digitsValue_append, List.length_append,
      List.length_singleton, pow_succ]
    ring

theorem digit_lt {c : UInt8} (hc : isDigit c = true) : c.toNat-48 < 10 ∧ 48 ≤ c.toNat := by
  simp only [isDigit, Bool.and_eq_true, decide_eq_true_iff, UInt8.le_iff_toNat_le] at hc
  have h48 : (48 : UInt8).toNat = 48 := rfl
  have h57 : (57 : UInt8).toNat = 57 := rfl
  omega

theorem digitsValue_lt {t : Text} (ht : ∀ c ∈ t, isDigit c = true) :
    digitsValue t < 10^t.length := by
  induction t using List.reverseRecOn with
  | nil => exact Nat.one_pos
  | append_singleton t c ih =>
    have hinit := ih fun d hd => ht d (List.mem_append_left _ hd)
    have hc := (digit_lt (ht c (by simp))).1
    rw [digitsValue_append, List.length_append, List.length_singleton, pow_succ]
    omega

theorem digitsValue_zeros {t : Text} (ht : ∀ c ∈ t, c = 48) : digitsValue t = 0 := by
  induction t using List.reverseRecOn with
  | nil => rfl
  | append_singleton t c ih =>
    rw [digitsValue_append, ih fun d hd => ht d (List.mem_append_left _ hd),
      ht c (by simp)]
    rfl

/-- A first digit other than zero. -/
theorem le_digitsValue {t : Text} (ht : ∀ c ∈ t, isDigit c = true) (hne : t ≠ [])
    (hhead : t.head? ≠ some 48) : 10^(t.length-1) ≤ digitsValue t := by
  obtain ⟨c, t, rfl⟩ := List.exists_cons_of_ne_nil hne
  have hc := digit_lt (ht c List.mem_cons_self)
  have hzero : c.toNat ≠ 48 := by
    intro h
    apply hhead
    rw [List.head?_cons, ← UInt8.toNat_inj.mp (show c.toNat = (48 : UInt8).toNat from h)]
  have hvalue : digitsValue [c] = c.toNat-48 := by simp [digitsValue]
  have hlead : 10^t.length ≤ (c.toNat-48)*10^t.length := Nat.le_mul_of_pos_left _ (by omega)
  rw [← List.singleton_append, digitsValue_join, List.length_append, List.length_singleton,
    Nat.add_sub_cancel_left, hvalue]
  exact Nat.le_trans hlead (Nat.le_add_right _ _)

/-- A last digit other than zero. -/
theorem digitsValue_pos {t : Text} (ht : ∀ c ∈ t, isDigit c = true) (hne : t ≠ [])
    (hlast : t.getLast? ≠ some 48) : 0 < digitsValue t := by
  obtain ⟨t, c, rfl⟩ := (List.eq_nil_or_concat t).resolve_left hne
  rw [List.concat_eq_append] at ht hlast ⊢
  have hc := digit_lt (ht c (by simp))
  have hzero : c.toNat ≠ 48 := by
    intro h
    apply hlast
    rw [List.getLast?_concat, ← UInt8.toNat_inj.mp (show c.toNat = (48 : UInt8).toNat from h)]
  rw [digitsValue_append]
  omega

/-- Digits without a leading zero are what the number prints as. -/
theorem decimal_digitsValue {t : Text} (ht : ∀ c ∈ t, isDigit c = true) (hne : t ≠ [])
    (hhead : t.head? ≠ some 48) : decimal (digitsValue t) = t := by
  induction t using List.reverseRecOn with
  | nil => exact absurd rfl hne
  | append_singleton t c ih =>
    have hc := digit_lt (ht c (by simp))
    have hchar : UInt8.ofNat (48+(c.toNat-48)) = c := by
      rw [Nat.add_sub_cancel' hc.2, UInt8.ofNat_toNat]
    rw [digitsValue_append]
    by_cases hnil : t = []
    · have hzero : digitsValue t = 0 := by rw [hnil]; rfl
      rw [hzero, Nat.zero_mul, Nat.zero_add, decimal_of_lt _ hc.1, hchar, hnil, List.nil_append]
    · have hdigits : ∀ d ∈ t, isDigit d = true := fun d hd => ht d (List.mem_append_left _ hd)
      have hhead' : t.head? ≠ some 48 := by
        rwa [List.head?_append_of_ne_nil _ hnil] at hhead
      have hpos := Nat.lt_of_lt_of_le (pow_pos (by norm_num) _) (le_digitsValue hdigits hnil hhead')
      have hdiv : (digitsValue t*10+(c.toNat-48))/10 = digitsValue t := by omega
      have hmod : (digitsValue t*10+(c.toNat-48))%10 = c.toNat-48 := by omega
      rw [decimal_of_le _ (by omega), hdiv, hmod, hchar, ih hdigits hnil hhead']

theorem digitsValue_replicate (n : Nat) : digitsValue (List.replicate n 48) = 0 :=
  digitsValue_zeros fun _ hc => List.eq_of_mem_replicate hc

theorem decimal_ne_nil (n : Nat) : decimal n ≠ [] := by
  obtain ⟨d, v, hd, -⟩ := decimal_head n
  rw [hd]
  exact List.cons_ne_nil _ _

theorem decimal_head_ne {n : Nat} (hn : n ≠ 0) : (decimal n).head? ≠ some 48 := by
  intro h
  obtain ⟨d, v, hd, -, -, hzero⟩ := decimal_head n
  rw [hd, List.head?_cons, Option.some.injEq] at h
  have hvalue := (digitsValue_decimal n).1
  rw [hd, hzero h, h] at hvalue
  exact hn hvalue.symm

/-- A number that has so many digits or fewer, with the zeros that fill them up. -/
theorem decimal_length_le {n k : Nat} (hk : 0 < k) (hn : n < 10^k) : (decimal n).length ≤ k := by
  rcases Nat.eq_zero_or_pos n with rfl | hpos
  · exact hk
  · by_contra hlong
    have hle := le_digitsValue (digitsValue_decimal n).2.1 (decimal_ne_nil n)
      (decimal_head_ne (Nat.ne_of_gt hpos))
    rw [(digitsValue_decimal n).1] at hle
    have hpow : 10^k ≤ 10^((decimal n).length-1) :=
      Nat.pow_le_pow_right (by norm_num) (by omega)
    omega

/-- The digits of a number from those of its two parts. -/
theorem decimal_split {q r k : Nat} (hq : 0 < q) (hk : 0 < k) (hr : r < 10^k) :
    decimal (q*10^k+r) =
      decimal q ++ (List.replicate (k-(decimal r).length) 48 ++ decimal r) := by
  obtain ⟨hqvalue, hqdigit, -⟩ := digitsValue_decimal q
  obtain ⟨hrvalue, hrdigit, -⟩ := digitsValue_decimal r
  have hlen := decimal_length_le hk hr
  have hvalue : digitsValue
      (decimal q ++ (List.replicate (k-(decimal r).length) 48 ++ decimal r)) = q*10^k+r := by
    rw [digitsValue_join, digitsValue_join, digitsValue_replicate, hqvalue, hrvalue, Nat.zero_mul,
      Nat.zero_add, List.length_append, List.length_replicate, Nat.sub_add_cancel hlen]
  rw [← hvalue]
  apply decimal_digitsValue
  · intro c hc
    rcases List.mem_append.mp hc with hc | hc
    · exact hqdigit c hc
    · rcases List.mem_append.mp hc with hc | hc
      · rw [List.eq_of_mem_replicate hc]
        rfl
      · exact hrdigit c hc
  · exact List.append_ne_nil_of_left_ne_nil (decimal_ne_nil q) _
  · rw [List.head?_append_of_ne_nil _ (decimal_ne_nil q)]
    exact decimal_head_ne (Nat.ne_of_gt hq)

/-- What is dropped from the end of a list. -/
theorem take_reverse_takeWhile {α : Type*} (p : α → Bool) (l : List α) :
    l.take (l.length-(l.reverse.takeWhile p).length) = (l.reverse.dropWhile p).reverse ∧
      l = (l.reverse.dropWhile p).reverse ++ (l.reverse.takeWhile p).reverse := by
  have hsplit : l = (l.reverse.dropWhile p).reverse ++ (l.reverse.takeWhile p).reverse := by
    rw [← List.reverse_append, List.takeWhile_append_dropWhile, List.reverse_reverse]
  refine ⟨?_, hsplit⟩
  have hlength := congrArg List.length hsplit
  rw [List.length_append, List.length_reverse, List.length_reverse] at hlength
  conv_lhs => rw [hsplit]
  rw [List.take_append_of_le_length, List.take_of_length_le]
  · simp
  · simp

/-- Digits without zeros at either end, and the exponent that goes with them. -/
structure Stripped (digits : Text) (exp10 : Int) (digits' : Text) (exp10' : Int) : Prop where
  value : decimalRat digits' exp10' = decimalRat digits exp10
  digit : ∀ c ∈ digits', isDigit c = true
  head : digits'.head? ≠ some 48
  last : digits'.getLast? ≠ some 48

theorem mem_takeWhile_zeros {t : Text} {c : UInt8} (hc : c ∈ t.takeWhile (· = 48)) : c = 48 :=
  of_decide_eq_true (List.mem_takeWhile_imp (p := fun c : UInt8 => decide (c = 48)) hc)

/-- The zeros at both ends go into the exponent. -/
theorem strip_spec {digits : Text} (exp10 : Int) (h : ∀ c ∈ digits, isDigit c = true) :
    let front := digits.dropWhile (· = 48)
    let zeros := (front.reverse.takeWhile (· = 48)).length
    Stripped digits exp10 (front.take (front.length-zeros)) (exp10+zeros) := by
  intro front zeros
  obtain ⟨htake, hsplit⟩ := take_reverse_takeWhile (· = (48 : UInt8)) front
  have hfront : digitsValue digits = digitsValue front := by
    have hall := List.takeWhile_append_dropWhile (p := fun c : UInt8 => decide (c = 48)) (l := digits)
    have hzeros : digitsValue (digits.takeWhile (· = 48)) = 0 :=
      digitsValue_zeros fun c hc => mem_takeWhile_zeros hc
    rw [← hall, digitsValue_join, hzeros, Nat.zero_mul, Nat.zero_add]
  have hdigits : ∀ c ∈ front, isDigit c = true := fun c hc =>
    h c ((List.dropWhile_sublist _).subset hc)
  have hvalue := congrArg digitsValue hsplit
  have htail : digitsValue (front.reverse.takeWhile (· = (48 : UInt8))).reverse = 0 :=
    digitsValue_zeros fun c hc => mem_takeWhile_zeros (List.mem_reverse.mp hc)
  rw [digitsValue_join, htail, Nat.add_zero, List.length_reverse] at hvalue
  rw [htake]
  constructor
  · rw [decimalRat, decimalRat, hfront, hvalue, zpow_add₀ (by norm_num), zpow_natCast]
    push_cast
    ring
  · intro c hc
    exact hdigits c
      (List.mem_reverse.mp ((List.dropWhile_sublist _).subset (List.mem_reverse.mp hc)))
  · intro hhead
    -- the first digit that is left is the first one of all the digits that is no zero
    have hnot := List.head?_dropWhile_not (fun c : UInt8 => decide (c = 48)) digits
    have hfirst : front.head? = some 48 := by
      rw [hsplit, List.head?_append, hhead]
      rfl
    rw [show digits.dropWhile (fun c : UInt8 => decide (c = 48)) = front from rfl, hfirst] at hnot
    simp at hnot
  · rw [List.getLast?_reverse]
    intro hlast
    have hnot := List.head?_dropWhile_not (fun c : UInt8 => decide (c = 48)) front.reverse
    rw [hlast] at hnot
    simp at hnot

end DSigMatcher.Json
