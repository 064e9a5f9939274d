import DSigMatcher.Framework.Primes
import Mathlib

namespace DSigMatcher.Hash
open DSigMatcher.Framework Sieve

/-- The inner loop of the sieve, from a multiple on. -/
def markMultiples (limit candidate : Nat) (hc : 0 < candidate) (multiple : Nat)
    (composite : Array Bool) : Array Bool :=
  if multiple < limit then
    markMultiples limit candidate hc (multiple+candidate) (composite.setIfInBounds multiple true)
  else composite
  termination_by limit-multiple

/-- The outer loop of the sieve, from a candidate on. -/
def sieve (limit candidate : Nat) (hc : 0 < candidate) (composite : Array Bool) : Array Bool :=
  if _h : candidate*candidate < limit then
    if composite.getD candidate false then sieve limit (candidate+1) (Nat.succ_pos _) composite
    else sieve limit (candidate+1) (Nat.succ_pos _)
      (markMultiples limit candidate hc (candidate*candidate) composite)
  else composite
  termination_by limit-candidate
  decreasing_by
    all_goals
      have hle : candidate*1 ≤ candidate*candidate := Nat.mul_le_mul_left candidate hc
      omega

structure PrimeTable where
  limit : UInt32
  primes : List Nat

/-- The constructor of `PrimeTable`. -/
def primeTable (limit : UInt32) : PrimeTable where
  limit := limit
  primes :=
    if limit ≤ 2 then []
    else
      let composite := (Array.replicate limit.toNat false).setIfInBounds 0 true
      let composite := sieve limit.toNat 2 two_pos (composite.setIfInBounds 1 true)
      (List.range' 2 (limit.toNat-2)).filter fun value => !composite.getD value false

section
variable {limit candidate multiple : Nat} {composite : Array Bool}

theorem getD_setIfInBounds (i n : Nat) :
    (composite.setIfInBounds i true).getD n false = true ↔
      composite.getD n false = true ∨ n = i ∧ n < composite.size := by
  simp only [Array.getD_eq_getD_getElem?, Array.getElem?_setIfInBounds]
  split_ifs with h hlt <;> grind

theorem markMultiples_size (hc : 0 < candidate) :
    (markMultiples limit candidate hc multiple composite).size = composite.size := by
  induction multiple, composite using markMultiples.induct limit candidate hc with
  | case1 multiple composite h ih => rw [markMultiples, if_pos h, ih, Array.size_setIfInBounds]
  | case2 multiple composite h => rw [markMultiples, if_neg h]

/-- The marked numbers are those marked before and the multiples from the first one on. -/
theorem markMultiples_iff (hc : 0 < candidate) (n : Nat) (hsize : composite.size = limit) :
    (markMultiples limit candidate hc multiple composite).getD n false = true ↔
      composite.getD n false = true ∨ n < limit ∧ ∃ k, n = multiple+k*candidate := by
  induction multiple, composite using markMultiples.induct limit candidate hc with
  | case1 multiple composite h ih =>
    rw [markMultiples, if_pos h, ih (by rw [Array.size_setIfInBounds, hsize]), getD_setIfInBounds,
      hsize, or_assoc]
    apply or_congr_right
    constructor
    · rintro (⟨rfl, hlt⟩ | ⟨hlt, k, rfl⟩)
      · exact ⟨hlt, 0, by omega⟩
      · exact ⟨hlt, k+1, by ring⟩
    · rintro ⟨hlt, k, rfl⟩
      cases k with
      | zero => exact .inl ⟨by omega, hlt⟩
      | succ k => exact .inr ⟨hlt, k, by ring⟩
  | case2 multiple composite h =>
    rw [markMultiples, if_neg h]
    refine ⟨.inl, ?_⟩
    rintro (hmark | ⟨hlt, k, rfl⟩)
    · exact hmark
    · omega

/-- The multiples from the square on. -/
theorem multiple_iff (hc : 0 < candidate) (n : Nat) :
    (∃ k, n = candidate*candidate+k*candidate) ↔ candidate ∣ n ∧ candidate*candidate ≤ n := by
  constructor
  · rintro ⟨k, rfl⟩
    exact ⟨⟨candidate+k, by ring⟩, Nat.le_add_right _ _⟩
  · rintro ⟨⟨q, rfl⟩, hle⟩
    have hq : candidate ≤ q := Nat.le_of_mul_le_mul_left hle hc
    refine ⟨q-candidate, ?_⟩
    rw [← Nat.add_mul, Nat.add_sub_cancel' hq, Nat.mul_comm]

/-- Between two rounds of the sieve. -/
structure Sieved (limit candidate : Nat) (composite : Array Bool) : Prop where
  size : composite.size = limit
  marked : ∀ n < limit, composite.getD n false = true ↔ n < 2 ∨ Crossed candidate n

theorem sieved_start (limit : Nat) :
    Sieved limit 2
      (((Array.replicate limit false).setIfInBounds 0 true).setIfInBounds 1 true) where
  size := by simp
  marked := by
    intro n hn
    rw [getD_setIfInBounds, getD_setIfInBounds, Array.size_setIfInBounds, Array.size_replicate]
    have hzero : (Array.replicate limit false).getD n false = false := by simp [Array.getD, hn]
    have hcross := not_crossed_two n
    simp only [hzero, hcross, hn, Bool.false_eq_true, false_or, or_false, and_true]
    omega

theorem sieved_step (hc : 2 ≤ candidate) (hpos : 0 < candidate) (hsq : candidate*candidate < limit)
    (h : Sieved limit candidate composite) :
    Sieved limit (candidate+1)
      (if composite.getD candidate false then composite
        else markMultiples limit candidate hpos (candidate*candidate) composite) := by
  have hlt : candidate < limit := by
    have hle : candidate*1 ≤ candidate*candidate := Nat.mul_le_mul_left candidate hpos
    omega
  have hmark := h.marked candidate hlt
  split_ifs with hcomposite
  · have hcrossed := (hmark.mp hcomposite).resolve_left (by omega)
    refine ⟨h.size, fun n hn => ?_⟩
    rw [h.marked n hn, crossed_succ_of_crossed hc hcrossed]
  · have hprime := (candidate_iff hc).mp fun hcrossed => hcomposite (hmark.mpr (.inr hcrossed))
    refine ⟨(markMultiples_size hpos).trans h.size, fun n hn => ?_⟩
    rw [markMultiples_iff hpos n h.size, h.marked n hn, multiple_iff hpos,
      crossed_succ_of_prime hprime, or_assoc, and_iff_right hn]

/-- Where the outer loop ends the candidate's square has passed the limit. -/
theorem sieve_sieved (hpos : 0 < candidate) (hc : 2 ≤ candidate)
    (h : Sieved limit candidate composite) :
    ∃ c, limit ≤ c*c ∧ Sieved limit c (sieve limit candidate hpos composite) := by
  induction candidate, hpos, composite using sieve.induct limit with
  | case1 candidate hpos composite hsq hcomposite ih =>
    have hstep := sieved_step hc hpos hsq h
    rw [if_pos hcomposite] at hstep
    rw [sieve, dif_pos hsq, if_pos hcomposite]
    exact ih (by omega) hstep
  | case2 candidate hpos composite hsq hcomposite ih =>
    have hstep := sieved_step hc hpos hsq h
    rw [if_neg hcomposite] at hstep
    rw [sieve, dif_pos hsq, if_neg hcomposite]
    exact ih (by omega) hstep
  | case3 candidate hpos composite hsq =>
    rw [sieve, dif_neg hsq]
    exact ⟨candidate, Nat.not_lt.mp hsq, h⟩

end

/-- The table holds the primes below its limit, each once and in ascending order. -/
theorem primeTable_exact (limit : UInt32) :
    (primeTable limit).primes.Pairwise (· < ·) ∧
      ∀ n, n ∈ (primeTable limit).primes ↔ n.Prime ∧ n < limit.toNat := by
  by_cases hsmall : limit ≤ 2
  · have hnil : (primeTable limit).primes = [] := if_pos hsmall
    have hle : limit.toNat ≤ 2 := UInt32.le_iff_toNat_le.mp hsmall
    rw [hnil]
    refine ⟨List.Pairwise.nil, fun n => ⟨fun h => absurd h List.not_mem_nil, ?_⟩⟩
    rintro ⟨hprime, hlt⟩
    have htwo := hprime.two_le
    omega
  · have hlimit : 2 < limit.toNat := by
      rw [UInt32.le_iff_toNat_le] at hsmall
      exact Nat.not_le.mp hsmall
    obtain ⟨c, hsq, hsieved⟩ := sieve_sieved two_pos le_rfl (sieved_start limit.toNat)
    simp only [primeTable, if_neg hsmall]
    refine ⟨List.Pairwise.filter _ (List.pairwise_lt_range' (s := 2)), fun n => ?_⟩
    rw [List.mem_filter, List.mem_range'_1, Bool.not_eq_true', ← Bool.not_eq_true]
    constructor
    · rintro ⟨⟨htwo, hlt⟩, hmark⟩
      have hn : n < limit.toNat := by omega
      rw [hsieved.marked n hn, not_or] at hmark
      exact ⟨prime_of_not_crossed htwo (Nat.lt_of_lt_of_le hn hsq) hmark.2, hn⟩
    · rintro ⟨hprime, hn⟩
      have htwo := hprime.two_le
      refine ⟨⟨htwo, by omega⟩, ?_⟩
      rw [hsieved.marked n hn, not_or]
      exact ⟨by omega, not_crossed_of_prime hprime⟩

end DSigMatcher.Hash
