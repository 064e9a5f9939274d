import Mathlib

namespace DSigMatcher.Framework

section
variable {ι : Type*} [Fintype ι] {f : ι → Nat} {e e' : ι → Nat}

/-- The exponent of a prime in a product of powers of different primes. -/
theorem factorization_prod_pow (hf : ∀ i, (f i).Prime) (hinj : Function.Injective f) (i : ι) :
    (∏ j, f j^e j).factorization (f i) = e i := by
  have hne : ∀ j ∈ Finset.univ, f j^e j ≠ 0 := fun j _ => pow_ne_zero _ (hf j).ne_zero
  rw [Nat.factorization_prod hne, Finsupp.finsetSum_apply, Finset.sum_eq_single i]
  · rw [(hf i).factorization_pow, Finsupp.single_eq_same]
  · intro j _ hj
    rw [(hf j).factorization_pow, Finsupp.single_eq_of_ne]
    exact fun h => hj (hinj h).symm
  · exact fun h => absurd (Finset.mem_univ i) h

/-- Products of powers of different primes are equal only where the exponents are. -/
theorem prod_pow_eq_iff (hf : ∀ i, (f i).Prime) (hinj : Function.Injective f) :
    ∏ j, f j^e j = ∏ j, f j^e' j ↔ ∀ i, e i = e' i := by
  constructor
  · intro h i
    rw [← factorization_prod_pow hf hinj (e := e), h, factorization_prod_pow hf hinj]
  · intro h
    exact Finset.prod_congr rfl fun i _ => by rw [h i]

end

namespace Sieve

/-- A prime below the candidate crosses a number out: it divides it and its square is no larger. -/
def Crossed (candidate n : Nat) : Prop := ∃ p < candidate, p.Prime ∧ p ∣ n ∧ p*p ≤ n

theorem not_crossed_two (n : Nat) : ¬ Crossed 2 n := by
  rintro ⟨p, hlt, hp, -⟩
  have htwo := hp.two_le
  omega

theorem Crossed.mono {c d n : Nat} (h : Crossed c n) (hcd : c ≤ d) : Crossed d n := by
  obtain ⟨p, hlt, hp⟩ := h
  exact ⟨p, Nat.lt_of_lt_of_le hlt hcd, hp⟩

/-- A number that no prime below it crosses out is a prime. -/
theorem prime_of_not_crossed {c n : Nat} (hn : 2 ≤ n) (hc : n < c*c) (h : ¬ Crossed c n) :
    n.Prime := by
  by_contra hprime
  have hmin := Nat.minFac_prime (show n ≠ 1 by omega)
  have hsq : n.minFac^2 ≤ n := Nat.minFac_sq_le_self (by omega) hprime
  rw [pow_two] at hsq
  have hlt : n.minFac < c := by
    by_contra hge
    have hmul : c*c ≤ n.minFac*n.minFac := Nat.mul_le_mul (by omega) (by omega)
    omega
  exact h ⟨n.minFac, hlt, hmin, Nat.minFac_dvd n, hsq⟩

theorem not_crossed_of_prime {c n : Nat} (hn : n.Prime) : ¬ Crossed c n := by
  rintro ⟨p, -, hp, hdvd, hsq⟩
  obtain rfl := (Nat.prime_dvd_prime_iff_eq hp hn).mp hdvd
  have htwo := hp.two_le
  have hmul : p*2 ≤ p*p := Nat.mul_le_mul_left p htwo
  omega

/-- Below the square of the candidate what is left are the primes. -/
theorem not_crossed_iff {c n : Nat} (hn : 2 ≤ n) (hc : n < c*c) : ¬ Crossed c n ↔ n.Prime :=
  ⟨prime_of_not_crossed hn hc, not_crossed_of_prime⟩

/-- The candidate itself is left if and only if it is a prime. -/
theorem candidate_iff {c : Nat} (hc : 2 ≤ c) : ¬ Crossed c c ↔ c.Prime := by
  apply not_crossed_iff hc
  have hmul : c*2 ≤ c*c := Nat.mul_le_mul_left c hc
  omega

/-- The round of a prime candidate crosses its multiples out from its square on. -/
theorem crossed_succ_of_prime {c n : Nat} (hc : c.Prime) :
    Crossed (c+1) n ↔ Crossed c n ∨ c ∣ n ∧ c*c ≤ n := by
  constructor
  · rintro ⟨p, hlt, hp, hdvd, hsq⟩
    rcases Nat.lt_or_eq_of_le (Nat.le_of_lt_succ hlt) with hlt | rfl
    · exact .inl ⟨p, hlt, hp, hdvd, hsq⟩
    · exact .inr ⟨hdvd, hsq⟩
  · rintro (h | ⟨hdvd, hsq⟩)
    · exact h.mono (Nat.le_succ c)
    · exact ⟨c, Nat.lt_succ_self c, hc, hdvd, hsq⟩

/-- The round of a candidate that is crossed out changes nothing. -/
theorem crossed_succ_of_crossed {c n : Nat} (hc : 2 ≤ c) (h : Crossed c c) :
    Crossed (c+1) n ↔ Crossed c n := by
  constructor
  · rintro ⟨p, hlt, hp, hdvd, hsq⟩
    rcases Nat.lt_or_eq_of_le (Nat.le_of_lt_succ hlt) with hlt | rfl
    · exact ⟨p, hlt, hp, hdvd, hsq⟩
    · exact absurd h ((candidate_iff hc).mpr hp)
  · intro h
    exact h.mono (Nat.le_succ c)

end Sieve

end DSigMatcher.Framework
