import DSigMatcher.Framework.Primes
import DSigMatcher.Hash.KghBigUInt
import Mathlib

namespace DSigMatcher.Hash
open DSigMatcher.Base DSigMatcher.Framework DSigMatcher.Json

inductive KghPrimeIndex
  | nodeEntry | nodeExit | nodeNormal | edgeInConditional | edgeOutConditional | featureLoop
  | featureCall | featureDataRefs | featureCallRef | featureStronglyConnected
  | featureFuncNoRet | featureFuncLib | featureFuncThunk
  deriving DecidableEq

namespace KghPrimeIndex

/-- The indices in order. -/
def all : List KghPrimeIndex :=
  [.nodeEntry, .nodeExit, .nodeNormal, .edgeInConditional, .edgeOutConditional, .featureLoop,
    .featureCall, .featureDataRefs, .featureCallRef, .featureStronglyConnected,
    .featureFuncNoRet, .featureFuncLib, .featureFuncThunk]

instance : Fintype KghPrimeIndex := ⟨all.toFinset, fun i => by cases i <;> decide⟩

def kghPrimes : KghPrimeIndex → UInt32
  | .nodeEntry => 2
  | .nodeExit => 3
  | .nodeNormal => 5
  | .edgeInConditional => 7
  | .edgeOutConditional => 11
  | .featureLoop => 19
  | .featureCall => 23
  | .featureDataRefs => 29
  | .featureCallRef => 31
  | .featureStronglyConnected => 37
  | .featureFuncNoRet => 41
  | .featureFuncLib => 43
  | .featureFuncThunk => 47

theorem kghPrimes_prime (i : KghPrimeIndex) : i.kghPrimes.toNat.Prime := by
  cases i <;> simp only [kghPrimes, UInt32.toNat_ofNat] <;> norm_num

theorem kghPrimes_injective : Function.Injective fun i : KghPrimeIndex => i.kghPrimes.toNat := by
  decide

theorem prod_all (g : KghPrimeIndex → Nat) : (all.map g).prod = ∏ i, g i := by
  have hnodup : all.Nodup := by decide
  exact (List.prod_toFinset g hnodup).symm

end KghPrimeIndex

/-- How often each feature prime was accumulated. -/
structure KghAccumulator where
  exponents : KghPrimeIndex → UInt64

namespace KghAccumulator

def start : KghAccumulator := ⟨fun _ => 0⟩

def multiplyPower (a : KghAccumulator) (prime : KghPrimeIndex) (exponent : UInt64) :
    KghAccumulator := ⟨Function.update a.exponents prime (a.exponents prime+exponent)⟩

def multiply (a : KghAccumulator) (prime : KghPrimeIndex) : KghAccumulator :=
  ⟨Function.update a.exponents prime (a.exponents prime+1)⟩

def addBlock (a : KghAccumulator) (successorCount predecessorCount : UInt64) : KghAccumulator :=
  let a := if predecessorCount = 0 then a.multiply .nodeEntry else a
  let a := if successorCount = 0 then a.multiply .nodeExit else a
  let a := a.multiply .nodeNormal
  let a := a.multiplyPower .edgeOutConditional successorCount
  a.multiplyPower .edgeInConditional predecessorCount

def addLoopComponents (a : KghAccumulator) (loopComponents : UInt64) : KghAccumulator :=
  a.multiplyPower .featureLoop loopComponents

def addStronglyConnectedCount (a : KghAccumulator) (componentCount : UInt64) : KghAccumulator :=
  a.multiplyPower .featureStronglyConnected componentCount

def addFunctionFlags (a : KghAccumulator) (noReturn library thunk : Bool) : KghAccumulator :=
  let a := if noReturn then a.multiply .featureFuncNoRet else a
  let a := if library then a.multiply .featureFuncLib else a
  if thunk then a.multiply .featureFuncThunk else a

def toDecimalString (a : KghAccumulator) : Text :=
  (KghPrimeIndex.all.foldl (fun result i =>
    if a.exponents i = 0 then result
    else result.multiplyBig (BigUInt.power i.kghPrimes (a.exponents i)))
    (BigUInt.ofUInt32 1)).toDecimalString

end KghAccumulator

/-- What is accumulated, one call after the other. -/
inductive KghStep
  | multiply (prime : KghPrimeIndex)
  | multiplyPower (prime : KghPrimeIndex) (exponent : UInt64)
  | addBlock (successorCount predecessorCount : UInt64)
  | addLoopComponents (loopComponents : UInt64)
  | addStronglyConnectedCount (componentCount : UInt64)
  | addFunctionFlags (noReturn library thunk : Bool)

namespace KghStep

def apply (a : KghAccumulator) : KghStep → KghAccumulator
  | .multiply prime => a.multiply prime
  | .multiplyPower prime exponent => a.multiplyPower prime exponent
  | .addBlock successorCount predecessorCount => a.addBlock successorCount predecessorCount
  | .addLoopComponents loopComponents => a.addLoopComponents loopComponents
  | .addStronglyConnectedCount componentCount => a.addStronglyConnectedCount componentCount
  | .addFunctionFlags noReturn library thunk => a.addFunctionFlags noReturn library thunk

/-- How often a call accumulates a prime. -/
def count : KghStep → KghPrimeIndex → Nat
  | .multiply prime, i => if i = prime then 1 else 0
  | .multiplyPower prime exponent, i => if i = prime then exponent.toNat else 0
  | .addBlock successorCount predecessorCount, i =>
    match i with
    | .nodeEntry => if predecessorCount = 0 then 1 else 0
    | .nodeExit => if successorCount = 0 then 1 else 0
    | .nodeNormal => 1
    | .edgeOutConditional => successorCount.toNat
    | .edgeInConditional => predecessorCount.toNat
    | _ => 0
  | .addLoopComponents loopComponents, i => if i = .featureLoop then loopComponents.toNat else 0
  | .addStronglyConnectedCount componentCount, i =>
    if i = .featureStronglyConnected then componentCount.toNat else 0
  | .addFunctionFlags noReturn library thunk, i =>
    match i with
    | .featureFuncNoRet => noReturn.toNat
    | .featureFuncLib => library.toNat
    | .featureFuncThunk => thunk.toNat
    | _ => 0

end KghStep

def accumulate (steps : List KghStep) : KghAccumulator := steps.foldl KghStep.apply .start

def occurrences (steps : List KghStep) (i : KghPrimeIndex) : Nat :=
  (steps.map fun step => step.count i).sum

theorem multiplyPower_exponents (a : KghAccumulator) (prime i : KghPrimeIndex) (exponent : UInt64) :
    ((a.multiplyPower prime exponent).exponents i).toNat =
      ((a.exponents i).toNat+if i = prime then exponent.toNat else 0)%2^64 := by
  have hlt := (a.exponents i).toNat_lt
  show (Function.update a.exponents prime (a.exponents prime+exponent) i).toNat = _
  by_cases h : i = prime
  · subst h
    rw [Function.update_self, if_pos rfl, UInt64.toNat_add]
  · rw [Function.update_of_ne h, if_neg h, Nat.add_zero, Nat.mod_eq_of_lt hlt]

theorem multiply_exponents (a : KghAccumulator) (prime i : KghPrimeIndex) :
    ((a.multiply prime).exponents i).toNat =
      ((a.exponents i).toNat+if i = prime then 1 else 0)%2^64 :=
  multiplyPower_exponents a prime i 1

theorem multiply_if_exponents (c : Prop) [Decidable c] (a : KghAccumulator)
    (prime i : KghPrimeIndex) :
    ((if c then a.multiply prime else a).exponents i).toNat =
      ((a.exponents i).toNat+if c ∧ i = prime then 1 else 0)%2^64 := by
  have hlt := (a.exponents i).toNat_lt
  by_cases h : c
  · rw [if_pos h, multiply_exponents]
    simp only [h, true_and]
  · rw [if_neg h, if_neg fun hand => h hand.1, Nat.add_zero, Nat.mod_eq_of_lt hlt]

/-- A call adds what it accumulates, in 64 bits. -/
theorem apply_exponents (a : KghAccumulator) (step : KghStep) (i : KghPrimeIndex) :
    ((step.apply a).exponents i).toNat = ((a.exponents i).toNat+step.count i)%2^64 := by
  cases step with
  | multiply prime => exact multiply_exponents a prime i
  | multiplyPower prime exponent => exact multiplyPower_exponents a prime i exponent
  | addBlock successorCount predecessorCount =>
    simp only [KghStep.apply, KghAccumulator.addBlock, multiplyPower_exponents, multiply_exponents,
      multiply_if_exponents, Nat.mod_add_mod, Nat.add_assoc]
    congr 2
    cases i <;> simp [KghStep.count]
  | addLoopComponents loopComponents => exact multiplyPower_exponents a _ i loopComponents
  | addStronglyConnectedCount componentCount => exact multiplyPower_exponents a _ i componentCount
  | addFunctionFlags noReturn library thunk =>
    simp only [KghStep.apply, KghAccumulator.addFunctionFlags, multiply_if_exponents,
      Nat.mod_add_mod, Nat.add_assoc]
    congr 2
    cases i <;> cases noReturn <;> cases library <;> cases thunk <;> rfl

theorem foldl_exponents (steps : List KghStep) (a : KghAccumulator) (i : KghPrimeIndex) :
    ((steps.foldl KghStep.apply a).exponents i).toNat =
      ((a.exponents i).toNat+occurrences steps i)%2^64 := by
  induction steps generalizing a with
  | nil =>
    rw [occurrences, List.map_nil, List.sum_nil, Nat.add_zero,
      Nat.mod_eq_of_lt (a.exponents i).toNat_lt]
    rfl
  | cons step steps ih =>
    rw [List.foldl_cons, ih, apply_exponents, Nat.mod_add_mod, Nat.add_assoc]
    rfl

/-- The counters hold how often each prime was accumulated, in 64 bits. -/
theorem accumulate_exponents (steps : List KghStep) (i : KghPrimeIndex) :
    ((accumulate steps).exponents i).toNat = occurrences steps i%2^64 := by
  rw [accumulate, foldl_exponents]
  show (0+_)%_ = _
  rw [Nat.zero_add]

/-- The loop over the primes multiplies their powers. -/
theorem powers_toNat (exponents : KghPrimeIndex → UInt64) (l : List KghPrimeIndex)
    (result : BigUInt) :
    (l.foldl (fun result i =>
      if exponents i = 0 then result
      else result.multiplyBig (BigUInt.power i.kghPrimes (exponents i))) result).toNat =
      result.toNat*(l.map fun i => i.kghPrimes.toNat^(exponents i).toNat).prod := by
  induction l generalizing result with
  | nil => simp
  | cons i l ih =>
    rw [List.foldl_cons, ih, List.map_cons, List.prod_cons, ← mul_assoc]
    congr 1
    split_ifs with hzero
    · rw [hzero, UInt64.toNat_zero, pow_zero, mul_one]
    · rw [BigUInt.toNat_multiplyBig, BigUInt.toNat_power]

theorem toDecimalString_product (a : KghAccumulator) :
    a.toDecimalString = decimal (∏ i, i.kghPrimes.toNat^(a.exponents i).toNat) := by
  rw [KghAccumulator.toDecimalString, BigUInt.toDecimalString_eq, powers_toNat,
    KghPrimeIndex.prod_all, BigUInt.toNat_ofUInt32, UInt32.toNat_one, one_mul]

theorem decimal_injective {m n : Nat} (h : decimal m = decimal n) : m = n := by
  rw [← (digitsValue_decimal m).1, h, (digitsValue_decimal n).1]

/-- The hash is the product of the primes, each as often as it was accumulated in 64 bits, in
decimal without a leading zero. It does not depend on the order, and two hashes are equal if and
only if these numbers are. -/
theorem kghHash_exact (steps : List KghStep) :
    (accumulate steps).toDecimalString =
        decimal (∏ i, i.kghPrimes.toNat^(occurrences steps i%2^64)) ∧
      (accumulate steps).toDecimalString.head? ≠ some 48 ∧
      (∀ steps', steps.Perm steps' →
        (accumulate steps').toDecimalString = (accumulate steps).toDecimalString) ∧
      ∀ steps', (accumulate steps).toDecimalString = (accumulate steps').toDecimalString ↔
        ∀ i, occurrences steps i%2^64 = occurrences steps' i%2^64 := by
  have htext : ∀ steps, (accumulate steps).toDecimalString =
      decimal (∏ i, i.kghPrimes.toNat^(occurrences steps i%2^64)) := by
    intro steps
    rw [toDecimalString_product]
    simp only [accumulate_exponents]
  have hequal : ∀ steps', (accumulate steps).toDecimalString = (accumulate steps').toDecimalString ↔
      ∀ i, occurrences steps i%2^64 = occurrences steps' i%2^64 := by
    intro steps'
    rw [htext, htext, ← prod_pow_eq_iff KghPrimeIndex.kghPrimes_prime
      KghPrimeIndex.kghPrimes_injective]
    exact ⟨decimal_injective, congrArg decimal⟩
  refine ⟨htext steps, ?_, fun steps' hperm => ?_, hequal⟩
  · rw [htext]
    apply decimal_head_ne
    exact Finset.prod_ne_zero_iff.mpr fun i _ => pow_ne_zero _ (KghPrimeIndex.kghPrimes_prime i).ne_zero
  · refine ((hequal steps').mpr fun i => ?_).symm
    rw [occurrences, occurrences, (hperm.map _).sum_eq]

/-- A counter that has wrapped: the prime was accumulated 2^64 times, and the text is that of a hash
into which nothing was accumulated. -/
theorem kghHash_wrap :
    (accumulate [.multiplyPower .nodeEntry 0xFFFFFFFFFFFFFFFF, .multiply .nodeEntry]).toDecimalString =
      (accumulate []).toDecimalString ∧
    occurrences [.multiplyPower .nodeEntry 0xFFFFFFFFFFFFFFFF, .multiply .nodeEntry] .nodeEntry ≠
      occurrences [] .nodeEntry := by
  constructor
  · rw [toDecimalString_product, toDecimalString_product]
    refine congrArg decimal (Finset.prod_congr rfl fun i _ => ?_)
    rw [accumulate_exponents, accumulate_exponents]
    cases i <;> rfl
  · decide

end DSigMatcher.Hash
