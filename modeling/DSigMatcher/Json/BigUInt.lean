import DSigMatcher.Framework.Limbs
import DSigMatcher.Json.Decimal
import Mathlib

namespace DSigMatcher.Json
open DSigMatcher.Base DSigMatcher.Framework JsonValue

/-- An unsigned integer of 32-bit limbs; the top one is not zero. -/
structure BigUInt where
  limbs : List UInt32
  trimmed : Limbs.Trimmed limbs

namespace BigUInt

def toNat (a : BigUInt) : Nat := Limbs.value a.limbs

def isZero (a : BigUInt) : Bool := a.limbs.isEmpty

theorem isZero_iff (a : BigUInt) : a.isZero = true ↔ a.toNat = 0 := by
  rw [isZero, List.isEmpty_iff, toNat, Limbs.value_eq_zero a.trimmed]

/-- The constructor from a number. -/
def ofUInt64 (value : UInt64) : BigUInt :=
  ⟨Limbs.trim [value.toUInt32,(value >>> 32).toUInt32], Limbs.trim_trimmed _⟩

@[simp] theorem toNat_ofUInt64 (value : UInt64) : (ofUInt64 value).toNat = value.toNat := by
  have hlt := value.toNat_lt
  have hshift : (value >>> 32).toNat = value.toNat/2^32 := by
    rw [UInt64.toNat_shiftRight, Nat.shiftRight_eq_div_pow]
    rfl
  show Limbs.value (Limbs.trim [value.toUInt32,(value >>> 32).toUInt32]) = _
  rw [Limbs.value_trim, Limbs.value_cons, Limbs.value_cons,
    Limbs.value_nil, UInt64.toNat_toUInt32, UInt64.toNat_toUInt32, hshift]
  omega

def mulAdd (a : BigUInt) (factor addend : UInt32) (hf : factor ≠ 0) : BigUInt where
  limbs := Limbs.mulAdd factor addend.toUInt64 a.limbs
  trimmed := Limbs.mulAdd_trimmed hf
    (by rw [UInt32.toNat_toUInt64]; exact addend.toNat_lt) a.trimmed

@[simp] theorem toNat_mulAdd (a : BigUInt) (factor addend : UInt32) (hf : factor ≠ 0) :
    (a.mulAdd factor addend hf).toNat = a.toNat*factor.toNat+addend.toNat := by
  rw [toNat, mulAdd, Limbs.value_mulAdd factor a.limbs _
    (by rw [UInt32.toNat_toUInt64]; exact addend.toNat_lt), UInt32.toNat_toUInt64, toNat]

/-- A product of so many equal small factors. -/
def smallPower (base : UInt32) (count : Nat) : UInt32 := (fun factor => factor*base)^[count] 1

theorem pow10_toNat : ∀ count < 10, (smallPower 10 count).toNat = 10^count := by decide

theorem pow5_toNat : ∀ count < 13, (smallPower 5 count).toNat = 5^count := by decide

theorem pow10_ne_zero {count : Nat} (h : count < 10) : smallPower 10 count ≠ 0 := by
  intro hzero
  have hpow := pow10_toNat count h
  rw [hzero] at hpow
  exact pow_ne_zero count (by norm_num) hpow.symm

theorem pow5_ne_zero {count : Nat} (h : count < 13) : smallPower 5 count ≠ 0 := by
  intro hzero
  have hpow := pow5_toNat count h
  rw [hzero] at hpow
  exact pow_ne_zero count (by norm_num) hpow.symm

def mulPow10 (a : BigUInt) (count : Nat) : BigUInt :=
  if 9 ≤ count then (a.mulAdd 1000000000 0 (by decide)).mulPow10 (count-9)
  else if h : 0 < count ∧ count < 10 then a.mulAdd (smallPower 10 count) 0 (pow10_ne_zero h.2)
  else a
  termination_by count

@[simp] theorem toNat_mulPow10 (a : BigUInt) (count : Nat) :
    (a.mulPow10 count).toNat = a.toNat*10^count := by
  induction count using Nat.strongRecOn generalizing a with
  | ind count ih =>
    rw [mulPow10]
    split_ifs with hlong hshort
    · have hpow : 10^count = 10^9*10^(count-9) := by rw [← pow_add, Nat.add_sub_cancel' hlong]
      have hten : (1000000000 : UInt32).toNat = 10^9 := rfl
      rw [ih (count-9) (by omega), toNat_mulAdd, hten, UInt32.toNat_zero, Nat.add_zero, hpow,
        Nat.mul_assoc]
    · rw [toNat_mulAdd, pow10_toNat count hshort.2, UInt32.toNat_zero, Nat.add_zero]
    · have hzero : count = 0 := by omega
      rw [hzero, pow_zero, Nat.mul_one]

def mulPow5 (a : BigUInt) (count : Nat) : BigUInt :=
  if h : count < 13 then
    if smallPower 5 count ≠ 1 then a.mulAdd (smallPower 5 count) 0 (pow5_ne_zero h) else a
  else (a.mulAdd 1220703125 0 (by decide)).mulPow5 (count-13)
  termination_by count

@[simp] theorem toNat_mulPow5 (a : BigUInt) (count : Nat) :
    (a.mulPow5 count).toNat = a.toNat*5^count := by
  induction count using Nat.strongRecOn generalizing a with
  | ind count ih =>
    rw [mulPow5]
    split_ifs with hshort hone
    · rw [toNat_mulAdd, pow5_toNat count hshort, UInt32.toNat_zero, Nat.add_zero]
    · have hpow := pow5_toNat count hshort
      rw [not_not.mp hone] at hpow
      rw [← hpow]
      exact (Nat.mul_one _).symm
    · have hpow : 5^count = 5^13*5^(count-13) := by
        rw [← pow_add, Nat.add_sub_cancel' (Nat.le_of_not_lt hshort)]
      have hfive : (1220703125 : UInt32).toNat = 5^13 := rfl
      rw [ih (count-13) (by omega), toNat_mulAdd, hfive, UInt32.toNat_zero, Nat.add_zero, hpow,
        Nat.mul_assoc]

def shiftLeft (a : BigUInt) (bits : Nat) : BigUInt :=
  ⟨Limbs.shiftLeft bits a.limbs, (Limbs.shiftLeft_spec bits a.trimmed).2⟩

@[simp] theorem toNat_shiftLeft (a : BigUInt) (bits : Nat) :
    (a.shiftLeft bits).toNat = a.toNat*2^bits :=
  (Limbs.shiftLeft_spec bits a.trimmed).1

def shiftRightOne (a : BigUInt) : BigUInt :=
  ⟨Limbs.trim (Limbs.halveLimbs a.limbs).1, Limbs.trim_trimmed _⟩

@[simp] theorem toNat_shiftRightOne (a : BigUInt) : a.shiftRightOne.toNat = a.toNat/2 := by
  rw [toNat, shiftRightOne, Limbs.value_trim, (Limbs.value_halveLimbs a.limbs).1, toNat]

def bitLength (a : BigUInt) : Nat := Limbs.bitLength a.limbs

def compare (a b : BigUInt) : Ordering := Limbs.compare a.limbs b.limbs

theorem compare_eq (a b : BigUInt) : compare a b = Ord.compare a.toNat b.toNat :=
  Limbs.compare_eq a.trimmed b.trimmed

/-- `Subtract`, for a number that is no larger. -/
def subtract (a b : BigUInt) : BigUInt :=
  ⟨Limbs.trim (Limbs.subtractLimbs 0 a.limbs b.limbs), Limbs.trim_trimmed _⟩

theorem toNat_subtract {a b : BigUInt} (h : b.toNat ≤ a.toNat) :
    (a.subtract b).toNat = a.toNat-b.toNat := by
  have hvalue := Limbs.value_subtractLimbs a.limbs 0 b.limbs (le_refl 0) zero_le_one
    (by rw [add_zero]; exact_mod_cast h)
  rw [toNat, subtract, Limbs.value_trim]
  unfold toNat at h ⊢
  omega

/-- `DivSmall`: the quotient, which takes the place of the number, and the remainder. -/
def divSmall (a : BigUInt) (divisor : UInt32) : BigUInt × UInt32 :=
  (⟨Limbs.trim (Limbs.divLimbs divisor a.limbs).1, Limbs.trim_trimmed _⟩,
    (Limbs.divLimbs divisor a.limbs).2.toUInt32)

theorem toNat_divSmall (a : BigUInt) {divisor : UInt32} (hd : divisor ≠ 0) :
    (a.divSmall divisor).1.toNat = a.toNat/divisor.toNat ∧
      (a.divSmall divisor).2.toNat = a.toNat%divisor.toNat := by
  obtain ⟨hvalue, hrest⟩ := Limbs.value_divLimbs hd a.limbs
  have hd' : 0 < divisor.toNat := Nat.pos_of_ne_zero fun h => hd (UInt32.toNat_inj.mp h)
  have hlt := divisor.toNat_lt
  have hmod := Nat.mod_lt (Limbs.value a.limbs) hd'
  constructor
  · rw [toNat, divSmall, Limbs.value_trim, hvalue, toNat]
  · rw [divSmall, UInt64.toNat_toUInt32, hrest, Nat.mod_eq_of_lt (by omega), toNat]

/-- The remainders by 10^9, the last digits first. -/
def chunks : Nat → BigUInt → List UInt32
  | 0, _ => []
  | fuel+1, work =>
    if work.isZero then []
    else (work.divSmall 1000000000).2::chunks fuel (work.divSmall 1000000000).1

/-- A remainder with all its nine digits. -/
def padded (chunk : UInt32) : Text :=
  List.replicate (9-(decimal chunk.toNat).length) 48 ++ decimal chunk.toNat

def joinChunks : List UInt32 → Text
  | [] => []
  | top::rest => decimal top.toNat ++ rest.flatMap padded

def toDecimal (a : BigUInt) : Text :=
  if a.isZero then text "0" else joinChunks (a.chunks (2*a.limbs.length)).reverse

/-- The number that chunks of nine digits are, the last ones first. -/
def chunksValue (l : List UInt32) : Nat := Nat.ofDigits (10^9) (l.map UInt32.toNat)

theorem chunksValue_cons (c : UInt32) (l : List UInt32) :
    chunksValue (c::l) = c.toNat+10^9*chunksValue l := by
  rw [chunksValue, List.map_cons, Nat.ofDigits_cons]
  rfl

/-- Chunks are joined to the digits of their number. -/
theorem joinChunks_eq (l : List UInt32) (hchunk : ∀ c ∈ l, c.toNat < 10^9)
    (htop : l.getLast? ≠ some 0) (hne : l ≠ []) :
    joinChunks l.reverse = decimal (chunksValue l) ∧ 0 < chunksValue l := by
  induction l with
  | nil => exact absurd rfl hne
  | cons c l ih =>
    rw [chunksValue_cons]
    by_cases hnil : l = []
    · have hc : c.toNat ≠ 0 := by
        intro h
        rw [hnil] at htop
        exact htop (congrArg some (UInt32.toNat_inj.mp h))
      rw [hnil]
      refine ⟨?_, Nat.lt_of_lt_of_le (Nat.pos_of_ne_zero hc) (Nat.le_add_right _ _)⟩
      simp [joinChunks, chunksValue]
    · rw [List.getLast?_cons_of_ne_nil hnil] at htop
      obtain ⟨hjoin, hpos⟩ := ih (fun d hd => hchunk d (List.mem_cons_of_mem _ hd)) htop hnil
      obtain ⟨top, rest, hrest⟩ := List.exists_cons_of_ne_nil (List.reverse_ne_nil_iff.mpr hnil)
      rw [hrest, joinChunks] at hjoin
      refine ⟨?_, by omega⟩
      rw [List.reverse_cons, hrest, List.cons_append, joinChunks, List.flatMap_append,
        ← List.append_assoc, hjoin, List.flatMap_singleton, padded, Nat.add_comm, Nat.mul_comm,
        decimal_split hpos (by norm_num) (hchunk c List.mem_cons_self)]

theorem chunks_spec (fuel : Nat) : ∀ a : BigUInt, a.toNat < (10^9)^fuel →
    chunksValue (chunks fuel a) = a.toNat ∧ (∀ c ∈ chunks fuel a, c.toNat < 10^9) ∧
      (chunks fuel a).getLast? ≠ some 0 := by
  induction fuel with
  | zero =>
    intro a ha
    rw [pow_zero] at ha
    exact ⟨by rw [Nat.lt_one_iff.mp ha]; rfl, by simp [chunks], by simp [chunks]⟩
  | succ fuel ih =>
    intro a ha
    have hten : (1000000000 : UInt32).toNat = 10^9 := rfl
    obtain ⟨hdiv, hmod⟩ := a.toNat_divSmall (show (1000000000 : UInt32) ≠ 0 by decide)
    rw [hten] at hdiv hmod
    rw [pow_succ] at ha
    rw [chunks]
    split_ifs with hzero
    · exact ⟨((isZero_iff a).mp hzero).symm, by simp, by simp⟩
    · have hlt : (a.divSmall 1000000000).1.toNat < (10^9)^fuel := by
        rw [hdiv]
        exact Nat.div_lt_of_lt_mul (by rw [Nat.mul_comm]; exact ha)
      obtain ⟨hvalue, hchunk, hlast⟩ := ih _ hlt
      have hdivmod := Nat.div_add_mod a.toNat (10^9)
      refine ⟨?_, ?_, ?_⟩
      · rw [chunksValue_cons, hvalue, hdiv, hmod]
        omega
      · intro c hc
        rcases List.mem_cons.mp hc with rfl | hc
        · rw [hmod]
          exact Nat.mod_lt _ (by norm_num)
        · exact hchunk c hc
      · by_cases hnil : chunks fuel (a.divSmall 1000000000).1 = []
        · -- the remainder of a number that is not zero and has no chunk before it
          rw [hnil]
          intro hlast
          have hlow : (a.divSmall 1000000000).2 = 0 := Option.some.inj hlast
          have hhigh : chunksValue [] = 0 := rfl
          rw [hnil, hhigh, hdiv] at hvalue
          rw [hlow, UInt32.toNat_zero] at hmod
          exact hzero ((isZero_iff a).mpr (by omega))
        · rwa [List.getLast?_cons_of_ne_nil hnil]

theorem toDecimal_eq (a : BigUInt) : a.toDecimal = decimal a.toNat := by
  have hfuel : a.toNat < (10^9)^(2*a.limbs.length) := by
    calc a.toNat < 2^(32*a.limbs.length) := Limbs.value_lt a.limbs
      _ = (2^32)^a.limbs.length := pow_mul _ _ _
      _ ≤ ((10^9)^2)^a.limbs.length := Nat.pow_le_pow_left (by norm_num) _
      _ = (10^9)^(2*a.limbs.length) := (pow_mul _ _ _).symm
  obtain ⟨hvalue, hchunk, hlast⟩ := chunks_spec _ a hfuel
  unfold toDecimal
  split_ifs with hzero
  · rw [(isZero_iff a).mp hzero]
    rfl
  · have hne : chunks (2*a.limbs.length) a ≠ [] := by
      intro hnil
      rw [hnil] at hvalue
      exact hzero ((isZero_iff a).mpr hvalue.symm)
    rw [(joinChunks_eq _ hchunk hlast hne).1, hvalue]

/-- The number that a few digits are. -/
def chunkValue (t : Text) : UInt32 :=
  t.foldl (fun value c => value*10+(c-48).toUInt32) 0

theorem chunkValue_eq {t : Text} (ht : ∀ c ∈ t, isDigit c = true) (hlen : t.length ≤ 9) :
    (chunkValue t).toNat = digitsValue t := by
  induction t using List.reverseRecOn with
  | nil => rfl
  | append_singleton t c ih =>
    have hdigits : ∀ d ∈ t, isDigit d = true := fun d hd => ht d (List.mem_append_left _ hd)
    have hc := digit_lt (ht c (by simp))
    rw [List.length_append, List.length_singleton] at hlen
    have hinit := ih hdigits (by omega)
    have hlt : digitsValue t < 10^8 :=
      Nat.lt_of_lt_of_le (digitsValue_lt hdigits) (Nat.pow_le_pow_right (by norm_num) (by omega))
    have hdigit : (c-48).toUInt32.toNat = c.toNat-48 := by
      rw [UInt8.toNat_toUInt32, UInt8.toNat_sub_of_le]
      · rfl
      · rw [UInt8.le_iff_toNat_le]
        exact hc.2
    have hten : (10 : UInt32).toNat = 10 := rfl
    rw [digitsValue_append, chunkValue, List.foldl_append, ← chunkValue, List.foldl_cons,
      List.foldl_nil, UInt32.toNat_add, UInt32.toNat_mul, hinit, hten, hdigit]
    omega

/-- `Chunk` of `FromDecimal`. -/
def addChunk (a : BigUInt) (t : Text) (h : t.length < 10) : BigUInt :=
  a.mulAdd (smallPower 10 t.length) (chunkValue t) (pow10_ne_zero h)

theorem toNat_addChunk (a : BigUInt) {t : Text} (h : t.length < 10)
    (ht : ∀ c ∈ t, isDigit c = true) :
    (a.addChunk t h).toNat = a.toNat*10^t.length+digitsValue t := by
  rw [addChunk, toNat_mulAdd, pow10_toNat _ h, chunkValue_eq ht (by omega)]

/-- The loop of `FromDecimal` over nine digits at a time. -/
def addChunks (a : BigUInt) (t : Text) : BigUInt :=
  if t.isEmpty then a
  else (a.addChunk (t.take 9) (by rw [List.length_take]; omega)).addChunks (t.drop 9)
  termination_by t.length
  decreasing_by
    rename_i h
    have hpos := List.length_pos_iff_ne_nil.mpr fun hnil => h (List.isEmpty_iff.mpr hnil)
    rw [List.length_drop]
    omega

theorem toNat_addChunks (n : Nat) : ∀ (a : BigUInt) (t : Text), t.length = n →
    (∀ c ∈ t, isDigit c = true) → (a.addChunks t).toNat = a.toNat*10^t.length+digitsValue t := by
  induction n using Nat.strongRecOn with
  | ind n ih =>
    intro a t hn ht
    rw [addChunks]
    split_ifs with hempty
    · rw [List.isEmpty_iff.mp hempty]
      simp [digitsValue]
    · have hpos := List.length_pos_iff_ne_nil.mpr fun hnil => hempty (List.isEmpty_iff.mpr hnil)
      have hlen : (t.take 9).length+(t.drop 9).length = t.length := by
        rw [List.length_take, List.length_drop]
        omega
      have hsplit := digitsValue_join (t.take 9) (t.drop 9)
      rw [List.take_append_drop] at hsplit
      rw [ih (t.drop 9).length (by rw [List.length_drop]; omega) _ _ rfl
        (fun c hc => ht c (List.drop_subset _ _ hc)),
        toNat_addChunk _ _ (fun c hc => ht c (List.take_subset _ _ hc)), hsplit, ← hlen, pow_add]
      ring

def fromDecimal (digits : Text) : BigUInt :=
  let head := digits.length%9
  let start := ofUInt64 0
  (if head ≠ 0 then start.addChunk (digits.take head) (by rw [List.length_take]; omega)
    else start).addChunks (digits.drop head)

theorem toNat_fromDecimal {digits : Text} (h : ∀ c ∈ digits, isDigit c = true) :
    (fromDecimal digits).toNat = digitsValue digits := by
  have hsplit := digitsValue_join (digits.take (digits.length%9)) (digits.drop (digits.length%9))
  have hdrop : ∀ c ∈ digits.drop (digits.length%9), isDigit c = true := fun c hc =>
    h c (List.drop_subset _ _ hc)
  rw [List.take_append_drop] at hsplit
  unfold fromDecimal
  dsimp only
  rw [toNat_addChunks _ _ _ rfl hdrop, hsplit]
  split_ifs with hhead
  · rw [toNat_addChunk _ _ (fun c hc => h c (List.take_subset _ _ hc)), toNat_ofUInt64]
    simp
  · rw [not_not.mp hhead]
    simp [digitsValue]

/-- The division loop of `DecimalToDouble`, from the highest of so many bits down. -/
def longDivide : Nat → BigUInt → BigUInt → UInt64 → UInt64 × BigUInt
  | 0, numerator, _, quotient => (quotient,numerator)
  | bit+1, numerator, step, quotient =>
    if compare numerator step ≠ .lt then
      longDivide bit (numerator.subtract step) step.shiftRightOne
        (quotient ||| 1 <<< UInt64.ofNat bit)
    else longDivide bit numerator step.shiftRightOne quotient

end BigUInt
end DSigMatcher.Json
