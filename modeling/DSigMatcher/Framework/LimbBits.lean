import DSigMatcher.Framework.Limbs
import Mathlib

namespace DSigMatcher.Framework
namespace Limbs

/-- The loop of `ShiftRight` over the limbs, for fewer bits than a limb has. -/
def dropBits (rest : UInt32) : List UInt32 → List UInt32
  | [] => []
  | x::l => (x >>> rest ||| l.headD 0 <<< (32-rest))::dropBits rest l

/-- `ShiftRight`: whole limbs, then the bits below a limb's. -/
def shiftRight (bits : Nat) (l : List UInt32) : List UInt32 :=
  if l.length ≤ bits/32 then []
  else
    let out := l.drop (bits/32)
    trim (if bits%32 ≠ 0 then dropBits (UInt32.ofNat (bits%32)) out else out)

/-- `Bit`. -/
def bit (index : Nat) (l : List UInt32) : Bool :=
  l[index/32]?.any fun x => x >>> UInt32.ofNat (index%32) &&& 1 ≠ 0

/-- `AnyBelow`: any bit strictly below the index. -/
def anyBelow (index : Nat) (l : List UInt32) : Bool :=
  (l.take (index/32)).any (· ≠ 0) ||
    l[index/32]?.any fun x => index%32 ≠ 0 && x &&& (1 <<< UInt32.ofNat (index%32)-1) ≠ 0

theorem shiftRight_trimmed (bits : Nat) (l : List UInt32) : Trimmed (shiftRight bits l) := by
  unfold shiftRight
  split_ifs
  · exact trimmed_nil
  · exact trim_trimmed _
  · exact trim_trimmed _

/-- A number of bits below a limb's as a word. -/
theorem toNat_rest (index : Nat) : (UInt32.ofNat (index%32)).toNat = index%32 := by
  rw [UInt32.toNat_ofNat', Nat.mod_eq_of_lt (by omega)]

theorem toNat_shiftRest (x : UInt32) (index : Nat) :
    (x >>> UInt32.ofNat (index%32)).toNat = x.toNat/2^(index%32) := by
  rw [UInt32.toNat_shiftRight, toNat_rest, Nat.mod_mod, Nat.shiftRight_eq_div_pow]

/-- The limbs from one on are what is left of the number above their bits. -/
theorem value_drop (n : Nat) (l : List UInt32) : value l/2^(32*n) = value (l.drop n) := by
  rcases Nat.lt_or_ge l.length n with hshort | hlong
  · have hpow : 2^(32*l.length) ≤ 2^(32*n) := Nat.pow_le_pow_right two_pos (by omega)
    rw [List.drop_eq_nil_of_le (Nat.le_of_lt hshort), value_nil,
      Nat.div_eq_of_lt ((value_lt l).trans_le hpow)]
  · have hlow := value_lt (l.take n)
    have hsplit := value_append (l.take n) (l.drop n)
    rw [List.take_append_drop] at hsplit
    rw [List.length_take, Nat.min_eq_left hlong] at hlow hsplit
    rw [hsplit, Nat.add_mul_div_left _ _ (Nat.two_pow_pos _), Nat.div_eq_of_lt hlow, Nat.zero_add]

theorem value_take (n : Nat) (l : List UInt32) : value l%2^(32*n) = value (l.take n) := by
  rcases Nat.lt_or_ge l.length n with hshort | hlong
  · have hpow : 2^(32*l.length) ≤ 2^(32*n) := Nat.pow_le_pow_right two_pos (by omega)
    rw [List.take_of_length_le (Nat.le_of_lt hshort), Nat.mod_eq_of_lt ((value_lt l).trans_le hpow)]
  · have hlow := value_lt (l.take n)
    have hsplit := value_append (l.take n) (l.drop n)
    rw [List.take_append_drop] at hsplit
    rw [List.length_take, Nat.min_eq_left hlong] at hlow hsplit
    rw [hsplit, Nat.add_mul_mod_self_left, Nat.mod_eq_of_lt hlow]

/-- A power of two by whole limbs and the bits below a limb's. -/
theorem pow_bits (bits : Nat) : 2^bits = 2^(32*(bits/32))*2^(bits%32) := by
  rw [← pow_add, Nat.div_add_mod]

/-- The first limb of a number, and none of a number without limbs. -/
theorem headD_eq (l : List UInt32) : (l.headD 0).toNat = value l%2^32 := by
  have hx := (l.headD 0).toNat_lt
  have hsplit := value_headD_tail l
  omega

theorem value_dropBits {rest : UInt32} (hrest : 0 < rest.toNat) (hlt : rest.toNat < 32)
    (l : List UInt32) : value (dropBits rest l) = value l/2^rest.toNat := by
  have hpow : 2^32 = 2^rest.toNat*2^(32-rest.toNat) := by
    rw [← pow_add, Nat.add_sub_cancel' (Nat.le_of_lt hlt)]
  have hpos := Nat.two_pow_pos rest.toNat
  induction l with
  | nil => exact (Nat.zero_div _).symm
  | cons x l ih =>
    have h32 : (32-rest).toNat = 32-rest.toNat := by
      rw [UInt32.toNat_sub_of_le]
      · rfl
      · rw [UInt32.le_iff_toNat_le]
        exact Nat.le_of_lt hlt
    have hdown : (x >>> rest).toNat = x.toNat/2^rest.toNat := by
      rw [UInt32.toNat_shiftRight, Nat.mod_eq_of_lt hlt, Nat.shiftRight_eq_div_pow]
    have hsmall : (x >>> rest).toNat < 2^(32-rest.toNat) := by
      rw [hdown]
      exact Nat.div_lt_of_lt_mul (hpow ▸ x.toNat_lt)
    have hup : (l.headD 0 <<< (32-rest)).toNat = 2^(32-rest.toNat)*(value l%2^rest.toNat) := by
      have hmod : value l%2^32%2^rest.toNat = value l%2^rest.toNat :=
        Nat.mod_mod_of_dvd _ (hpow ▸ Nat.dvd_mul_right _ _)
      have hup32 : (32-rest.toNat)%32 = 32-rest.toNat := Nat.mod_eq_of_lt (by omega)
      rw [UInt32.toNat_shiftLeft, h32, hup32, Nat.shiftLeft_eq, hpow, Nat.mul_mod_mul_right, headD_eq,
        hmod, Nat.mul_comm]
    have hlimb : (x >>> rest ||| l.headD 0 <<< (32-rest)).toNat =
        2^(32-rest.toNat)*(value l%2^rest.toNat)+x.toNat/2^rest.toNat := by
      rw [UInt32.toNat_or, hup, Nat.or_comm, ← Nat.two_pow_add_eq_or_of_lt hsmall, hdown]
    have hwhole : (x.toNat+2^32*value l)/2^rest.toNat =
        x.toNat/2^rest.toNat+2^(32-rest.toNat)*value l := by
      rw [hpow, Nat.mul_assoc, Nat.add_mul_div_left _ _ hpos]
    have hdivmod := Nat.div_add_mod (value l) (2^rest.toNat)
    rw [dropBits, value_cons, value_cons, hlimb, ih, hwhole]
    conv_rhs => rw [← hdivmod]
    rw [hpow]
    ring

theorem value_shiftRight (bits : Nat) (l : List UInt32) :
    value (shiftRight bits l) = value l/2^bits := by
  have hsplit : value l/2^bits = value (l.drop (bits/32))/2^(bits%32) := by
    rw [pow_bits, ← Nat.div_div_eq_div_mul, value_drop]
  rw [hsplit]
  unfold shiftRight
  dsimp only
  split_ifs with hnone hrest
  · rw [List.drop_eq_nil_of_le hnone, value_nil, Nat.zero_div]
  · have hdrop := @value_dropBits (UInt32.ofNat (bits%32)) (by rw [toNat_rest]; omega)
      (by rw [toNat_rest]; omega) (l.drop (bits/32))
    rw [value_trim, hdrop, toNat_rest]
  · rw [value_trim, not_not.mp hrest, pow_zero, Nat.div_one]

/-- The limb at a position is the first of those that are left. -/
theorem drop_cases (n : Nat) (l : List UInt32) :
    l[n]? = none ∧ l.drop n = [] ∨ ∃ x, l[n]? = some x ∧ l.drop n = x::l.drop (n+1) := by
  rcases Nat.lt_or_ge n l.length with hlt | hge
  · exact .inr ⟨l[n], List.getElem?_eq_getElem hlt, List.drop_eq_getElem_cons hlt⟩
  · exact .inl ⟨List.getElem?_eq_none hge, List.drop_eq_nil_of_le hge⟩

theorem bit_iff (index : Nat) (l : List UInt32) :
    bit index l = true ↔ value l/2^index%2 = 1 := by
  have hsplit : value l/2^index = value (l.drop (index/32))/2^(index%32) := by
    rw [pow_bits, ← Nat.div_div_eq_div_mul, value_drop]
  rw [bit, hsplit]
  rcases drop_cases (index/32) l with ⟨hget, hdrop⟩ | ⟨x, hget, hdrop⟩
  · rw [hget, hdrop, value_nil, Nat.zero_div]
    simp
  · have hpow : 2^32 = 2^(index%32)*(2*2^(31-index%32)) := by
      rw [← pow_succ', ← pow_add]
      congr 1
      omega
    have hlow : (x >>> UInt32.ofNat (index%32) &&& 1).toNat = x.toNat/2^(index%32)%2 := by
      rw [UInt32.toNat_and, toNat_shiftRest]
      exact Nat.and_one_is_mod _
    have hfirst : (x.toNat+2^32*value (l.drop (index/32+1)))/2^(index%32)%2 =
        x.toNat/2^(index%32)%2 := by
      rw [hpow, Nat.mul_assoc, Nat.add_mul_div_left _ _ (Nat.two_pow_pos _), Nat.mul_assoc,
        Nat.add_mul_mod_self_left]
    rw [hget, hdrop, value_cons, hfirst, Option.any_some, decide_eq_true_iff, ne_eq, ← UInt32.toNat_inj,
      hlow, UInt32.toNat_zero]
    omega

theorem any_ne_zero_iff (l : List UInt32) : l.any (· ≠ 0) = true ↔ value l ≠ 0 := by
  induction l with
  | nil => simp
  | cons x l ih =>
    rw [List.any_cons, Bool.or_eq_true, ih, decide_eq_true_iff, value_cons, ne_eq, ← UInt32.toNat_inj,
      UInt32.toNat_zero]
    omega

theorem toNat_mask (index : Nat) :
    (1 <<< UInt32.ofNat (index%32)-1 : UInt32).toNat = 2^(index%32)-1 := by
  have hlt : 2^(index%32) < 2^32 := Nat.pow_lt_pow_right one_lt_two (by omega)
  have hshift : (1 <<< UInt32.ofNat (index%32) : UInt32).toNat = 2^(index%32) := by
    rw [UInt32.toNat_shiftLeft, toNat_rest, Nat.mod_mod, Nat.shiftLeft_eq, UInt32.toNat_one,
      Nat.one_mul, Nat.mod_eq_of_lt hlt]
  rw [UInt32.toNat_sub_of_le, hshift, UInt32.toNat_one]
  rw [UInt32.le_iff_toNat_le, hshift]
  exact Nat.one_le_two_pow

theorem anyBelow_iff (index : Nat) (l : List UInt32) :
    anyBelow index l = true ↔ value l%2^index ≠ 0 := by
  have hsplit : value l%2^index =
      value (l.take (index/32))+2^(32*(index/32))*(value (l.drop (index/32))%2^(index%32)) := by
    rw [pow_bits, Nat.mod_mul, value_take, value_drop]
  have hpos := Nat.two_pow_pos (32*(index/32))
  have hhigh : l[index/32]?.any
      (fun x => index%32 ≠ 0 && x &&& (1 <<< UInt32.ofNat (index%32)-1) ≠ 0) = true ↔
      value (l.drop (index/32))%2^(index%32) ≠ 0 := by
    rcases drop_cases (index/32) l with ⟨hget, hdrop⟩ | ⟨x, hget, hdrop⟩
    · rw [hget, hdrop, value_nil, Nat.zero_mod]
      simp
    · have hpow : 2^32 = 2^(index%32)*2^(32-index%32) := by
        rw [← pow_add]
        congr 1
        omega
      have hmask : (x &&& (1 <<< UInt32.ofNat (index%32)-1)).toNat = x.toNat%2^(index%32) := by
        rw [UInt32.toNat_and, toNat_mask, Nat.and_two_pow_sub_one_eq_mod]
      have hfirst : (x.toNat+2^32*value (l.drop (index/32+1)))%2^(index%32) =
          x.toNat%2^(index%32) := by
        rw [hpow, Nat.mul_assoc, Nat.add_mul_mod_self_left]
      rw [hget, hdrop, value_cons, hfirst, Option.any_some, Bool.and_eq_true, decide_eq_true_iff,
        decide_eq_true_iff, ne_eq (x &&& _), ← UInt32.toNat_inj, hmask, UInt32.toNat_zero]
      constructor
      · exact fun h => h.2
      · intro hne
        refine ⟨fun hzero => hne ?_, hne⟩
        rw [hzero, pow_zero, Nat.mod_one]
  rw [anyBelow, Bool.or_eq_true, any_ne_zero_iff, hhigh, hsplit]
  constructor
  · rintro (hlow | hhigh) hzero
    · exact hlow (Nat.add_eq_zero_iff.mp hzero).1
    · exact hhigh ((Nat.mul_eq_zero.mp (Nat.add_eq_zero_iff.mp hzero).2).resolve_left hpos.ne')
  · intro hne
    by_contra hnone
    obtain ⟨hlow, hhigh⟩ := not_or.mp hnone
    exact hne (by rw [not_not.mp hlow, not_not.mp hhigh, Nat.mul_zero])

end Limbs
end DSigMatcher.Framework
