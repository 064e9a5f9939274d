import Mathlib

namespace DSigMatcher.Framework
namespace Limbs

/-- The integer that 32-bit limbs are, the lowest limb first. -/
def value (l : List UInt32) : Nat := Nat.ofDigits (2^32) (l.map UInt32.toNat)

@[simp] theorem value_nil : value [] = 0 := rfl

@[simp] theorem value_cons (x : UInt32) (l : List UInt32) :
    value (x::l) = x.toNat+2^32*value l := by
  rw [value, List.map_cons, Nat.ofDigits_cons]
  rfl

theorem value_append (l l' : List UInt32) :
    value (l ++ l') = value l+2^(32*l.length)*value l' := by
  rw [value, List.map_append, Nat.ofDigits_append, List.length_map, ← pow_mul]
  rfl

theorem value_lt (l : List UInt32) : value l < 2^(32*l.length) := by
  induction l with
  | nil => exact Nat.one_pos
  | cons x l ih =>
    have hx := x.toNat_lt
    have hpow : 2^(32*(x::l).length) = 2^32*2^(32*l.length) := by
      rw [List.length_cons, ← pow_add]
      congr 1
      omega
    rw [value_cons, hpow]
    omega

theorem value_replicate (n : Nat) (l : List UInt32) :
    value (List.replicate n 0 ++ l) = 2^(32*n)*value l := by
  rw [value_append, List.length_replicate]
  have hzero : value (List.replicate n 0) = 0 := by
    induction n with
    | zero => rfl
    | succ n ih => rw [List.replicate_succ, value_cons, ih]; rfl
  rw [hzero, Nat.zero_add]

/-- No zero limb at the top. -/
def Trimmed (l : List UInt32) : Prop := l.getLast? ≠ some 0

theorem trimmed_nil : Trimmed [] := by simp [Trimmed]

/-- Limbs are trimmed if their integer needs that many of them. -/
theorem trimmed_iff (l : List UInt32) : Trimmed l ↔ l = [] ∨ 2^(32*(l.length-1)) ≤ value l := by
  rcases List.eq_nil_or_concat l with rfl | ⟨l, x, rfl⟩
  · simp [trimmed_nil]
  · rw [List.concat_eq_append, Trimmed, List.getLast?_concat, value_append, List.length_append,
      List.length_singleton, Nat.add_sub_cancel, value_cons, value_nil, Nat.mul_zero, Nat.add_zero]
    have hlt := value_lt l
    have hpos := Nat.two_pow_pos (32*l.length)
    constructor
    · intro hx
      right
      have hx0 : x.toNat ≠ 0 := fun h => hx (congrArg some (UInt32.toNat_inj.mp h))
      exact Nat.le_trans (Nat.le_mul_of_pos_right _ (Nat.pos_of_ne_zero hx0)) (Nat.le_add_left _ _)
    · rintro (hnil | hle) hx
      · simp at hnil
      · rw [Option.some.inj hx, UInt32.toNat_zero, Nat.mul_zero, Nat.add_zero] at hle
        omega

/-- Limbs without the zeros at the top. -/
def trim (l : List UInt32) : List UInt32 := l.rdropWhile (· = 0)

theorem trim_trimmed (l : List UInt32) : Trimmed (trim l) := by
  intro h
  have hne : trim l ≠ [] := by
    intro hnil
    rw [hnil] at h
    simp at h
  have hlast := List.rdropWhile_last_not (fun x : UInt32 => decide (x = 0)) l hne
  rw [List.getLast?_eq_some_getLast hne, Option.some.injEq] at h
  exact hlast (decide_eq_true h)

theorem value_trim (l : List UInt32) : value (trim l) = value l := by
  induction l using List.reverseRecOn with
  | nil => rfl
  | append_singleton l x ih =>
    rw [trim, List.rdropWhile_concat]
    split_ifs with hx
    · rw [← trim, ih, value_append, of_decide_eq_true hx]
      simp
    · rfl

theorem value_eq_zero {l : List UInt32} (h : Trimmed l) : value l = 0 ↔ l = [] := by
  constructor
  · intro hzero
    rcases (trimmed_iff l).mp h with hnil | hle
    · exact hnil
    · have hpos := Nat.two_pow_pos (32*(l.length-1))
      omega
  · rintro rfl
    rfl

/-- The loop of `MulAdd`. -/
def mulAdd (factor : UInt32) : UInt64 → List UInt32 → List UInt32
  | carry, [] => if carry ≠ 0 then [carry.toUInt32] else []
  | carry, x::l =>
    let product := x.toUInt64*factor.toUInt64+carry
    product.toUInt32::mulAdd factor (product >>> 32) l

/-- A product of two limbs and a carry fit in 64 bits. -/
theorem product_toNat {x factor : UInt32} {carry : UInt64} (hcarry : carry.toNat < 2^32) :
    (x.toUInt64*factor.toUInt64+carry).toNat = x.toNat*factor.toNat+carry.toNat := by
  have hx := x.toNat_lt
  have hf := factor.toNat_lt
  have hprod : x.toNat*factor.toNat ≤ (2^32-1)*(2^32-1) := Nat.mul_le_mul (by omega) (by omega)
  rw [UInt64.toNat_add, UInt64.toNat_mul, UInt32.toNat_toUInt64, UInt32.toNat_toUInt64]
  rw [Nat.mod_eq_of_lt (a := x.toNat*factor.toNat) (by omega), Nat.mod_eq_of_lt (by omega)]

theorem product_carry {x factor : UInt32} {carry : UInt64} (hcarry : carry.toNat < 2^32) :
    ((x.toUInt64*factor.toUInt64+carry) >>> 32).toNat =
      (x.toNat*factor.toNat+carry.toNat)/2^32 ∧
    ((x.toUInt64*factor.toUInt64+carry) >>> 32).toNat < 2^32 := by
  have hx := x.toNat_lt
  have hf := factor.toNat_lt
  have hprod : x.toNat*factor.toNat ≤ (2^32-1)*(2^32-1) := Nat.mul_le_mul (by omega) (by omega)
  have hshift : ((x.toUInt64*factor.toUInt64+carry) >>> 32).toNat =
      (x.toNat*factor.toNat+carry.toNat)/2^32 := by
    rw [UInt64.toNat_shiftRight, product_toNat hcarry, Nat.shiftRight_eq_div_pow]
    rfl
  refine ⟨hshift, ?_⟩
  rw [hshift]
  omega

theorem value_mulAdd (factor : UInt32) (l : List UInt32) :
    ∀ carry : UInt64, carry.toNat < 2^32 →
      value (mulAdd factor carry l) = value l*factor.toNat+carry.toNat := by
  induction l with
  | nil =>
    intro carry hcarry
    rw [mulAdd]
    split_ifs with hzero
    · rw [value_cons, value_nil, UInt64.toNat_toUInt32, Nat.mod_eq_of_lt hcarry]
      simp
    · rw [not_not.mp hzero]
      simp
  | cons x l ih =>
    intro carry hcarry
    obtain ⟨hshift, hlt⟩ := @product_carry x factor _ hcarry
    rw [mulAdd, value_cons, ih _ hlt, hshift, UInt64.toNat_toUInt32, product_toNat hcarry, value_cons,
      Nat.mul_add, ← Nat.add_assoc, Nat.add_right_comm, Nat.mod_add_div]
    ring

/-- A pass over the limbs of an integer: as many limbs, or one more that is not zero. -/
def Extends (r l : List UInt32) : Prop := r.length = l.length ∨ r.length = l.length+1 ∧ Trimmed r

theorem Extends.cons {r l : List UInt32} (h : Extends r l) (x y : UInt32) :
    Extends (x::r) (y::l) := by
  rcases h with h | ⟨h, htrimmed⟩
  · exact .inl (congrArg Nat.succ h)
  · refine .inr ⟨congrArg Nat.succ h, ?_⟩
    have hne : r ≠ [] := List.length_pos_iff_ne_nil.mp (by omega)
    rwa [Trimmed, List.getLast?_cons_of_ne_nil hne]

theorem Extends.trimmed {r l : List UInt32} (h : Extends r l) (hl : Trimmed l)
    (hvalue : value l ≤ value r) : Trimmed r := by
  rcases h with h | ⟨-, h⟩
  · rw [trimmed_iff, h]
    rcases (trimmed_iff l).mp hl with rfl | hle
    · exact .inl (List.length_eq_zero_iff.mp h)
    · exact .inr (Nat.le_trans hle hvalue)
  · exact h

theorem mulAdd_extends (factor : UInt32) (l : List UInt32) :
    ∀ carry : UInt64, carry.toNat < 2^32 → Extends (mulAdd factor carry l) l := by
  induction l with
  | nil =>
    intro carry hcarry
    rw [mulAdd]
    split_ifs with hzero
    · refine .inr ⟨rfl, fun hlast => hzero ?_⟩
      have hlimb : carry.toUInt32 = 0 := Option.some.inj hlast
      have hnat := congrArg UInt32.toNat hlimb
      rw [UInt64.toNat_toUInt32, Nat.mod_eq_of_lt hcarry] at hnat
      exact UInt64.toNat_inj.mp hnat
    · exact .inl rfl
  | cons x l ih =>
    intro carry hcarry
    rw [mulAdd]
    exact (ih _ (product_carry hcarry).2).cons _ _

theorem mulAdd_trimmed {factor : UInt32} {l : List UInt32} {carry : UInt64} (hf : factor ≠ 0)
    (hcarry : carry.toNat < 2^32) (hl : Trimmed l) : Trimmed (mulAdd factor carry l) := by
  refine (mulAdd_extends factor l carry hcarry).trimmed hl ?_
  have hf' : factor.toNat ≠ 0 := fun h => hf (UInt32.toNat_inj.mp h)
  rw [value_mulAdd factor l carry hcarry]
  exact Nat.le_add_right_of_le (Nat.le_mul_of_pos_right _ (Nat.pos_of_ne_zero hf'))

/-- The loop of `ShiftLeft` over the limbs, for fewer bits than a limb has. -/
def shiftBits (rest : UInt32) : UInt32 → List UInt32 → List UInt32
  | carry, [] => if carry ≠ 0 then [carry] else []
  | carry, x::l => (x <<< rest ||| carry)::shiftBits rest (x >>> (32-rest)) l

theorem shiftBits_limb {rest x carry : UInt32} (hrest : 0 < rest.toNat) (hlt : rest.toNat < 32)
    (hcarry : carry.toNat < 2^rest.toNat) :
    (x <<< rest ||| carry).toNat+2^32*(x >>> (32-rest)).toNat = x.toNat*2^rest.toNat+carry.toNat ∧
    (x >>> (32-rest)).toNat < 2^rest.toNat := by
  have h32 : (32-rest).toNat = 32-rest.toNat := by
    rw [UInt32.toNat_sub_of_le]
    · rfl
    · rw [UInt32.le_iff_toNat_le]
      exact Nat.le_of_lt hlt
  have hx := x.toNat_lt
  have hpow : 2^32 = 2^rest.toNat*2^(32-rest.toNat) := by
    rw [← pow_add, Nat.add_sub_cancel' (Nat.le_of_lt hlt)]
  have hright : (x >>> (32-rest)).toNat = x.toNat/2^(32-rest.toNat) := by
    rw [UInt32.toNat_shiftRight, h32, Nat.mod_eq_of_lt (by omega), Nat.shiftRight_eq_div_pow]
  have hleft : (x <<< rest).toNat = 2^rest.toNat*(x.toNat%2^(32-rest.toNat)) := by
    rw [UInt32.toNat_shiftLeft, Nat.mod_eq_of_lt hlt, Nat.shiftLeft_eq, Nat.mul_comm, hpow,
      Nat.mul_mod_mul_left]
  rw [hright]
  constructor
  · rw [UInt32.toNat_or, hleft, ← Nat.two_pow_add_eq_or_of_lt hcarry]
    have hdivmod := Nat.div_add_mod x.toNat (2^(32-rest.toNat))
    rw [hpow]
    conv_rhs => rw [← hdivmod]
    ring
  · apply Nat.div_lt_of_lt_mul
    rw [Nat.mul_comm, ← hpow]
    exact hx

theorem value_shiftBits {rest : UInt32} (hrest : 0 < rest.toNat) (hlt : rest.toNat < 32)
    (l : List UInt32) : ∀ carry : UInt32, carry.toNat < 2^rest.toNat →
      value (shiftBits rest carry l) = value l*2^rest.toNat+carry.toNat := by
  induction l with
  | nil =>
    intro carry _
    rw [shiftBits]
    split_ifs with hzero
    · simp
    · rw [not_not.mp hzero]
      simp
  | cons x l ih =>
    intro carry hcarry
    obtain ⟨hlimb, hnext⟩ := shiftBits_limb (x := x) hrest hlt hcarry
    rw [shiftBits, value_cons, value_cons, ih _ hnext]
    linarith

theorem shiftBits_extends (rest : UInt32) (l : List UInt32) :
    ∀ carry, Extends (shiftBits rest carry l) l := by
  induction l with
  | nil =>
    intro carry
    rw [shiftBits]
    split_ifs with hzero
    · exact .inr ⟨rfl, fun hlast => hzero (Option.some.inj hlast)⟩
    · exact .inl rfl
  | cons x l ih =>
    intro carry
    rw [shiftBits]
    exact (ih _).cons _ _

/-- `ShiftLeft`: the bits below a limb's, then whole limbs. -/
def shiftLeft (bits : Nat) (l : List UInt32) : List UInt32 :=
  if l.isEmpty ∨ bits = 0 then l
  else List.replicate (bits/32) 0 ++
    if bits%32 ≠ 0 then shiftBits (UInt32.ofNat (bits%32)) 0 l else l

theorem shiftBits_spec {rest : Nat} (hrest : rest ≠ 0) (hlt : rest < 32) {l : List UInt32}
    (hl : Trimmed l) : value (shiftBits (UInt32.ofNat rest) 0 l) = value l*2^rest ∧
      Trimmed (shiftBits (UInt32.ofNat rest) 0 l) := by
  have hnat : (UInt32.ofNat rest).toNat = rest := by
    rw [UInt32.toNat_ofNat', Nat.mod_eq_of_lt (by omega)]
  have hvalue := @value_shiftBits (UInt32.ofNat rest) (by omega) (by omega) l 0
    (Nat.two_pow_pos _)
  rw [hnat] at hvalue
  refine ⟨hvalue, (shiftBits_extends _ l 0).trimmed hl ?_⟩
  rw [hvalue]
  exact Nat.le_add_right_of_le (Nat.le_mul_of_pos_right _ (Nat.two_pow_pos _))

theorem words_spec (n : Nat) {l : List UInt32} (hne : l ≠ []) (hl : Trimmed l) :
    value (List.replicate n 0 ++ l) = value l*2^(32*n) ∧ Trimmed (List.replicate n 0 ++ l) := by
  refine ⟨by rw [value_replicate, Nat.mul_comm], ?_⟩
  rwa [Trimmed, List.getLast?_append_of_ne_nil _ hne]

theorem shiftLeft_spec (bits : Nat) {l : List UInt32} (hl : Trimmed l) :
    value (shiftLeft bits l) = value l*2^bits ∧ Trimmed (shiftLeft bits l) := by
  have hbits : 2^bits = 2^(bits%32)*2^(32*(bits/32)) := by
    rw [← pow_add, Nat.mod_add_div]
  unfold shiftLeft
  split_ifs with hzero hrest
  · refine ⟨?_, hl⟩
    rcases hzero with hnil | rfl
    · rw [List.isEmpty_iff.mp hnil, value_nil, Nat.zero_mul]
    · rw [pow_zero, Nat.mul_one]
  · have hne : l ≠ [] := fun h => hzero (.inl (List.isEmpty_iff.mpr h))
    obtain ⟨hvalue, htrimmed⟩ := shiftBits_spec hrest (Nat.mod_lt bits (by norm_num)) hl
    have hne' : shiftBits (UInt32.ofNat (bits%32)) 0 l ≠ [] := by
      intro h
      rw [h, value_nil] at hvalue
      have hpos := mt (value_eq_zero hl).mp hne
      have hpow := Nat.two_pow_pos (bits%32)
      exact Nat.mul_ne_zero hpos (Nat.ne_of_gt hpow) hvalue.symm
    obtain ⟨hwords, htrimmed'⟩ := words_spec (bits/32) hne' htrimmed
    exact ⟨by rw [hwords, hvalue, hbits, Nat.mul_assoc], htrimmed'⟩
  · have hne : l ≠ [] := fun h => hzero (.inl (List.isEmpty_iff.mpr h))
    obtain ⟨hwords, htrimmed⟩ := words_spec (bits/32) hne hl
    refine ⟨?_, htrimmed⟩
    rw [hwords, hbits, not_not.mp hrest, pow_zero, Nat.one_mul]

/-- The loop of `ShiftRightOne`, and the bit that falls out. -/
def halveLimbs : List UInt32 → List UInt32 × UInt32
  | [] => ([],0)
  | x::l => ((x >>> 1 ||| (halveLimbs l).2 <<< 31)::(halveLimbs l).1,x &&& 1)

theorem value_halveLimbs (l : List UInt32) :
    value (halveLimbs l).1 = value l/2 ∧ (halveLimbs l).2.toNat = value l%2 := by
  induction l with
  | nil => exact ⟨rfl, rfl⟩
  | cons x l ih =>
    obtain ⟨hvalue, hcarry⟩ := ih
    have hlow : (x &&& 1).toNat = x.toNat%2 := by
      rw [UInt32.toNat_and]
      exact Nat.and_one_is_mod _
    have hx := x.toNat_lt
    have hhalf : (x >>> 1).toNat = x.toNat/2 := by
      rw [UInt32.toNat_shiftRight]
      exact Nat.shiftRight_eq_div_pow _ 1
    have htop : ((halveLimbs l).2 <<< 31).toNat = 2^31*(value l%2) := by
      rw [UInt32.toNat_shiftLeft, hcarry, Nat.shiftLeft_eq]
      show value l%2*2^31%2^32 = _
      omega
    have hlimb : (x >>> 1 ||| (halveLimbs l).2 <<< 31).toNat = 2^31*(value l%2)+x.toNat/2 := by
      rw [UInt32.toNat_or, htop, hhalf, Nat.or_comm,
        ← Nat.two_pow_add_eq_or_of_lt (show x.toNat/2 < 2^31 by omega)]
    rw [halveLimbs, value_cons, value_cons, hlimb, hvalue, hlow]
    omega

/-- The loop of `Compare` from the top limb on, for as many limbs on both sides. -/
def compareLimbs : List UInt32 → List UInt32 → Ordering
  | x::l, y::l' =>
    match compareLimbs l l' with
    | .eq => compare x.toNat y.toNat
    | order => order
  | _, _ => .eq

theorem compareLimbs_eq (l : List UInt32) : ∀ l' : List UInt32, l.length = l'.length →
    compareLimbs l l' = compare (value l) (value l') := by
  induction l with
  | nil =>
    intro l' h
    obtain rfl := List.length_eq_zero_iff.mp h.symm
    rfl
  | cons x l ih =>
    intro l' h
    obtain ⟨y, l', rfl⟩ := List.exists_cons_of_length_pos (l := l') (by rw [← h]; simp)
    have hx := x.toNat_lt
    have hy := y.toNat_lt
    rw [compareLimbs, ih l' (Nat.succ.inj h), value_cons, value_cons]
    rcases Nat.lt_trichotomy (value l) (value l') with hlt | heq | hgt
    · rw [Nat.compare_eq_lt.mpr hlt]
      exact (Nat.compare_eq_lt.mpr (by omega)).symm
    · rw [Nat.compare_eq_eq.mpr heq, heq]
      rcases Nat.lt_trichotomy x.toNat y.toNat with hlt | heq | hgt
      · rw [Nat.compare_eq_lt.mpr hlt, Nat.compare_eq_lt.mpr (by omega)]
      · rw [Nat.compare_eq_eq.mpr heq, Nat.compare_eq_eq.mpr (by omega)]
      · rw [Nat.compare_eq_gt.mpr hgt, Nat.compare_eq_gt.mpr (by omega)]
    · rw [Nat.compare_eq_gt.mpr hgt]
      exact (Nat.compare_eq_gt.mpr (by omega)).symm

/-- `Compare`: the number of limbs first. -/
def compare (l l' : List UInt32) : Ordering :=
  if l.length ≠ l'.length then
    if l.length < l'.length then .lt else .gt
  else compareLimbs l l'

theorem length_lt_value {l l' : List UInt32} (hl' : Trimmed l') (h : l.length < l'.length) :
    value l < value l' := by
  rcases (trimmed_iff l').mp hl' with rfl | hle
  · exact absurd h (Nat.not_lt_zero _)
  · calc value l < 2^(32*l.length) := value_lt l
      _ ≤ 2^(32*(l'.length-1)) := Nat.pow_le_pow_right two_pos (by omega)
      _ ≤ value l' := hle

theorem compare_eq {l l' : List UInt32} (hl : Trimmed l) (hl' : Trimmed l') :
    compare l l' = Ord.compare (value l) (value l') := by
  unfold compare
  split_ifs with hne hlt
  · exact (Nat.compare_eq_lt.mpr (length_lt_value hl' hlt)).symm
  · exact (Nat.compare_eq_gt.mpr (length_lt_value hl (by omega))).symm
  · exact compareLimbs_eq l l' (not_not.mp hne)

/-- The loop of `Subtract`; limbs that the other side lacks are zero. -/
def subtractLimbs : Int → List UInt32 → List UInt32 → List UInt32
  | _, [], _ => []
  | borrow, x::l, l' =>
    let difference := (x.toNat : Int)-borrow-(l'.headD 0).toNat
    if difference < 0 then UInt32.ofNat (difference+2^32).toNat::subtractLimbs 1 l l'.tail
    else UInt32.ofNat difference.toNat::subtractLimbs 0 l l'.tail

theorem value_headD_tail (l : List UInt32) : value l = (l.headD 0).toNat+2^32*value l.tail := by
  cases l with
  | nil => rfl
  | cons x l => exact value_cons x l

theorem value_subtractLimbs (l : List UInt32) : ∀ (borrow : Int) (l' : List UInt32),
    0 ≤ borrow → borrow ≤ 1 → (value l' : Int)+borrow ≤ value l →
      (value (subtractLimbs borrow l l') : Int) = value l-value l'-borrow := by
  induction l with
  | nil =>
    intro borrow l' hborrow _ hle
    rw [subtractLimbs]
    simp only [value_nil] at hle ⊢
    push_cast at hle ⊢
    omega
  | cons x l ih =>
    intro borrow l' hborrow hone hle
    have hx := x.toNat_lt
    have hy := (l'.headD 0).toNat_lt
    have hl' := value_headD_tail l'
    rw [value_cons] at hle ⊢
    rw [subtractLimbs]
    split_ifs with hneg
    · have hlimb : (UInt32.ofNat ((x.toNat : Int)-borrow-(l'.headD 0).toNat+2^32).toNat).toNat =
          ((x.toNat : Int)-borrow-(l'.headD 0).toNat+2^32).toNat := by
        rw [UInt32.toNat_ofNat', Nat.mod_eq_of_lt (by omega)]
      have hrest := ih 1 l'.tail (by omega) (le_refl 1) (by omega)
      rw [value_cons, hlimb]
      omega
    · have hlimb : (UInt32.ofNat ((x.toNat : Int)-borrow-(l'.headD 0).toNat).toNat).toNat =
          ((x.toNat : Int)-borrow-(l'.headD 0).toNat).toNat := by
        rw [UInt32.toNat_ofNat', Nat.mod_eq_of_lt (by omega)]
      have hrest := ih 0 l'.tail (le_refl 0) (by omega) (by omega)
      rw [value_cons, hlimb]
      omega

/-- The loop of `DivSmall` from the top limb on, and what remains. -/
def divLimbs (divisor : UInt32) : List UInt32 → List UInt32 × UInt64
  | [] => ([],0)
  | x::l =>
    let current := (divLimbs divisor l).2 <<< 32 ||| x.toUInt64
    ((current/divisor.toUInt64).toUInt32::(divLimbs divisor l).1,current%divisor.toUInt64)

theorem value_divLimbs {divisor : UInt32} (hd : divisor ≠ 0) (l : List UInt32) :
    value (divLimbs divisor l).1 = value l/divisor.toNat ∧
      (divLimbs divisor l).2.toNat = value l%divisor.toNat := by
  have hd' : 0 < divisor.toNat := Nat.pos_of_ne_zero fun h => hd (UInt32.toNat_inj.mp h)
  have hlt := divisor.toNat_lt
  induction l with
  | nil => exact ⟨(Nat.zero_div _).symm, (Nat.zero_mod _).symm⟩
  | cons x l ih =>
    obtain ⟨hvalue, hrest⟩ := ih
    have hx := x.toNat_lt
    have hmod := Nat.mod_lt (value l) hd'
    have hshift : ((divLimbs divisor l).2 <<< 32).toNat = 2^32*(value l%divisor.toNat) := by
      rw [UInt64.toNat_shiftLeft, hrest, Nat.shiftLeft_eq]
      show value l%divisor.toNat*2^32%2^64 = _
      rw [Nat.mod_eq_of_lt (by omega), Nat.mul_comm]
    have hcurrent : ((divLimbs divisor l).2 <<< 32 ||| x.toUInt64).toNat =
        2^32*(value l%divisor.toNat)+x.toNat := by
      rw [UInt64.toNat_or, hshift, UInt32.toNat_toUInt64, ← Nat.two_pow_add_eq_or_of_lt hx]
    have hsmall : (2^32*(value l%divisor.toNat)+x.toNat)/divisor.toNat < 2^32 := by
      rw [Nat.div_lt_iff_lt_mul hd']
      have hnext : 2^32*(value l%divisor.toNat+1) ≤ 2^32*divisor.toNat :=
        Nat.mul_le_mul_left _ hmod
      omega
    have hwhole : value (x::l) =
        divisor.toNat*(2^32*(value l/divisor.toNat))+(2^32*(value l%divisor.toNat)+x.toNat) := by
      have hdivmod := Nat.div_add_mod (value l) divisor.toNat
      rw [value_cons]
      conv_lhs => rw [← hdivmod]
      ring
    rw [divLimbs]
    constructor
    · rw [value_cons, UInt64.toNat_toUInt32, UInt64.toNat_div, hcurrent, UInt32.toNat_toUInt64,
        Nat.mod_eq_of_lt hsmall, hvalue, hwhole, Nat.mul_add_div hd', Nat.add_comm]
    · show (_ % _ : UInt64).toNat = _
      rw [UInt64.toNat_mod, hcurrent, UInt32.toNat_toUInt64, hwhole, Nat.mul_add_mod]

/-- The loop of `BitLength` over the top limb. -/
def topBits : Nat → UInt32 → Nat
  | 0, _ => 0
  | fuel+1, top => if top = 0 then 0 else topBits fuel (top >>> 1)+1

/-- The top bit of a limb, by the bits that are counted. -/
theorem topBits_spec (fuel : Nat) : ∀ top : UInt32, top.toNat < 2^fuel → top ≠ 0 →
    2^(topBits fuel top-1) ≤ top.toNat ∧ top.toNat < 2^topBits fuel top := by
  induction fuel with
  | zero =>
    intro top hlt hne
    exact absurd (UInt32.toNat_inj.mp (Nat.lt_one_iff.mp hlt)) hne
  | succ fuel ih =>
    intro top hlt hne
    have hhalf : (top >>> 1).toNat = top.toNat/2 := by
      rw [UInt32.toNat_shiftRight]
      exact Nat.shiftRight_eq_div_pow _ 1
    have hpos : top.toNat ≠ 0 := fun h => hne (UInt32.toNat_inj.mp h)
    rw [topBits, if_neg hne, Nat.add_sub_cancel]
    by_cases hone : top >>> 1 = 0
    · have hzero : topBits fuel (top >>> 1) = 0 := by
        rw [hone]
        cases fuel <;> simp [topBits]
      have hsmall : top.toNat/2 = 0 := by rw [← hhalf, hone]; rfl
      rw [hzero]
      omega
    · obtain ⟨hlow, hhigh⟩ := ih (top >>> 1) (by rw [hhalf]; omega) hone
      rw [hhalf] at hlow hhigh
      have hcount : topBits fuel (top >>> 1) ≠ 0 := by
        intro h
        rw [h, pow_zero] at hhigh
        have hsmall : (top >>> 1).toNat = 0 := by omega
        exact hone (UInt32.toNat_inj.mp hsmall)
      obtain ⟨b, hb⟩ := Nat.exists_eq_succ_of_ne_zero hcount
      rw [hb, Nat.succ_sub_one] at hlow
      rw [hb, pow_succ] at hhigh
      rw [hb, pow_succ, pow_succ]
      omega

/-- `BitLength`. -/
def bitLength (l : List UInt32) : Nat :=
  match l.getLast? with
  | none => 0
  | some top => (l.length-1)*32+topBits 32 top

theorem bitLength_spec {l : List UInt32} (hl : Trimmed l) (hne : l ≠ []) :
    1 ≤ bitLength l ∧ 2^(bitLength l-1) ≤ value l ∧ value l < 2^bitLength l := by
  obtain ⟨l, top, rfl⟩ := (List.eq_nil_or_concat l).resolve_left hne
  rw [List.concat_eq_append] at hl ⊢
  rw [Trimmed, List.getLast?_concat] at hl
  have htop : top ≠ 0 := fun h => hl (congrArg some h)
  obtain ⟨hlow, hhigh⟩ := topBits_spec 32 top top.toNat_lt htop
  have hcount : topBits 32 top ≠ 0 := by
    intro h
    rw [h, pow_zero] at hhigh
    exact htop (UInt32.toNat_inj.mp (Nat.lt_one_iff.mp hhigh))
  have hrest := value_lt l
  have hvalue : value (l ++ [top]) = value l+2^(32*l.length)*top.toNat := by
    rw [value_append, value_cons, value_nil, Nat.mul_zero, Nat.add_zero]
  have hbits : bitLength (l ++ [top]) = 32*l.length+topBits 32 top := by
    unfold bitLength
    rw [List.getLast?_concat]
    simp
    omega
  rw [hbits, hvalue]
  generalize topBits 32 top = c at hlow hhigh hcount
  refine ⟨by omega, ?_, ?_⟩
  · calc 2^(32*l.length+c-1) = 2^(32*l.length)*2^(c-1) := by
          rw [← pow_add]
          congr 1
          omega
      _ ≤ 2^(32*l.length)*top.toNat := Nat.mul_le_mul_left _ hlow
      _ ≤ value l+2^(32*l.length)*top.toNat := Nat.le_add_left _ _
  · calc value l+2^(32*l.length)*top.toNat < 2^(32*l.length)*(top.toNat+1) := by
          rw [Nat.mul_add, Nat.mul_one, Nat.add_comm]
          exact Nat.add_lt_add_left hrest _
      _ ≤ 2^(32*l.length)*2^c := Nat.mul_le_mul_left _ hhigh
      _ = 2^(32*l.length+c) := (pow_add _ _ _).symm

end Limbs
end DSigMatcher.Framework
