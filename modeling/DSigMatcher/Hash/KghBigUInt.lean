import DSigMatcher.Json.BigUInt
import Mathlib

namespace DSigMatcher.Hash
open DSigMatcher.Base DSigMatcher.Json
open Json.BigUInt (chunksValue chunksValue_cons joinChunks joinChunks_eq)

def limbBase : UInt64 := 1000000000

/-- The loop over what is left of a carry, or of a number. -/
def carryLimbs (carry : UInt64) : List UInt32 :=
  if _h : carry = 0 then [] else (carry%limbBase).toUInt32::carryLimbs (carry/limbBase)
  termination_by carry.toNat
  decreasing_by
    rw [UInt64.toNat_div]
    exact Nat.div_lt_self (Nat.pos_of_ne_zero fun hzero => _h (UInt64.toNat_inj.mp hzero)) (by decide)

/-- The loop of `MultiplySmall`. -/
def multiplyLimbs (value : UInt32) : UInt64 → List UInt32 → List UInt32
  | carry, [] => carryLimbs carry
  | carry, x::limbs =>
    let product := x.toUInt64*value.toUInt64+carry
    (product%limbBase).toUInt32::multiplyLimbs value (product/limbBase) limbs

/-- The carry of a row goes on into the result. -/
def addCarry : UInt64 → List UInt32 → List UInt32
  | _, [] => []
  | carry, r::result =>
    if carry = 0 then r::result
    else
      let sum := r.toUInt64+carry
      (sum%limbBase).toUInt32::addCarry (sum/limbBase) result

/-- One limb times the other number, added to the result from the limb's place on. -/
def addRow (x : UInt32) : UInt64 → List UInt32 → List UInt32 → List UInt32
  | carry, [], result => addCarry carry result
  | _, _::_, [] => []
  | carry, y::other, r::result =>
    let product := x.toUInt64*y.toUInt64+r.toUInt64+carry
    (product%limbBase).toUInt32::addRow x (product/limbBase) other result

/-- The outer loop of `MultiplyBig`; the result is given from the limb's place on. -/
def multiplyRows (other : List UInt32) : List UInt32 → List UInt32 → List UInt32
  | [], result => result
  | x::limbs, result =>
    match if x = 0 then result else addRow x 0 other result with
    | [] => []
    | r::result => r::multiplyRows other limbs result

def trimLeadingZeros (limbs : List UInt32) : List UInt32 :=
  if _h : 1 < limbs.length ∧ limbs.getLast? = some 0 then trimLeadingZeros limbs.dropLast else limbs
  termination_by limbs.length
  decreasing_by
    rw [List.length_dropLast]
    omega

/-- Every limb is a digit in base 10^9. -/
def Digits (limbs : List UInt32) : Prop := ∀ x ∈ limbs, x.toNat < 10^9

section
variable {limbs other result : List UInt32}

theorem digits_cons {x : UInt32} (hx : x.toNat < 10^9) (h : Digits limbs) : Digits (x::limbs) := by
  intro y hy
  rcases List.mem_cons.mp hy with rfl | hy
  · exact hx
  · exact h y hy

theorem Digits.head {x : UInt32} (h : Digits (x::limbs)) : x.toNat < 10^9 := h x List.mem_cons_self

theorem Digits.tail {x : UInt32} (h : Digits (x::limbs)) : Digits limbs := fun y hy =>
  h y (List.mem_cons_of_mem x hy)

@[simp] theorem chunksValue_nil : chunksValue [] = 0 := rfl

theorem chunksValue_lt (h : Digits limbs) : chunksValue limbs < (10^9)^limbs.length := by
  have hdigit : ∀ d ∈ limbs.map UInt32.toNat, d < 10^9 := by
    intro d hd
    obtain ⟨x, hx, rfl⟩ := List.mem_map.mp hd
    exact h x hx
  have hlt := Nat.ofDigits_lt_base_pow_length (by norm_num) hdigit
  rwa [List.length_map] at hlt

/-- A limb and the carry to the next one. -/
theorem limb_step (product : UInt64) :
    (product%limbBase).toUInt32.toNat = product.toNat%10^9 ∧
      (product/limbBase).toNat = product.toNat/10^9 := by
  have hbase : limbBase.toNat = 10^9 := rfl
  constructor
  · rw [UInt64.toNat_toUInt32, UInt64.toNat_mod, hbase]
    omega
  · rw [UInt64.toNat_div, hbase]

/-- What a loop makes of a limb and the limbs behind it. -/
theorem step_value {product : UInt64} {n rest : Nat} (hproduct : product.toNat = n)
    (hrest : chunksValue limbs = rest+(product/limbBase).toNat) :
    chunksValue ((product%limbBase).toUInt32::limbs) = n+10^9*rest := by
  obtain ⟨hmod, hdiv⟩ := limb_step product
  have hsplit := Nat.div_add_mod n (10^9)
  rw [chunksValue_cons, hrest, hmod, hdiv, hproduct]
  omega

theorem step_digits (product : UInt64) (h : Digits limbs) :
    Digits ((product%limbBase).toUInt32::limbs) := by
  apply digits_cons _ h
  rw [(limb_step product).1]
  exact Nat.mod_lt _ (by norm_num)

theorem carryLimbs_spec (carry : UInt64) :
    chunksValue (carryLimbs carry) = carry.toNat ∧ Digits (carryLimbs carry) ∧
      (carryLimbs carry).getLast? ≠ some 0 := by
  induction carry using carryLimbs.induct with
  | case1 =>
    rw [carryLimbs, dif_pos rfl]
    exact ⟨rfl, fun x hx => absurd hx List.not_mem_nil, by simp⟩
  | case2 carry h ih =>
    obtain ⟨hvalue, hdigits, hlast⟩ := ih
    rw [carryLimbs, dif_neg h]
    refine ⟨?_, step_digits carry hdigits, ?_⟩
    · have hrest : chunksValue (carryLimbs (carry/limbBase)) = 0+(carry/limbBase).toNat := by
        rw [hvalue, Nat.zero_add]
      have hstep := step_value rfl hrest
      rwa [Nat.mul_zero, Nat.add_zero] at hstep
    · by_cases hnil : carryLimbs (carry/limbBase) = []
      · -- the carry is a single limb
        intro hzero
        rw [hnil, List.getLast?_singleton, Option.some.injEq] at hzero
        obtain ⟨hmod, hdiv⟩ := limb_step carry
        rw [hnil, chunksValue_nil, hdiv] at hvalue
        rw [hzero, UInt32.toNat_zero] at hmod
        exact h (UInt64.toNat_inj.mp (show carry.toNat = 0 by omega))
      · rwa [List.getLast?_cons_of_ne_nil hnil]

/-- A product of two limbs and what is added to it stay in 64 bits. -/
theorem product_toNat {x y : UInt32} {z : UInt64} (hx : x.toNat < 10^9)
    (hz : z.toNat < 2*2^32) :
    (x.toUInt64*y.toUInt64+z).toNat = x.toNat*y.toNat+z.toNat := by
  have hy := y.toNat_lt
  have hprod : x.toNat*y.toNat ≤ (10^9-1)*(2^32-1) := Nat.mul_le_mul (by omega) (by omega)
  rw [UInt64.toNat_add, UInt64.toNat_mul, UInt32.toNat_toUInt64, UInt32.toNat_toUInt64,
    Nat.mod_eq_of_lt (a := x.toNat*y.toNat) (by omega), Nat.mod_eq_of_lt (by omega)]

theorem multiplyLimbs_spec (value : UInt32) (h : Digits limbs) (carry : UInt64)
    (hcarry : carry.toNat < 2^32) :
    chunksValue (multiplyLimbs value carry limbs) = chunksValue limbs*value.toNat+carry.toNat ∧
      Digits (multiplyLimbs value carry limbs) := by
  induction limbs generalizing carry with
  | nil =>
    obtain ⟨hvalue, hdigits, -⟩ := carryLimbs_spec carry
    rw [multiplyLimbs, hvalue, chunksValue_nil, Nat.zero_mul, Nat.zero_add]
    exact ⟨rfl, hdigits⟩
  | cons x limbs ih =>
    have hvalue := value.toNat_lt
    have hproduct := @product_toNat x value carry h.head (by omega)
    have hnext : ((x.toUInt64*value.toUInt64+carry)/limbBase).toNat < 2^32 := by
      have hx := h.head
      have hmul : x.toNat*value.toNat ≤ (10^9-1)*(2^32-1) := Nat.mul_le_mul (by omega) (by omega)
      rw [(limb_step _).2, hproduct]
      omega
    obtain ⟨hrest, hdigits⟩ := ih h.tail _ hnext
    rw [multiplyLimbs]
    refine ⟨?_, step_digits _ hdigits⟩
    rw [step_value hproduct hrest, chunksValue_cons]
    ring

/-- A product of numbers that are not zero has no zero at the top. -/
theorem multiplyLimbs_last {value : UInt32} (hvalue : value ≠ 0) (h : Digits limbs)
    (hne : limbs ≠ []) (hlast : limbs.getLast? ≠ some 0) (carry : UInt64)
    (hcarry : carry.toNat < 2^32) :
    (multiplyLimbs value carry limbs).getLast? ≠ some 0 := by
  induction limbs generalizing carry with
  | nil => exact absurd rfl hne
  | cons x limbs ih =>
    have hlt := value.toNat_lt
    have hx := h.head
    have hproduct := @product_toNat x value carry hx (by omega)
    obtain ⟨hmod, hdiv⟩ := limb_step (x.toUInt64*value.toUInt64+carry)
    rw [hproduct] at hmod hdiv
    rw [multiplyLimbs]
    by_cases hnil : limbs = []
    · subst hnil
      rw [multiplyLimbs]
      obtain ⟨hrest, -, hrestlast⟩ :=
        carryLimbs_spec ((x.toUInt64*value.toUInt64+carry)/limbBase)
      by_cases hend : carryLimbs ((x.toUInt64*value.toUInt64+carry)/limbBase) = []
      · rw [hend, List.getLast?_singleton]
        intro hzero
        have hlow := Option.some.inj hzero
        rw [hlow, UInt32.toNat_zero] at hmod
        rw [hend, chunksValue_nil, hdiv] at hrest
        have hx0 : x.toNat ≠ 0 := by
          intro hx0
          have hzero' : x = 0 := UInt32.toNat_inj.mp hx0
          exact hlast (congrArg some hzero')
        have hv0 : value.toNat ≠ 0 := fun hv0 => hvalue (UInt32.toNat_inj.mp hv0)
        have hpos : x.toNat*value.toNat ≠ 0 := Nat.mul_ne_zero hx0 hv0
        omega
      · rwa [List.getLast?_cons_of_ne_nil hend]
    · have hnext : ((x.toUInt64*value.toUInt64+carry)/limbBase).toNat < 2^32 := by
        have hmul : x.toNat*value.toNat ≤ (10^9-1)*(2^32-1) := Nat.mul_le_mul (by omega) (by omega)
        rw [hdiv]
        omega
      rw [List.getLast?_cons_of_ne_nil hnil] at hlast
      have hrest := ih h.tail hnil hlast _ hnext
      have hne' : multiplyLimbs value ((x.toUInt64*value.toUInt64+carry)/limbBase) limbs ≠ [] := by
        obtain ⟨y, limbs, rfl⟩ := List.exists_cons_of_ne_nil hnil
        rw [multiplyLimbs]
        exact List.cons_ne_nil _ _
      rwa [List.getLast?_cons_of_ne_nil hne']

/-- What fits into a limb and those behind it leaves its carry to those behind. -/
theorem fit_step {n rest length : Nat} (h : n+10^9*rest < (10^9)^(length+1)) :
    rest+n/10^9 < (10^9)^length := by
  rw [pow_succ (10^9) length] at h
  generalize (10^9)^length = bound at h ⊢
  omega

/-- A sum that fits into the limbs of the result loses no carry. -/
theorem addCarry_spec (h : Digits result) (carry : UInt64) (hcarry : carry.toNat < 10^9)
    (hfit : chunksValue result+carry.toNat < (10^9)^result.length) :
    chunksValue (addCarry carry result) = chunksValue result+carry.toNat ∧
      Digits (addCarry carry result) ∧ (addCarry carry result).length = result.length := by
  induction result generalizing carry with
  | nil =>
    rw [chunksValue_nil, List.length_nil, pow_zero] at hfit
    refine ⟨?_, h, rfl⟩
    rw [addCarry, chunksValue_nil]
    omega
  | cons r result ih =>
    rw [addCarry]
    split_ifs with hzero
    · rw [hzero]
      exact ⟨rfl, h, rfl⟩
    · have hr := h.head
      have hsum : (r.toUInt64+carry).toNat = r.toNat+carry.toNat := by
        rw [UInt64.toNat_add, UInt32.toNat_toUInt64, Nat.mod_eq_of_lt (by omega)]
      obtain ⟨-, hdiv⟩ := limb_step (r.toUInt64+carry)
      rw [hsum] at hdiv
      rw [chunksValue_cons, Nat.add_right_comm, List.length_cons] at hfit
      obtain ⟨hvalue, hdigits, hlen⟩ := ih h.tail ((r.toUInt64+carry)/limbBase) (by omega)
        (by rw [hdiv]; exact fit_step hfit)
      refine ⟨?_, step_digits _ hdigits, by rw [List.length_cons, hlen, List.length_cons]⟩
      rw [step_value hsum hvalue, chunksValue_cons]
      omega

theorem addRow_spec {x : UInt32} (hx : x.toNat < 10^9) (hother : Digits other)
    (hresult : Digits result) (carry : UInt64) (hcarry : carry.toNat < 10^9)
    (hlen : other.length ≤ result.length)
    (hfit : chunksValue result+x.toNat*chunksValue other+carry.toNat < (10^9)^result.length) :
    chunksValue (addRow x carry other result) =
        chunksValue result+x.toNat*chunksValue other+carry.toNat ∧
      Digits (addRow x carry other result) ∧
      (addRow x carry other result).length = result.length := by
  induction other generalizing result carry with
  | nil =>
    rw [chunksValue_nil, Nat.mul_zero, Nat.add_zero] at hfit ⊢
    exact addCarry_spec hresult carry hcarry hfit
  | cons y other ih =>
    cases result with
    | nil => simp at hlen
    | cons r result =>
      have hy := hother.head
      have hr := hresult.head
      have hmul : x.toNat*y.toNat ≤ (10^9-1)*(10^9-1) := Nat.mul_le_mul (by omega) (by omega)
      have hadd : (r.toUInt64+carry).toNat = r.toNat+carry.toNat := by
        rw [UInt64.toNat_add, UInt32.toNat_toUInt64, Nat.mod_eq_of_lt (by omega)]
      have hproduct : (x.toUInt64*y.toUInt64+r.toUInt64+carry).toNat =
          x.toNat*y.toNat+r.toNat+carry.toNat := by
        rw [UInt64.add_assoc, product_toNat hx (by omega), hadd, Nat.add_assoc]
      obtain ⟨-, hdiv⟩ := limb_step (x.toUInt64*y.toUInt64+r.toUInt64+carry)
      rw [hproduct] at hdiv
      have hsplit : chunksValue (r::result)+x.toNat*chunksValue (y::other)+carry.toNat =
          x.toNat*y.toNat+r.toNat+carry.toNat+
            10^9*(chunksValue result+x.toNat*chunksValue other) := by
        rw [chunksValue_cons, chunksValue_cons]
        ring
      rw [hsplit, List.length_cons] at hfit
      rw [addRow]
      obtain ⟨hvalue, hdigits, hlen'⟩ := ih hother.tail hresult.tail
        ((x.toUInt64*y.toUInt64+r.toUInt64+carry)/limbBase) (by omega)
        (Nat.le_of_succ_le_succ hlen) (by rw [hdiv]; exact fit_step hfit)
      refine ⟨?_, step_digits _ hdigits, by rw [List.length_cons, hlen', List.length_cons]⟩
      rw [step_value hproduct hvalue, hsplit]

/-- The rows add up to the product, and no row runs off the result. -/
theorem multiplyRows_spec (hlimbs : Digits limbs) (hother : Digits other)
    (hresult : Digits result) (hlen : limbs.length+other.length ≤ result.length)
    (hfit : chunksValue result+chunksValue limbs*chunksValue other < (10^9)^result.length) :
    chunksValue (multiplyRows other limbs result) =
        chunksValue result+chunksValue limbs*chunksValue other ∧
      Digits (multiplyRows other limbs result) ∧
      (multiplyRows other limbs result).length = result.length := by
  induction limbs generalizing result with
  | nil =>
    rw [multiplyRows, chunksValue_nil, Nat.zero_mul, Nat.add_zero]
    exact ⟨rfl, hresult, rfl⟩
  | cons x limbs ih =>
    have htotal : chunksValue result+chunksValue (x::limbs)*chunksValue other =
        chunksValue result+x.toNat*chunksValue other+
          10^9*(chunksValue limbs*chunksValue other) := by
      rw [chunksValue_cons]
      ring
    rw [htotal] at hfit ⊢
    rw [List.length_cons] at hlen
    have hrow : ∃ row, (if x = 0 then result else addRow x 0 other result) = row ∧
        chunksValue row = chunksValue result+x.toNat*chunksValue other ∧ Digits row ∧
        row.length = result.length := by
      refine ⟨_, rfl, ?_⟩
      split_ifs with hzero
      · rw [hzero, UInt32.toNat_zero, Nat.zero_mul, Nat.add_zero]
        exact ⟨rfl, hresult, rfl⟩
      · have hspec := addRow_spec hlimbs.head hother hresult 0 (by decide) (by omega)
          (by rw [UInt64.toNat_zero]; omega)
        rwa [UInt64.toNat_zero, Nat.add_zero] at hspec
    obtain ⟨row, hrow, hvalue, hdigits, hrowlen⟩ := hrow
    rw [multiplyRows, hrow]
    rw [← hvalue, ← hrowlen] at hfit
    rw [← hrowlen] at hlen ⊢
    rw [← hvalue]
    cases row with
    | nil => simp at hlen
    | cons r row =>
      rw [chunksValue_cons, Nat.add_assoc, ← Nat.mul_add, List.length_cons] at hfit
      rw [List.length_cons] at hlen
      have hbehind := Nat.lt_of_le_of_lt (Nat.le_add_right _ _) (fit_step hfit)
      obtain ⟨hrest, hrestdigits, hrestlen⟩ := ih hlimbs.tail hdigits.tail (by omega) hbehind
      refine ⟨?_, digits_cons hdigits.head hrestdigits, ?_⟩
      · rw [chunksValue_cons, hrest, chunksValue_cons]
        ring
      · rw [List.length_cons, hrestlen, List.length_cons]

theorem trimLeadingZeros_spec (hdigits : Digits limbs) (hne : limbs ≠ []) :
    chunksValue (trimLeadingZeros limbs) = chunksValue limbs ∧ Digits (trimLeadingZeros limbs) ∧
      (trimLeadingZeros limbs = [0] ∨
        trimLeadingZeros limbs ≠ [] ∧ (trimLeadingZeros limbs).getLast? ≠ some 0) := by
  induction limbs using trimLeadingZeros.induct with
  | case1 limbs h ih =>
    obtain ⟨hlen, hlast⟩ := h
    obtain ⟨front, rfl⟩ := List.getLast?_eq_some_iff.mp hlast
    rw [List.dropLast_concat] at ih
    rw [List.length_append, List.length_singleton] at hlen
    have hfront : Digits front := fun x hx => hdigits x (List.mem_append_left _ hx)
    obtain ⟨hvalue, hrest⟩ := ih hfront (List.length_pos_iff_ne_nil.mp (by omega))
    have hzero : chunksValue (front ++ [0]) = chunksValue front := by
      rw [chunksValue, chunksValue, List.map_append, Nat.ofDigits_append]
      simp
    rw [trimLeadingZeros, dif_pos ⟨by rw [List.length_append, List.length_singleton]; omega, hlast⟩,
      List.dropLast_concat, hzero]
    exact ⟨hvalue, hrest⟩
  | case2 limbs h =>
    rw [trimLeadingZeros, dif_neg h]
    refine ⟨rfl, hdigits, ?_⟩
    by_cases hlast : limbs.getLast? = some 0
    · obtain ⟨front, rfl⟩ := List.getLast?_eq_some_iff.mp hlast
      cases front with
      | nil => exact .inl rfl
      | cons x front => exact absurd ⟨by simp, hlast⟩ h
    · exact .inr ⟨hne, hlast⟩

end

/-- `BigUInt` of the graph hash: digits in base 10^9, the lowest first; the top one is not zero but
for the number 0. -/
structure BigUInt where
  limbs : List UInt32
  digits : Digits limbs
  trimmed : limbs = [0] ∨ limbs ≠ [] ∧ limbs.getLast? ≠ some 0

namespace BigUInt

def toNat (a : BigUInt) : Nat := chunksValue a.limbs

/-- `BigUInt()`, which `Limbs_.assign(1, 0)` makes of a number too. -/
def zero : BigUInt where
  limbs := [0]
  digits := by
    intro x hx
    rw [List.mem_singleton.mp hx]
    decide
  trimmed := .inl rfl

/-- The constructor from a number. -/
def ofUInt32 (value : UInt32) : BigUInt :=
  if h : value = 0 then zero
  else
    ⟨carryLimbs value.toUInt64, (carryLimbs_spec value.toUInt64).2.1, by
      obtain ⟨hvalue, -, hlast⟩ := carryLimbs_spec value.toUInt64
      refine .inr ⟨fun hnil => h ?_, hlast⟩
      rw [hnil, chunksValue_nil, UInt32.toNat_toUInt64] at hvalue
      exact UInt32.toNat_inj.mp hvalue.symm⟩

@[simp] theorem toNat_zero : zero.toNat = 0 := rfl

@[simp] theorem toNat_ofUInt32 (value : UInt32) : (ofUInt32 value).toNat = value.toNat := by
  rw [ofUInt32]
  split_ifs with h
  · rw [h]
    rfl
  · rw [toNat, (carryLimbs_spec _).1, UInt32.toNat_toUInt64]

theorem multiplySmall_trimmed (a : BigUInt) {value : UInt32} (hvalue : value ≠ 0) :
    multiplyLimbs value 0 a.limbs = [0] ∨
      multiplyLimbs value 0 a.limbs ≠ [] ∧ (multiplyLimbs value 0 a.limbs).getLast? ≠ some 0 := by
  rcases a.trimmed with h | ⟨hne, hlast⟩
  · left
    have hzero : (0 : UInt32).toUInt64*value.toUInt64+0 = 0 := by simp
    have hmod : ((0 : UInt64)%limbBase).toUInt32 = 0 := by decide
    have hdiv : (0 : UInt64)/limbBase = 0 := by decide
    rw [h, multiplyLimbs, multiplyLimbs, hzero, hmod, hdiv, carryLimbs, dif_pos rfl]
  · have hlast' := multiplyLimbs_last hvalue a.digits hne hlast 0 (by decide)
    refine .inr ⟨?_, hlast'⟩
    obtain ⟨x, limbs, hcons⟩ := List.exists_cons_of_ne_nil hne
    rw [hcons, multiplyLimbs]
    exact List.cons_ne_nil _ _

def multiplySmall (a : BigUInt) (value : UInt32) : BigUInt :=
  if h : value = 0 then zero
  else if value = 1 then a
  else
    ⟨multiplyLimbs value 0 a.limbs, (multiplyLimbs_spec value a.digits 0 (by decide)).2,
      a.multiplySmall_trimmed h⟩

@[simp] theorem toNat_multiplySmall (a : BigUInt) (value : UInt32) :
    (a.multiplySmall value).toNat = a.toNat*value.toNat := by
  rw [multiplySmall]
  split_ifs with hzero hone
  · rw [hzero, UInt32.toNat_zero, Nat.mul_zero]
    rfl
  · rw [hone, UInt32.toNat_one, Nat.mul_one]
  · rw [toNat, (multiplyLimbs_spec value a.digits 0 (by decide)).1, UInt64.toNat_zero, Nat.add_zero,
      toNat]

theorem chunksValue_replicate (n : Nat) : chunksValue (List.replicate n 0) = 0 := by
  induction n with
  | zero => rfl
  | succ n ih =>
    rw [List.replicate_succ, chunksValue_cons, ih]
    rfl

/-- `Result` of `MultiplyBig` behind the loops, with room for all the limbs of the product. -/
def productLimbs (a other : BigUInt) : List UInt32 :=
  multiplyRows other.limbs a.limbs (List.replicate (a.limbs.length+other.limbs.length+1) 0)

theorem productLimbs_spec (a other : BigUInt) :
    chunksValue (productLimbs a other) = a.toNat*other.toNat ∧ Digits (productLimbs a other) ∧
      productLimbs a other ≠ [] := by
  have hzeros : Digits (List.replicate (a.limbs.length+other.limbs.length+1) 0) := by
    intro x hx
    rw [List.eq_of_mem_replicate hx]
    decide
  have hfit : a.toNat*other.toNat < (10^9)^(a.limbs.length+other.limbs.length+1) := by
    calc a.toNat*other.toNat < (10^9)^a.limbs.length*(10^9)^other.limbs.length :=
          Nat.mul_lt_mul'' (chunksValue_lt a.digits) (chunksValue_lt other.digits)
      _ = (10^9)^(a.limbs.length+other.limbs.length) := (pow_add _ _ _).symm
      _ ≤ (10^9)^(a.limbs.length+other.limbs.length+1) :=
          Nat.pow_le_pow_right (by norm_num) (Nat.le_succ _)
  obtain ⟨hvalue, hdigits, hlen⟩ := multiplyRows_spec a.digits other.digits hzeros
    (by rw [List.length_replicate]; exact Nat.le_succ _)
    (by rw [chunksValue_replicate, Nat.zero_add, List.length_replicate]; exact hfit)
  rw [chunksValue_replicate, Nat.zero_add] at hvalue
  rw [List.length_replicate] at hlen
  exact ⟨hvalue, hdigits, List.length_pos_iff_ne_nil.mp (by rw [productLimbs, hlen]; omega)⟩

theorem trim_product (a other : BigUInt) :
    chunksValue (trimLeadingZeros (productLimbs a other)) = a.toNat*other.toNat ∧
      Digits (trimLeadingZeros (productLimbs a other)) ∧
      (trimLeadingZeros (productLimbs a other) = [0] ∨
        trimLeadingZeros (productLimbs a other) ≠ [] ∧
          (trimLeadingZeros (productLimbs a other)).getLast? ≠ some 0) := by
  obtain ⟨hvalue, hdigits, hne⟩ := productLimbs_spec a other
  rw [← hvalue]
  exact trimLeadingZeros_spec hdigits hne

def multiplyBig (a other : BigUInt) : BigUInt :=
  if a.limbs = [0] then a
  else if other.limbs = [0] then zero
  else if other.limbs.length = 1 then a.multiplySmall (other.limbs.headD 0)
  else ⟨trimLeadingZeros (productLimbs a other), (trim_product a other).2.1,
    (trim_product a other).2.2⟩

@[simp] theorem toNat_multiplyBig (a other : BigUInt) :
    (a.multiplyBig other).toNat = a.toNat*other.toNat := by
  rw [multiplyBig]
  split_ifs with hzero hother hsmall
  · have ha : a.toNat = 0 := by rw [toNat, hzero]; rfl
    rw [ha, Nat.zero_mul]
  · have hb : other.toNat = 0 := by rw [toNat, hother]; rfl
    rw [hb, Nat.mul_zero, toNat_zero]
  · obtain ⟨x, hx⟩ := List.length_eq_one_iff.mp hsmall
    have hb : other.toNat = x.toNat := by
      rw [toNat, hx, chunksValue_cons, chunksValue_nil, Nat.mul_zero, Nat.add_zero]
    rw [toNat_multiplySmall, hb, hx, List.headD_cons]
  · exact (trim_product a other).1

/-- The loop of `Power` over the bits of the exponent. -/
def powerLoop (result accumulator : BigUInt) (remaining : UInt64) : BigUInt :=
  if _h : remaining = 0 then result
  else
    powerLoop (if remaining &&& 1 ≠ 0 then result.multiplyBig accumulator else result)
      (if remaining >>> 1 > 0 then accumulator.multiplyBig accumulator else accumulator)
      (remaining >>> 1)
  termination_by remaining.toNat
  decreasing_by
    rw [UInt64.toNat_shiftRight]
    exact Nat.div_lt_self (Nat.pos_of_ne_zero fun hzero => _h (UInt64.toNat_inj.mp hzero))
      (by decide)

def power (base : UInt32) (exponent : UInt64) : BigUInt :=
  if exponent = 0 then ofUInt32 1 else powerLoop (ofUInt32 1) (ofUInt32 base) exponent

theorem toNat_powerLoop (result accumulator : BigUInt) (remaining : UInt64) :
    (powerLoop result accumulator remaining).toNat =
      result.toNat*accumulator.toNat^remaining.toNat := by
  induction result, accumulator, remaining using powerLoop.induct with
  | case1 result accumulator => rw [powerLoop, dif_pos rfl, UInt64.toNat_zero, pow_zero, mul_one]
  | case2 result accumulator remaining h ih =>
    have hhalf : (remaining >>> 1).toNat = remaining.toNat/2 := by
      rw [UInt64.toNat_shiftRight]
      exact Nat.shiftRight_eq_div_pow _ 1
    have hbit : remaining &&& 1 ≠ 0 ↔ remaining.toNat%2 = 1 := by
      rw [ne_eq, ← UInt64.toNat_inj, UInt64.toNat_and, UInt64.toNat_one, UInt64.toNat_zero,
        Nat.and_one_is_mod]
      omega
    have hpos : remaining >>> 1 > 0 ↔ remaining.toNat/2 ≠ 0 := by
      rw [gt_iff_lt, UInt64.lt_iff_toNat_lt, hhalf, UInt64.toNat_zero]
      omega
    have hsplit := Nat.div_add_mod remaining.toNat 2
    simp only [dite_eq_ite] at ih
    rw [powerLoop, dif_neg h, ih, hhalf]
    simp only [hbit, hpos]
    have hsquare : (if remaining.toNat/2 ≠ 0 then accumulator.multiplyBig accumulator
        else accumulator).toNat^(remaining.toNat/2) =
          accumulator.toNat^(2*(remaining.toNat/2)) := by
      split_ifs with hzero
      · rw [toNat_multiplyBig, ← pow_two, pow_mul]
      · rw [not_not.mp hzero, Nat.mul_zero, pow_zero]
    rw [hsquare]
    conv_rhs => rw [← hsplit, pow_add]
    split_ifs with hodd
    · rw [toNat_multiplyBig, hodd, pow_one]
      ring
    · have heven : remaining.toNat%2 = 0 := by omega
      rw [heven, pow_zero, mul_one]

@[simp] theorem toNat_power (base : UInt32) (exponent : UInt64) :
    (power base exponent).toNat = base.toNat^exponent.toNat := by
  rw [power]
  split_ifs with hzero
  · rw [hzero, UInt64.toNat_zero, pow_zero, toNat_ofUInt32, UInt32.toNat_one]
  · rw [toNat_powerLoop, toNat_ofUInt32, toNat_ofUInt32, UInt32.toNat_one, one_mul]

/-- `ToDecimalString`: the top limb, and the others with all their nine digits. -/
def toDecimalString (a : BigUInt) : Text := joinChunks a.limbs.reverse

theorem toDecimalString_eq (a : BigUInt) : a.toDecimalString = decimal a.toNat := by
  rcases a.trimmed with h | ⟨hne, hlast⟩
  · rw [toDecimalString, toNat, h]
    decide
  · exact (joinChunks_eq a.limbs a.digits hlast hne).1

end BigUInt

end DSigMatcher.Hash
