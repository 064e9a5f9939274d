import DSigMatcher.Framework.Integral
import DSigMatcher.Json.ReprShortest
import Mathlib

namespace DSigMatcher.Json
open DSigMatcher.Base DSigMatcher.Framework

/-- `PyValue::Kind`. -/
inductive PyKind
  | none
  | bool
  | int
  | float
  | str
  | list
  | dict
  deriving DecidableEq

def PyValue.kind : PyValue → PyKind
  | .none => .none
  | .bool _ => .bool
  | .int _ => .int
  | .float _ => .float
  | .str _ => .str
  | .list _ => .list
  | .dict _ => .dict

def PyValue.hashable (v : PyValue) : Bool := v.kind ≠ .list && v.kind ≠ .dict

def isNumeric (kind : PyKind) : Bool := kind = .bool || kind = .int || kind = .float

def kindName : PyKind → Text
  | .none => text "NoneType"
  | .bool => text "bool"
  | .int => text "int"
  | .float => text "float"
  | .str => text "str"
  | .list => text "list"
  | .dict => text "dict"

/-- The canonical decimal of an integral double. -/
def integralDoubleDigits (v : Binary64) : Text :=
  if v.eq Binary64.zero then text "0"
  else
    let magnitude := signed false v.magnitude
    let digits :=
      -- below 2^53
      if magnitude < Binary64.ofBits 0x4340000000000000 then
        decimal (Binary64.truncate magnitude.magnitude)
      else
        let exact := exactDecimal magnitude.magnitude
        exact.1 ++ List.replicate (exact.2-exact.1.length).toNat 48
    if v < Binary64.zero then 45::digits else digits

def isIntegralFinite (v : Binary64) : Bool :=
  (!v.isNaN && !v.isInfinite) && (Binary64.floor v).eq v

/-- The digits of a number that is integral. -/
def integralDigits : PyValue → Option Text
  | .bool b => some (if b then text "1" else text "0")
  | .int digits => some digits
  | .float x => if isIntegralFinite x then some (integralDoubleDigits x) else none
  | _ => none

/-- FNV-1a, and its upper bits once more. -/
def hashBytes (bytes : Text) (seed : UInt64) : UInt64 :=
  let hash := bytes.foldl (fun hash c => (hash ^^^ c.toUInt64)*1099511628211)
    (1469598103934665603 ^^^ seed)
  hash ^^^ (hash >>> 29)

/-- A float and a number of another kind. -/
def floatEqualsInt (f i : PyValue) : Bool :=
  (integralDigits f).isSome && integralDigits f == integralDigits i

/-- `PyEquals` of two numbers. -/
def numbersEqual : PyValue → PyValue → Bool
  | .float x, .float y => x.isNaN && y.isNaN || x.eq y
  | .float x, i => floatEqualsInt (.float x) i
  | i, .float x => floatEqualsInt (.float x) i
  | a, b => integralDigits a == integralDigits b

mutual

def pyEquals (a b : PyValue) : Bool :=
  if isNumeric a.kind && isNumeric b.kind then numbersEqual a b
  else if a.kind ≠ b.kind then false
  else
    match a, b with
    | .none, _ => true
    | .str s, .str t => s == t
    | .list items, .list others => items.length == others.length && itemsEqual items others
    | .dict members, .dict others =>
      members.length == others.length && membersEqual members others
    | _, _ => false

def itemsEqual : List PyValue → List PyValue → Bool
  | v::items, w::others => pyEquals v w && itemsEqual items others
  | _, _ => true

/-- Each key's value equals that of the first such key. -/
def membersEqual : List (Text × PyValue) → List (Text × PyValue) → Bool
  | [], _ => true
  | (key,v)::members, others =>
    (match others.find? fun other => key == other.1 with
      | some other => pyEquals v other.2
      | none => false) &&
    membersEqual members others

end

/-- `TypeError` on a list or a dict. -/
def unhashable (site : Text) (kind : PyKind) : PyLoadsError :=
  .diaphoraWouldRaise site (text "TypeError: unhashable type: '" ++ kindName kind ++ text "'")

/-- The bytes of a word in memory. -/
def wordBytes (w : Nat) : Text := (List.range 8).map fun i => UInt8.ofNat (w/256^i)

def pyHash (v : PyValue) : Except PyLoadsError UInt64 :=
  match v with
  | .none => .ok 0x9e3779b97f4a7c15
  | .str t => .ok (hashBytes t 0x53)
  | .float x =>
    if x.isNaN then .ok 0x7ff8
    else
      match integralDigits v with
      | some digits => .ok (hashBytes digits 0x49)
      | none => .ok (hashBytes (wordBytes x.toBits) 0x46)
  | .list _ | .dict _ => .error (unhashable (text "hash") v.kind)
  | _ => .ok (hashBytes ((integralDigits v).getD []) 0x49)

/-- The integer of digits with a sign. -/
def integerValue (digits : Text) : Int :=
  if digits.head? = some 45 then -(JsonValue.digitsValue digits.tail : Int)
  else JsonValue.digitsValue digits

theorem integerValue_decimalInt (n : Int) : integerValue (decimalInt n) = n := by
  cases n with
  | ofNat n =>
    obtain ⟨d, v, hd, -, hminus, -⟩ := decimal_head n
    have hhead : (decimal n).head? ≠ some 45 := by
      rw [hd, List.head?_cons, ne_eq, Option.some.injEq]
      exact hminus
    rw [decimalInt, integerValue, if_neg hhead, (digitsValue_decimal n).1]
    rfl
  | negSucc n =>
    have hvalue : integerValue (decimalInt (Int.negSucc n)) =
        -(JsonValue.digitsValue (decimal (n+1)) : Int) := rfl
    rw [hvalue, (digitsValue_decimal (n+1)).1]
    rfl

theorem decimalInt_inj {m n : Int} : decimalInt m = decimalInt n ↔ m = n :=
  (Function.LeftInverse.injective integerValue_decimalInt).eq_iff

/-- The exact digits of an integer, filled up with zeros, are its decimal. -/
theorem exactDecimal_filled {v : Binary64} {n : Nat} (h : Positive v)
    (hn : Binary64.grid v.magnitude = n) :
    (exactDecimal v.magnitude).1 ++ List.replicate
      ((exactDecimal v.magnitude).2-(exactDecimal v.magnitude).1.length).toNat 48 = decimal n := by
  obtain ⟨⟨hdigit, hne, hhead, hlast⟩, hvalue⟩ := exactDecimal_spec h
  generalize (exactDecimal v.magnitude).1 = digits at hdigit hne hhead hlast hvalue ⊢
  generalize (exactDecimal v.magnitude).2 = decPt at hvalue ⊢
  rw [pointRat, decimalRat, hn] at hvalue
  rcases Int.lt_or_le decPt digits.length with hfraction | hwhole
  · -- a fraction's last digit would be a zero
    obtain ⟨k, hk⟩ : ∃ k : Nat, decPt-digits.length = -((k+1 : Nat) : Int) :=
      ⟨(digits.length-decPt-1).toNat, by omega⟩
    have hten : (10 : ℚ)^(k+1) ≠ 0 := pow_ne_zero _ (by norm_num)
    rw [hk, zpow_neg, zpow_natCast, ← div_eq_mul_inv, div_eq_iff hten] at hvalue
    have hmul : JsonValue.digitsValue digits = n*10^(k+1) := by exact_mod_cast hvalue
    obtain ⟨t, c, rfl⟩ := (List.eq_nil_or_concat digits).resolve_left hne
    rw [List.concat_eq_append] at hdigit hlast hmul
    have hc := digit_lt (hdigit c (by simp))
    rw [digitsValue_append, pow_succ, ← Nat.mul_assoc] at hmul
    generalize n*10^k = tens at hmul
    refine absurd ?_ hlast
    rw [List.getLast?_concat, Option.some.injEq]
    apply UInt8.toNat_inj.mp
    have hzero : (48 : UInt8).toNat = 48 := rfl
    omega
  · obtain ⟨k, hk⟩ : ∃ k : Nat, decPt-digits.length = (k : Int) :=
      ⟨(decPt-digits.length).toNat, by omega⟩
    rw [hk, zpow_natCast] at hvalue
    rw [hk, Int.toNat_natCast]
    have hfilled : JsonValue.digitsValue (digits ++ List.replicate k 48) = n := by
      rw [digitsValue_join, digitsValue_replicate, List.length_replicate, Nat.add_zero]
      exact_mod_cast hvalue
    rw [← hfilled]
    refine (decimal_digitsValue ?_ (List.append_ne_nil_of_left_ne_nil hne _) ?_).symm
    · intro c hc
      rcases List.mem_append.mp hc with hc | hc
      · exact hdigit c hc
      · rw [List.eq_of_mem_replicate hc]
        rfl
    · rw [List.head?_append_of_ne_nil _ hne]
      exact hhead

theorem key_eq_zero_iff {x : Binary64} (hx : x.isNaN = false) :
    x.eq Binary64.zero = true ↔ x.magnitude = 0 := by
  rw [Binary64.eq_iff _ _ hx rfl, Binary64.key]
  have hzero : Binary64.zero.key = 0 := rfl
  rw [hzero]
  split_ifs <;> omega

theorem isIntegralFinite_iff (x : Binary64) : isIntegralFinite x = true ↔ x.Integral := by
  rw [isIntegralFinite, Bool.and_eq_true, ← Binary64.finite_iff]
  constructor
  · rintro ⟨hfinite, hfloor⟩
    exact (Binary64.floor_eq_iff hfinite).mp hfloor
  · intro h
    exact ⟨h.1, (Binary64.floor_eq_iff h.1).mpr h⟩

/-- The digits of an integral double are those of its integer. -/
theorem integralDoubleDigits_eq {x : Binary64} (h : x.Integral) :
    integralDoubleDigits x = decimalInt x.integer := by
  obtain ⟨hnan, -⟩ := h.1.not_special
  have hgrid := Binary64.grid_eq_truncate h.2
  by_cases hzero : x.magnitude = 0
  · have hinteger : x.integer = 0 := by
      rw [Binary64.integer, hzero, Binary64.truncate_zero]
      exact ite_self _
    rw [integralDoubleDigits, if_pos ((key_eq_zero_iff hnan).mpr hzero), hinteger]
    rfl
  · have hsigned : (signed false x.magnitude).magnitude = x.magnitude := by
      rw [signed_eq (Nat.le_of_lt h.1)]
      exact Nat.min_eq_left (Nat.le_of_lt h.1)
    have hpos : 0 < Binary64.truncate x.magnitude := by
      have hlt := Binary64.grid_strictMono (Nat.pos_of_ne_zero hzero)
      rw [Binary64.grid_zero, hgrid] at hlt
      exact_mod_cast hlt
    have hdigits : (exactDecimal x.magnitude).1 ++ List.replicate
        ((exactDecimal x.magnitude).2-(exactDecimal x.magnitude).1.length).toNat 48 =
          decimal (Binary64.truncate x.magnitude) :=
      exactDecimal_filled (v := ⟨false,x.magnitude,x.bounded⟩) ⟨rfl, h.1, hzero⟩ hgrid
    have hless : x < Binary64.zero ↔ x.negative = true := by
      rw [Binary64.lt_iff _ _ hnan rfl, Binary64.key]
      have hkey : Binary64.zero.key = 0 := rfl
      rw [hkey]
      cases x.negative
      · simp
      · simp [Nat.pos_of_ne_zero hzero]
    rw [integralDoubleDigits, if_neg (mt (key_eq_zero_iff hnan).mp hzero)]
    dsimp only
    rw [hsigned, hdigits, ite_self, if_congr hless rfl rfl, Binary64.integer]
    split_ifs
    · rw [decimalInt_neg hpos]
    · rfl

/-- What equality and hashing depend on. -/
inductive PyKey
  | none
  | str (t : Text)
  | number (digits : Text)
  | nan
  | word (x : Binary64)

/-- The key of a hashable value. -/
def pyKey : PyValue → PyKey
  | .str t => .str t
  | .bool b => .number (if b then text "1" else text "0")
  | .int digits => .number digits
  | .float x =>
    if x.isNaN then .nan
    else if isIntegralFinite x then .number (integralDoubleDigits x)
    else .word x
  | _ => .none

def keyHash : PyKey → UInt64
  | .none => 0x9e3779b97f4a7c15
  | .str t => hashBytes t 0x53
  | .number digits => hashBytes digits 0x49
  | .nan => 0x7ff8
  | .word x => hashBytes (wordBytes x.toBits) 0x46

theorem pyHash_eq {v : PyValue} (hv : v.hashable = true) : pyHash v = .ok (keyHash (pyKey v)) := by
  cases v with
  | none => rfl
  | bool b => rfl
  | int digits => rfl
  | str t => rfl
  | float x =>
    rw [pyHash, pyKey, integralDigits]
    split_ifs <;> rfl
  | list items => cases hv
  | dict members => cases hv

/-- Integral doubles are equal when their digits are. -/
theorem integralDigits_inj {x y : Binary64} (hx : x.Integral) (hy : y.Integral) :
    integralDoubleDigits x = integralDoubleDigits y ↔ x.key = y.key := by
  rw [integralDoubleDigits_eq hx, integralDoubleDigits_eq hy, decimalInt_inj,
    Binary64.key_eq_iff_value, hx.value_eq, hy.value_eq, Int.cast_inj]

theorem floats_equal_iff (x y : Binary64) :
    (x.isNaN && y.isNaN || x.eq y) = true ↔ pyKey (.float x) = pyKey (.float y) := by
  rw [pyKey, pyKey]
  cases hx : x.isNaN <;> cases hy : y.isNaN
  · rw [Bool.and_false, Bool.false_or, Binary64.eq_iff _ _ hx hy, if_neg Bool.false_ne_true,
      if_neg Bool.false_ne_true]
    by_cases hxi : x.Integral <;> by_cases hyi : y.Integral
    · rw [if_pos ((isIntegralFinite_iff x).mpr hxi), if_pos ((isIntegralFinite_iff y).mpr hyi),
        PyKey.number.injEq, integralDigits_inj hxi hyi]
    · rw [if_pos ((isIntegralFinite_iff x).mpr hxi), if_neg (mt (isIntegralFinite_iff y).mp hyi)]
      exact iff_of_false (fun h => hyi (hxi.of_key h)) PyKey.noConfusion
    · rw [if_neg (mt (isIntegralFinite_iff x).mp hxi), if_pos ((isIntegralFinite_iff y).mpr hyi)]
      exact iff_of_false (fun h => hxi (hyi.of_key h.symm)) PyKey.noConfusion
    · rw [if_neg (mt (isIntegralFinite_iff x).mp hxi), if_neg (mt (isIntegralFinite_iff y).mp hyi),
        PyKey.word.injEq]
      exact ⟨fun h => Binary64.eq_of_key x y (mt Binary64.integral_of_key_zero hxi) h,
        fun h => congrArg _ h⟩
  · have hfalse : x.eq y = false := by simp [Binary64.eq, hy]
    rw [hfalse, if_neg Bool.false_ne_true, if_pos rfl]
    split_ifs <;> simp
  · have hfalse : x.eq y = false := by simp [Binary64.eq, hx]
    rw [hfalse, if_neg Bool.false_ne_true, if_pos rfl]
    split_ifs <;> simp
  · simp

/-- The key of a number is neither that of None nor that of a text. -/
theorem pyKey_numeric {v : PyValue} (hv : isNumeric v.kind = true) :
    pyKey v ≠ .none ∧ ∀ t, pyKey v ≠ .str t := by
  cases v with
  | bool b => exact ⟨PyKey.noConfusion, fun _ => PyKey.noConfusion⟩
  | int digits => exact ⟨PyKey.noConfusion, fun _ => PyKey.noConfusion⟩
  | float x =>
    rw [pyKey]
    split_ifs <;> exact ⟨PyKey.noConfusion, fun _ => PyKey.noConfusion⟩
  | _ => cases hv

theorem hashable_cases {v : PyValue} (hv : v.hashable = true) :
    v = .none ∨ (∃ t, v = .str t) ∨ isNumeric v.kind = true := by
  cases v with
  | none => exact .inl rfl
  | str t => exact .inr (.inl ⟨t, rfl⟩)
  | list items => cases hv
  | dict members => cases hv
  | _ => exact .inr (.inr rfl)

theorem floatEqualsInt_iff (x : Binary64) {i : PyValue} {digits : Text}
    (hi : integralDigits i = some digits) :
    floatEqualsInt (.float x) i = true ↔ pyKey (.float x) = .number digits := by
  rw [floatEqualsInt, hi, integralDigits, pyKey]
  by_cases hx : isIntegralFinite x = true
  · have hnan := ((isIntegralFinite_iff x).mp hx).1.not_special.1
    simp [hx, hnan]
  · rw [if_neg hx, if_neg hx]
    split_ifs <;> simp

theorem numbersEqual_iff_key {a b : PyValue} (ha : isNumeric a.kind = true)
    (hb : isNumeric b.kind = true) : numbersEqual a b = true ↔ pyKey a = pyKey b := by
  have hdigits (s t : Text) : (some s == some t) = true ↔ PyKey.number s = .number t := by simp
  cases a with
  | bool c =>
    cases b with
    | bool d => exact hdigits _ _
    | int t => exact hdigits _ _
    | float y => exact (floatEqualsInt_iff y rfl).trans eq_comm
    | _ => cases hb
  | int s =>
    cases b with
    | bool d => exact hdigits _ _
    | int t => exact hdigits _ _
    | float y => exact (floatEqualsInt_iff y rfl).trans eq_comm
    | _ => cases hb
  | float x =>
    cases b with
    | bool d => exact floatEqualsInt_iff x rfl
    | int t => exact floatEqualsInt_iff x rfl
    | float y => exact floats_equal_iff x y
    | _ => cases hb
  | _ => cases ha

/-- Hashable values are equal when their keys are. -/
theorem pyEquals_iff_key {a b : PyValue} (ha : a.hashable = true) (hb : b.hashable = true) :
    pyEquals a b = true ↔ pyKey a = pyKey b := by
  rw [pyEquals.eq_def]
  split_ifs with hnumeric hkind
  · rw [Bool.and_eq_true] at hnumeric
    exact numbersEqual_iff_key hnumeric.1 hnumeric.2
  · refine iff_of_false id fun hkey => ?_
    rcases hashable_cases ha with rfl | ⟨s, rfl⟩ | hna <;>
      rcases hashable_cases hb with rfl | ⟨t, rfl⟩ | hnb
    · exact hkind rfl
    · cases hkey
    · exact (pyKey_numeric hnb).1 hkey.symm
    · cases hkey
    · exact hkind rfl
    · exact (pyKey_numeric hnb).2 s hkey.symm
    · exact (pyKey_numeric hna).1 hkey
    · exact (pyKey_numeric hna).2 t hkey
    · exact hnumeric (by rw [hna, hnb]; rfl)
  · have hsame : a.kind = b.kind := not_not.mp hkind
    rcases hashable_cases ha with rfl | ⟨s, rfl⟩ | hna
    · cases b with
      | none => exact iff_of_true rfl rfl
      | _ => cases hsame
    · cases b with
      | str t => simp [pyKey]
      | _ => cases hsame
    · exact absurd (by rw [← hsame, hna]; rfl) hnumeric

end DSigMatcher.Json
