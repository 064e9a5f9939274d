import DSigMatcher.Json.Parse
import DSigMatcher.Json.Write

namespace DSigMatcher.Json
open DSigMatcher.Base

/-- `InField`: an error without a path gets this one. -/
def inField {α : Type} (place : Text) (read : Except JsonError α) : Except JsonError α :=
  match read with
  | .ok x => .ok x
  | .error e => .error (if e.path.isEmpty then { e with path := place } else e)

@[simp] theorem inField_ok {α : Type} (place : Text) (x : α) :
    inField place (.ok x) = .ok x := rfl

def errorAt {α : Type} (detail : String) (place : Text) : Except JsonError α :=
  .error { detail := text detail, path := place }

def indexed (base : Text) (i : Nat) : Text := base ++ text "[" ++ decimal i ++ text "]"

def optionalString : Option Text → JsonValue
  | some t => .string t
  | none => .null

def readOptionalString (v : JsonValue) : Except JsonError (Option Text) :=
  match v with
  | .null => .ok none
  | v =>
    match v.asString with
    | .error e => .error e
    | .ok t => .ok (some t)

@[simp] theorem readOptionalString_optionalString (t : Option Text) :
    readOptionalString (optionalString t) = .ok t := by
  cases t <;> rfl

/-- The rows of an array, each read under its own index. -/
def readRows {α : Type} (read : JsonValue → Text → Except JsonError α) (place : Text) :
    Nat → List JsonValue → Except JsonError (List α)
  | _, [] => .ok []
  | i, row::rows =>
    match read row (indexed place i) with
    | .error e => .error e
    | .ok x =>
      match readRows read place (i+1) rows with
      | .error e => .error e
      | .ok xs => .ok (x::xs)

def readList {α : Type} (read : JsonValue → Text → Except JsonError α) (v : JsonValue)
    (place : Text) : Except JsonError (List α) :=
  match inField place v.items with
  | .error e => .error e
  | .ok rows => readRows read place 0 rows

def writeList {α : Type} (write : α → JsonValue) (l : List α) : JsonValue := .array (l.map write)

/-- A list is read back when its rows are. -/
theorem readList_writeList {α : Type} (write : α → JsonValue)
    (read : JsonValue → Text → Except JsonError α) (l : List α)
    (h : ∀ x ∈ l, ∀ place, read (write x) place = .ok x) (place : Text) :
    readList read (writeList write l) place = .ok l := by
  have hrows (i : Nat) : readRows read place i (l.map write) = .ok l := by
    induction l generalizing i with
    | nil => rfl
    | cons x l ih =>
      have htail := ih (fun y hy => h y (List.mem_cons_of_mem x hy)) (i+1)
      simp [readRows, h x List.mem_cons_self, htail]
  simp [readList, writeList, JsonValue.items, hrows]

/-- `%016llx`, most significant digit first. -/
def hexDigits : Nat → Nat → Text
  | 0, _ => []
  | k+1, n => hexDigits k (n/16) ++ [hexDigit (n%16)]

/-- `RatioBitsHex`. -/
def bitsHex (bits : UInt64) : Text := hexDigits 16 bits.toNat

def hexText (value : Nat) : Text → Option Nat
  | [] => some value
  | c::r =>
    match hexValue c with
    | some d => hexText (value*16+d) r
    | none => none

def parseRatioBits (hex : Text) : Except JsonError UInt64 :=
  if hex.length ≠ 16 then .error { detail := text "ratio_bits must have 16 hex digits: " ++ hex }
  else
    match hexText 0 hex with
    | some bits => .ok (UInt64.ofNat bits)
    | none => .error { detail := text "ratio_bits is not hex: " ++ hex }

example : bitsHex 0x3FF0000000000000 = text "3ff0000000000000" := by decide

theorem hexDigits_length (k n : Nat) : (hexDigits k n).length = k := by
  induction k generalizing n with
  | zero => rfl
  | succ k ih => simp [hexDigits, ih]

theorem hexText_append (value : Nat) (a b : Text) :
    hexText value (a ++ b) = (hexText value a).bind fun v => hexText v b := by
  induction a generalizing value with
  | nil => rfl
  | cons c a ih =>
    simp only [List.cons_append, hexText]
    cases hexValue c with
    | none => rfl
    | some d => exact ih _

theorem hexText_hexDigits (k n value : Nat) :
    hexText value (hexDigits k n) = some (value*16^k + n%16^k) := by
  have hvalue : ∀ d < 16, hexValue (hexDigit d) = some d := by decide
  induction k generalizing n with
  | zero => simp [hexDigits, hexText, Nat.mod_one]
  | succ k ih =>
    have hmod : n%16^(k+1) = n/16%16^k*16 + n%16 := by
      rw [Nat.pow_succ, Nat.mul_comm, Nat.mod_mul]
      omega
    rw [hexDigits, hexText_append, ih, Option.bind_some, hexText,
      hvalue _ (Nat.mod_lt _ (by decide)), hmod]
    simp only [hexText, Option.some.injEq]
    rw [Nat.pow_succ, ← Nat.mul_assoc]
    omega

@[simp] theorem parseRatioBits_bitsHex (bits : UInt64) :
    parseRatioBits (bitsHex bits) = .ok bits := by
  have hmod : bits.toNat%16^16 = bits.toNat := Nat.mod_eq_of_lt bits.toNat_lt
  rw [parseRatioBits, bitsHex, if_neg (by simp [hexDigits_length]), hexText_hexDigits, hmod]
  simp

theorem digitsValue_append (t : Text) (c : UInt8) :
    JsonValue.digitsValue (t ++ [c]) = JsonValue.digitsValue t*10 + (c.toNat-48) := by
  simp [JsonValue.digitsValue]

/-- The digits of a printed number: their value, and no leading zero. -/
theorem digitsValue_decimal (n : Nat) :
    JsonValue.digitsValue (decimal n) = n ∧ (∀ c ∈ decimal n, isDigit c = true) ∧
      ∃ d v, decimal n = d::v ∧ (d = 48 → v = []) := by
  have hdigit : ∀ d < 10, isDigit (UInt8.ofNat (48+d)) = true ∧
      (UInt8.ofNat (48+d)).toNat-48 = d := by decide
  induction n using Nat.strongRecOn with
  | ind n ih =>
    by_cases hn : n < 10
    · rw [decimal_of_lt n hn]
      refine ⟨?_, by simpa using (hdigit n hn).1, _, _, rfl, fun _ => rfl⟩
      simpa [JsonValue.digitsValue] using (hdigit n hn).2
    · have hmod := hdigit (n%10) (Nat.mod_lt n (by decide))
      obtain ⟨hvalue, hall, d, v, hd, hzero⟩ := ih (n/10) (by omega)
      rw [decimal_of_le n (by omega)]
      refine ⟨?_, ?_, d, v ++ [_], by rw [hd]; rfl, fun h48 => ?_⟩
      · rw [digitsValue_append, hvalue, hmod.2]
        omega
      · intro c hc
        rcases List.mem_append.mp hc with hc | hc
        · exact hall c hc
        · rw [List.mem_singleton.mp hc]
          exact hmod.1
      · rw [hd, h48, hzero h48] at hvalue
        simp [JsonValue.digitsValue] at hvalue
        omega

theorem decimal_head (n : Nat) :
    ∃ d v, decimal n = d::v ∧ isDigit d = true ∧ d ≠ 45 ∧ (d = 48 → v = []) := by
  obtain ⟨-, hall, d, v, hd, hzero⟩ := digitsValue_decimal n
  have hdigit : isDigit d = true := hall d (by simp [hd])
  refine ⟨d, v, hd, hdigit, ?_, hzero⟩
  rintro rfl
  exact absurd hdigit (by decide)

theorem isJsonNumberText_digits (t : Text) (k : Nat)
    (ht : (if t.head? = some 45 then t.tail else t) = decimal k) : isJsonNumberText t = true := by
  obtain ⟨d, v, hd, hdigit, -, hzero⟩ := decimal_head k
  have hdrop : dropDigits v = [] := by
    refine List.dropWhile_eq_nil_iff.mpr fun c hc => ?_
    exact (digitsValue_decimal k).2.1 c (by simp [hd, hc])
  have hrest : (if d = 48 then v else dropDigits v) = [] := by
    split_ifs with h48
    · exact hzero h48
    · exact hdrop
  rw [isJsonNumberText, ht]
  simp [hd, hdigit, hrest, isExponentText]

theorem isJsonNumberText_decimalInt (n : Int) : isJsonNumberText (decimalInt n) = true := by
  cases n with
  | ofNat k =>
    obtain ⟨d, v, hd, -, h45, -⟩ := decimal_head k
    have hsign : ¬ (decimalInt (Int.ofNat k)).head? = some 45 := by simp [decimalInt, hd, h45]
    apply isJsonNumberText_digits _ k
    rw [if_neg hsign]
    rfl
  | negSucc k =>
    have hsign : (decimalInt (Int.negSucc k)).head? = some 45 := rfl
    apply isJsonNumberText_digits _ (k+1)
    rw [if_pos hsign]
    rfl

/-- A printed number is an integer literal. -/
theorem isIntegerText_decimalInt (n : Int) :
    (JsonValue.number (decimalInt n)).isIntegerText = true := by
  have hdigits (k : Nat) : ∀ c ∈ decimal k, (c != 46 && c != 101 && c != 69 && c != 78 &&
      c != 73) = true := by
    intro c hc
    have hdigit := (digitsValue_decimal k).2.1 c hc
    simp only [Bool.and_eq_true, bne_iff_ne]
    refine ⟨⟨⟨⟨?_, ?_⟩, ?_⟩, ?_⟩, ?_⟩ <;> rintro rfl <;> exact absurd hdigit (by decide)
  unfold JsonValue.isIntegerText
  cases n with
  | ofNat k =>
    obtain ⟨d, v, hd, -⟩ := decimal_head k
    rw [Bool.and_eq_true]
    refine ⟨by simp [decimalInt, hd], ?_⟩
    exact List.all_eq_true.mpr (hdigits k)
  | negSucc k =>
    rw [Bool.and_eq_true]
    refine ⟨rfl, ?_⟩
    change ((45 : UInt8)::decimal (k+1)).all _ = true
    rw [List.all_cons, Bool.and_eq_true]
    exact ⟨rfl, List.all_eq_true.mpr (hdigits (k+1))⟩

theorem fromChars_decimalInt (value : Int64) :
    JsonValue.fromChars (decimalInt value.toInt) = some value := by
  have hlo := Int64.le_toInt value
  have hhi := Int64.toInt_lt value
  have hof := Int64.ofInt_toInt value
  cases hn : value.toInt with
  | ofNat k =>
    obtain ⟨hvalue, hall, -⟩ := digitsValue_decimal k
    obtain ⟨d, v, hd, -, h45, -⟩ := decimal_head k
    have hsign : ¬ (decimal k).head? = some 45 := by simp [hd, h45]
    have hne : ((decimal k).isEmpty || !(decimal k).all isDigit) = false := by
      rw [List.all_eq_true.mpr hall, hd]
      rfl
    rw [hn] at hlo hhi hof
    have hrange : -2^63 ≤ (k : Int) ∧ (k : Int) < 2^63 := ⟨hlo, hhi⟩
    simp only [JsonValue.fromChars, decimalInt, hsign, Bool.false_eq_true, if_false,
      hne, hvalue, if_pos hrange]
    exact congrArg some hof
  | negSucc k =>
    obtain ⟨hvalue, hall, -⟩ := digitsValue_decimal (k+1)
    obtain ⟨d, v, hd, -, h45, -⟩ := decimal_head (k+1)
    have hne : ((decimal (k+1)).isEmpty || !(decimal (k+1)).all isDigit) = false := by
      rw [List.all_eq_true.mpr hall, hd]
      rfl
    have hcons : decimalInt (Int.negSucc k) = 45::decimal (k+1) := rfl
    rw [hn] at hlo hhi hof
    have hneg : -((k+1 : Nat) : Int) = Int.negSucc k := rfl
    have hrange : -2^63 ≤ -((k+1 : Nat) : Int) ∧ -((k+1 : Nat) : Int) < 2^63 := ⟨hlo, hhi⟩
    simp only [JsonValue.fromChars, hcons, List.head?_cons, if_true, List.tail_cons,
      hne, Bool.false_eq_true, if_false, hvalue, if_pos hrange]
    rw [hneg]
    exact congrArg some hof

@[simp] theorem asInt64_int (value : Int64) : (JsonValue.int value).asInt64 = .ok value := by
  simp [JsonValue.asInt64, JsonValue.int, isIntegerText_decimalInt, fromChars_decimalInt]

end DSigMatcher.Json
