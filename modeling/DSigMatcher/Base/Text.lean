import Mathlib.Data.List.Basic

namespace DSigMatcher.Base

/-- A byte string of the program. -/
abbrev Text := List UInt8

instance : LawfulBEq Text := inferInstance

instance : LawfulBEq (Option Text) := inferInstance

/-- The bytes of an ASCII literal. -/
def text (s : String) : Text := s.toList.map fun c => UInt8.ofNat c.toNat

def startsWith (t pre : Text) : Bool := pre.isPrefixOf t

theorem startsWith_iff (t pre : Text) : startsWith t pre = true ↔ pre <+: t := by
  unfold startsWith
  exact List.isPrefixOf_iff_prefix

/-- `std::to_string` of an unsigned number. -/
def decimal (n : Nat) : Text := (Nat.toDigits 10 n).map fun c => UInt8.ofNat c.toNat

private theorem digitChar_toNat : ∀ d < 10,
    UInt8.ofNat (Nat.digitChar d).toNat = UInt8.ofNat (48+d) := by decide

theorem decimal_of_lt (n : Nat) (h : n < 10) : decimal n = [UInt8.ofNat (48+n)] := by
  rw [decimal, Nat.toDigits_of_lt_base h, List.map_singleton, digitChar_toNat n h]

theorem decimal_of_le (n : Nat) (h : 10 ≤ n) :
    decimal n = decimal (n/10) ++ [UInt8.ofNat (48+n%10)] := by
  rw [decimal, Nat.toDigits_of_base_le (by decide) h, List.map_append, List.map_singleton,
    digitChar_toNat _ (Nat.mod_lt n (by decide)), decimal]

/-- `std::to_string` of a signed number. -/
def decimalInt : Int → Text
  | .ofNat n => decimal n
  | .negSucc n => text "-" ++ decimal (n+1)

theorem decimalInt_neg {n : Nat} (hn : 0 < n) : decimalInt (-(n : Int)) = 45::decimal n := by
  obtain ⟨n, rfl⟩ := Nat.exists_eq_succ_of_ne_zero (Nat.pos_iff_ne_zero.mp hn)
  rfl

/-- `%08llx`. -/
def hexEa (ea : Nat) : Text :=
  let digits := (Nat.toDigits 16 ea).map fun c => UInt8.ofNat c.toNat
  List.replicate (8-digits.length) 48 ++ digits

example : hexEa 4198400 = text "00401000" := by decide

end DSigMatcher.Base
