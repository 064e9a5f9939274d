import DSigMatcher.Base.Text
import Mathlib.Data.List.TakeWhile

namespace DSigMatcher.Base

/-- The value of a hexadecimal digit. -/
def hexValue (c : UInt8) : Option UInt8 :=
  if 48 ≤ c ∧ c ≤ 57 then some (c-48)
  else if 65 ≤ c ∧ c ≤ 70 then some (c-55)
  else if 97 ≤ c ∧ c ≤ 102 then some (c-87)
  else none

/-- Every escape of a percent sign and two digits is one byte. -/
def percentDecode : Text → Text
  | [] => []
  | 37::h::l::t =>
    match hexValue h, hexValue l with
    | some hi, some lo => (hi*16+lo)::percentDecode t
    | _, _ => 37::percentDecode (h::l::t)
  | c::t => c::percentDecode t

/-- What a file URI says to SQLite. -/
structure FileUri where
  authority : Text
  path : Text
  params : List (Text × Text)
  fragment : Option Text
  deriving DecidableEq

/-- The parameters of a query: `name=value`, split at `&`. -/
def queryParams (query : Text) : List (Text × Text) :=
  if query = [] then []
  else (query.splitOn 38).map fun param =>
    (percentDecode (param.takeWhile (· ≠ 61)),percentDecode (param.dropWhile (· ≠ 61)).tail)

/-- What stands behind the authority: the path up to `?`, the query up to `#`, the fragment. -/
def decodeBehind (authority rest : Text) : FileUri :=
  let body := rest.takeWhile (· ≠ 35)
  { authority
    path := percentDecode (body.takeWhile (· ≠ 63))
    params := queryParams (body.dropWhile (· ≠ 63)).tail
    fragment := (rest.dropWhile (· ≠ 35)).tail? }

/-- The documented reading of a URI filename: an authority stands between `//` and the next slash. -/
def decodeFileUri (uri : Text) : Option FileUri :=
  if startsWith uri (text "file:") then
    let rest := uri.drop 5
    if startsWith rest (text "//") then
      let named := rest.drop 2
      some (decodeBehind (named.takeWhile (· ≠ 47)) (named.dropWhile (· ≠ 47)))
    else some (decodeBehind [] rest)
  else none

theorem percentDecode_cons {c : UInt8} (hc : c ≠ 37) (t : Text) :
    percentDecode (c::t) = c::percentDecode t := by
  rw [percentDecode]
  intro h l r hpercent
  exact absurd hpercent hc

theorem percentDecode_escape {h l hi lo : UInt8} (hh : hexValue h = some hi) (hl : hexValue l = some lo)
    (t : Text) : percentDecode (37::h::l::t) = (hi*16+lo)::percentDecode t := by
  rw [percentDecode, hh, hl]

/-- A path without separators, and a query without a fragment, are told apart. -/
theorem decodeBehind_append (authority : Text) {path query : Text} (hpath : 35 ∉ path ∧ 63 ∉ path)
    (hquery : 35 ∉ query) (hstart : query.head?.all (· = 63)) :
    decodeBehind authority (path ++ query) =
      ⟨authority,percentDecode path,queryParams query.tail,none⟩ := by
  have hbody : ∀ c ∈ path ++ query, decide (c ≠ 35) = true := by
    intro c hc
    apply decide_eq_true
    rintro rfl
    rcases List.mem_append.mp hc with hc | hc
    · exact hpath.1 hc
    · exact hquery hc
  have hmark : ∀ c ∈ path, decide (c ≠ 63) = true := by
    intro c hc
    apply decide_eq_true
    rintro rfl
    exact hpath.2 hc
  have hends : query.takeWhile (· ≠ 63) = [] ∧ query.dropWhile (· ≠ 63) = query := by
    cases query with
    | nil => exact ⟨rfl, rfl⟩
    | cons c query =>
      have hc : c = 63 := of_decide_eq_true hstart
      exact ⟨List.takeWhile_cons_of_neg (by simp [hc]), List.dropWhile_cons_of_neg (by simp [hc])⟩
  unfold decodeBehind
  rw [List.takeWhile_eq_self_iff.mpr hbody, List.dropWhile_eq_nil_iff.mpr hbody]
  simp only
  rw [List.takeWhile_append_of_pos hmark, List.dropWhile_append_of_pos hmark, hends.1, hends.2,
    List.append_nil]
  rfl

end DSigMatcher.Base
