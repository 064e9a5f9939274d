import DSigMatcher.Framework.Fallible
import DSigMatcher.Json.Read
import DSigMatcher.Json.RoundTrip

namespace DSigMatcher.Json
open DSigMatcher.Base DSigMatcher.Framework

/-- `MemberPath`. -/
def memberPath (place key : Text) : Text := if place.isEmpty then key else place ++ text "." ++ key

/-- The path of an error about a whole value. -/
def rootPath (place : Text) : Text := if place.isEmpty then text "(root)" else place

/-- `Member`: the errors carry their path. -/
def member (v : JsonValue) (key place : Text) : Except JsonError JsonValue :=
  if !v.isObject then errorAt "JSON value is not an object" (rootPath place)
  else
    match v.find? key with
    | none => errorAt "missing member" (memberPath place key)
    | some x => .ok x

/-- One field of an object, read under its own path. -/
def field {α : Type} (v : JsonValue) (key : String) (place : Text)
    (read : JsonValue → Except JsonError α) : Except JsonError α :=
  inField (memberPath place (text key)) (member v (text key) place >>= read)

/-- A member that is missing or null leaves the default. -/
def optionalMember {α : Type} (v : JsonValue) (key : String) (default : α)
    (read : JsonValue → Except JsonError α) : Except JsonError α :=
  match v.find? (text key) with
  | none => .ok default
  | some .null => .ok default
  | some x => read x

def require (holds : Bool) (detail : String) (place : Text) : Except JsonError Unit :=
  if holds then .ok () else errorAt detail place

theorem require_eq_ok {holds : Bool} {detail : String} {place : Text} {u : Unit}
    (h : require holds detail place = .ok u) : holds = true := by
  cases holds with
  | true => rfl
  | false => cases h

/-- With distinct keys every listed member is found. -/
theorem find?_of_mem (members : List (Text × JsonValue)) (hkeys : (members.map Prod.fst).Nodup)
    (key : Text) (x : JsonValue) (h : (key,x) ∈ members) :
    (JsonValue.object members).find? key = some x := by
  have hfind : members.find? (fun m => m.1 = key) = some (key,x) := by
    induction members with
    | nil => cases h
    | cons m ms ih =>
      rw [List.map_cons, List.nodup_cons] at hkeys
      rcases List.mem_cons.mp h with rfl | h
      · simp
      · have hne : m.1 ≠ key := by
          rintro rfl
          exact hkeys.1 (List.mem_map.mpr ⟨(m.1,x), h, rfl⟩)
        rw [List.find?_cons_of_neg (by simpa using hne), ih hkeys.2 h]
  simp [JsonValue.find?, hfind]

theorem find?_of_not_mem (members : List (Text × JsonValue)) (key : Text)
    (h : key ∉ members.map Prod.fst) : (JsonValue.object members).find? key = none := by
  have hfind : members.find? (fun m => m.1 = key) = none := by
    rw [List.find?_eq_none]
    intro m hm hkey
    have hkey : m.1 = key := by simpa using hkey
    exact h (hkey ▸ List.mem_map_of_mem hm)
  simp [JsonValue.find?, hfind]

/-- A field is read back when its value is. -/
theorem field_of_mem {α : Type} (members : List (Text × JsonValue))
    (hkeys : (members.map Prod.fst).Nodup) (key : String) (place : Text) (x : JsonValue)
    (read : JsonValue → Except JsonError α) (value : α) (h : (text key,x) ∈ members)
    (hread : read x = .ok value) : field (.object members) key place read = .ok value := by
  rw [field, member, find?_of_mem members hkeys (text key) x h]
  simp [JsonValue.isObject, hread]

theorem optionalMember_of_mem {α : Type} (members : List (Text × JsonValue))
    (hkeys : (members.map Prod.fst).Nodup) (key : String) (default value : α) (x : JsonValue)
    (read : JsonValue → Except JsonError α) (h : (text key,x) ∈ members)
    (hnull : x = .null → default = value) (hread : x ≠ .null → read x = .ok value) :
    optionalMember (.object members) key default read = .ok value := by
  rw [optionalMember, find?_of_mem members hkeys (text key) x h]
  cases x with
  | null => exact congrArg Except.ok (hnull rfl)
  | _ => exact hread (by simp)

/-- Room for more levels changes nothing. -/
theorem Valid.mono {k m : Nat} {v : JsonValue} (h : Valid k v) (hkm : k ≤ m) : Valid m v := by
  induction k generalizing m v with
  | zero =>
    cases v with
    | array items => exact h.elim
    | object members => exact h.elim
    | _ => cases m <;> exact h
  | succ k ih =>
    obtain ⟨m, rfl⟩ : ∃ n, m = n+1 := ⟨m-1, by omega⟩
    cases v with
    | array items => exact fun x hx => ih (h x hx) (by omega)
    | object members => exact ⟨h.1, fun x hx => ih (h.2 x hx) (by omega)⟩
    | _ => exact h

theorem valid_int (k : Nat) (value : Int64) : Valid k (.int value) := by
  have hnumber := isJsonNumberText_decimalInt value.toInt
  cases k <;> exact hnumber

theorem valid_string (k : Nat) (t : Text) : Valid k (.string t) := by cases k <;> trivial

theorem valid_bool (k : Nat) (b : Bool) : Valid k (.bool b) := by cases k <;> trivial

theorem valid_null (k : Nat) : Valid k .null := by cases k <;> trivial

theorem valid_optionalString (k : Nat) (t : Option Text) : Valid k (optionalString t) := by
  cases t with
  | none => exact valid_null k
  | some t => exact valid_string k t

theorem valid_writeList {α : Type} (k : Nat) (write : α → JsonValue) (l : List α)
    (h : ∀ x ∈ l, Valid k (write x)) : Valid (k+1) (writeList write l) := by
  intro v hv
  obtain ⟨x, hx, rfl⟩ := List.mem_map.mp hv
  exact h x hx

end DSigMatcher.Json
