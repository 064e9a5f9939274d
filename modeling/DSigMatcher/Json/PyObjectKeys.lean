import DSigMatcher.Framework.InsertionDict
import DSigMatcher.Json.PyParsed
import Mathlib

namespace DSigMatcher.Json
open DSigMatcher.Base DSigMatcher.Framework

section
variable {p : PyJsonParser} {pv pa po : Text → PyParsed PyValue} {members : List (Text × PyValue)}
  {t rest : Text}

theorem setItem_eq (key : Text) (value : PyValue) (members : List (Text × PyValue)) :
    PyJsonParser.setItem key value members = InsertionDict.putEntries key value members := by
  induction members with
  | nil => rfl
  | cons m members ih =>
    rw [PyJsonParser.setItem, InsertionDict.putEntries, ih]
    split_ifs with hm
    · rw [hm]
    · rfl

theorem nodup_setItem {key : Text} {value : PyValue} (h : (members.map Prod.fst).Nodup) :
    ((PyJsonParser.setItem key value members).map Prod.fst).Nodup := by
  rw [setItem_eq]
  exact (InsertionDict.put ⟨members,h⟩ key value).nodup

/-- The keys of each object that a reader returns are distinct. -/
def ReadsDistinct (parse : Text → PyParsed PyValue) : Prop :=
  ∀ t members rest, parse t = .ok (.dict members,rest) → (members.map Prod.fst).Nodup

theorem parseMembers_distinct (fuel : Nat) : ∀ acc t members rest, (acc.map Prod.fst).Nodup →
    p.parseMembers pv fuel acc t = .ok (.dict members,rest) → (members.map Prod.fst).Nodup := by
  induction fuel with
  | zero =>
    intro acc t members rest _ h
    cases h
  | succ fuel ih =>
    intro acc t members rest hacc h
    unfold PyJsonParser.parseMembers at h
    split at h
    · cases h
    · split at h
      · cases h
      · split_ifs at h
        · cases h
          exact nodup_setItem hacc
        · cases h
        · cases h
        · exact ih _ _ _ _ (nodup_setItem hacc) h

theorem parseObject_distinct : ReadsDistinct (p.parseObject pv) := by
  intro t members rest h
  unfold PyJsonParser.parseObject at h
  split at h
  · cases h
    exact List.nodup_nil
  · exact parseMembers_distinct _ [] _ _ _ List.nodup_nil h

/-- No object comes from the reader. -/
def ReadsNoObject (parse : Text → PyParsed PyValue) : Prop :=
  ∀ t members rest, parse t ≠ .ok (.dict members,rest)

theorem numberTail_noObject {negative : Bool} {integer : Text} :
    ReadsNoObject (PyJsonParser.numberTail negative integer) := by
  intro t members rest h
  unfold PyJsonParser.numberTail at h
  dsimp only at h
  split_ifs at h <;> cases h

theorem parseNumber_noObject : ReadsNoObject p.parseNumber := by
  intro t members rest h
  unfold PyJsonParser.parseNumber at h
  dsimp only at h
  split at h
  · cases h
  · split_ifs at h
    · exact numberTail_noObject _ _ _ h
    · exact numberTail_noObject _ _ _ h
    · cases h

theorem parseItems_noObject (fuel : Nat) (items : List PyValue) :
    ReadsNoObject (p.parseItems pv fuel items) := by
  induction fuel generalizing items with
  | zero =>
    intro t members rest h
    cases h
  | succ fuel ih =>
    intro t members rest h
    unfold PyJsonParser.parseItems at h
    split at h
    · cases h
    · split at h
      · cases h
      · split_ifs at h
        · cases h
        · cases h
        · cases h
        · exact ih _ _ _ _ h

theorem parseArray_noObject : ReadsNoObject (p.parseArray pv) := by
  intro t members rest h
  unfold PyJsonParser.parseArray at h
  split at h
  · cases h
  · exact parseItems_noObject _ _ _ _ _ h

theorem parseToken_distinct (hpa : ReadsNoObject pa) (hpo : ReadsDistinct po) :
    ReadsDistinct (p.parseToken pa po) := by
  intro t members rest h
  rcases parseToken_cases h with ⟨u, h⟩ | ⟨u, h⟩ | h | h
  · exact hpo _ _ _ h
  · exact absurd h (hpa _ _ _)
  · exact absurd h (parseNumber_noObject _ _ _)
  · exact absurd rfl h.2.2

theorem parseValue_distinct (levels : Nat) : ReadsDistinct (p.parseValue levels) := by
  cases levels with
  | zero => exact parseToken_distinct (fun _ _ _ h => by cases h) fun _ _ _ h => by cases h
  | succ levels => exact parseToken_distinct parseArray_noObject parseObject_distinct

end

/-- The keys of a loaded object are distinct. -/
theorem pyJsonLoads_distinct {t : Text} {members : List (Text × PyValue)}
    (h : pyJsonLoads t = .ok (.dict members)) : (members.map Prod.fst).Nodup := by
  unfold pyJsonLoads PyJsonParser.document at h
  split at h
  · next hdocument =>
    cases h
    split at hdocument
    · cases hdocument
    · next hread =>
      split at hdocument
      · cases hdocument
        exact parseValue_distinct _ _ _ _ hread
      · cases hdocument
  · cases h
  · cases h

end DSigMatcher.Json
