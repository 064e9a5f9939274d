import DSigMatcher.Json.PyEquals
import Mathlib

namespace DSigMatcher.Json
open DSigMatcher.Base DSigMatcher.Framework JsonValue

/-- How many bytes the code point of a lead byte has. -/
def codePointLength (lead : UInt8) : Nat :=
  if 0xF0 ≤ lead then 4 else if 0xE0 ≤ lead then 3 else if 0xC0 ≤ lead then 2 else 1

/-- The code points of a text, each of its bytes; the last one ends with the text. -/
def codePoints : Text → List Text
  | [] => []
  | lead::rest =>
    (lead::rest.take (codePointLength lead-1))::codePoints (rest.drop (codePointLength lead-1))
termination_by t => t.length
decreasing_by
  rw [List.length_drop, List.length_cons]
  omega

/-- The elements that `set(json.loads(Text))` iterates. -/
def pyJsonLoadsList (t : Text) : Except PyLoadsError (List PyValue) :=
  match (PyJsonParser.mk t.length).document t, (skipWs t).head? with
  | .error .depthExceeded, some 91 =>
    .error (.diaphoraWouldRaise (text "set(json.loads)")
      (text "TypeError: unhashable type: 'list' (nesting deeper than " ++ decimal maxJsonDepth ++
        text ")"))
  | _, _ =>
    match pyJsonLoads t with
    | .error e => .error e
    | .ok (.list items) => .ok items
    | .ok (.dict members) => .ok (members.map fun m => .str m.1)
    | .ok (.str s) => .ok ((codePoints s).map .str)
    | .ok v =>
      .error (.diaphoraWouldRaise (text "set(json.loads)")
        (text "TypeError: '" ++ kindName v.kind ++ text "' object is not iterable"))

/-- The values of `json.loads`, those in them, and the characters of its texts. -/
inductive Produced : PyValue → Prop
  | loaded {t : Text} {v : PyValue} (h : pyJsonLoads t = .ok v) : Produced v
  | item {items : List PyValue} {v : PyValue} (hlist : Produced (.list items)) (h : v ∈ items) :
      Produced v
  | key {members : List (Text × PyValue)} {m : Text × PyValue} (hdict : Produced (.dict members))
      (h : m ∈ members) : Produced (.str m.1)
  | member {members : List (Text × PyValue)} {m : Text × PyValue}
      (hdict : Produced (.dict members)) (h : m ∈ members) : Produced m.2
  | character {t c : Text} (hstr : Produced (.str t)) (h : c ∈ codePoints t) : Produced (.str c)

/-- All integers of the value are written as `str` writes them. -/
inductive Canonical : PyValue → Prop
  | none : Canonical .none
  | bool (b : Bool) : Canonical (.bool b)
  | int (n : Int) : Canonical (.int (decimalInt n))
  | float (x : Binary64) : Canonical (.float x)
  | str (t : Text) : Canonical (.str t)
  | list {items : List PyValue} (h : ∀ v ∈ items, Canonical v) : Canonical (.list items)
  | dict {members : List (Text × PyValue)} (h : ∀ m ∈ members, Canonical m.2) :
      Canonical (.dict members)

/-- All values that a reader returns are canonical. -/
def ReadsCanonical (parse : Text → PyParsed PyValue) : Prop :=
  ∀ t v rest, parse t = .ok (v,rest) → Canonical v

section
variable {p : PyJsonParser} {pv pa po : Text → PyParsed PyValue}

theorem numberTail_canonical {negative : Bool} {n : Nat} {t rest : Text} {v : PyValue}
    (h : PyJsonParser.numberTail negative (decimal n) t = .ok (v,rest)) : Canonical v := by
  unfold PyJsonParser.numberTail at h
  dsimp only at h
  split_ifs at h with hplain hdigits
  · cases h
    exact .int n
  · cases h
    rw [Bool.or_eq_true, not_or, decide_eq_true_iff] at hdigits
    have hn : 0 < n := by
      apply Nat.pos_of_ne_zero
      rintro rfl
      exact hdigits.1 rfl
    rw [← decimalInt_neg hn]
    exact .int _
  · cases h
    exact .float _

theorem parseNumber_canonical : ReadsCanonical p.parseNumber := by
  intro t v rest h
  unfold PyJsonParser.parseNumber at h
  dsimp only at h
  split at h
  · cases h
  · next c r heq =>
    split_ifs at h with hdigit hzero
    · have hlow := UInt8.le_iff_toNat_le.mp hdigit.1
      have hnonzero : (49 : UInt8).toNat = 49 := rfl
      have hdigits : ∀ d ∈ c::r.takeWhile isDigit, isDigit d = true := by
        intro d hd
        rcases List.mem_cons.mp hd with rfl | hd
        · have hle : (48 : UInt8) ≤ d := by
            rw [UInt8.le_iff_toNat_le]
            have hfirst : (48 : UInt8).toNat = 48 := rfl
            omega
          simp [isDigit, hle, hdigit.2]
        · exact List.mem_takeWhile_imp hd
      have hhead : (c::r.takeWhile isDigit).head? ≠ some 48 := by
        rw [List.head?_cons, ne_eq, Option.some.injEq]
        rintro rfl
        have hfirst : (48 : UInt8).toNat = 48 := rfl
        omega
      rw [← decimal_digitsValue hdigits (List.cons_ne_nil _ _) hhead] at h
      exact numberTail_canonical h
    · exact numberTail_canonical (n := 0) h
    · cases h

theorem parseItems_canonical (hpv : ReadsCanonical pv) (fuel : Nat) :
    ∀ items t v rest, (∀ w ∈ items, Canonical w) →
      p.parseItems pv fuel items t = .ok (v,rest) → Canonical v := by
  induction fuel with
  | zero =>
    intro items t v rest _ h
    cases h
  | succ fuel ih =>
    intro items t v rest hitems h
    unfold PyJsonParser.parseItems at h
    split at h
    · cases h
    · next w u hread =>
      have hmore : ∀ x ∈ items ++ [w], Canonical x := by
        intro x hx
        rcases List.mem_append.mp hx with hx | hx
        · exact hitems x hx
        · rw [List.mem_singleton.mp hx]
          exact hpv t w u hread
      split at h
      · cases h
      · split_ifs at h
        · cases h
          exact .list hmore
        · cases h
        · cases h
        · exact ih _ _ _ _ hmore h

theorem parseArray_canonical (hpv : ReadsCanonical pv) : ReadsCanonical (p.parseArray pv) := by
  intro t v rest h
  unfold PyJsonParser.parseArray at h
  split at h
  · cases h
    exact .list fun w hw => absurd hw List.not_mem_nil
  · exact parseItems_canonical hpv _ _ _ _ _ (fun w hw => absurd hw List.not_mem_nil) h

theorem setItem_canonical {key : Text} {value : PyValue} {members : List (Text × PyValue)}
    (hvalue : Canonical value) (h : ∀ m ∈ members, Canonical m.2) :
    ∀ m ∈ PyJsonParser.setItem key value members, Canonical m.2 := by
  induction members with
  | nil =>
    intro m hm
    rw [List.mem_singleton.mp hm]
    exact hvalue
  | cons first members ih =>
    intro m hm
    rw [PyJsonParser.setItem] at hm
    split_ifs at hm
    · rcases List.mem_cons.mp hm with rfl | hm
      · exact hvalue
      · exact h m (List.mem_cons_of_mem _ hm)
    · rcases List.mem_cons.mp hm with rfl | hm
      · exact h m List.mem_cons_self
      · exact ih (fun w hw => h w (List.mem_cons_of_mem _ hw)) m hm

theorem parseMember_canonical (hpv : ReadsCanonical pv) {t rest key : Text} {v : PyValue}
    (h : p.parseMember pv t = .ok ((key,v),rest)) : Canonical v := by
  unfold PyJsonParser.parseMember at h
  split at h
  · split at h
    · cases h
    · split at h
      · split at h
        · cases h
        · next hread =>
          cases h
          exact hpv _ _ _ hread
      · cases h
  · cases h

theorem parseMembers_canonical (hpv : ReadsCanonical pv) (fuel : Nat) :
    ∀ members t v rest, (∀ m ∈ members, Canonical m.2) →
      p.parseMembers pv fuel members t = .ok (v,rest) → Canonical v := by
  induction fuel with
  | zero =>
    intro members t v rest _ h
    cases h
  | succ fuel ih =>
    intro members t v rest hmembers h
    unfold PyJsonParser.parseMembers at h
    split at h
    · cases h
    · next key w u hread =>
      have hmore : ∀ m ∈ PyJsonParser.setItem key w members, Canonical m.2 :=
        setItem_canonical (parseMember_canonical hpv hread) hmembers
      split at h
      · cases h
      · split_ifs at h
        · cases h
          exact .dict hmore
        · cases h
        · cases h
        · exact ih _ _ _ _ hmore h

theorem parseObject_canonical (hpv : ReadsCanonical pv) : ReadsCanonical (p.parseObject pv) := by
  intro t v rest h
  unfold PyJsonParser.parseObject at h
  split at h
  · cases h
    exact .dict fun m hm => absurd hm List.not_mem_nil
  · exact parseMembers_canonical hpv _ _ _ _ _ (fun m hm => absurd hm List.not_mem_nil) h

/-- Neither an integer nor a container. -/
def IsScalar (v : PyValue) : Prop := v.kind ≠ .int ∧ v.kind ≠ .list ∧ v.kind ≠ .dict

theorem IsScalar.of_kind {v : PyValue} (kind : PyKind) (hv : v.kind = kind)
    (hkind : kind ≠ .int ∧ kind ≠ .list ∧ kind ≠ .dict) : IsScalar v := by
  rwa [IsScalar, hv]

theorem IsScalar.canonical {v : PyValue} (h : IsScalar v) : Canonical v := by
  cases v with
  | none => exact .none
  | bool b => exact .bool b
  | float x => exact .float x
  | str t => exact .str t
  | int digits => exact absurd rfl h.1
  | list items => exact absurd rfl h.2.1
  | dict members => exact absurd rfl h.2.2

theorem literal_scalar {t rest word : Text} {v w : PyValue} (hw : IsScalar w)
    (h : p.literal t word w = .ok (v,rest)) : IsScalar v := by
  unfold PyJsonParser.literal at h
  split_ifs at h
  · cases h
    exact hw
  · cases h

/-- What reads a token: a container's reader, the one for numbers, or a branch for one scalar. -/
theorem parseToken_cases {t rest : Text} {v : PyValue} (h : p.parseToken pa po t = .ok (v,rest)) :
    (∃ u, po u = .ok (v,rest)) ∨ (∃ u, pa u = .ok (v,rest)) ∨ p.parseNumber t = .ok (v,rest) ∨
      IsScalar v := by
  have hscalar {word : Text} {w : PyValue} (h : p.literal t word w = .ok (v,rest))
      (hw : IsScalar w) : p.parseNumber t = .ok (v,rest) ∨ IsScalar v :=
    .inr (literal_scalar hw h)
  cases t with
  | nil => cases h
  | cons c t =>
    rw [PyJsonParser.parseToken] at h
    by_cases hquote : c = 34
    · rw [if_pos hquote] at h
      cases hread : p.parseString (t.length+1) t with
      | error e =>
        rw [hread] at h
        cases h
      | ok r =>
        rw [hread] at h
        cases h
        exact .inr (.inr (.inr (.of_kind .str rfl (by decide))))
    rw [if_neg hquote] at h
    by_cases hbrace : c = 123
    · rw [if_pos hbrace] at h
      exact .inl ⟨t, h⟩
    rw [if_neg hbrace] at h
    by_cases hbracket : c = 91
    · rw [if_pos hbracket] at h
      exact .inr (.inl ⟨t, h⟩)
    rw [if_neg hbracket] at h
    refine .inr (.inr ?_)
    by_cases hn : c = 110
    · rw [if_pos hn] at h
      exact hscalar h (.of_kind .none rfl (by decide))
    rw [if_neg hn] at h
    by_cases ht : c = 116
    · rw [if_pos ht] at h
      exact hscalar h (.of_kind .bool rfl (by decide))
    rw [if_neg ht] at h
    by_cases hf : c = 102
    · rw [if_pos hf] at h
      exact hscalar h (.of_kind .bool rfl (by decide))
    rw [if_neg hf] at h
    by_cases hN : c = 78
    · rw [if_pos hN] at h
      exact hscalar h (.of_kind .float rfl (by decide))
    rw [if_neg hN] at h
    by_cases hI : c = 73
    · rw [if_pos hI] at h
      exact hscalar h (.of_kind .float rfl (by decide))
    rw [if_neg hI] at h
    by_cases hminus : c = 45
    · rw [if_pos hminus] at h
      by_cases hinfinity : startsWith (c::t) (text "-Infinity") = true
      · rw [if_pos hinfinity] at h
        cases h
        exact .inr (.of_kind .float rfl (by decide))
      · rw [if_neg hinfinity] at h
        exact .inl h
    rw [if_neg hminus] at h
    by_cases hdigit : isDigit c = true
    · rw [if_pos hdigit] at h
      exact .inl h
    · rw [if_neg hdigit] at h
      cases h

theorem parseToken_canonical (hpa : ReadsCanonical pa) (hpo : ReadsCanonical po) :
    ReadsCanonical (p.parseToken pa po) := by
  intro t v rest h
  rcases parseToken_cases h with ⟨u, h⟩ | ⟨u, h⟩ | h | h
  · exact hpo _ _ _ h
  · exact hpa _ _ _ h
  · exact parseNumber_canonical _ _ _ h
  · exact h.canonical

theorem parseValue_canonical (levels : Nat) : ReadsCanonical (p.parseValue levels) := by
  induction levels with
  | zero => exact parseToken_canonical (fun _ _ _ h => by cases h) fun _ _ _ h => by cases h
  | succ levels ih => exact parseToken_canonical (parseArray_canonical ih) (parseObject_canonical ih)

end

theorem pyJsonLoads_canonical {t : Text} {v : PyValue} (h : pyJsonLoads t = .ok v) :
    Canonical v := by
  unfold pyJsonLoads PyJsonParser.document at h
  split at h
  · next hdocument =>
    cases h
    split at hdocument
    · cases hdocument
    · next hread =>
      split at hdocument
      · cases hdocument
        exact parseValue_canonical _ _ _ _ hread
      · cases hdocument
  · cases h
  · cases h

theorem Produced.canonical {v : PyValue} (h : Produced v) : Canonical v := by
  induction h with
  | loaded h => exact pyJsonLoads_canonical h
  | item _ h ih =>
    cases ih with
    | list hitems => exact hitems _ h
  | key _ h ih => exact .str _
  | member _ h ih =>
    cases ih with
    | dict hmembers => exact hmembers _ h
  | character _ h ih => exact .str _

end DSigMatcher.Json
