import DSigMatcher.Base.FileUri

namespace DSigMatcher.Port
open DSigMatcher.Base

/-- The bytes a URI path cannot have, escaped. -/
def escapeUri (path : Text) : Text :=
  path.flatMap fun c =>
    if c = 37 then text "%25"
    else if c = 63 then text "%3f"
    else if c = 35 then text "%23"
    else [c]

def isAlpha (c : UInt8) : Bool := 65 ≤ c && c ≤ 90 || 97 ≤ c && c ≤ 122

/-- A path with a drive letter gets a slash, one that starts with two slashes an empty authority. -/
def rootUri : Text → Text
  | c::d::t =>
    if isAlpha c && d = 58 then 47::c::d::t
    else if c = 47 && d = 47 then 47::47::c::d::t
    else c::d::t
  | t => t

/-- `SqliteReadOnlyUri` of the provenance, where `_WIN32` is not defined. -/
def sqliteReadOnlyUri (path : Text) (immutable : Bool) : Text :=
  text "file:" ++ rootUri (escapeUri path) ++
    if immutable then text "?mode=ro&immutable=1" else text "?mode=ro"

/-- `DiffDatabase::UriForPath`, where `_WIN32` is not defined. -/
def uriForPath (path : Text) (readOnly : Bool) : Text :=
  text "file:" ++ rootUri (escapeUri path) ++ if readOnly then text "?mode=ro" else []

/-- The URI names a file with these parameters, and nothing else. -/
def NamesFile (uri path : Text) (params : List (Text × Text)) : Prop :=
  decodeFileUri uri = some ⟨[],path,params,none⟩

instance (uri path : Text) (params : List (Text × Text)) : Decidable (NamesFile uri path params) :=
  inferInstanceAs (Decidable (_ = _))

/-- The first two bytes are of these kinds. -/
def startsAs (p q : UInt8 → Bool) : Text → Bool
  | c::d::_ => p c && q d
  | _ => false

/-- The path starts as a path with a drive letter does. -/
def startsWithDrive (path : Text) : Bool := startsAs isAlpha (· = 58) path

def modeRo : List (Text × Text) := [(text "mode",text "ro")]

def immutable1 : List (Text × Text) := [(text "immutable",text "1")]

theorem escapeUri_cons (c : UInt8) (t : Text) :
    escapeUri (c::t) = (if c = 37 then text "%25" else if c = 63 then text "%3f"
      else if c = 35 then text "%23" else [c]) ++ escapeUri t := List.flatMap_cons

/-- No separator is left in an escaped path. -/
theorem escapeUri_plain (path : Text) : 35 ∉ escapeUri path ∧ 63 ∉ escapeUri path := by
  induction path with
  | nil => exact ⟨List.not_mem_nil, List.not_mem_nil⟩
  | cons c path ih =>
    have hplain {e : Text} (he : 35 ∉ e ∧ 63 ∉ e) :
        35 ∉ e ++ escapeUri path ∧ 63 ∉ e ++ escapeUri path := by
      simp only [List.mem_append, not_or]
      exact ⟨⟨he.1, ih.1⟩, he.2, ih.2⟩
    rw [escapeUri_cons]
    apply hplain
    split_ifs with hpercent hquestion hhash
    · decide
    · decide
    · decide
    · simp only [List.mem_singleton]
      exact ⟨fun h => hhash h.symm, fun h => hquestion h.symm⟩

theorem percentDecode_escapeUri (path : Text) : percentDecode (escapeUri path) = path := by
  induction path with
  | nil => rfl
  | cons c path ih =>
    rw [escapeUri_cons]
    split_ifs with hpercent hquestion hhash
    · rw [hpercent]
      exact (@percentDecode_escape _ _ 2 5 rfl rfl _).trans (congrArg _ ih)
    · rw [hquestion]
      exact (@percentDecode_escape _ _ 3 15 rfl rfl _).trans (congrArg _ ih)
    · rw [hhash]
      exact (@percentDecode_escape _ _ 2 3 rfl rfl _).trans (congrArg _ ih)
    · exact (percentDecode_cons hpercent _).trans (congrArg _ ih)

def startsWithSlashes (path : Text) : Bool := startsAs (· = 47) (· = 47) path

theorem startsWith_slashes (t : Text) : startsWith t (text "//") = startsWithSlashes t := by
  match t with
  | [] => rfl
  | [c] =>
    change (47 == c && false) = false
    exact Bool.and_false _
  | c::d::t =>
    change (47 == c && (47 == d && true)) = (decide (c = 47) && decide (d = 47))
    rw [Bool.and_true, beq_eq_decide, beq_eq_decide]
    simp only [eq_comm]

theorem rootUri_eq (t : Text) : rootUri t =
    if startsWithDrive t then 47::t else if startsWithSlashes t then 47::47::t else t := by
  match t with
  | [] => rfl
  | [c] => rfl
  | c::d::t => rfl

/-- A byte is escaped, or stands for itself. -/
theorem escapeUri_head (c : UInt8) (t : Text) :
    (c = 37 ∨ c = 63 ∨ c = 35) ∧ (∃ h l, escapeUri (c::t) = 37::h::l::escapeUri t) ∨
      escapeUri (c::t) = c::escapeUri t := by
  rw [escapeUri_cons]
  split_ifs with hpercent hquestion hhash
  · exact Or.inl ⟨Or.inl hpercent, 50, 53, rfl⟩
  · exact Or.inl ⟨Or.inr (Or.inl hquestion), 51, 102, rfl⟩
  · exact Or.inl ⟨Or.inr (Or.inr hhash), 50, 51, rfl⟩
  · exact Or.inr rfl

/-- Escaping keeps how a path starts, where no escaped byte is looked for. -/
theorem startsAs_escapeUri {p q : UInt8 → Bool} (hp : p 37 = false ∧ p 63 = false ∧ p 35 = false)
    (hq : q 37 = false ∧ q 63 = false ∧ q 35 = false) (path : Text) :
    startsAs p q (escapeUri path) = startsAs p q path := by
  have hnone {p : UInt8 → Bool} (hp : p 37 = false ∧ p 63 = false ∧ p 35 = false) {c : UInt8}
      (hc : c = 37 ∨ c = 63 ∨ c = 35) : p c = false := by
    rcases hc with rfl | rfl | rfl
    · exact hp.1
    · exact hp.2.1
    · exact hp.2.2
  match path with
  | [] => rfl
  | c::t =>
    rcases escapeUri_head c t with ⟨hc, h, l, hescaped⟩ | hescaped
    · rw [hescaped]
      cases t with
      | nil => simp only [startsAs, hp.1, Bool.false_and]
      | cons d t => simp only [startsAs, hp.1, hnone hp hc, Bool.false_and]
    · rw [hescaped]
      cases t with
      | nil => rfl
      | cons d t =>
        rcases escapeUri_head d t with ⟨hd, h, l, hescaped⟩ | hescaped
        · rw [hescaped]
          simp only [startsAs, hq.1, hnone hq hd]
        · rw [hescaped]
          rfl

/-- A query adds no slash to the beginning of a path. -/
theorem startsWithSlashes_append (t : Text) {query : Text} (hstart : query.head?.all (· = 63)) :
    startsWithSlashes (t ++ query) = startsWithSlashes t := by
  have hquery : query = [] ∨ ∃ q, query = 63::q := by
    cases query with
    | nil => exact Or.inl rfl
    | cons c q => exact Or.inr ⟨q, congrArg (·::q) (of_decide_eq_true hstart)⟩
  match t with
  | [] => rcases hquery with rfl | ⟨_ | ⟨d, q⟩, rfl⟩ <;> rfl
  | [c] => rcases hquery with rfl | ⟨q, rfl⟩ <;> simp [startsWithSlashes, startsAs]
  | c::d::t => rfl

theorem decodeFileUri_file (rest : Text) : decodeFileUri (text "file:" ++ rest) =
    some (if startsWithSlashes rest then
      decodeBehind ((rest.drop 2).takeWhile (· ≠ 47)) ((rest.drop 2).dropWhile (· ≠ 47))
    else decodeBehind [] rest) := by
  have hfile : startsWith (text "file:" ++ rest) (text "file:") = true :=
    (startsWith_iff _ _).mpr (List.prefix_append _ _)
  have hdrop : (text "file:" ++ rest).drop 5 = rest := rfl
  rw [decodeFileUri, if_pos hfile, hdrop]
  simp only [startsWith_slashes]
  split_ifs <;> rfl

/-- What the URI of a path names: the path, behind a slash that a drive letter gets. -/
theorem decodeFileUri_root (path : Text) {query : Text} (hquery : 35 ∉ query)
    (hstart : query.head?.all (· = 63)) :
    decodeFileUri (text "file:" ++ rootUri (escapeUri path) ++ query) =
      some ⟨[],if startsWithDrive path then 47::path else path,queryParams query.tail,none⟩ := by
  have hdrive : startsWithDrive (escapeUri path) = startsWithDrive path :=
    startsAs_escapeUri (by decide) (by decide) path
  have hplain := decodeBehind_append [] (escapeUri_plain path) hquery hstart
  rw [percentDecode_escapeUri] at hplain
  rw [List.append_assoc, decodeFileUri_file, startsWithSlashes_append _ hstart, rootUri_eq, hdrive]
  by_cases hletter : startsWithDrive path
  · rw [if_pos hletter, if_pos hletter]
    have hroot : startsWithSlashes (47::escapeUri path) = false := by
      rw [hletter] at hdrive
      cases hescaped : escapeUri path with
      | nil => rfl
      | cons c t =>
        rw [hescaped] at hdrive
        cases t with
        | nil => cases hdrive
        | cons d t =>
          have halpha : isAlpha c = true := (Bool.and_eq_true_iff.mp hdrive).1
          have hc : c ≠ 47 := by
            rintro rfl
            cases halpha
          simp [startsWithSlashes, startsAs, hc]
    have hslash : 35 ∉ 47::escapeUri path ∧ 63 ∉ 47::escapeUri path := by
      simp only [List.mem_cons, not_or]
      exact ⟨⟨by decide, (escapeUri_plain path).1⟩, by decide, (escapeUri_plain path).2⟩
    rw [hroot, if_neg Bool.false_ne_true, decodeBehind_append [] hslash hquery hstart,
      percentDecode_cons (by decide), percentDecode_escapeUri]
  · rw [if_neg hletter, if_neg hletter]
    by_cases hslashes : startsWithSlashes (escapeUri path)
    · have hhead : ∃ t, escapeUri path = 47::t := by
        cases hescaped : escapeUri path with
        | nil =>
          rw [hescaped] at hslashes
          cases hslashes
        | cons c t =>
          rw [hescaped] at hslashes
          cases t with
          | nil => cases hslashes
          | cons d t =>
            exact ⟨d::t, congrArg (·::d::t) (of_decide_eq_true (Bool.and_eq_true_iff.mp hslashes).1)⟩
      obtain ⟨t, ht⟩ := hhead
      have htwo : startsWithSlashes (47::47::escapeUri path) = true := rfl
      rw [if_pos hslashes, htwo, if_pos rfl, ← hplain, ht]
      rfl
    · rw [if_neg hslashes, if_neg hslashes, hplain]

/-- The read-only URI names the file of its path, but for a path that starts with a drive letter. -/
theorem readOnlyUri_namesFile (path : Text) :
    (∀ immutable, NamesFile (sqliteReadOnlyUri path immutable) path
      (modeRo ++ if immutable then immutable1 else []) ↔ startsWithDrive path = false) ∧
    ∀ readOnly, NamesFile (uriForPath path readOnly) path (if readOnly then modeRo else []) ↔
      startsWithDrive path = false := by
  have hnames {query : Text} (params : List (Text × Text)) (hquery : 35 ∉ query)
      (hstart : query.head?.all (· = 63)) (hparams : queryParams query.tail = params) :
      NamesFile (text "file:" ++ rootUri (escapeUri path) ++ query) path params ↔
        startsWithDrive path = false := by
    rw [NamesFile, decodeFileUri_root path hquery hstart, hparams]
    cases startsWithDrive path <;> simp
  constructor
  · intro immutable
    cases immutable
    · exact hnames _ (by decide) (by decide) (by decide)
    · exact hnames _ (by decide) (by decide) (by decide)
  · intro readOnly
    cases readOnly
    · exact hnames _ (by decide) (by decide) (by decide)
    · exact hnames _ (by decide) (by decide) (by decide)

/-- A relative path `a:b` becomes `/a:b`. -/
theorem readOnlyUri_drive :
    (∀ immutable, ¬ NamesFile (sqliteReadOnlyUri (text "a:b") immutable) (text "a:b")
      (modeRo ++ if immutable then immutable1 else [])) ∧
    (∀ readOnly, ¬ NamesFile (uriForPath (text "a:b") readOnly) (text "a:b")
      (if readOnly then modeRo else [])) ∧
    NamesFile (sqliteReadOnlyUri (text "a:b") false) (text "/a:b") modeRo := by
  decide

end DSigMatcher.Port
