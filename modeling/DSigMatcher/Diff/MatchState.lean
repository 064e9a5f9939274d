import DSigMatcher.Diff.PyInt
import DSigMatcher.Framework.Binary64
import DSigMatcher.Framework.InsertionDict
import Mathlib.Data.List.Sort

namespace DSigMatcher.Diff
open DSigMatcher.Base DSigMatcher.Framework

/-- A match item; a missing name or address is Python's None. -/
@[ext] structure Item where
  ea1 : Option Text
  name1 : Option Text
  ea2 : Option Text
  name2 : Option Text
  desc : Text
  ratio : Binary64
  nodes1 : Int
  nodes2 : Int
  deriving DecidableEq

/-- Python's `==` on all eight fields. -/
def Item.same (a b : Item) : Bool :=
  a.ea1 == b.ea1 && a.name1 == b.name1 && a.ea2 == b.ea2 && a.name2 == b.name2 &&
    a.desc == b.desc && a.ratio.eq b.ratio && a.nodes1 == b.nodes1 && a.nodes2 == b.nodes2

/-- How an f-string renders a text or None. -/
def keyText : Option Text → Text
  | some t => t
  | none => text "None"

inductive Chooser
  | best | partials | unreliable
  deriving DecidableEq

def choosers : List Chooser := [.best, .partials, .unreliable]

structure MatchedEntry where
  other : Option Text
  ratio : Binary64
  deriving DecidableEq

abbrev NameDict := InsertionDict (Option Text) MatchedEntry

structure MatchState where
  total1 : Int
  total2 : Int
  best : List Item
  partials : List Item
  unreliable : List Item
  primary : NameDict
  secondary : NameDict
  deriving DecidableEq

namespace MatchState

def initial (total1 total2 : Int) : MatchState :=
  ⟨total1, total2, [], [], [], InsertionDict.empty, InsertionDict.empty⟩

def items (st : MatchState) : Chooser → List Item
  | .best => st.best
  | .partials => st.partials
  | .unreliable => st.unreliable

def setItems (st : MatchState) (c : Chooser) (l : List Item) : MatchState :=
  match c with
  | .best => { st with best := l }
  | .partials => { st with partials := l }
  | .unreliable => { st with unreliable := l }

/-- `name.startswith(...)`; raises on None. -/
def nameStartsWith (name : Option Text) (pre site : Text) : Except DiffError Bool :=
  match name with
  | none => .error (.wouldRaise site
      (text "AttributeError: 'NoneType' object has no attribute 'startswith'"))
  | some t => .ok (startsWith t pre)

/-- Both names are real ones; the second is looked at only when the first is. -/
def bothNamed (n1 n2 : Option Text) : Except DiffError Bool :=
  match nameStartsWith n1 (text "sub_") (text "D:1392") with
  | .error e => .error e
  | .ok true => .ok false
  | .ok false =>
    match nameStartsWith n2 (text "sub_") (text "D:1392") with
    | .error e => .error e
    | .ok b => .ok !b

def entryAbove (dict : NameDict) (name : Option Text) (ratio : Binary64) : Bool :=
  match dict.find? name with
  | some entry => ratio < entry.ratio
  | none => false

def hasBetterMatch (st : MatchState) (n1 n2 : Option Text) (ratio : Binary64) :
    Except DiffError Bool :=
  match bothNamed n1 n2 with
  | .error e => .error e
  | .ok named =>
    match named, st.primary.find? n1 with
    | true, some entry => .ok (entry.other = n1)
    | _, _ => .ok (entryAbove st.primary n1 ratio || entryAbove st.secondary n2 ratio)

def entryIsBest (dict : NameDict) (name : Option Text) : Bool :=
  match dict.find? name with
  | some entry => entry.ratio.eq Binary64.one
  | none => false

def hasBestMatch (st : MatchState) (n1 n2 : Option Text) : Bool :=
  entryIsBest st.primary n1 || entryIsBest st.secondary n2

/-- Append the item unless an equal one is listed. -/
def appendItem (st : MatchState) (it : Item) : Option Chooser → MatchState
  | none => st
  | some c =>
    if (st.items c).any it.same then st else st.setItems c (st.items c ++ [it])

theorem items_setItems (st : MatchState) (c c' : Chooser) (l : List Item) :
    (st.setItems c l).items c' = if c' = c then l else st.items c' := by
  cases c <;> cases c' <;> rfl

theorem setItems_rest (st : MatchState) (c : Chooser) (l : List Item) :
    (st.setItems c l).total1 = st.total1 ∧ (st.setItems c l).total2 = st.total2 ∧
      (st.setItems c l).primary = st.primary ∧ (st.setItems c l).secondary = st.secondary := by
  cases c <;> exact ⟨rfl, rfl, rfl, rfl⟩

theorem appendItem_some (st : MatchState) (it : Item) (c : Chooser) :
    st.appendItem it (some c) =
      if (st.items c).any it.same then st else st.setItems c (st.items c ++ [it]) := rfl

def putMatched (st : MatchState) (n1 n2 : Option Text) (ratio : Binary64) : MatchState :=
  { st with
    primary := st.primary.put n1 ⟨n2, ratio⟩
    secondary := st.secondary.put n2 ⟨n1, ratio⟩ }

/-- `add_match`: equal names count as ratio 1, below 1 a better match keeps the row out. -/
def addMatch (st : MatchState) (n1 n2 : Option Text) (ratio : Binary64) (it : Item)
    (c : Option Chooser) : Except DiffError MatchState :=
  let ratio := if n1 = n2 then Binary64.one else ratio
  if ratio.eq Binary64.one then .ok ((st.appendItem it c).putMatched n1 n2 ratio)
  else
    match st.hasBetterMatch n1 n2 ratio with
    | .error e => .error e
    | .ok true => .ok st
    | .ok false => .ok ((st.appendItem it c).putMatched n1 n2 ratio)

def allFunctionsMatched (st : MatchState) : Bool :=
  (st.primary.entries.length : Int) = st.total1 || (st.secondary.entries.length : Int) = st.total2

def totalMatchedFunctions (st : MatchState) : Nat := st.best.length + st.partials.length

end MatchState

/-- Stable descending sort by ratio. -/
def sortDescending (l : List Item) : List Item :=
  l.insertionSort fun a b => ¬ a.ratio < b.ratio

def MatchState.sortedResults (st : MatchState) (c : Chooser) : List Item :=
  sortDescending (st.items c)

/-- What `cleanup_matches` carries from one category to the next. -/
structure CleanupScan where
  dones : List Text := []
  eaRatios : InsertionDict (Option Text) Binary64 := InsertionDict.empty

def namePairKey (it : Item) : Text := keyText it.name1 ++ text "-" ++ keyText it.name2

/-- One item of the cleanup, and whether it is kept. -/
def cleanupItem (s : CleanupScan) (it : Item) : CleanupScan × Bool :=
  if namePairKey it ∈ s.dones then (s, false)
  else
    let ratio := if it.name1 = it.name2 then Binary64.one else it.ratio
    let dones := namePairKey it::s.dones
    match s.eaRatios.find? it.ea1 with
    | some r =>
      if ratio < r then (⟨dones, s.eaRatios⟩, false)
      else (⟨dones, s.eaRatios.put it.ea1 ratio⟩, true)
    | none => (⟨dones, s.eaRatios.put it.ea1 ratio⟩, true)

def cleanupItems (s : CleanupScan) : List Item → CleanupScan × List Item
  | [] => (s, [])
  | it::its =>
    let (s', kept) := cleanupItem s it
    let (s'', out) := cleanupItems s' its
    (s'', if kept then it::out else out)

/-- `cleanup_matches`: each category sorted and pruned, both dicts rebuilt from what is kept. -/
def cleanup (st : MatchState) : MatchState :=
  let (s1, best) := cleanupItems {} (sortDescending st.best)
  let (s2, partials) := cleanupItems s1 (sortDescending st.partials)
  let (_, unreliable) := cleanupItems s2 (sortDescending st.unreliable)
  (best ++ partials ++ unreliable).foldl
    (fun st it => st.putMatched it.name1 it.name2 it.ratio)
    { st with
      best := best
      partials := partials
      unreliable := unreliable
      primary := InsertionDict.empty
      secondary := InsertionDict.empty }

theorem cleanupItems_sublist (s : CleanupScan) (its : List Item) :
    (cleanupItems s its).2.Sublist its := by
  induction its generalizing s with
  | nil => exact List.Sublist.refl _
  | cons it its ih =>
    unfold cleanupItems
    dsimp only
    split_ifs
    · exact (ih _).cons_cons it
    · exact (ih _).cons it

@[simp] theorem foldl_putMatched_items (st : MatchState) (its : List Item) (c : Chooser) :
    (its.foldl (fun st it => st.putMatched it.name1 it.name2 it.ratio) st).items c =
      st.items c := by
  induction its generalizing st with
  | nil => rfl
  | cons it its ih =>
    rw [List.foldl_cons, ih]
    cases c <;> rfl

/-- Cleanup keeps only listed items, each in its own category. -/
theorem cleanup_subset (st : MatchState) (c : Chooser) : (cleanup st).items c ⊆ st.items c := by
  have hsort (l : List Item) (s : CleanupScan) : (cleanupItems s (sortDescending l)).2 ⊆ l :=
    fun it hit => (List.mem_insertionSort _).mp ((cleanupItems_sublist s _).subset hit)
  unfold cleanup
  dsimp only
  rw [foldl_putMatched_items]
  cases c
  · exact hsort st.best _
  · exact hsort st.partials _
  · exact hsort st.unreliable _

/-- On items whose ratio is no NaN the sort orders by descending key. -/
theorem sortDescending_pairwise (l : List Item) (hl : ∀ it ∈ l, it.ratio.isNaN = false) :
    (sortDescending l).Pairwise fun a b => b.ratio.key ≤ a.ratio.key := by
  let r : Item → Item → Prop := fun a b => b.ratio.key ≤ a.ratio.key
  have hsort : sortDescending l = l.insertionSort r := by
    have h := List.map_insertionSort (fun a b : Item => ¬ a.ratio < b.ratio) r id l
      fun a ha b hb => by rw [Binary64.lt_iff _ _ (hl a ha) (hl b hb), not_lt]; rfl
    simpa [sortDescending] using h
  have : Std.Total r := ⟨fun a b => le_total _ _⟩
  have : IsTrans Item r := ⟨fun a b c hab hbc => le_trans hbc hab⟩
  rw [hsort]
  exact List.pairwise_insertionSort r l

@[simp] theorem mem_sortDescending (l : List Item) (it : Item) : it ∈ sortDescending l ↔ it ∈ l :=
  List.mem_insertionSort _

/-- An item with the given addresses, names and ratio. -/
def sampleItem (ea1 name1 ea2 name2 : String) (ratio : Binary64) : Item where
  ea1 := some (text ea1)
  name1 := some (text name1)
  ea2 := some (text ea2)
  name2 := some (text name2)
  desc := text "Same RVA"
  ratio := ratio
  nodes1 := 3
  nodes2 := 3

/-- 0.8 and 0.9. -/
def fourFifths : Binary64 := Binary64.ofBits 0x3FE999999999999A
def nineTenths : Binary64 := Binary64.ofBits 0x3FECCCCCCCCCCCCD

end DSigMatcher.Diff
