import DSigMatcher.Checkpoint.Snapshot
import DSigMatcher.Diff.CleanupSound
import DSigMatcher.Pipeline.Session
import Mathlib

namespace DSigMatcher.Diff
open DSigMatcher.Base DSigMatcher.Framework DSigMatcher.Checkpoint DSigMatcher.Pipeline

/-- What the member sets see of an item: the two zeros are one ratio. -/
def Item.memberKey (it : Item) : Item :=
  if it.ratio.eq Binary64.zero then { it with ratio := Binary64.zero } else it

/-- `struct NameDict`: the keys in the order of their first insertion, and the entries. -/
structure NameTable where
  order : List (Option Text)
  map : Finmap fun _ : Option Text => MatchedEntry

def NameTable.empty : NameTable := ⟨[], ∅⟩

def NameTable.put (d : NameTable) (key : Option Text) (entry : MatchedEntry) : NameTable :=
  match d.map.lookup key with
  | none => ⟨d.order ++ [key], d.map.insert key entry⟩
  | some _ => ⟨d.order, d.map.insert key entry⟩

/-- Item to occurrences in its list. -/
abbrev Members := Finmap fun _ : Item => UInt32

def Members.count (members : Members) (it : Item) : UInt32 := (members.lookup it.memberKey).getD 0

def Members.add (members : Members) (it : Item) : Members :=
  members.insert it.memberKey (members.count it + 1)

/-- `MatchState::Impl`. -/
structure MatchImpl where
  total1 : Int64
  total2 : Int64
  lists : Chooser → List Item
  members : Chooser → Members
  primary : NameTable
  secondary : NameTable

inductive AddMatchResult
  | rejectedBetter | appended | duplicate
  deriving DecidableEq

namespace MatchImpl

def initial (total1 total2 : Int64) : MatchImpl :=
  ⟨total1, total2, fun _ => [], fun _ => ∅, NameTable.empty, NameTable.empty⟩

def rebuildMembers (l : List Item) : Members := l.foldl Members.add ∅

def entryAbove (d : NameTable) (name : Option Text) (ratio : Binary64) : Bool :=
  match d.map.lookup name with
  | some entry => ratio < entry.ratio
  | none => false

def hasBetterMatch (m : MatchImpl) (n1 n2 : Option Text) (ratio : Binary64) :
    Except DiffError Bool :=
  match MatchState.bothNamed n1 n2 with
  | .error e => .error e
  | .ok named =>
    match named, m.primary.map.lookup n1 with
    | true, some entry => .ok (entry.other = n1)
    | _, _ => .ok (entryAbove m.primary n1 ratio || entryAbove m.secondary n2 ratio)

/-- Append the item unless its count is positive, and whether it was appended. -/
def appendItem (m : MatchImpl) (it : Item) : Option Chooser → MatchImpl × Bool
  | none => (m,false)
  | some c =>
    if (m.members c).count it = 0 then
      ({ m with
          lists := Function.update m.lists c (m.lists c ++ [it])
          members := Function.update m.members c ((m.members c).insert it.memberKey 1) },true)
    else (m,false)

def putMatched (m : MatchImpl) (n1 n2 : Option Text) (ratio : Binary64) : MatchImpl :=
  { m with
    primary := m.primary.put n1 ⟨n2, ratio⟩
    secondary := m.secondary.put n2 ⟨n1, ratio⟩ }

def addAccepted (m : MatchImpl) (n1 n2 : Option Text) (ratio : Binary64) (it : Item)
    (c : Option Chooser) : MatchImpl × Except DiffError AddMatchResult :=
  let (m,appended) := m.appendItem it c
  (m.putMatched n1 n2 ratio, .ok (if appended then .appended else .duplicate))

/-- `AddMatch`: the state it leaves, and what it reports or raises. -/
def addMatch (m : MatchImpl) (n1 n2 : Option Text) (ratio : Binary64) (it : Item)
    (c : Option Chooser) : MatchImpl × Except DiffError AddMatchResult :=
  let ratio := if n1 = n2 then Binary64.one else ratio
  if ratio.eq Binary64.one then m.addAccepted n1 n2 ratio it c
  else
    match m.hasBetterMatch n1 n2 ratio with
    | .error e => (m,.error e)
    | .ok true => (m,.ok .rejectedBetter)
    | .ok false => m.addAccepted n1 n2 ratio it c

/-- `Cleanup`: prune the sorted lists, and build the dicts and the member sets anew. -/
def cleanup (m : MatchImpl) : MatchImpl :=
  let (s1, best) := cleanupItems {} (sortDescending (m.lists .best))
  let (s2, partials) := cleanupItems s1 (sortDescending (m.lists .partials))
  let (_, unreliable) := cleanupItems s2 (sortDescending (m.lists .unreliable))
  let out : Chooser → List Item
    | .best => best
    | .partials => partials
    | .unreliable => unreliable
  (best ++ partials ++ unreliable).foldl
    (fun m it => m.putMatched it.name1 it.name2 it.ratio)
    { m with
      lists := out
      members := fun c => rebuildMembers (out c)
      primary := NameTable.empty
      secondary := NameTable.empty }

/-- `ExportItem`: an address is a plain text, so None becomes the text `None`. -/
def exportItem (it : Item) : SnapItem where
  ea1 := keyText it.ea1
  name1 := it.name1
  ea2 := keyText it.ea2
  name2 := it.name2
  desc := it.desc
  ratioBits := UInt64.ofNat it.ratio.toBits
  nodes1 := Int64.ofInt it.nodes1
  nodes2 := Int64.ofInt it.nodes2

def importItem (x : SnapItem) : Item where
  ea1 := some x.ea1
  name1 := x.name1
  ea2 := some x.ea2
  name2 := x.name2
  desc := x.desc
  ratio := Binary64.ofBits x.ratioBits.toNat
  nodes1 := x.nodes1.toInt
  nodes2 := x.nodes2.toInt

/-- `ExportDict`; `at` throws on a key without an entry. -/
def exportDict (d : NameTable) : Option (List SnapMatched) :=
  d.order.mapM fun key => (d.map.lookup key).map fun entry =>
    ⟨key, entry.other, UInt64.ofNat entry.ratio.toBits⟩

def importRow (d : NameTable) (row : SnapMatched) : NameTable :=
  d.put row.key ⟨row.other, Binary64.ofBits row.ratioBits.toNat⟩

def importDict (rows : List SnapMatched) : NameTable := rows.foldl importRow NameTable.empty

/-- `Export`; none where a dict orders a key it does not hold. -/
def exportSnapshot (m : MatchImpl) : Option StateSnapshot :=
  match exportDict m.primary, exportDict m.secondary with
  | some primary, some secondary => some
      { best := (m.lists .best).map exportItem
        partials := (m.lists .partials).map exportItem
        unreliable := (m.lists .unreliable).map exportItem
        matchedPrimary := primary
        matchedSecondary := secondary
        flags := { totalFunctions1 := m.total1, totalFunctions2 := m.total2 } }
  | _, _ => none

/-- `Import`: nothing of the old state stays. -/
def importSnapshot (snap : StateSnapshot) : MatchImpl :=
  let lists : Chooser → List Item
    | .best => snap.best.map importItem
    | .partials => snap.partials.map importItem
    | .unreliable => snap.unreliable.map importItem
  { total1 := snap.flags.totalFunctions1
    total2 := snap.flags.totalFunctions2
    lists := lists
    members := fun c => rebuildMembers (lists c)
    primary := importDict snap.matchedPrimary
    secondary := importDict snap.matchedSecondary }

end MatchImpl

/-- An item met in a run is the same as one with the same key. -/
theorem Item.same_iff (a b : Item) (hb : b.ratio.isNaN = false) :
    a.same b = true ↔ a.memberKey = b.memberKey := by
  have hzero : Binary64.zero.isNaN = false := by decide
  have hkey : ∀ x : Binary64, x.isNaN = false → (x.eq Binary64.zero = true ↔ x.key = 0) := by
    intro x hx
    rw [Binary64.eq_iff x Binary64.zero hx hzero]
    rfl
  cases ha : a.ratio.isNaN with
  | true =>
    -- a NaN equals nothing, and keeps its own key
    have hsame : a.same b = false := by simp [Item.same, Binary64.eq, ha]
    have hself : a.memberKey = a := by simp [Item.memberKey, Binary64.eq, ha]
    have hreal : b.memberKey.ratio.isNaN = false := by
      unfold Item.memberKey
      split_ifs
      · exact hzero
      · exact hb
    rw [hsame, hself]
    refine iff_of_false Bool.false_ne_true fun h => ?_
    rw [← h, ha] at hreal
    cases hreal
  | false =>
    have hratio : a.ratio.eq b.ratio = true ↔ a.memberKey.ratio = b.memberKey.ratio := by
      rw [Binary64.eq_iff _ _ ha hb]
      unfold Item.memberKey
      by_cases hza : a.ratio.key = 0 <;> by_cases hzb : b.ratio.key = 0
      · rw [if_pos ((hkey _ ha).mpr hza), if_pos ((hkey _ hb).mpr hzb), hza, hzb]
        exact iff_of_true rfl rfl
      · rw [if_pos ((hkey _ ha).mpr hza), if_neg fun h => hzb ((hkey _ hb).mp h), hza]
        refine iff_of_false (fun h => hzb h.symm) fun h => hzb ?_
        rw [show b.ratio = Binary64.zero from h.symm]
        rfl
      · rw [if_neg fun h => hza ((hkey _ ha).mp h), if_pos ((hkey _ hb).mpr hzb), hzb]
        refine iff_of_false hza fun h => hza ?_
        rw [show a.ratio = Binary64.zero from h]
        rfl
      · rw [if_neg fun h => hza ((hkey _ ha).mp h), if_neg fun h => hzb ((hkey _ hb).mp h)]
        exact ⟨Binary64.eq_of_key _ _ hza, fun h => congrArg Binary64.key h⟩
    have hrest : ∀ it : Item, it.memberKey = { it with ratio := it.memberKey.ratio } := by
      intro it
      unfold Item.memberKey
      split_ifs <;> rfl
    rw [hrest a, hrest b, Item.mk.injEq, ← hratio]
    simp only [Item.same, Bool.and_eq_true, beq_iff_eq]
    tauto

namespace Members
variable (members : Members)

theorem count_congr {a b : Item} (h : a.memberKey = b.memberKey) :
    members.count a = members.count b := by
  rw [count, count, h]

theorem count_insert (it it' : Item) (n : UInt32) :
    Members.count (Finmap.insert it.memberKey n members) it' =
      if it'.memberKey = it.memberKey then n else members.count it' := by
  unfold count
  split_ifs with h
  · rw [h, Finmap.lookup_insert]
    rfl
  · rw [Finmap.lookup_insert_of_ne _ h]

end Members

/-- The occurrences of an item, told by its key. -/
theorem countP_same (l : List Item) (hl : ∀ x ∈ l, x.ratio.isNaN = false) (it : Item) :
    l.countP it.same = (l.map Item.memberKey).count it.memberKey := by
  rw [List.count, List.countP_map]
  apply List.countP_congr
  intro x hx
  rw [Item.same_iff it x (hl x hx), Function.comp_apply, beq_iff_eq, eq_comm]

/-- A member set built from a list counts its items. -/
theorem rebuildMembers_count (l : List Item) (hl : ∀ x ∈ l, x.ratio.isNaN = false) (it : Item) :
    (MatchImpl.rebuildMembers l).count it = UInt32.ofNat (l.countP it.same) := by
  have hfold : ∀ l : List Item, (∀ x ∈ l, x.ratio.isNaN = false) → ∀ members : Members,
      (l.foldl Members.add members).count it =
        members.count it + UInt32.ofNat (l.countP it.same) := by
    intro l
    induction l with
    | nil => intro _ members; simp
    | cons x l ih =>
      intro hl members
      rw [List.forall_mem_cons] at hl
      rw [List.foldl_cons, ih hl.2, Members.add, Members.count_insert, List.countP_cons]
      by_cases hkey : it.memberKey = x.memberKey
      · rw [if_pos hkey, if_pos ((Item.same_iff it x hl.1).mpr hkey), UInt32.ofNat_add,
          members.count_congr hkey, UInt32.add_assoc]
        congr 1
        exact UInt32.add_comm _ _
      · rw [if_neg hkey, if_neg fun h => hkey ((Item.same_iff it x hl.1).mp h), Nat.add_zero]
  rw [MatchImpl.rebuildMembers, hfold l hl ∅]
  simp [Members.count]

theorem rebuildMembers_counts (l : List Item) (hl : ∀ x ∈ l, x.ratio.isNaN = false)
    (hnodup : (l.map Item.memberKey).Nodup) (it : Item) :
    ((MatchImpl.rebuildMembers l).count it).toNat = l.countP it.same := by
  have hone : l.countP it.same ≤ 1 := by
    rw [countP_same l hl]
    exact List.nodup_iff_count_le_one.mp hnodup _
  rw [rebuildMembers_count l hl, UInt32.toNat_ofNat_of_lt']
  have hsize : UInt32.size = 2^32 := rfl
  omega

namespace NameTable

/-- A table stands for the dict with its order and its entries. -/
structure Refines (d : NameTable) (dict : NameDict) : Prop where
  order : d.order = dict.keys
  lookup : ∀ k, d.map.lookup k = dict.find? k

variable {d : NameTable} {dict : NameDict}

theorem Refines.empty : NameTable.empty.Refines InsertionDict.empty := ⟨rfl, fun _ => rfl⟩

theorem Refines.put (h : d.Refines dict) (key : Option Text) (entry : MatchedEntry) :
    (d.put key entry).Refines (dict.put key entry) := by
  have hlookup : ∀ k, (d.map.insert key entry).lookup k = (dict.put key entry).find? k := by
    intro k
    rw [InsertionDict.find?_put]
    split_ifs with hk
    · rw [hk, Finmap.lookup_insert]
    · rw [Finmap.lookup_insert_of_ne _ hk, h.lookup]
  unfold NameTable.put
  cases hkey : d.map.lookup key with
  | none =>
    refine ⟨?_, hlookup⟩
    rw [h.lookup] at hkey
    show d.order ++ [key] = (dict.put key entry).keys
    rw [InsertionDict.keys, InsertionDict.entries_put_of_new _ _ _ hkey, List.map_append, h.order]
    rfl
  | some old =>
    refine ⟨?_, hlookup⟩
    rw [h.lookup] at hkey
    show d.order = (dict.put key entry).keys
    rw [h.order, InsertionDict.keys_put_of_mem]
    rw [InsertionDict.mem_keys_iff, hkey]
    rfl

/-- The recorded order of a table is a list of exactly its keys, each of them once. -/
theorem Refines.ordered (h : d.Refines dict) :
    d.order.Nodup ∧ ∀ k, k ∈ d.order ↔ k ∈ d.map := by
  rw [h.order]
  refine ⟨dict.nodup, fun k => ?_⟩
  rw [InsertionDict.mem_keys_iff, ← h.lookup, Finmap.lookup_isSome]

/-- What the snapshot says of an entry. -/
def row (e : Option Text × MatchedEntry) : SnapMatched :=
  ⟨e.1, e.2.other, UInt64.ofNat e.2.ratio.toBits⟩

theorem Refines.export (h : d.Refines dict) :
    MatchImpl.exportDict d = some (dict.entries.map row) := by
  have hrows : ∀ es : List (Option Text × MatchedEntry), (∀ e ∈ es, e ∈ dict.entries) →
      (es.map Prod.fst).mapM (fun key => (d.map.lookup key).map fun entry =>
        (⟨key, entry.other, UInt64.ofNat entry.ratio.toBits⟩ : SnapMatched)) =
          some (es.map row) := by
    intro es
    induction es with
    | nil => exact fun _ => rfl
    | cons e es ih =>
      intro hes
      rw [List.forall_mem_cons] at hes
      have hentry : d.map.lookup e.1 = some e.2 := by
        rw [h.lookup]
        exact (dict.mem_entries_iff e.1 e.2).mp hes.1
      rw [List.map_cons, List.mapM_cons, hentry, ih hes.2]
      rfl
  rw [MatchImpl.exportDict, h.order]
  exact hrows dict.entries fun e he => he

end NameTable

theorem ofBits_toNat_ofNat_toBits (x : Binary64) :
    Binary64.ofBits (UInt64.ofNat x.toBits).toNat = x := by
  rw [UInt64.toNat_ofNat_of_lt' x.toBits_lt, Binary64.ofBits_toBits]

/-- A dict comes back from its rows, in its order. -/
theorem NameTable.importDict_refines (dict : NameDict) :
    (MatchImpl.importDict (dict.entries.map NameTable.row)).Refines dict := by
  have hfold : ∀ (es : List (Option Text × MatchedEntry)) (d : NameTable) (read : NameDict),
      d.Refines read → ((read.entries ++ es).map Prod.fst).Nodup →
      ∃ all : NameDict, ((es.map NameTable.row).foldl MatchImpl.importRow d).Refines all ∧
        all.entries = read.entries ++ es := by
    intro es
    induction es with
    | nil => exact fun d read hd _ => ⟨read, hd, (List.append_nil _).symm⟩
    | cons e es ih =>
      intro d read hd hnodup
      have hnew : read.find? e.1 = none := by
        rw [← Option.not_isSome_iff_eq_none, ← InsertionDict.mem_keys_iff]
        intro hmem
        rw [List.map_append, List.nodup_append] at hnodup
        exact hnodup.2.2 e.1 hmem e.1 (by simp) rfl
      have hentries := InsertionDict.entries_put_of_new read e.1 e.2 hnew
      have hrow : MatchImpl.importRow d (NameTable.row e) = d.put e.1 e.2 := by
        unfold MatchImpl.importRow NameTable.row
        dsimp only
        rw [ofBits_toNat_ofNat_toBits]
      obtain ⟨all, hall, hentries'⟩ := ih (d.put e.1 e.2) (read.put e.1 e.2) (hd.put e.1 e.2) (by
        rwa [hentries, List.append_assoc])
      refine ⟨all, ?_, ?_⟩
      · rw [List.map_cons, List.foldl_cons, hrow]
        exact hall
      · rw [hentries', hentries, List.append_assoc]
        rfl
  obtain ⟨all, hall, hentries⟩ := hfold dict.entries NameTable.empty InsertionDict.empty
    NameTable.Refines.empty dict.nodup
  rw [show dict = all from InsertionDict.ext hentries.symm] at hall ⊢
  exact hall

namespace MatchState

variable {st : MatchState}

theorem appendItem_items (it : Item) (c : Option Chooser) (c' : Chooser) :
    (st.appendItem it c).items c' = st.items c' ∨
      c = some c' ∧ (st.items c').any it.same = false ∧
        (st.appendItem it c).items c' = st.items c' ++ [it] := by
  cases c with
  | none => exact .inl rfl
  | some c =>
    rw [appendItem_some]
    cases hany : (st.items c).any it.same with
    | true => exact .inl (by rw [if_pos rfl])
    | false =>
      rw [if_neg Bool.false_ne_true, items_setItems]
      by_cases hc : c' = c
      · subst hc
        exact .inr ⟨rfl, hany, if_pos rfl⟩
      · exact .inl (if_neg hc)

/-- An addition lists at most its own item. -/
theorem addMatch_items (st : MatchState) (n1 n2 : Option Text) (ratio : Binary64) (it : Item)
    (c : Option Chooser) (st' : MatchState) (h : st.addMatch n1 n2 ratio it c = .ok st')
    (c' : Chooser) (x : Item) (hx : x ∈ st'.items c') : x ∈ st.items c' ∨ x = it := by
  have hadded (r : Binary64) (hst' : (st.appendItem it c).putMatched n1 n2 r = st') :
      x ∈ st.items c' ∨ x = it := by
    subst hst'
    have hitems : ((st.appendItem it c).putMatched n1 n2 r).items c' =
        (st.appendItem it c).items c' := by cases c' <;> rfl
    rw [hitems] at hx
    rcases appendItem_items it c c' with hsame | ⟨-, -, happended⟩
    · exact .inl (hsame ▸ hx)
    · rw [happended, List.mem_append, List.mem_singleton] at hx
      exact hx
  unfold addMatch at h
  dsimp only at h
  generalize (if n1 = n2 then Binary64.one else ratio) = r at h
  split_ifs at h with hone
  · exact hadded _ (Except.ok.inj h)
  · cases hbetter : st.hasBetterMatch n1 n2 r with
    | error e => simp [hbetter] at h
    | ok better =>
      cases better with
      | true =>
        simp only [hbetter] at h
        rw [Except.ok.inj h]
        exact .inl hx
      | false =>
        simp only [hbetter] at h
        exact hadded _ (Except.ok.inj h)

/-- What every state of a run keeps. -/
structure Sound (st : MatchState) : Prop where
  real : st.RealRatios
  nodup : ∀ c, ((st.items c).map Item.memberKey).Nodup
  named : ∀ c, ∀ it ∈ st.items c, it.name1 ∈ st.primary.keys ∧ it.name2 ∈ st.secondary.keys
  stored : ∀ c, ∀ it ∈ st.items c, ItemStored it

theorem Sound.addAccepted (h : st.Sound) (it : Item) (c : Option Chooser) (ratio : Binary64)
    (hreal : it.ratio.isNaN = false) (hstored : ItemStored it) :
    ((st.appendItem it c).putMatched it.name1 it.name2 ratio).Sound := by
  have hitems (c' : Chooser) : ((st.appendItem it c).putMatched it.name1 it.name2 ratio).items c' =
      (st.appendItem it c).items c' := by cases c' <;> rfl
  have hdicts : (st.appendItem it c).primary = st.primary ∧
      (st.appendItem it c).secondary = st.secondary := by
    cases c with
    | none => exact ⟨rfl, rfl⟩
    | some c =>
      rw [appendItem_some]
      split_ifs
      · exact ⟨rfl, rfl⟩
      · exact (setItems_rest st c _).2.2
  have hmem (c' : Chooser) (x : Item) (hx : x ∈ (st.appendItem it c).items c') :
      x ∈ st.items c' ∨ x = it := by
    rcases appendItem_items it c c' with hsame | ⟨-, -, happended⟩
    · exact .inl (hsame ▸ hx)
    · rw [happended, List.mem_append, List.mem_singleton] at hx
      exact hx
  refine ⟨?_, ?_, ?_, ?_⟩
  · intro c' x hx
    rw [hitems] at hx
    rcases hmem c' x hx with hx | rfl
    · exact h.real c' x hx
    · exact hreal
  · intro c'
    rw [hitems]
    rcases appendItem_items it c c' with hsame | ⟨-, hany, happended⟩
    · rw [hsame]
      exact h.nodup c'
    · rw [happended, List.map_append, List.nodup_append]
      refine ⟨h.nodup c', List.nodup_singleton _, ?_⟩
      intro a ha b hb hab
      obtain ⟨x, hx, rfl⟩ := List.mem_map.mp ha
      obtain rfl : b = it.memberKey := by simpa using hb
      have hdiffer := List.any_eq_false.mp hany x hx
      exact hdiffer ((Item.same_iff it x (h.real c' x hx)).mpr hab.symm)
  · intro c' x hx
    rw [hitems] at hx
    show x.name1 ∈ ((st.appendItem it c).primary.put it.name1 ⟨it.name2, ratio⟩).keys ∧
      x.name2 ∈ ((st.appendItem it c).secondary.put it.name2 ⟨it.name1, ratio⟩).keys
    rw [hdicts.1, hdicts.2, InsertionDict.mem_keys_put, InsertionDict.mem_keys_put]
    rcases hmem c' x hx with hx | rfl
    · exact ⟨.inr (h.named c' x hx).1, .inr (h.named c' x hx).2⟩
    · exact ⟨.inl rfl, .inl rfl⟩
  · intro c' x hx
    rw [hitems] at hx
    rcases hmem c' x hx with hx | rfl
    · exact h.stored c' x hx
    · exact hstored

/-- A cleaned state is sound, whatever the dicts were. -/
theorem Sound.cleanup (h : st.Sound) : (Diff.cleanup st).Sound := by
  have hpair : ∀ it : Item, namePairKey it.memberKey = namePairKey it := by
    intro it
    unfold Item.memberKey
    split_ifs <;> rfl
  have hlisted (c : Chooser) : ((Diff.cleanup st).items c).Sublist (Diff.cleanup st).shown := by
    cases c with
    | best => exact List.sublist_append_left _ _
    | partials => exact (List.sublist_append_left _ _).trans (List.sublist_append_right _ _)
    | unreliable => exact (List.sublist_append_right _ _).trans (List.sublist_append_right _ _)
  refine ⟨?_, ?_, ?_, ?_⟩
  · exact fun c it hit => h.real c it (cleanup_subset st c hit)
  · intro c
    have hkeys := st.cleanup_shown_nodup.sublist ((hlisted c).map namePairKey)
    rw [← List.map_congr_left (fun it _ => hpair it)] at hkeys
    apply List.Nodup.of_map namePairKey
    rw [List.map_map]
    exact hkeys
  · intro c it hit
    have hmem := (hlisted c).subset hit
    exact ⟨(st.mem_keys_cleanup _).1.mpr ⟨it, hmem, rfl⟩,
      (st.mem_keys_cleanup _).2.mpr ⟨it, hmem, rfl⟩⟩
  · exact fun c it hit => h.stored c it (cleanup_subset st c hit)

end MatchState

namespace MatchImpl

/-- The redundant tables stand for an abstract state. -/
structure Refines (m : MatchImpl) (st : MatchState) : Prop where
  total1 : m.total1.toInt = st.total1
  total2 : m.total2.toInt = st.total2
  lists : ∀ c, m.lists c = st.items c
  members : ∀ c it, ((m.members c).count it).toNat = (m.lists c).countP it.same
  primary : m.primary.Refines st.primary
  secondary : m.secondary.Refines st.secondary

variable {m : MatchImpl} {st : MatchState}

theorem Refines.hasBetterMatch (h : m.Refines st) (n1 n2 : Option Text) (ratio : Binary64) :
    m.hasBetterMatch n1 n2 ratio = st.hasBetterMatch n1 n2 ratio := by
  have habove (d : NameTable) (dict : NameDict) (hd : d.Refines dict) (n : Option Text) :
      entryAbove d n ratio = MatchState.entryAbove dict n ratio := by
    rw [entryAbove, hd.lookup]
    rfl
  rewrite [MatchImpl.hasBetterMatch, MatchState.hasBetterMatch, h.primary.lookup,
    habove _ _ h.primary, habove _ _ h.secondary]
  cases MatchState.bothNamed n1 n2 with
  | error e => rfl
  | ok named => cases named <;> cases st.primary.find? n1 <;> rfl

theorem Refines.putMatched (h : m.Refines st) (n1 n2 : Option Text) (ratio : Binary64) :
    (m.putMatched n1 n2 ratio).Refines (st.putMatched n1 n2 ratio) where
  total1 := h.total1
  total2 := h.total2
  lists := by
    intro c
    rw [show (m.putMatched n1 n2 ratio).lists c = m.lists c from rfl, h.lists c]
    cases c <;> rfl
  members := h.members
  primary := h.primary.put _ _
  secondary := h.secondary.put _ _

theorem Refines.appendItem (h : m.Refines st) (it : Item) (c : Option Chooser)
    (hreal : it.ratio.isNaN = false) : (m.appendItem it c).1.Refines (st.appendItem it c) := by
  cases c with
  | none => exact h
  | some c =>
    have hcount := h.members c it
    have hany : (st.items c).any it.same = false ↔ (m.members c).count it = 0 := by
      rw [← UInt32.toNat_inj, hcount, h.lists c, UInt32.toNat_zero, List.countP_eq_zero,
        List.any_eq_false]
    rw [MatchState.appendItem_some, MatchImpl.appendItem]
    by_cases hnew : (m.members c).count it = 0
    · obtain ⟨htotal1, htotal2, hprimary, hsecondary⟩ :=
        MatchState.setItems_rest st c (st.items c ++ [it])
      rw [if_pos hnew, hany.mpr hnew, if_neg Bool.false_ne_true]
      refine ⟨h.total1.trans htotal1.symm, h.total2.trans htotal2.symm, ?_, ?_,
        hprimary ▸ h.primary, hsecondary ▸ h.secondary⟩
      · intro c'
        rw [MatchState.items_setItems]
        dsimp only
        split_ifs with hc
        · rw [hc, Function.update_self, h.lists]
        · rw [Function.update_of_ne hc, h.lists]
      · intro c' it'
        dsimp only
        by_cases hc : c' = c
        · subst hc
          rw [Function.update_self, Function.update_self, Members.count_insert, List.countP_append,
            List.countP_singleton]
          by_cases hkey : it'.memberKey = it.memberKey
          · have hold : (m.lists c').countP it'.same = 0 := by
              rw [← h.members, Members.count_congr _ hkey, hnew]
              rfl
            rw [if_pos hkey, if_pos ((Item.same_iff it' it hreal).mpr hkey), hold]
            rfl
          · rw [if_neg hkey, if_neg fun hs => hkey ((Item.same_iff it' it hreal).mp hs), h.members,
              Nat.add_zero]
        · rw [Function.update_of_ne hc, Function.update_of_ne hc]
          exact h.members c' it'
    · have hlisted : (st.items c).any it.same = true :=
        Bool.eq_true_of_not_eq_false fun hfalse => hnew (hany.mp hfalse)
      rw [if_neg hnew, hlisted, if_pos rfl]
      exact h

/-- `AddMatch` does what the abstract one does, and nothing where it raises. -/
theorem Refines.addMatch (h : m.Refines st) (hst : st.Sound) (ratio : Binary64) (it : Item)
    (c : Option Chooser) (hreal : it.ratio.isNaN = false) (hstored : ItemStored it) :
    match st.addMatch it.name1 it.name2 ratio it c with
    | .error e => m.addMatch it.name1 it.name2 ratio it c = (m,.error e)
    | .ok st' => (m.addMatch it.name1 it.name2 ratio it c).1.Refines st' ∧ st'.Sound ∧
        ∃ r, (m.addMatch it.name1 it.name2 ratio it c).2 = .ok r := by
  have haccepted (r : Binary64) :
      (m.addAccepted it.name1 it.name2 r it c).1.Refines
        ((st.appendItem it c).putMatched it.name1 it.name2 r) ∧
      ((st.appendItem it c).putMatched it.name1 it.name2 r).Sound ∧
      ∃ result, (m.addAccepted it.name1 it.name2 r it c).2 = .ok result :=
    ⟨(h.appendItem it c hreal).putMatched _ _ _, hst.addAccepted it c r hreal hstored, _, rfl⟩
  unfold MatchState.addMatch MatchImpl.addMatch
  dsimp only
  generalize (if it.name1 = it.name2 then Binary64.one else ratio) = r
  by_cases hone : r.eq Binary64.one = true
  · rw [if_pos hone, if_pos hone]
    exact haccepted r
  · rw [if_neg hone, if_neg hone, h.hasBetterMatch]
    cases st.hasBetterMatch it.name1 it.name2 r with
    | error e => rfl
    | ok better =>
      cases better with
      | true => exact ⟨h, hst, _, rfl⟩
      | false => exact haccepted _

/-- An addition that raises has not begun. -/
theorem addMatch_raises (m : MatchImpl) (n1 n2 : Option Text) (ratio : Binary64) (it : Item)
    (c : Option Chooser) (e : DiffError) (h : (m.addMatch n1 n2 ratio it c).2 = .error e) :
    (m.addMatch n1 n2 ratio it c).1 = m := by
  have haccepted (r : Binary64) : (m.addAccepted n1 n2 r it c).2 ≠ .error e := by
    intro hr
    cases hr
  unfold addMatch at h ⊢
  dsimp only at h ⊢
  generalize (if n1 = n2 then Binary64.one else ratio) = r at h ⊢
  by_cases hone : r.eq Binary64.one = true
  · rw [if_pos hone] at h
    exact absurd h (haccepted _)
  · rw [if_neg hone] at h ⊢
    cases hbetter : m.hasBetterMatch n1 n2 r with
    | error e => rfl
    | ok better =>
      cases better with
      | true => rfl
      | false =>
        simp only [hbetter] at h
        exact absurd h (haccepted _)

theorem Refines.foldl_putMatched (h : m.Refines st) (its : List Item) :
    (its.foldl (fun m it => m.putMatched it.name1 it.name2 it.ratio) m).Refines
      (its.foldl (fun st it => st.putMatched it.name1 it.name2 it.ratio) st) := by
  induction its generalizing m st with
  | nil => exact h
  | cons it its ih => exact ih (h.putMatched it.name1 it.name2 it.ratio)

/-- Lists of real items, each of them once, with member sets and dicts built anew. -/
theorem refines_rebuilt (total1 total2 : Int64) (lists : Chooser → List Item) (st : MatchState)
    (h1 : total1.toInt = st.total1) (h2 : total2.toInt = st.total2)
    (hlists : ∀ c, lists c = st.items c) (hreal : st.RealRatios)
    (hnodup : ∀ c, ((st.items c).map Item.memberKey).Nodup) {primary secondary : NameTable}
    (hprimary : primary.Refines st.primary) (hsecondary : secondary.Refines st.secondary) :
    Refines ⟨total1, total2, lists, fun c => rebuildMembers (lists c), primary, secondary⟩ st := by
  refine ⟨h1, h2, hlists, ?_, hprimary, hsecondary⟩
  intro c it
  show ((rebuildMembers (lists c)).count it).toNat = (lists c).countP it.same
  rw [hlists c]
  exact rebuildMembers_counts (st.items c) (hreal c) (hnodup c) it

theorem Refines.cleanup (h : m.Refines st) (hst : st.Sound) : m.cleanup.Refines (Diff.cleanup st) := by
  have hclean := hst.cleanup
  let out : Chooser → List Item
    | .best => st.cleanedBest.2
    | .partials => st.cleanedPartials.2
    | .unreliable => st.cleanedUnreliable.2
  have hm : m.cleanup = (out .best ++ out .partials ++ out .unreliable).foldl
      (fun m it => m.putMatched it.name1 it.name2 it.ratio)
      ⟨m.total1, m.total2, out, fun c => rebuildMembers (out c), NameTable.empty,
        NameTable.empty⟩ := by
    have hbest := h.lists .best
    have hpartials := h.lists .partials
    have hunreliable := h.lists .unreliable
    rw [MatchImpl.cleanup, hbest, hpartials, hunreliable]
    rfl
  rw [hm, MatchState.cleanup_eq, MatchState.rebuild]
  apply Refines.foldl_putMatched
  have hout : ∀ c, out c = (Diff.cleanup st).items c := by
    intro c
    cases c with
    | best => exact (MatchState.cleanup_best st).symm
    | partials => exact (MatchState.cleanup_partials st).symm
    | unreliable => exact (MatchState.cleanup_unreliable st).symm
  let kept : MatchState := ⟨st.total1, st.total2, st.cleanedBest.2, st.cleanedPartials.2,
    st.cleanedUnreliable.2, InsertionDict.empty, InsertionDict.empty⟩
  have hitems : ∀ c, out c = kept.items c := by
    intro c
    cases c <;> rfl
  refine refines_rebuilt m.total1 m.total2 out kept h.total1 h.total2 hitems ?_ ?_
    NameTable.Refines.empty NameTable.Refines.empty
  · intro c it hit
    rw [← hitems, hout] at hit
    exact hclean.real c it hit
  · intro c
    rw [← hitems, hout]
    exact hclean.nodup c

/-- Both addresses of an item are known. -/
def Addressed (it : Item) : Prop := it.ea1 ≠ none ∧ it.ea2 ≠ none

theorem importItem_exportItem (it : Item) (h : Addressed it) (hstored : ItemStored it) :
    importItem (exportItem it) = it := by
  have hea : ∀ ea : Option Text, ea ≠ none → some (keyText ea) = ea := by
    intro ea hne
    cases ea with
    | none => exact absurd rfl hne
    | some t => rfl
  have hword : ∀ n : Int, IsInt64 n → (Int64.ofInt n).toInt = n := fun n hn =>
    Int64.toInt_ofInt_of_le hn.1 hn.2
  unfold importItem exportItem
  dsimp only
  rw [hea _ h.1, hea _ h.2, hword _ hstored.1, hword _ hstored.2, ofBits_toNat_ofNat_toBits]

theorem map_importItem (l : List Item) (h : ∀ it ∈ l, Addressed it ∧ ItemStored it) :
    (l.map exportItem).map importItem = l := by
  rw [List.map_map]
  conv_rhs => rw [← List.map_id l]
  apply List.map_congr_left
  intro it hit
  exact importItem_exportItem it (h it hit).1 (h it hit).2

/-- A snapshot of a state whose items have addresses brings the state back. -/
theorem Refines.importSnapshot (h : m.Refines st) (hst : st.Sound)
    (haddressed : ∀ c, ∀ it ∈ st.items c, Addressed it) :
    ∃ snap, m.exportSnapshot = some snap ∧ (MatchImpl.importSnapshot snap).Refines st := by
  have hback (c : Chooser) : ((m.lists c).map exportItem).map importItem = st.items c := by
    rw [h.lists]
    exact map_importItem _ fun it hit => ⟨haddressed c it hit, hst.stored c it hit⟩
  let snap : StateSnapshot :=
    { best := (m.lists .best).map exportItem
      partials := (m.lists .partials).map exportItem
      unreliable := (m.lists .unreliable).map exportItem
      matchedPrimary := st.primary.entries.map NameTable.row
      matchedSecondary := st.secondary.entries.map NameTable.row
      flags := { totalFunctions1 := m.total1, totalFunctions2 := m.total2 } }
  refine ⟨snap, ?_, ?_⟩
  · rw [exportSnapshot, h.primary.export, h.secondary.export]
  · refine refines_rebuilt m.total1 m.total2 _ st h.total1 h.total2 ?_ hst.real hst.nodup
      (NameTable.importDict_refines st.primary) (NameTable.importDict_refines st.secondary)
    intro c
    cases c
    · exact hback .best
    · exact hback .partials
    · exact hback .unreliable

/-- The states of a run: what is added are items that `Added` holds of, under their own names; what
is imported was exported by such a run. -/
inductive Reached (imports : Prop) (Added : Item → Prop) : MatchImpl → Prop
  | initial (total1 total2 : Int64) : Reached imports Added (MatchImpl.initial total1 total2)
  | addMatch (m : MatchImpl) (ratio : Binary64) (it : Item) (c : Option Chooser)
      (hm : Reached imports Added m) (hratio : ratio.isNaN = false)
      (hreal : it.ratio.isNaN = false) (hstored : ItemStored it) (hadded : Added it) :
      Reached imports Added (m.addMatch it.name1 it.name2 ratio it c).1
  | cleanup (m : MatchImpl) (hm : Reached imports Added m) : Reached imports Added m.cleanup
  | importSnapshot (m old : MatchImpl) (snap : StateSnapshot) (himports : imports)
      (hm : Reached imports Added m) (hold : Reached imports Added old)
      (hsnap : old.exportSnapshot = some snap) :
      Reached imports Added (MatchImpl.importSnapshot snap)

/-- Every state of a run stands for a sound abstract one. -/
theorem Reached.refines {imports : Prop} {Added : Item → Prop}
    (haddressed : imports → ∀ it, Added it → Addressed it) {m : MatchImpl}
    (h : Reached imports Added m) :
    ∃ st : MatchState, m.Refines st ∧ st.Sound ∧ ∀ c, ∀ it ∈ st.items c, Added it := by
  induction h with
  | initial total1 total2 =>
    refine ⟨MatchState.initial total1.toInt total2.toInt, ⟨rfl, rfl, ?_, fun _ _ => rfl,
      NameTable.Refines.empty, NameTable.Refines.empty⟩, ⟨?_, ?_, ?_, ?_⟩, ?_⟩ <;> intro c <;>
      cases c <;> simp [MatchState.initial, MatchState.items, MatchImpl.initial]
  | addMatch m ratio it c hm hratio hreal hstored hadded ih =>
    obtain ⟨st, href, hst, hall⟩ := ih
    have hstep := href.addMatch hst ratio it c hreal hstored
    have hitems := MatchState.addMatch_items st it.name1 it.name2 ratio it c
    cases hadd : st.addMatch it.name1 it.name2 ratio it c with
    | error e =>
      rw [hadd] at hstep
      have hsame : m.addMatch it.name1 it.name2 ratio it c = (m,.error e) := hstep
      rw [hsame]
      exact ⟨st, href, hst, hall⟩
    | ok st' =>
      rw [hadd] at hstep
      have hok : (m.addMatch it.name1 it.name2 ratio it c).1.Refines st' ∧ st'.Sound ∧ _ := hstep
      refine ⟨st', hok.1, hok.2.1, fun c' x hx => ?_⟩
      rcases hitems st' hadd c' x hx with hx | rfl
      · exact hall c' x hx
      · exact hadded
  | cleanup m hm ih =>
    obtain ⟨st, href, hst, hall⟩ := ih
    exact ⟨Diff.cleanup st, href.cleanup hst, hst.cleanup,
      fun c it hit => hall c it (cleanup_subset st c hit)⟩
  | importSnapshot m old snap himports hm hold hsnap _ ih =>
    obtain ⟨st, href, hst, hall⟩ := ih
    obtain ⟨snap', hsnap', himported⟩ :=
      href.importSnapshot hst fun c it hit => haddressed himports it (hall c it hit)
    obtain rfl : snap' = snap := Option.some.inj (hsnap'.symm.trans hsnap)
    exact ⟨st, himported, hst, hall⟩

end MatchImpl

/-- The four redundant tables of the match state agree in every state of a run, and an addition
that raises leaves them all as they were. -/
theorem matchImpl_invariant (imports : Prop) (Added : Item → Prop)
    (haddressed : imports → ∀ it, Added it → MatchImpl.Addressed it) (m : MatchImpl)
    (h : MatchImpl.Reached imports Added m) :
    (∀ c it, ((m.members c).count it).toNat = (m.lists c).countP it.same) ∧
    (∀ c, (m.lists c).Pairwise fun a b => a.same b = false) ∧
    ((m.primary.order.Nodup ∧ ∀ k, k ∈ m.primary.order ↔ k ∈ m.primary.map) ∧
      m.secondary.order.Nodup ∧ ∀ k, k ∈ m.secondary.order ↔ k ∈ m.secondary.map) ∧
    (∀ c, ∀ it ∈ m.lists c, it.name1 ∈ m.primary.map ∧ it.name2 ∈ m.secondary.map) ∧
    ∀ ratio it c e, (m.addMatch it.name1 it.name2 ratio it c).2 = .error e →
      (m.addMatch it.name1 it.name2 ratio it c).1 = m := by
  obtain ⟨st, href, hst, -⟩ := h.refines haddressed
  refine ⟨href.members, ?_, ⟨href.primary.ordered, href.secondary.ordered⟩, ?_, ?_⟩
  · intro c
    rw [href.lists]
    have hnodup := hst.nodup c
    rw [List.Nodup, List.pairwise_map] at hnodup
    refine hnodup.imp_of_mem fun {a b} _ hb hab => ?_
    exact Bool.eq_false_of_not_eq_true fun hsame =>
      hab ((Item.same_iff a b (hst.real c b hb)).mp hsame)
  · intro c it hit
    rw [href.lists] at hit
    have hnamed := hst.named c it hit
    rw [← href.primary.order, ← href.secondary.order] at hnamed
    exact ⟨(href.primary.ordered.2 _).mp hnamed.1, (href.secondary.ordered.2 _).mp hnamed.2⟩
  · intro ratio it c e he
    exact MatchImpl.addMatch_raises m it.name1 it.name2 ratio it c e he

namespace MatchImpl

/-- A match that is listed with its own ratio. -/
def listed (m : MatchImpl) (it : Item) (c : Chooser) : MatchImpl :=
  (m.addMatch it.name1 it.name2 it.ratio it (some c)).1

theorem Reached.listed {imports : Prop} {Added : Item → Prop} {m : MatchImpl}
    (h : Reached imports Added m) {it : Item} (c : Chooser) (hreal : it.ratio.isNaN = false)
    (hstored : ItemStored it) (hadded : Added it) : Reached imports Added (m.listed it c) :=
  .addMatch m it.ratio it (some c) h hreal hreal hstored hadded

theorem Reached.sampleItem {imports : Prop} {m : MatchImpl} (h : Reached imports Addressed m)
    (ea1 name1 ea2 name2 : String) (c : Chooser) {ratio : Binary64} (hreal : ratio.isNaN = false) :
    Reached imports Addressed (m.listed (sampleItem ea1 name1 ea2 name2 ratio) c) := by
  have hnodes : IsInt64 3 := ⟨by decide, by decide⟩
  exact h.listed c hreal ⟨hnodes, hnodes⟩ ⟨Option.some_ne_none _, Option.some_ne_none _⟩

/-- A best match and two partial ones of one function, of which a cleanup keeps the better one. -/
def sampleCleaned : MatchImpl :=
  ((((initial 4 4).listed (sampleItem "16" "main" "32" "main" .one) .best).listed
    (sampleItem "64" "sub_40" "80" "read" fourFifths) .partials).listed
    (sampleItem "64" "sub_40" "96" "scan" nineTenths) .partials).cleanup

/-- After the import, the weaker match is refused again, and another function gets one. -/
def sampleResumed (snap : StateSnapshot) : MatchImpl :=
  ((importSnapshot snap).listed (sampleItem "64" "sub_40" "80" "read" fourFifths) .partials).listed
    (sampleItem "112" "close" "128" "stop" fourFifths) .partials

end MatchImpl

theorem matchImpl_invariant_resumed :
    ∃ snap, MatchImpl.sampleCleaned.exportSnapshot = some snap ∧
      (MatchImpl.sampleResumed snap).lists .partials =
        [sampleItem "64" "sub_40" "96" "scan" nineTenths,
          sampleItem "112" "close" "128" "stop" fourFifths] ∧
      (∀ c it, (((MatchImpl.sampleResumed snap).members c).count it).toNat =
        ((MatchImpl.sampleResumed snap).lists c).countP it.same) ∧
      ∀ c, ((MatchImpl.sampleResumed snap).lists c).Pairwise fun a b => a.same b = false := by
  obtain ⟨snap, hsnap⟩ : ∃ snap, MatchImpl.sampleCleaned.exportSnapshot = some snap := ⟨_, rfl⟩
  have hreal : fourFifths.isNaN = false := by decide
  have hstart : MatchImpl.Reached True MatchImpl.Addressed (MatchImpl.initial 4 4) := .initial 4 4
  have hcleaned : MatchImpl.Reached True MatchImpl.Addressed MatchImpl.sampleCleaned := by
    apply MatchImpl.Reached.cleanup
    have hbest := hstart.sampleItem "16" "main" "32" "main" .best (by decide : Binary64.one.isNaN = false)
    exact (hbest.sampleItem "64" "sub_40" "80" "read" .partials hreal).sampleItem "64" "sub_40" "96" "scan"
      .partials (by decide)
  have himported : MatchImpl.Reached True MatchImpl.Addressed (MatchImpl.importSnapshot snap) :=
    .importSnapshot _ _ snap trivial hstart hcleaned hsnap
  have hresumed : MatchImpl.Reached True MatchImpl.Addressed (MatchImpl.sampleResumed snap) :=
    (himported.sampleItem "64" "sub_40" "80" "read" .partials hreal).sampleItem "112" "close" "128" "stop"
      .partials hreal
  obtain ⟨hmembers, hpairwise, -⟩ :=
    matchImpl_invariant True MatchImpl.Addressed (fun _ _ hit => hit) _ hresumed
  refine ⟨snap, hsnap, ?_, hmembers, hpairwise⟩
  obtain rfl := Option.some.inj hsnap
  decide

/-- An address that is None and one that is the text `None` are one address after an import, so that
two items of a run may come back as the same one. -/
theorem matchImpl_import_joins_items :
    ∃ m, MatchImpl.Reached True (fun _ => True) m ∧
      ¬ (m.lists .best).Pairwise fun a b => a.same b = false := by
  let at' (ea : Option Text) : Item := { sampleItem "" "main" "32" "main" .one with ea1 := ea }
  have hnodes : IsInt64 3 := ⟨by decide, by decide⟩
  have hlist {m : MatchImpl} (hm : MatchImpl.Reached True (fun _ => True) m) (ea : Option Text) :
      MatchImpl.Reached True (fun _ => True) (m.listed (at' ea) .best) :=
    hm.listed .best (by decide : Binary64.one.isNaN = false) ⟨hnodes, hnodes⟩ trivial
  have hstart : MatchImpl.Reached True (fun _ => True) (MatchImpl.initial 2 2) := .initial 2 2
  have hlisted := hlist (hlist hstart none) (some (text "None"))
  obtain ⟨snap, hsnap⟩ : ∃ snap, (((MatchImpl.initial 2 2).listed (at' none) .best).listed
      (at' (some (text "None"))) .best).exportSnapshot = some snap := ⟨_, rfl⟩
  refine ⟨MatchImpl.importSnapshot snap, .importSnapshot _ _ snap trivial hstart hlisted hsnap, ?_⟩
  obtain rfl := Option.some.inj hsnap
  decide

end DSigMatcher.Diff
