import DSigMatcher.Diff.FinalPass
import Mathlib

namespace DSigMatcher.Diff
open DSigMatcher.Base DSigMatcher.Framework

/-- The address table of a session: each text once, and an id for each of them and for None. -/
structure AddrTable where
  views : List Text
  nodup : views.Nodup
  bound : views.length < 2^32

/-- `AddrId`: 0 is None, the others are one past the place of their text. -/
abbrev AddrTable.Id (ids : AddrTable) := Fin (ids.views.length+1)

/-- What an id stands for; `AddrText` and `AddrKeyText` render it. -/
def AddrTable.address (ids : AddrTable) (ea : ids.Id) : Option Text :=
  if ea.val = 0 then none else ids.views[ea.val-1]?

structure CachedRatio (ids : AddrTable) where
  ea1 : ids.Id
  ea2 : ids.Id
  ratio : Binary64

/-- The cache members of `RatioEngine::Impl`. -/
structure RatioCache (ids : AddrTable) where
  byId : Finmap fun _ : UInt64 => UInt32
  byText : Finmap fun _ : Text => UInt32
  entries : List (CachedRatio ids)
  simpleById : List (Option Bool)

section
variable {ids : AddrTable}

/-- Neither `None` nor with a dash. -/
def simpleText (t : Text) : Bool := t ≠ text "None" && !t.contains 45

def isSimple (ids : AddrTable) (ea : ids.Id) : Bool :=
  match ids.address ea with
  | none => false
  | some t => simpleText t

def idKey (ea1 ea2 : ids.Id) : UInt64 :=
  (UInt64.ofNat ea1.val <<< 32) ||| UInt64.ofNat ea2.val

def textKey (ea1 ea2 : ids.Id) : Text := eaPairKey (ids.address ea1) (ids.address ea2)

namespace RatioCache

def empty : RatioCache ids := ⟨∅, ∅, [], []⟩

/-- `SimpleAddr`: the answer is looked up or worked out and noted. -/
def simpleAddr (cache : RatioCache ids) (ea : ids.Id) : RatioCache ids × Bool :=
  if ea.val = 0 then (cache,false)
  else
    let notes := cache.simpleById ++
      (if cache.simpleById.length ≤ ea.val then
        List.replicate (ea.val+1024-cache.simpleById.length) none
      else [])
    match notes[ea.val]? with
    | some (some b) => ({ cache with simpleById := notes },b)
    | _ => ({ cache with simpleById := notes.set ea.val (some (isSimple ids ea)) }, isSimple ids ea)

/-- `SimpleAddr(Ea1) && SimpleAddr(Ea2)`. -/
def simplePair (cache : RatioCache ids) (ea1 ea2 : ids.Id) : RatioCache ids × Bool :=
  match cache.simpleAddr ea1 with
  | (cache,false) => (cache,false)
  | (cache,true) => cache.simpleAddr ea2

def entryAt (cache : RatioCache ids) (index : Option UInt32) : Option Binary64 :=
  index.bind fun index => (cache.entries[index.toNat]?).map CachedRatio.ratio

def find (cache : RatioCache ids) (ea1 ea2 : ids.Id) : RatioCache ids × Option Binary64 :=
  match cache.simplePair ea1 ea2 with
  | (cache,true) => (cache, cache.entryAt (cache.byId.lookup (idKey ea1 ea2)))
  | (cache,false) => (cache, cache.entryAt (cache.byText.lookup (textKey ea1 ea2)))

def append (cache : RatioCache ids) (ea1 ea2 : ids.Id) (ratio : Binary64) : RatioCache ids :=
  { cache with entries := cache.entries ++ [⟨ea1,ea2,ratio⟩] }

/-- `Store`: the index of a new entry is its place, as a 32-bit number. -/
def store (cache : RatioCache ids) (ea1 ea2 : ids.Id) (ratio : Binary64) : RatioCache ids :=
  let index := UInt32.ofNat cache.entries.length
  match cache.simplePair ea1 ea2 with
  | (cache,true) =>
    match cache.byId.lookup (idKey ea1 ea2) with
    | some _ => cache
    | none => { cache with byId := cache.byId.insert (idKey ea1 ea2) index }.append ea1 ea2 ratio
  | (cache,false) =>
    match cache.byText.lookup (textKey ea1 ea2) with
    | some _ => cache
    | none =>
      { cache with byText := cache.byText.insert (textKey ea1 ea2) index }.append ea1 ea2 ratio

end RatioCache

/-- A call of the cache. -/
inductive CacheCall (ids : AddrTable)
  | store (ea1 ea2 : ids.Id) (ratio : Binary64)
  | find (ea1 ea2 : ids.Id)

/-- A call, and what it returned so far; a store returns nothing. -/
def RatioCache.call (s : RatioCache ids × List (Option Binary64)) :
    CacheCall ids → RatioCache ids × List (Option Binary64)
  | .store ea1 ea2 ratio => (s.1.store ea1 ea2 ratio, s.2)
  | .find ea1 ea2 => ((s.1.find ea1 ea2).1, s.2 ++ [(s.1.find ea1 ea2).2])

def RatioCache.answers (calls : List (CacheCall ids)) : List (Option Binary64) :=
  (calls.foldl RatioCache.call (RatioCache.empty,[])).2

/-- The same call of a single dictionary keyed by `ea1-ea2`, which keeps the first value of a key. -/
def dictCall (s : InsertionDict Text Binary64 × List (Option Binary64)) :
    CacheCall ids → InsertionDict Text Binary64 × List (Option Binary64)
  | .store ea1 ea2 ratio => (s.1.putNew (textKey ea1 ea2) ratio, s.2)
  | .find ea1 ea2 => (s.1, s.2 ++ [s.1.find? (textKey ea1 ea2)])

def dictAnswers (calls : List (CacheCall ids)) : List (Option Binary64) :=
  (calls.foldl dictCall (InsertionDict.empty,[])).2

end

section
variable {ids : AddrTable}

theorem AddrTable.address_injective {a b : ids.Id} (h : ids.address a = ids.address b) : a = b := by
  have hget : ∀ ea : ids.Id, ea.val ≠ 0 → (ids.views[ea.val-1]?).isSome = true := by
    intro ea hea
    rw [List.getElem?_eq_getElem (by omega)]
    rfl
  unfold AddrTable.address at h
  by_cases ha : a.val = 0 <;> by_cases hb : b.val = 0
  · exact Fin.ext (ha.trans hb.symm)
  · rw [if_pos ha, if_neg hb] at h
    have hsome := hget b hb
    rw [← h] at hsome
    cases hsome
  · rw [if_neg ha, if_pos hb] at h
    have hsome := hget a ha
    rw [h] at hsome
    cases hsome
  · rw [if_neg ha, if_neg hb] at h
    have hplace := (List.getElem?_inj (by omega) ids.nodup).mp h
    exact Fin.ext (by omega)

/-- A text without the dash tells the rest of a joined text. -/
theorem append_dash_inj {x y x' y' : Text} (hx : x.contains 45 = false) (hy : y.contains 45 = false)
    (h : x' ++ text "-" ++ y' = x ++ text "-" ++ y) : x' = x ∧ y' = y := by
  have hx' : (45 : UInt8) ∉ x := by simpa using hx
  have hy' : (45 : UInt8) ∉ y := by simpa using hy
  change x' ++ [45] ++ y' = x ++ [45] ++ y at h
  rw [List.append_assoc, List.append_assoc] at h
  rcases List.append_eq_append_iff.mp h with ⟨z, rfl, hz⟩ | ⟨z, rfl, hz⟩
  · cases z with
    | nil => exact ⟨(List.append_nil _).symm, by simpa using hz⟩
    | cons c z =>
      -- the dash after `x` would stand in `y`, or in `x` itself
      obtain rfl : c = 45 := by simpa using (congrArg List.head? hz).symm
      exact absurd (by simp) hx'
  · cases z with
    | nil => exact ⟨List.append_nil _, by simpa using hz.symm⟩
    | cons c z =>
      have htail : y = z ++ [45] ++ y' := by simpa using congrArg List.tail hz
      exact absurd (by rw [htail]; simp) hy'

/-- Only a plain pair has the key text of a plain pair. -/
theorem eaPairKey_simple {a b : Text} {ea1 ea2 : Option Text} (ha : simpleText a = true)
    (hb : simpleText b = true) (h : eaPairKey ea1 ea2 = eaPairKey (some a) (some b)) :
    ea1 = some a ∧ ea2 = some b := by
  have hsome : ∀ (ea : Option Text) (t : Text), t ≠ text "None" → keyText ea = t → ea = some t := by
    intro ea t hne ht
    cases ea with
    | none => exact absurd ht.symm hne
    | some t' => exact congrArg some ht
  simp only [simpleText, Bool.and_eq_true, decide_eq_true_iff, Bool.not_eq_true'] at ha hb
  obtain ⟨h1, h2⟩ := append_dash_inj ha.2 hb.2 h
  exact ⟨hsome ea1 a ha.1 h1, hsome ea2 b hb.1 h2⟩

theorem textKey_simple {a b ea1 ea2 : ids.Id} (h1 : isSimple ids ea1 = true)
    (h2 : isSimple ids ea2 = true) (h : textKey a b = textKey ea1 ea2) : a = ea1 ∧ b = ea2 := by
  have hsimple : ∀ ea : ids.Id, isSimple ids ea = true →
      ∃ t, ids.address ea = some t ∧ simpleText t = true := by
    intro ea hea
    unfold isSimple at hea
    cases ht : ids.address ea with
    | none => simp [ht] at hea
    | some t => exact ⟨t, rfl, by simpa [ht] using hea⟩
  obtain ⟨t1, ht1, hplain1⟩ := hsimple ea1 h1
  obtain ⟨t2, ht2, hplain2⟩ := hsimple ea2 h2
  unfold textKey at h
  rw [ht1, ht2] at h
  obtain ⟨ha, hb⟩ := eaPairKey_simple hplain1 hplain2 h
  exact ⟨AddrTable.address_injective (ha.trans ht1.symm), AddrTable.address_injective (hb.trans ht2.symm)⟩

theorem idKey_injective {a b ea1 ea2 : ids.Id} (h : idKey a b = idKey ea1 ea2) :
    a = ea1 ∧ b = ea2 := by
  have hbound := ids.bound
  have hvalue : ∀ x y : ids.Id, (idKey x y).toNat = x.val*2^32+y.val := by
    intro x y
    have hx := x.isLt
    have hy := y.isLt
    have hx' : (UInt64.ofNat x.val).toNat = x.val := UInt64.toNat_ofNat_of_lt' (by
      have hsize : UInt64.size = 2^64 := rfl
      omega)
    have hy' : (UInt64.ofNat y.val).toNat = y.val := UInt64.toNat_ofNat_of_lt' (by
      have hsize : UInt64.size = 2^64 := rfl
      omega)
    have hshift : (UInt64.ofNat x.val <<< (32 : UInt64)).toNat = x.val <<< 32 := by
      rw [UInt64.toNat_shiftLeft, hx', show (32 : UInt64).toNat % 64 = 32 from rfl,
        Nat.mod_eq_of_lt]
      rw [Nat.shiftLeft_eq]
      omega
    rw [idKey, UInt64.toNat_or, hshift, hy', ← Nat.shiftLeft_add_eq_or_of_lt (by omega),
      Nat.shiftLeft_eq]
  have h' := congrArg UInt64.toNat h
  rw [hvalue, hvalue] at h'
  have hb := b.isLt
  have hb' := ea2.isLt
  exact ⟨Fin.ext (by omega), Fin.ext (by omega)⟩

namespace RatioCache

/-- The notes on addresses are right. -/
def NotesSound (cache : RatioCache ids) : Prop :=
  ∀ (ea : ids.Id) (b : Bool), cache.simpleById[ea.val]? = some (some b) → b = isSimple ids ea

theorem simpleAddr_spec (cache : RatioCache ids) (ea : ids.Id) (h : cache.NotesSound) :
    ∃ notes, cache.simpleAddr ea = ({ cache with simpleById := notes }, isSimple ids ea) ∧
      NotesSound { cache with simpleById := notes } := by
  unfold simpleAddr
  by_cases hzero : ea.val = 0
  · rw [if_pos hzero]
    refine ⟨cache.simpleById, ?_, h⟩
    have hnone : isSimple ids ea = false := by
      simp [isSimple, AddrTable.address, hzero]
    rw [hnone]
  · rw [if_neg hzero]
    dsimp only
    generalize hnew : (if cache.simpleById.length ≤ ea.val then
      List.replicate (ea.val+1024-cache.simpleById.length) none else []) = new
    have hnotes : NotesSound { cache with simpleById := cache.simpleById ++ new } := by
      intro ea' b hb
      dsimp only at hb
      rcases Nat.lt_or_ge ea'.val cache.simpleById.length with hlt | hge
      · rw [List.getElem?_append_left hlt] at hb
        exact h ea' b hb
      · rw [List.getElem?_append_right hge, ← hnew] at hb
        split_ifs at hb
        · rw [List.getElem?_replicate] at hb
          split_ifs at hb
          cases Option.some.inj hb
        · simp at hb
    have hset : NotesSound
        { cache with simpleById := (cache.simpleById ++ new).set ea.val (some (isSimple ids ea)) } := by
      intro ea' b hb
      dsimp only at hb
      rw [List.getElem?_set] at hb
      split_ifs at hb with heq hlength
      · rw [← Option.some.inj (Option.some.inj hb), Fin.ext heq]
      · exact hnotes ea' b hb
    cases hfound : (cache.simpleById ++ new)[ea.val]? with
    | none => exact ⟨_, rfl, hset⟩
    | some note =>
      cases note with
      | none => exact ⟨_, rfl, hset⟩
      | some b =>
        refine ⟨_, ?_, hnotes⟩
        rw [hnotes ea b hfound]

theorem simplePair_spec (cache : RatioCache ids) (ea1 ea2 : ids.Id) (h : cache.NotesSound) :
    ∃ notes, cache.simplePair ea1 ea2 =
        ({ cache with simpleById := notes }, isSimple ids ea1 && isSimple ids ea2) ∧
      NotesSound { cache with simpleById := notes } := by
  obtain ⟨notes, hnotes, hsound⟩ := cache.simpleAddr_spec ea1 h
  unfold simplePair
  rw [hnotes]
  cases isSimple ids ea1 with
  | false => exact ⟨notes, rfl, hsound⟩
  | true =>
    obtain ⟨notes', hnotes', hsound'⟩ := simpleAddr_spec _ ea2 hsound
    exact ⟨notes', hnotes', hsound'⟩

/-- Where a lookup finds the index of a pair. -/
def locate (cache : RatioCache ids) (ea1 ea2 : ids.Id) : Option UInt32 :=
  if isSimple ids ea1 && isSimple ids ea2 then cache.byId.lookup (idKey ea1 ea2)
  else cache.byText.lookup (textKey ea1 ea2)

theorem find_spec (cache : RatioCache ids) (ea1 ea2 : ids.Id) (h : cache.NotesSound) :
    ∃ notes, cache.find ea1 ea2 =
        ({ cache with simpleById := notes }, cache.entryAt (cache.locate ea1 ea2)) ∧
      NotesSound { cache with simpleById := notes } := by
  obtain ⟨notes, hnotes, hsound⟩ := cache.simplePair_spec ea1 ea2 h
  refine ⟨notes, ?_, hsound⟩
  unfold find locate
  rw [hnotes]
  cases isSimple ids ea1 && isSimple ids ea2 <;> rfl

/-- A pair that is found is not stored again. -/
theorem store_known (cache : RatioCache ids) (ea1 ea2 : ids.Id) (ratio : Binary64)
    (h : cache.NotesSound) {index : UInt32} (hindex : cache.locate ea1 ea2 = some index) :
    ∃ notes, cache.store ea1 ea2 ratio = { cache with simpleById := notes } ∧
      NotesSound { cache with simpleById := notes } := by
  obtain ⟨notes, hnotes, hsound⟩ := cache.simplePair_spec ea1 ea2 h
  refine ⟨notes, ?_, hsound⟩
  unfold locate at hindex
  unfold store
  rw [hnotes]
  cases hsimple : isSimple ids ea1 && isSimple ids ea2 with
  | true =>
    rw [hsimple, if_pos rfl] at hindex
    dsimp only
    rw [hindex]
  | false =>
    rw [hsimple, if_neg Bool.false_ne_true] at hindex
    dsimp only
    rw [hindex]

/-- A new entry goes to the end, and the pairs of its key text, and no others, find its index. -/
theorem store_new (cache : RatioCache ids) (ea1 ea2 : ids.Id) (ratio : Binary64)
    (h : cache.NotesSound) (hnew : cache.locate ea1 ea2 = none) :
    (cache.store ea1 ea2 ratio).NotesSound ∧
      (cache.store ea1 ea2 ratio).entries = cache.entries ++ [⟨ea1,ea2,ratio⟩] ∧
      ∀ a b, (cache.store ea1 ea2 ratio).locate a b =
        if textKey a b = textKey ea1 ea2 then some (UInt32.ofNat cache.entries.length)
        else cache.locate a b := by
  obtain ⟨notes, hnotes, hsound⟩ := cache.simplePair_spec ea1 ea2 h
  unfold locate at hnew
  unfold store
  rw [hnotes]
  cases hsimple : isSimple ids ea1 && isSimple ids ea2 with
  | true =>
    rw [hsimple, if_pos rfl] at hnew
    dsimp only
    rw [hnew]
    refine ⟨hsound, rfl, ?_⟩
    intro a b
    rw [Bool.and_eq_true] at hsimple
    unfold locate
    by_cases hkey : textKey a b = textKey ea1 ea2
    · obtain ⟨rfl, rfl⟩ := textKey_simple hsimple.1 hsimple.2 hkey
      rw [if_pos rfl, hsimple.1, hsimple.2, Bool.and_self, if_pos rfl]
      exact Finmap.lookup_insert _
    · rw [if_neg hkey]
      split_ifs with hab
      · refine Finmap.lookup_insert_of_ne _ fun hid => hkey ?_
        obtain ⟨rfl, rfl⟩ := idKey_injective hid
        rfl
      · rfl
  | false =>
    rw [hsimple, if_neg Bool.false_ne_true] at hnew
    dsimp only
    rw [hnew]
    refine ⟨hsound, rfl, ?_⟩
    intro a b
    unfold locate
    by_cases hab : (isSimple ids a && isSimple ids b) = true
    · have hkey : textKey a b ≠ textKey ea1 ea2 := by
        intro hkey
        rw [Bool.and_eq_true] at hab
        obtain ⟨rfl, rfl⟩ := textKey_simple hab.1 hab.2 hkey.symm
        simp [hab.1, hab.2] at hsimple
      rw [if_pos hab, if_neg hkey, if_pos hab]
      rfl
    · rw [if_neg hab, if_neg hab]
      split_ifs with hkey
      · rw [hkey]
        exact Finmap.lookup_insert _
      · exact Finmap.lookup_insert_of_ne _ hkey

/-- The two halves together hold what the dictionary holds, in its order. -/
structure Refines (cache : RatioCache ids) (dict : InsertionDict Text Binary64) : Prop where
  notes : cache.NotesSound
  listed : cache.entries.map (fun e => (textKey e.ea1 e.ea2, e.ratio)) = dict.entries
  inside : ∀ ea1 ea2 index, cache.locate ea1 ea2 = some index →
    index.toNat < cache.entries.length
  value : ∀ ea1 ea2, cache.entryAt (cache.locate ea1 ea2) = dict.find? (textKey ea1 ea2)

variable {cache : RatioCache ids} {dict : InsertionDict Text Binary64}

theorem Refines.size (h : cache.Refines dict) : cache.entries.length = dict.entries.length := by
  rw [← h.listed, List.length_map]

theorem Refines.locate_none (h : cache.Refines dict) {ea1 ea2 : ids.Id} :
    cache.locate ea1 ea2 = none ↔ dict.find? (textKey ea1 ea2) = none := by
  rw [← h.value]
  cases hindex : cache.locate ea1 ea2 with
  | none => exact iff_of_true rfl rfl
  | some index =>
    have hlt := h.inside ea1 ea2 index hindex
    rw [entryAt, Option.bind_some, List.getElem?_eq_getElem hlt]
    exact iff_of_false nofun nofun

theorem Refines.empty : (RatioCache.empty : RatioCache ids).Refines InsertionDict.empty := by
  have hnone : ∀ ea1 ea2 : ids.Id, (RatioCache.empty : RatioCache ids).locate ea1 ea2 = none := by
    intro ea1 ea2
    unfold locate
    split_ifs <;> rfl
  refine ⟨?_, rfl, ?_, ?_⟩
  · intro ea b hb
    simp [RatioCache.empty] at hb
  · intro ea1 ea2 index hindex
    rw [hnone] at hindex
    cases hindex
  · intro ea1 ea2
    rw [hnone]
    rfl

theorem Refines.find (h : cache.Refines dict) (ea1 ea2 : ids.Id) :
    (cache.find ea1 ea2).1.Refines dict ∧
      (cache.find ea1 ea2).2 = dict.find? (textKey ea1 ea2) := by
  obtain ⟨notes, hfind, hsound⟩ := cache.find_spec ea1 ea2 h.notes
  rw [hfind]
  exact ⟨⟨hsound, h.listed, h.inside, h.value⟩, h.value ea1 ea2⟩

/-- A store keeps the first value of its key, as long as there is room for a new entry. -/
theorem Refines.store (h : cache.Refines dict) (ea1 ea2 : ids.Id) (ratio : Binary64)
    (hroom : dict.find? (textKey ea1 ea2) = none → cache.entries.length < 2^32) :
    (cache.store ea1 ea2 ratio).Refines (dict.putNew (textKey ea1 ea2) ratio) := by
  cases hindex : cache.locate ea1 ea2 with
  | some index =>
    obtain ⟨notes, hstore, hsound⟩ := cache.store_known ea1 ea2 ratio h.notes hindex
    have hheld : dict.find? (textKey ea1 ea2) ≠ none := by
      intro hnone
      rw [h.locate_none.mpr hnone] at hindex
      cases hindex
    have hput : dict.putNew (textKey ea1 ea2) ratio = dict := by
      rw [InsertionDict.putNew, if_pos (Option.isSome_iff_ne_none.mpr hheld)]
    rw [hput, hstore]
    exact ⟨hsound, h.listed, h.inside, h.value⟩
  | none =>
    obtain ⟨hsound, hentries, hlocate⟩ := cache.store_new ea1 ea2 ratio h.notes hindex
    have hnew := h.locate_none.mp hindex
    have hplace : (UInt32.ofNat cache.entries.length).toNat = cache.entries.length :=
      UInt32.toNat_ofNat_of_lt' (hroom hnew)
    have hput : dict.putNew (textKey ea1 ea2) ratio = dict.put (textKey ea1 ea2) ratio := by
      rw [InsertionDict.putNew, hnew]
      rfl
    refine ⟨hsound, ?_, ?_, ?_⟩
    · rw [hentries, hput, InsertionDict.entries_put_of_new _ _ _ hnew, List.map_append, h.listed]
      rfl
    · intro a b index hindex'
      rw [hlocate] at hindex'
      rw [hentries, List.length_append, List.length_singleton]
      split_ifs at hindex' with hkey
      · rw [← Option.some.inj hindex', hplace]
        exact Nat.lt_succ_self _
      · exact Nat.lt_succ_of_lt (h.inside a b index hindex')
    · intro a b
      rw [hput, InsertionDict.find?_put, hlocate]
      by_cases hkey : textKey a b = textKey ea1 ea2
      · rw [if_pos hkey, if_pos hkey, entryAt, Option.bind_some, hplace, hentries,
          List.getElem?_concat_length]
        rfl
      · rw [if_neg hkey, if_neg hkey, ← h.value]
        cases hold : cache.locate a b with
        | none => rfl
        | some index =>
          have hlt := h.inside a b index hold
          simp only [entryAt, Option.bind_some, hentries, List.getElem?_append_left hlt]

/-- With `2^32` entries the index of a new pair is 0, and a lookup answers the first entry. -/
theorem Refines.find_wrapped (h : cache.Refines dict) (ea1 ea2 : ids.Id) (ratio : Binary64)
    (hfull : dict.entries.length = 2^32) (hnew : dict.find? (textKey ea1 ea2) = none) :
    ((cache.store ea1 ea2 ratio).find ea1 ea2).2 = dict.entries.head?.map Prod.snd := by
  obtain ⟨hsound, hentries, hlocate⟩ :=
    cache.store_new ea1 ea2 ratio h.notes (h.locate_none.mpr hnew)
  obtain ⟨notes, hfind, -⟩ := find_spec _ ea1 ea2 hsound
  have hpos : 0 < cache.entries.length := by
    rw [h.size, hfull]
    exact Nat.two_pow_pos 32
  rw [hfind, hlocate, if_pos rfl, h.size, hfull, entryAt, Option.bind_some, hentries,
    ← h.listed, List.head?_map, Option.map_map, List.head?_eq_getElem?,
    ← List.getElem?_append_left hpos]
  rfl

def storedKey : CacheCall ids → Option Text
  | .store ea1 ea2 _ => some (textKey ea1 ea2)
  | .find _ _ => none

/-- The key texts that a list of calls stores. -/
def storedKeys (calls : List (CacheCall ids)) : List Text := calls.filterMap storedKey

/-- One call on both sides: the states stay related and the answers agree. -/
theorem Refines.call (h : cache.Refines dict) (answers : List (Option Binary64))
    (c : CacheCall ids)
    (hroom : ∀ key ∈ storedKeys [c], dict.find? key = none → cache.entries.length < 2^32) :
    (RatioCache.call (cache,answers) c).1.Refines (dictCall (dict,answers) c).1 ∧
      (RatioCache.call (cache,answers) c).2 = (dictCall (dict,answers) c).2 := by
  cases c with
  | store ea1 ea2 ratio =>
    exact ⟨h.store ea1 ea2 ratio (hroom _ (List.mem_singleton_self _)), rfl⟩
  | find ea1 ea2 =>
    obtain ⟨hrefines, hanswer⟩ := h.find ea1 ea2
    exact ⟨hrefines, congrArg (fun r => answers ++ [r]) hanswer⟩

/-- A call adds to the keys what it stores. -/
theorem mem_keys_dictCall (s : InsertionDict Text Binary64 × List (Option Binary64))
    (c : CacheCall ids) (key : Text) :
    key ∈ (dictCall s c).1.keys ↔ key ∈ s.1.keys ∨ key ∈ storedKeys [c] := by
  cases c with
  | store ea1 ea2 ratio =>
    show key ∈ (s.1.putNew (textKey ea1 ea2) ratio).keys ↔ _ ∨ key ∈ [textKey ea1 ea2]
    rw [List.mem_singleton]
    unfold InsertionDict.putNew
    split_ifs with hold
    · refine ⟨.inl, ?_⟩
      rintro (hkey | rfl)
      · exact hkey
      · exact (InsertionDict.mem_keys_iff _ _).mpr hold
    · rw [InsertionDict.mem_keys_put, or_comm]
  | find ea1 ea2 =>
    refine ⟨.inl, ?_⟩
    rintro (hkey | hkey)
    · exact hkey
    · cases hkey

theorem mem_keys_dictCalls (s : InsertionDict Text Binary64 × List (Option Binary64))
    (calls : List (CacheCall ids)) (key : Text) :
    key ∈ (calls.foldl dictCall s).1.keys ↔ key ∈ s.1.keys ∨ key ∈ storedKeys calls := by
  induction calls generalizing s with
  | nil => simp [storedKeys]
  | cons c calls ih =>
    have hsplit : storedKeys (c::calls) = storedKeys [c] ++ storedKeys calls :=
      @List.filterMap_append _ _ [c] calls _
    rw [List.foldl_cons, ih, mem_keys_dictCall, hsplit, List.mem_append, or_assoc]

/-- The calls go on alike, as long as all keys met are at most `2^32`. -/
theorem Refines.calls (h : cache.Refines dict) (answers : List (Option Binary64))
    (calls : List (CacheCall ids)) (known : Finset Text)
    (hdict : ∀ key ∈ dict.keys, key ∈ known) (hcalls : ∀ key ∈ storedKeys calls, key ∈ known)
    (hknown : known.card ≤ 2^32) :
    (calls.foldl RatioCache.call (cache,answers)).1.Refines
        (calls.foldl dictCall (dict,answers)).1 ∧
      (calls.foldl RatioCache.call (cache,answers)).2 =
        (calls.foldl dictCall (dict,answers)).2 := by
  induction calls generalizing cache dict answers with
  | nil => exact ⟨h, rfl⟩
  | cons c calls ih =>
    have hsplit : storedKeys (c::calls) = storedKeys [c] ++ storedKeys calls :=
      @List.filterMap_append _ _ [c] calls _
    rw [hsplit] at hcalls
    have hroom : ∀ key ∈ storedKeys [c], dict.find? key = none → cache.entries.length < 2^32 := by
      intro key hkey hnew
      have hnot : key ∉ dict.keys := by
        rw [InsertionDict.mem_keys_iff, hnew]
        exact Bool.false_ne_true
      have hcard : (insert key dict.keys.toFinset).card ≤ known.card := by
        apply Finset.card_le_card
        intro k hk
        rcases Finset.mem_insert.mp hk with rfl | hk
        · exact hcalls _ (List.mem_append_left _ hkey)
        · exact hdict k (List.mem_toFinset.mp hk)
      rw [Finset.card_insert_of_notMem fun hmem => hnot (List.mem_toFinset.mp hmem),
        List.toFinset_card_of_nodup (show dict.keys.Nodup from dict.nodup)] at hcard
      have hlength : dict.keys.length = dict.entries.length := List.length_map _
      rw [h.size]
      omega
    obtain ⟨hstep, hanswers⟩ := h.call answers c hroom
    rw [List.foldl_cons, List.foldl_cons]
    have hnext := ih hstep (dictCall (dict,answers) c).2 (fun key hkey => by
      rcases (mem_keys_dictCall (dict,answers) c key).mp hkey with hkey | hkey
      · exact hdict key hkey
      · exact hcalls key (List.mem_append_left _ hkey))
      fun key hkey => hcalls key (List.mem_append_right _ hkey)
    have hpair : ((RatioCache.call (cache,answers) c).1, (dictCall (dict,answers) c).2) =
        RatioCache.call (cache,answers) c := Prod.ext rfl hanswers.symm
    rw [hpair] at hnext
    exact hnext

end RatioCache

end

/-- The two-level cache is one dictionary, as long as its entries can be told by 32-bit indexes. -/
theorem ratioCache_refines_dict (ids : AddrTable) (calls : List (CacheCall ids))
    (h : (RatioCache.storedKeys calls).dedup.length ≤ 2^32) :
    RatioCache.answers calls = dictAnswers calls := by
  refine (RatioCache.Refines.empty.calls [] calls (RatioCache.storedKeys calls).toFinset ?_ ?_ ?_).2
  · intro key hkey
    cases hkey
  · exact fun key hkey => List.mem_toFinset.mpr hkey
  · rwa [List.card_toFinset]

/-- A plain address, the text `None` and a text with a dash. -/
def mixedTable : AddrTable where
  views := [text "4096", text "None", text "1-2"]
  nodup := by decide
  bound := by decide

/-- The pairs `4096-None` and `4096-None` with no second address have one key text. -/
def mixedCalls : List (CacheCall mixedTable) :=
  [.store 1 1 .one, .store 1 2 .zero, .store 1 0 .one, .find 1 0, .find 1 1, .find 3 1]

theorem ratioCache_refines_dict_mixed :
    (RatioCache.storedKeys mixedCalls).dedup.length ≤ 2^32 ∧
      RatioCache.answers mixedCalls = dictAnswers mixedCalls :=
  ⟨by decide, ratioCache_refines_dict mixedTable mixedCalls (by decide)⟩

section
variable {ids : AddrTable}

/-- The stores that bring the entries of a list. -/
def storeCalls (stores : List (CachedRatio ids)) : List (CacheCall ids) :=
  stores.map fun e => .store e.ea1 e.ea2 e.ratio

def storeKeys (stores : List (CachedRatio ids)) : List Text :=
  stores.map fun e => textKey e.ea1 e.ea2

theorem storedKeys_storeCalls (stores : List (CachedRatio ids)) :
    RatioCache.storedKeys (storeCalls stores) = storeKeys stores := by
  induction stores with
  | nil => rfl
  | cons e stores ih => exact congrArg (textKey e.ea1 e.ea2 :: ·) ih

/-- Stores of new keys list them in their order. -/
theorem entries_dictCalls (s : InsertionDict Text Binary64 × List (Option Binary64))
    (stores : List (CachedRatio ids)) (hnodup : (storeKeys stores).Nodup)
    (hnew : ∀ key ∈ storeKeys stores, key ∉ s.1.keys) :
    ((storeCalls stores).foldl dictCall s).1.entries =
        s.1.entries ++ stores.map (fun e => (textKey e.ea1 e.ea2, e.ratio)) ∧
      ((storeCalls stores).foldl dictCall s).2 = s.2 := by
  induction stores generalizing s with
  | nil => exact ⟨(List.append_nil _).symm, rfl⟩
  | cons e stores ih =>
    obtain ⟨hnot, hrest⟩ := List.nodup_cons.mp hnodup
    have hfresh : s.1.find? (textKey e.ea1 e.ea2) = none := by
      have hkey := hnew _ List.mem_cons_self
      rwa [InsertionDict.mem_keys_iff, Bool.not_eq_true, Option.isSome_eq_false_iff,
        Option.isNone_iff_eq_none] at hkey
    have hput : (dictCall s (.store e.ea1 e.ea2 e.ratio)).1.entries =
        s.1.entries ++ [(textKey e.ea1 e.ea2, e.ratio)] := by
      show (s.1.putNew _ _).entries = _
      rw [InsertionDict.putNew, hfresh]
      exact InsertionDict.entries_put_of_new _ _ _ hfresh
    obtain ⟨hentries, hanswers⟩ := ih (dictCall s (.store e.ea1 e.ea2 e.ratio)) hrest (by
      intro key hkey hold
      rcases (RatioCache.mem_keys_dictCall s _ key).mp hold with hold | hold
      · exact hnew key (List.mem_cons_of_mem _ hkey) hold
      · rw [List.mem_singleton.mp hold] at hkey
        exact hnot hkey)
    refine ⟨?_, hanswers⟩
    rw [hput, List.append_assoc] at hentries
    exact hentries

/-- After `2^32` different keys a new pair gets the ratio of the first. -/
theorem answers_wrapped (stores : List (CachedRatio ids)) (last : CachedRatio ids)
    (hlength : stores.length = 2^32) (hnodup : (storeKeys stores).Nodup)
    (hnew : textKey last.ea1 last.ea2 ∉ storeKeys stores) :
    let calls := storeCalls stores ++ [.store last.ea1 last.ea2 last.ratio, .find last.ea1 last.ea2]
    RatioCache.answers calls = [stores.head?.map CachedRatio.ratio] ∧
      dictAnswers calls = [some last.ratio] := by
  obtain ⟨hlists, hnothing⟩ := entries_dictCalls (InsertionDict.empty,[]) stores hnodup
    fun key _ hkey => by cases hkey
  obtain ⟨hrefines, hanswers⟩ := RatioCache.Refines.empty.calls [] (storeCalls stores)
    (storeKeys stores).toFinset (fun key hkey => by cases hkey)
    (fun key hkey => by rwa [storedKeys_storeCalls, ← List.mem_toFinset] at hkey)
    (by rw [List.toFinset_card_of_nodup hnodup, storeKeys, List.length_map, hlength])
  rw [hnothing] at hanswers
  have hfull : ((storeCalls stores).foldl dictCall (InsertionDict.empty,[])).1.entries.length =
      2^32 := by
    rw [hlists, List.length_append, List.length_map, hlength]
    rfl
  have hfresh : ((storeCalls stores).foldl dictCall (InsertionDict.empty,[])).1.find?
      (textKey last.ea1 last.ea2) = none := by
    rw [← Option.isNone_iff_eq_none, ← Option.isSome_eq_false_iff, ← Bool.not_eq_true,
      ← InsertionDict.mem_keys_iff, RatioCache.mem_keys_dictCalls, storedKeys_storeCalls]
    rintro (hkey | hkey)
    · cases hkey
    · exact hnew hkey
  have hwrapped := hrefines.find_wrapped last.ea1 last.ea2 last.ratio hfull hfresh
  have hlast : ∀ s : RatioCache ids × List (Option Binary64),
      ([CacheCall.store last.ea1 last.ea2 last.ratio, .find last.ea1 last.ea2].foldl
        RatioCache.call s).2 =
      s.2 ++ [((s.1.store last.ea1 last.ea2 last.ratio).find last.ea1 last.ea2).2] := fun _ => rfl
  have hdict : ∀ s : InsertionDict Text Binary64 × List (Option Binary64),
      ([CacheCall.store last.ea1 last.ea2 last.ratio, .find last.ea1 last.ea2].foldl
        dictCall s).2 =
      s.2 ++ [(s.1.putNew (textKey last.ea1 last.ea2) last.ratio).find?
        (textKey last.ea1 last.ea2)] := fun _ => rfl
  constructor
  · rw [RatioCache.answers, List.foldl_append, hlast, hanswers, hwrapped, hlists]
    show [((stores.map _).head?).map Prod.snd] = _
    rw [List.head?_map, Option.map_map]
    rfl
  · rw [dictAnswers, List.foldl_append, hdict, hnothing, InsertionDict.find?_putNew, hfresh]
    simp

end

/-- The numbers from 100000 on, in decimal. -/
def wideView (n : Nat) : Text :=
  [49, UInt8.ofNat (48+n/10000%10), UInt8.ofNat (48+n/1000%10), UInt8.ofNat (48+n/100%10),
    UInt8.ofNat (48+n/10%10), UInt8.ofNat (48+n%10)]

theorem wideView_injective {m n : Nat} (hm : m < 100000) (hn : n < 100000)
    (h : wideView m = wideView n) : m = n := by
  have hdigit : ∀ x y : Nat, UInt8.ofNat (48+x%10) = UInt8.ofNat (48+y%10) → x%10 = y%10 := by
    intro x y hxy
    have hval := congrArg UInt8.toNat hxy
    have hx := Nat.mod_lt x (show 10 > 0 by decide)
    have hy := Nat.mod_lt y (show 10 > 0 by decide)
    have hsize : UInt8.size = 256 := rfl
    rw [UInt8.toNat_ofNat_of_lt' (by omega), UInt8.toNat_ofNat_of_lt' (by omega)] at hval
    omega
  simp only [wideView, List.cons.injEq, and_true, true_and] at h
  obtain ⟨h4, h3, h2, h1, h0⟩ := h
  have d4 := hdigit _ _ h4
  have d3 := hdigit _ _ h3
  have d2 := hdigit _ _ h2
  have d1 := hdigit _ _ h1
  have d0 := hdigit _ _ h0
  omega

theorem simpleText_wideView (n : Nat) : simpleText (wideView n) = true := by
  have hdigit : ∀ x : Nat, UInt8.ofNat (48+x%10) ≠ 45 := by
    intro x hx
    have hval := congrArg UInt8.toNat hx
    have hlt := Nat.mod_lt x (show 10 > 0 by decide)
    have hsize : UInt8.size = 256 := rfl
    rw [UInt8.toNat_ofNat_of_lt' (by omega)] at hval
    have h45 : (45 : UInt8).toNat = 45 := rfl
    omega
  have hnone : wideView n ≠ text "None" := by
    intro h
    have hlength : 6 = 4 := congrArg List.length h
    omega
  have hdash : (45 : UInt8) ∉ wideView n := by
    intro hmem
    simp only [wideView, List.mem_cons, List.not_mem_nil, or_false] at hmem
    rcases hmem with h | h | h | h | h | h
    · exact absurd h (by decide)
    all_goals exact hdigit _ h.symm
  simp [simpleText, hnone, hdash]

/-- The addresses 100000, ..., 165536. -/
def wideTable : AddrTable where
  views := (List.range 65537).map wideView
  nodup := List.Nodup.map_on (fun m hm n hn h =>
    wideView_injective (by have := List.mem_range.mp hm; omega)
      (by have := List.mem_range.mp hn; omega) h) List.nodup_range
  bound := by rw [List.length_map, List.length_range]; decide

theorem wideTable_length : wideTable.views.length = 65537 := by
  rw [wideTable, List.length_map, List.length_range]

def wideId (n : Nat) : wideTable.Id :=
  ⟨n%65537+1, by rw [wideTable_length]; omega⟩

theorem address_wideId (n : Nat) : wideTable.address (wideId n) = some (wideView (n%65537)) := by
  have hviews : wideTable.views = (List.range 65537).map wideView := by rw [wideTable]
  unfold AddrTable.address wideId
  dsimp only
  rw [if_neg (Nat.succ_ne_zero _), Nat.add_sub_cancel, hviews, List.getElem?_map,
    List.getElem?_range (Nat.mod_lt n (by decide))]
  rfl

theorem isSimple_wideId (n : Nat) : isSimple wideTable (wideId n) = true := by
  rw [isSimple, address_wideId]
  exact simpleText_wideView _

/-- The pairs of these addresses in order; the ratio of the first is 1, of the others 0. -/
def wideEntry (n : Nat) : CachedRatio wideTable :=
  ⟨wideId (n/65537), wideId n, if n = 0 then .one else .zero⟩

theorem wideEntry_key_injective {m n : Nat} (hm : m < 65537*65537) (hn : n < 65537*65537)
    (h : textKey (wideEntry m).ea1 (wideEntry m).ea2 =
      textKey (wideEntry n).ea1 (wideEntry n).ea2) : m = n := by
  obtain ⟨h1, h2⟩ := textKey_simple (isSimple_wideId _) (isSimple_wideId _) h
  have hhigh : m/65537%65537+1 = n/65537%65537+1 := congrArg Fin.val h1
  have hlow : m%65537+1 = n%65537+1 := congrArg Fin.val h2
  omega

/-- The first `n` pairs are stored, then the next one is stored and looked up. -/
def wideCalls (n : Nat) : List (CacheCall wideTable) :=
  storeCalls ((List.range n).map wideEntry) ++
    [.store (wideEntry n).ea1 (wideEntry n).ea2 (wideEntry n).ratio,
      .find (wideEntry n).ea1 (wideEntry n).ea2]

theorem answers_wideCalls {n : Nat} (hn : n = 2^32) :
    RatioCache.answers (wideCalls n) = [some .one] ∧ dictAnswers (wideCalls n) = [some .zero] := by
  have hkeys : storeKeys ((List.range n).map wideEntry) =
      (List.range n).map fun i => textKey (wideEntry i).ea1 (wideEntry i).ea2 := by
    rw [storeKeys, List.map_map]
    rfl
  have hmissing : textKey (wideEntry n).ea1 (wideEntry n).ea2 ∉
      storeKeys ((List.range n).map wideEntry) := by
    rw [hkeys, List.mem_map]
    rintro ⟨i, hi, hkey⟩
    have hlt := List.mem_range.mp hi
    have heq := wideEntry_key_injective (by omega) (by omega) hkey
    omega
  have hnodup : (storeKeys ((List.range n).map wideEntry)).Nodup := by
    rw [hkeys]
    refine List.Nodup.map_on (fun i hi j hj hkey => ?_) List.nodup_range
    have hilt := List.mem_range.mp hi
    have hjlt := List.mem_range.mp hj
    exact wideEntry_key_injective (by omega) (by omega) hkey
  obtain ⟨hcache, hdict⟩ := answers_wrapped ((List.range n).map wideEntry) (wideEntry n)
    (by rw [List.length_map, List.length_range, hn]) hnodup hmissing
  have hpos : n ≠ 0 := by omega
  have hhead : ((List.range n).map wideEntry).head?.map CachedRatio.ratio = some .one := by
    rw [List.head?_map, List.head?_range, if_neg hpos]
    rfl
  have hlast : (wideEntry n).ratio = .zero := if_neg hpos
  rw [hhead] at hcache
  exact ⟨hcache, hlast ▸ hdict⟩

/-- After `2^32` pairs the next one is stored under the index of the first. -/
theorem ratioCache_index_wraps :
    RatioCache.answers (wideCalls (2^32)) ≠ dictAnswers (wideCalls (2^32)) := by
  obtain ⟨hcache, hdict⟩ := answers_wideCalls rfl
  rw [hcache, hdict]
  decide

end DSigMatcher.Diff
