import DSigMatcher.Framework.Binary64
import DSigMatcher.Framework.InsertionDict

namespace DSigMatcher.Framework

/-- Rows grouped by key, each group in arrival order. -/
abbrev GroupDict (κ α : Type*) := InsertionDict κ (List α)

def GroupDict.append {κ α : Type*} [DecidableEq κ] (groups : GroupDict κ α) (k : κ) (a : α) :
    GroupDict κ α :=
  groups.put k ((groups.find? k).getD [] ++ [a])

/-- The rows of one key, none where there is no entry. -/
def GroupDict.group {κ α : Type*} [DecidableEq κ] (groups : GroupDict κ α) (k : κ) : List α :=
  (groups.find? k).getD []

theorem GroupDict.group_of_mem {κ α : Type*} [DecidableEq κ] (groups : GroupDict κ α) (k : κ)
    (g : List α) (h : (k,g) ∈ groups.entries) : groups.group k = g := by
  rw [GroupDict.group, (groups.mem_entries_iff k g).mp h, Option.getD_some]

theorem GroupDict.mem_entries_group {κ α : Type*} [DecidableEq κ] (groups : GroupDict κ α) (k : κ)
    (x : α) (hx : x ∈ groups.group k) : (k, groups.group k) ∈ groups.entries := by
  rw [groups.mem_entries_iff]
  unfold GroupDict.group at hx ⊢
  cases hf : groups.find? k with
  | none => simp [hf] at hx
  | some g => rfl

/-- What holds of every row of every group. -/
def GroupDict.Over {κ α : Type*} (P : α → Prop) (groups : GroupDict κ α) : Prop :=
  ∀ e ∈ groups.entries, ∀ x ∈ e.2, P x

theorem GroupDict.over_empty {κ α : Type*} (P : α → Prop) :
    GroupDict.Over P (InsertionDict.empty : GroupDict κ α) := fun _ he => absurd he List.not_mem_nil

theorem GroupDict.Over.append {κ α : Type*} [DecidableEq κ] {P : α → Prop} {groups : GroupDict κ α}
    (h : groups.Over P) (k : κ) {a : α} (ha : P a) : (groups.append k a).Over P := by
  rintro ⟨j, g⟩ he x hx
  rw [InsertionDict.mem_entries_iff, GroupDict.append, InsertionDict.find?_put] at he
  split_ifs at he
  · obtain rfl := Option.some.inj he
    rcases List.mem_append.mp hx with hx | hx
    · cases hfind : groups.find? k with
      | none => simp [hfind] at hx
      | some g =>
        rw [hfind] at hx
        exact h _ ((groups.mem_entries_iff k g).mpr hfind) x hx
    · exact List.mem_singleton.mp hx ▸ ha
  · exact h _ ((groups.mem_entries_iff j g).mpr he) x hx

section
variable {κ α : Type*} [DecidableEq κ] (key : α → κ) (value : α → Binary64)

/-- One row of a grouped maximum: below the recorded maximum of its key it is dropped, else it
joins the group. The flag tells which. -/
def keepTop (max : InsertionDict κ Binary64) (groups : GroupDict κ α) (x : α) :
    InsertionDict κ Binary64 × GroupDict κ α × Bool :=
  let max := max.putNew (key x) (value x)
  if value x < (max.find? (key x)).getD (value x) then (max, groups, false)
  else (max.put (key x) (value x), groups.append (key x) x, true)

theorem keepTop_over {P : α → Prop} {max : InsertionDict κ Binary64} {groups : GroupDict κ α} {x : α}
    (h : groups.Over P) (hx : P x) : (keepTop key value max groups x).2.1.Over P := by
  unfold keepTop
  dsimp only
  split_ifs
  · exact h
  · exact h.append (key x) hx

/-- A row whose value is the recorded maximum of its key. -/
def atMax (max : InsertionDict κ Binary64) (x : α) : Bool :=
  match max.find? (key x) with
  | some r => (value x).key = r.key
  | none => false

/-- After the rows `q`: every key's maximum, and its rows at that maximum. -/
structure TopGroups (q : List α) (max : InsertionDict κ Binary64) (groups : GroupDict κ α) :
    Prop where
  bound : ∀ x ∈ q, ∃ r, max.find? (key x) = some r ∧ r.isNaN = false ∧ (value x).key ≤ r.key
  attained : ∀ k r, max.find? k = some r → ∃ x ∈ q, key x = k ∧ (value x).key = r.key
  rows : ∀ k, groups.group k = q.filter fun x => key x = k && atMax key value max x

theorem topGroups_nil : TopGroups key value [] InsertionDict.empty InsertionDict.empty where
  bound := by simp
  attained := by simp
  rows := by simp [GroupDict.group]

variable {key value} {q : List α} {max : InsertionDict κ Binary64} {groups : GroupDict κ α}

/-- What one row of a descending sequence does. -/
theorem keepTop_cases (h : TopGroups key value q max groups) (x : α)
    (hx : (value x).isNaN = false) (hq : ∀ y ∈ q, (value x).key ≤ (value y).key) :
    (∃ r, max.find? (key x) = some r ∧ (value x).key < r.key ∧
      keepTop key value max groups x = (max, groups, false)) ∨
    ((∀ r, max.find? (key x) = some r → r.key = (value x).key) ∧
      (keepTop key value max groups x).2.1 = groups.append (key x) x ∧
      (keepTop key value max groups x).2.2 = true ∧
      ∀ k, (keepTop key value max groups x).1.find? k =
        if k = key x then some (value x) else max.find? k) := by
  unfold keepTop
  cases hm : max.find? (key x) with
  | none =>
    right
    have hnew : ((max.putNew (key x) (value x)).find? (key x)).getD (value x) = value x := by
      simp [InsertionDict.find?_putNew, hm]
    have hirr : ¬ value x < value x := fun hlt => Int.lt_irrefl _ hlt.2.2
    dsimp only
    rw [hnew, if_neg hirr]
    refine ⟨by simp, rfl, rfl, fun k => ?_⟩
    rw [InsertionDict.find?_put, InsertionDict.find?_putNew]
    split_ifs <;> rfl
  | some r =>
    have hnew : max.putNew (key x) (value x) = max := by simp [InsertionDict.putNew, hm]
    obtain ⟨y, hy, hyk, hyr⟩ := h.attained (key x) r hm
    obtain ⟨r', hr', hrn, -⟩ := h.bound y hy
    rw [hyk, hm] at hr'
    obtain rfl := Option.some.inj hr'
    have hle : (value x).key ≤ r.key := hyr ▸ hq y hy
    dsimp only
    rw [hnew, hm, Option.getD_some]
    by_cases hlt : value x < r
    · left
      rw [if_pos hlt]
      exact ⟨r, rfl, (Binary64.lt_iff _ _ hx hrn).mp hlt, rfl⟩
    · right
      rw [if_neg hlt]
      rw [Binary64.lt_iff _ _ hx hrn, Int.not_lt] at hlt
      refine ⟨?_, rfl, rfl, fun k => InsertionDict.find?_put _ _ k _⟩
      intro s hs
      obtain rfl := Option.some.inj hs
      omega

/-- The flag is whether the row is at the new maximum, and no earlier row changes sides. -/
theorem keepTop_atMax (h : TopGroups key value q max groups) (x : α)
    (hx : (value x).isNaN = false) (hq : ∀ y ∈ q, (value x).key ≤ (value y).key) :
    (keepTop key value max groups x).2.2 = atMax key value (keepTop key value max groups x).1 x ∧
    ∀ y ∈ q, atMax key value (keepTop key value max groups x).1 y = atMax key value max y := by
  rcases keepTop_cases h x hx hq with ⟨r, hr, hlt, he⟩ | ⟨hsame, -, hflag, hfind⟩
  · rw [he]
    refine ⟨?_, fun y _ => rfl⟩
    have hne : (value x).key ≠ r.key := by omega
    simp [atMax, hr, hne]
  · refine ⟨?_, fun y hy => ?_⟩
    · rw [hflag]
      simp [atMax, hfind]
    · obtain ⟨r, hr, -, -⟩ := h.bound y hy
      unfold atMax
      rw [hfind, hr]
      split_ifs with hk
      · rw [hk] at hr
        dsimp only
        rw [hsame r hr]
      · rfl

/-- One row of a descending sequence keeps the groups exact. -/
theorem keepTop_step (h : TopGroups key value q max groups) (x : α)
    (hx : (value x).isNaN = false) (hq : ∀ y ∈ q, (value x).key ≤ (value y).key) :
    TopGroups key value (q ++ [x]) (keepTop key value max groups x).1
      (keepTop key value max groups x).2.1 := by
  have hat := keepTop_atMax h x hx hq
  have hfilter (k : κ) : (q ++ [x]).filter (fun y => key y = k &&
      atMax key value (keepTop key value max groups x).1 y) =
      groups.group k ++ if key x = k ∧ (keepTop key value max groups x).2.2 = true
        then [x] else [] := by
    rw [List.filter_append, h.rows]
    congr 1
    · refine List.filter_congr fun y hy => ?_
      rw [hat.2 y hy]
    · rw [hat.1]
      simp [List.filter_cons]
  rcases keepTop_cases h x hx hq with ⟨r, hr, hlt, he⟩ | ⟨hsame, hgroups, hflag, hfind⟩
  · rw [he] at hfilter ⊢
    refine ⟨?_, ?_, fun k => ?_⟩
    · intro y hy
      rcases List.mem_append.mp hy with hy | hy
      · exact h.bound y hy
      · obtain rfl := List.mem_singleton.mp hy
        obtain ⟨z, hz, hzk, -⟩ := h.attained (key y) r hr
        obtain ⟨r', hr', hrn, -⟩ := h.bound z hz
        rw [hzk, hr] at hr'
        obtain rfl := Option.some.inj hr'
        exact ⟨r, hr, hrn, Int.le_of_lt hlt⟩
    · intro k s hs
      obtain ⟨y, hy, hyk⟩ := h.attained k s hs
      exact ⟨y, List.mem_append_left _ hy, hyk⟩
    · rw [hfilter k, if_neg (by simp), List.append_nil]
  · refine ⟨?_, ?_, fun k => ?_⟩
    · intro y hy
      rw [hfind]
      rcases List.mem_append.mp hy with hy | hy
      · obtain ⟨r, hr, hrn, hle⟩ := h.bound y hy
        split_ifs with hk
        · rw [hk] at hr
          exact ⟨value x, rfl, hx, hsame r hr ▸ hle⟩
        · exact ⟨r, hr, hrn, hle⟩
      · obtain rfl := List.mem_singleton.mp hy
        rw [if_pos rfl]
        exact ⟨value y, rfl, hx, Int.le_refl _⟩
    · intro k s hs
      rw [hfind] at hs
      split_ifs at hs with hk
      · obtain rfl := Option.some.inj hs
        exact ⟨x, by simp, hk.symm, rfl⟩
      · obtain ⟨y, hy, hyk⟩ := h.attained k s hs
        exact ⟨y, List.mem_append_left _ hy, hyk⟩
    · rw [hfilter k, hgroups, hflag]
      unfold GroupDict.append GroupDict.group
      by_cases hk : key x = k
      · subst hk
        simp
      · rw [InsertionDict.find?_put_ne _ _ _ _ (Ne.symm hk), if_neg fun hc => hk hc.1,
          List.append_nil]

namespace TopGroups

theorem mem_group (h : TopGroups key value q max groups) (k : κ) (x : α) :
    x ∈ groups.group k ↔ x ∈ q ∧ key x = k ∧ atMax key value max x = true := by
  rw [h.rows, List.mem_filter, Bool.and_eq_true, decide_eq_true_eq]

/-- The rows of the keys with several rows. -/
theorem mem_tied_iff (h : TopGroups key value q max groups) (x : α) :
    (∃ e ∈ groups.entries, 1 < e.2.length ∧ x ∈ e.2) ↔
      x ∈ groups.group (key x) ∧ 1 < (groups.group (key x)).length := by
  constructor
  · rintro ⟨⟨k, g⟩, he, hlen, hx⟩
    have hg := groups.group_of_mem k g he
    obtain ⟨-, rfl, -⟩ := (h.mem_group k x).mp (hg ▸ hx)
    rw [hg]
    exact ⟨hx, hlen⟩
  · intro ⟨hx, htied⟩
    exact ⟨_, groups.mem_entries_group (key x) x hx, htied, hx⟩

theorem entries_subset (h : TopGroups key value q max groups) :
    groups.entries.flatMap Prod.snd ⊆ q := by
  intro x hx
  obtain ⟨⟨k, g⟩, he, hxg⟩ := List.mem_flatMap.mp hx
  rw [← groups.group_of_mem k g he] at hxg
  exact ((h.mem_group k x).mp hxg).1

/-- No row stands in two groups. -/
theorem entries_nodup (h : TopGroups key value q max groups) (hq : q.Nodup) :
    (groups.entries.flatMap Prod.snd).Nodup := by
  have hentry : ∀ e ∈ groups.entries, e.2 = groups.group e.1 := fun e he =>
    (groups.group_of_mem e.1 e.2 he).symm
  rw [List.nodup_flatMap]
  refine ⟨fun e he => ?_, ?_⟩
  · rw [hentry e he, h.rows]
    exact hq.filter _
  · refine List.Pairwise.imp_of_mem ?_ (List.pairwise_map.mp groups.nodup)
    intro e e' he he' hne x hx hx'
    rw [hentry e he, h.mem_group] at hx
    rw [hentry e' he', h.mem_group] at hx'
    exact hne (hx.2.1.symm.trans hx'.2.1)

end TopGroups

end

end DSigMatcher.Framework
