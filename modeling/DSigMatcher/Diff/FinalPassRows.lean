import DSigMatcher.Diff.FinalPass

namespace DSigMatcher.Diff
open DSigMatcher.Base DSigMatcher.Framework

theorem addChooserItem_ok {chooser l : List Item} {it : Item}
    (h : addChooserItem chooser it = .ok l) : l = chooser ++ [it] := by
  unfold addChooserItem at h
  split at h
  · cases h
  · split at h
    · cases h
    · exact (Except.ok.inj h).symm

/-- Both addresses of an item pass `int()`. -/
def Item.Addressed (it : Item) : Prop := IsPyInt it.ea1 ∧ IsPyInt it.ea2

theorem addChooserItem_addressed (chooser : List Item) (it : Item) (h : it.Addressed) :
    addChooserItem chooser it = .ok (chooser ++ [it]) := by
  simp [addChooserItem, requirePyInt_ok _ _ h.1, requirePyInt_ok _ _ h.2]

/-- The rows of the addresses that have several. -/
def tiedRows (es : List (Option Text × List Item)) : List Item :=
  (es.filter fun e => 1 < e.2.length).flatMap Prod.snd

theorem mem_tiedRows (es : List (Option Text × List Item)) (m : Item) :
    m ∈ tiedRows es ↔ ∃ e ∈ es, 1 < e.2.length ∧ m ∈ e.2 := by
  simp only [tiedRows, List.mem_flatMap, List.mem_filter, decide_eq_true_eq, and_assoc]

/-- What adding the rows `ms` did: `ignored` tells the addresses that got a new row. -/
structure RowsAdded (s s' : MultimatchAdd) (ms : List Item) (ignored : Option Text → Prop) :
    Prop where
  rows : s'.rows = s.rows ++ ms.filter fun m => m.pairKey ∉ s.dones
  dones : ∀ k, k ∈ s'.dones ↔ k ∈ s.dones ∨ k ∈ ms.map Item.pairKey
  ignore : ∀ a, a ∈ s'.ignore ↔ a ∈ s.ignore ∨ ignored a

theorem addMultimatchItems_ok (ea : Option Text) (s s' : MultimatchAdd) (ms : List Item)
    (hnodup : (ms.map Item.pairKey).Nodup) (h : addMultimatchItems ea s ms = .ok s') :
    RowsAdded s s' ms fun a => a = ea ∧ ∃ m ∈ ms, m.pairKey ∉ s.dones := by
  induction ms generalizing s with
  | nil =>
    obtain rfl := Except.ok.inj h
    exact ⟨by simp, by simp, by simp⟩
  | cons m ms ih =>
    rw [List.map_cons, List.nodup_cons] at hnodup
    obtain ⟨hm, hms⟩ := hnodup
    unfold addMultimatchItems at h
    split_ifs at h with hd
    · have hi := ih s hms h
      refine ⟨?_, fun k => ?_, fun a => ?_⟩
      · rw [hi.rows, List.filter_cons_of_neg (by simpa using hd)]
      · rw [hi.dones, List.map_cons, List.mem_cons]
        constructor
        · intro hk
          exact hk.imp_right Or.inr
        · rintro (hk | rfl | hk)
          · exact Or.inl hk
          · exact Or.inl hd
          · exact Or.inr hk
      · rw [hi.ignore, List.exists_mem_cons_iff]
        simp [hd]
    · split at h
      · cases h
      · rename_i rows hrows
        have hi := ih _ hms h
        have hother : ∀ x ∈ ms, x.pairKey ≠ m.pairKey := fun x hx hxm =>
          hm (hxm ▸ List.mem_map_of_mem hx)
        refine ⟨?_, fun k => ?_, fun a => ?_⟩
        · rw [hi.rows, addChooserItem_ok hrows, List.filter_cons_of_pos (by simpa using hd)]
          have hfilter : ms.filter (fun x => x.pairKey ∉ m.pairKey::s.dones) =
              ms.filter fun x => x.pairKey ∉ s.dones :=
            List.filter_congr fun x hx => by simp [hother x hx]
          rw [hfilter]
          simp
        · rw [hi.dones]
          simp only [List.mem_cons, List.map_cons]
          tauto
        · rw [hi.ignore]
          simp only [List.mem_cons, exists_eq_or_imp, hd, not_false_eq_true, true_or, and_true]
          tauto

theorem addMultimatchItems_addressed (ea : Option Text) (s : MultimatchAdd) (ms : List Item)
    (hms : ∀ m ∈ ms, m.Addressed) : ∃ s', addMultimatchItems ea s ms = .ok s' := by
  induction ms generalizing s with
  | nil => exact ⟨s, rfl⟩
  | cons m ms ih =>
    have hrest := fun x hx => hms x (List.mem_cons_of_mem m hx)
    unfold addMultimatchItems
    rw [addChooserItem_addressed _ _ (hms m List.mem_cons_self)]
    split_ifs
    · exact ih s hrest
    · exact ih _ hrest

theorem addMultimatchesToChooser_ok (s s' : MultimatchAdd) (es : List (Option Text × List Item))
    (hnodup : ((es.flatMap Prod.snd).map Item.pairKey).Nodup)
    (h : addMultimatchesToChooser s es = .ok s') :
    RowsAdded s s' (tiedRows es) fun a =>
      ∃ ms, (a,ms) ∈ es ∧ 1 < ms.length ∧ ∃ m ∈ ms, m.pairKey ∉ s.dones := by
  induction es generalizing s with
  | nil =>
    obtain rfl := Except.ok.inj h
    exact ⟨by simp [tiedRows], by simp [tiedRows], by simp⟩
  | cons e es ih =>
    obtain ⟨ea, ms⟩ := e
    rw [List.flatMap_cons, List.map_append, List.nodup_append] at hnodup
    obtain ⟨hms, hes, hdisjoint⟩ := hnodup
    unfold addMultimatchesToChooser at h
    split_ifs at h with hlen
    · split at h
      · cases h
      · rename_i s₁ hs₁
        have ha := addMultimatchItems_ok ea s s₁ ms hms hs₁
        have hi := ih s₁ hes h
        have htied : tiedRows ((ea,ms)::es) = ms ++ tiedRows es := by simp [tiedRows, hlen]
        -- the rows of the other addresses have other pair keys
        have hfresh : ∀ x ∈ es.flatMap Prod.snd, x.pairKey ∉ s₁.dones ↔ x.pairKey ∉ s.dones := by
          intro x hx
          have hx' : x.pairKey ∉ ms.map Item.pairKey := fun hk =>
            hdisjoint _ hk _ (List.mem_map_of_mem hx) rfl
          rw [ha.dones, or_iff_left hx']
        refine ⟨?_, fun k => ?_, fun a => ?_⟩
        · rw [hi.rows, ha.rows, htied, List.filter_append, List.append_assoc]
          congr 2
          refine List.filter_congr fun x hx => ?_
          obtain ⟨e, he, -, hxe⟩ := (mem_tiedRows es x).mp hx
          exact decide_eq_decide.mpr (hfresh x (List.mem_flatMap.mpr ⟨e, he, hxe⟩))
        · rw [hi.dones, ha.dones, htied, List.map_append, List.mem_append, or_assoc]
        · rw [hi.ignore, ha.ignore, or_assoc]
          refine or_congr_right ?_
          constructor
          · rintro (⟨rfl, hm⟩ | ⟨ms', he, hlen', m, hm, hmd⟩)
            · exact ⟨ms, List.mem_cons_self, hlen, hm⟩
            · exact ⟨ms', List.mem_cons_of_mem _ he, hlen', m, hm,
                (hfresh m (List.mem_flatMap.mpr ⟨_, he, hm⟩)).mp hmd⟩
          · rintro ⟨ms', he, hlen', m, hm, hmd⟩
            rcases List.mem_cons.mp he with he | he
            · obtain ⟨rfl, rfl⟩ := Prod.ext_iff.mp he
              exact Or.inl ⟨rfl, m, hm, hmd⟩
            · exact Or.inr ⟨ms', he, hlen', m, hm,
                (hfresh m (List.mem_flatMap.mpr ⟨_, he, hm⟩)).mpr hmd⟩
    · have hi := ih s hes h
      have htied : tiedRows ((ea,ms)::es) = tiedRows es := by simp [tiedRows, hlen]
      refine ⟨?_, fun k => ?_, fun a => ?_⟩
      · rw [hi.rows, htied]
      · rw [hi.dones, htied]
      · rw [hi.ignore]
        refine or_congr_right ?_
        constructor
        · rintro ⟨ms', he, hrest⟩
          exact ⟨ms', List.mem_cons_of_mem _ he, hrest⟩
        · rintro ⟨ms', he, hlen', hrest⟩
          rcases List.mem_cons.mp he with he | he
          · obtain ⟨rfl, rfl⟩ := Prod.ext_iff.mp he
            exact absurd hlen' hlen
          · exact ⟨ms', he, hlen', hrest⟩

theorem addMultimatchesToChooser_addressed (s : MultimatchAdd)
    (es : List (Option Text × List Item)) (hes : ∀ e ∈ es, ∀ m ∈ e.2, m.Addressed) :
    ∃ s', addMultimatchesToChooser s es = .ok s' := by
  induction es generalizing s with
  | nil => exact ⟨s, rfl⟩
  | cons e es ih =>
    have hrest := fun x hx => hes x (List.mem_cons_of_mem e hx)
    obtain ⟨s₁, hs₁⟩ := addMultimatchItems_addressed e.1 s e.2 (hes e List.mem_cons_self)
    unfold addMultimatchesToChooser
    rw [hs₁]
    dsimp only
    split_ifs
    · exact ih s₁ hrest
    · exact ih s hrest

/-- A ratio below the maximum recorded for the address. -/
def belowMax (max : RatioDict) (ea : Option Text) (ratio : Binary64) : Bool :=
  match max.find? ea with
  | some r => ratio < r
  | none => false

/-- The items `add_final_chooser_items` places. -/
def isPlaced (scan : MultimatchScan) (ignoreMain ignoreDiff : List (Option Text)) (m : Item) :
    Bool :=
  m.ea1 ∉ ignoreMain && m.ea2 ∉ ignoreDiff && !belowMax scan.maxMain m.ea1 m.ratio &&
    !belowMax scan.maxDiff m.ea2 m.ratio

variable {scan : MultimatchScan} {ignoreMain ignoreDiff : List (Option Text)}

theorem addFinalItems_ok (target l ms : List Item)
    (h : addFinalItems scan ignoreMain ignoreDiff target ms = .ok l) :
    l = target ++ ms.filter (isPlaced scan ignoreMain ignoreDiff) := by
  induction ms generalizing target with
  | nil =>
    obtain rfl := Except.ok.inj h
    simp
  | cons m ms ih =>
    have hskip (hp : isPlaced scan ignoreMain ignoreDiff m = false)
        (h : addFinalItems scan ignoreMain ignoreDiff target ms = .ok l) :
        l = target ++ (m::ms).filter (isPlaced scan ignoreMain ignoreDiff) := by
      rw [List.filter_cons_of_neg (by simp [hp])]
      exact ih target h
    unfold addFinalItems at h
    split_ifs at h with hi
    · exact hskip (by rcases hi with hi | hi <;> simp [isPlaced, hi]) h
    · rw [not_or] at hi
      split at h
      · cases h
      · rename_i mainMax hmain
        split_ifs at h with hlt
        · exact hskip (by simp [isPlaced, belowMax, hmain, hlt]) h
        · split at h
          · cases h
          · rename_i diffMax hdiff
            split_ifs at h with hlt'
            · exact hskip (by simp [isPlaced, belowMax, hdiff, hlt']) h
            · split at h
              · cases h
              · rename_i target' htarget
                have hp : isPlaced scan ignoreMain ignoreDiff m = true := by
                  simp [isPlaced, belowMax, hmain, hdiff, hlt, hlt', hi]
                rw [ih target' h, addChooserItem_ok htarget, List.filter_cons_of_pos hp]
                simp

/-- No lookup misses where the maxima are recorded. -/
theorem addFinalItems_addressed (target ms : List Item) (hms : ∀ m ∈ ms, m.Addressed)
    (hmain : ∀ m ∈ ms, ∃ r, scan.maxMain.find? m.ea1 = some r)
    (hdiff : ∀ m ∈ ms, belowMax scan.maxMain m.ea1 m.ratio = false →
      ∃ r, scan.maxDiff.find? m.ea2 = some r) :
    ∃ l, addFinalItems scan ignoreMain ignoreDiff target ms = .ok l := by
  induction ms generalizing target with
  | nil => exact ⟨target, rfl⟩
  | cons m ms ih =>
    have hrest (target : List Item) := ih target (fun x hx => hms x (List.mem_cons_of_mem m hx))
      (fun x hx => hmain x (List.mem_cons_of_mem m hx))
      (fun x hx => hdiff x (List.mem_cons_of_mem m hx))
    obtain ⟨mainMax, hm⟩ := hmain m List.mem_cons_self
    unfold addFinalItems
    rw [hm]
    dsimp only
    split_ifs with hi hlt
    · exact hrest target
    · exact hrest target
    · obtain ⟨diffMax, hd⟩ := hdiff m List.mem_cons_self (by simp [belowMax, hm, hlt])
      rw [hd, addChooserItem_addressed _ _ (hms m List.mem_cons_self)]
      dsimp only
      split_ifs
      · exact hrest target
      · exact hrest _

@[simp] theorem FinalChoosers.items_setItems (f : FinalChoosers) (c c' : Chooser)
    (l : List Item) : (f.setItems c l).items c' = if c' = c then l else f.items c' := by
  cases c <;> cases c' <;> rfl

@[simp] theorem FinalChoosers.multimatch_setItems (f : FinalChoosers) (c : Chooser)
    (l : List Item) : (f.setItems c l).multimatch = f.multimatch := by
  cases c <;> rfl

theorem addFinalChooserItems_ok (st : MatchState) (f f' : FinalChoosers) (cs : List Chooser)
    (hcs : cs.Nodup) (h : addFinalChooserItems st scan ignoreMain ignoreDiff f cs = .ok f') :
    f'.multimatch = f.multimatch ∧ ∀ c, f'.items c = f.items c ++ if c ∈ cs then
      (st.sortedResults c).filter (isPlaced scan ignoreMain ignoreDiff) else [] := by
  induction cs generalizing f with
  | nil =>
    obtain rfl := Except.ok.inj h
    exact ⟨rfl, by simp⟩
  | cons c cs ih =>
    obtain ⟨hc, hcs⟩ := List.nodup_cons.mp hcs
    unfold addFinalChooserItems at h
    split at h
    · cases h
    · rename_i l hl
      obtain ⟨hmulti, hitems⟩ := ih _ hcs h
      refine ⟨by simpa using hmulti, fun c' => ?_⟩
      rw [hitems, FinalChoosers.items_setItems]
      by_cases hcc : c' = c
      · subst hcc
        simp [hc, addFinalItems_ok _ _ _ hl]
      · simp [hcc]

theorem addFinalChooserItems_addressed (st : MatchState) (f : FinalChoosers) (cs : List Chooser)
    (h : ∀ c, ∀ target, ∃ l, addFinalItems scan ignoreMain ignoreDiff target
      (st.sortedResults c) = .ok l) :
    ∃ f', addFinalChooserItems st scan ignoreMain ignoreDiff f cs = .ok f' := by
  induction cs generalizing f with
  | nil => exact ⟨f, rfl⟩
  | cons c cs ih =>
    obtain ⟨l, hl⟩ := h c (f.items c)
    unfold addFinalChooserItems
    rw [hl]
    exact ih _

end DSigMatcher.Diff
