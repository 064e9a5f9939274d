import DSigMatcher.Cfg.TarjanComponents

namespace DSigMatcher.Cfg
open DSigMatcher.Base DSigMatcher.Framework
open Relation (ReflTransGen TransGen)

namespace TarjanState

/-- What holds before every round. -/
structure Sound (n : Nat) (successors : Nat → List Nat) (s : TarjanState) : Prop where
  numbered : Numbered n s
  search : Search n successors (fun _ => False) s
  components : Components n successors s

/-- The rounds that are left: one for each edge and each node not finished. -/
def work (n : Nat) (successors : Nat → List Nat) (s : TarjanState) : Nat :=
  ∑ v ∈ (Finset.range n).filter (fun v => ¬ s.Visited v), ((successors v).length+1) +
    (s.frames.map fun f => (successors f.node).length-f.cursor+1).sum

section
variable {n : Nat} {successors : Nat → List Nat} {s t : TarjanState} {u v child c : Nat}
  {fs : List CfgTarjanFrame}

theorem Sound.visit (hnumbered : Numbered n s) (hcomponents : Components n successors s)
    (hsearch : Search n successors (fun x => x = child ∧ x < n) s) (hn : n ≤ cfgUnvisited)
    (hchild : child < n) (hnew : ¬ s.Visited child)
    (hreach : ∀ u ∈ s.path, ReflTransGen (Edge n successors) u child) :
    Sound n successors (s.visit child) := by
  have hnext := (hnumbered.nextIndex_lt hchild hnew).trans_le hn
  refine ⟨hnumbered.visit hn hchild hnew, hsearch.visit hnumbered hn hchild hnew hreach, ?_⟩
  refine hcomponents.congr (fun v => ?_) rfl rfl rfl rfl
  rw [Closed, visited_visit hnext]
  constructor
  · rintro ⟨rfl | hv, hoff⟩
    · exact absurd List.mem_cons_self hoff
    · exact ⟨hv, fun hmem => hoff (List.mem_cons_of_mem _ hmem)⟩
  · rintro ⟨hv, hoff⟩
    refine ⟨.inr hv, fun hmem => ?_⟩
    rcases List.mem_cons.mp hmem with rfl | hmem
    · exact hnew hv
    · exact hoff hmem

theorem work_visit (hchild : child < n) (hnew : ¬ s.Visited child)
    (hnext : s.nextIndex < cfgUnvisited) :
    work n successors (s.visit child) = work n successors s := by
  have hset : (Finset.range n).filter (fun v => ¬ (s.visit child).Visited v) =
      ((Finset.range n).filter fun v => ¬ s.Visited v).erase child := by
    ext v
    rw [Finset.mem_erase, Finset.mem_filter, Finset.mem_filter, visited_visit hnext, not_or]
    tauto
  have hmem : child ∈ (Finset.range n).filter fun v => ¬ s.Visited v :=
    Finset.mem_filter.mpr ⟨Finset.mem_range.mpr hchild, hnew⟩
  have hsum := Finset.add_sum_erase _ (fun v => (successors v).length+1) hmem
  rw [work, work, hset, ← hsum]
  show _ + ((successors child).length-0+1+(s.frames.map _).sum) = _
  omega

theorem work_frames (hindex : t.index = s.index) (hframes : t.frames = fs) :
    work n successors t =
      ∑ v ∈ (Finset.range n).filter (fun v => ¬ s.Visited v), ((successors v).length+1) +
        (fs.map fun f => (successors f.node).length-f.cursor+1).sum := by
  have hset : (Finset.range n).filter (fun v => ¬ t.Visited v) =
      (Finset.range n).filter fun v => ¬ s.Visited v :=
    Finset.filter_congr fun v _ => by rw [Visited, hindex, Visited]
  rw [work, hset, hframes]

/-- A round that looks at a successor. -/
theorem Sound.advance (h : Sound n successors s) (hn : n ≤ cfgUnvisited)
    (hf : s.frames = ⟨u,c⟩::fs) (hchild : (successors u)[c]? = some child) :
    Sound n successors (s.advance n ⟨u,c⟩ fs child) ∧
      (∀ v, s.Visited v → (s.advance n ⟨u,c⟩ fs child).Visited v) ∧
      work n successors (s.advance n ⟨u,c⟩ fs child) < work n successors s := by
  have hcursor : c < (successors u).length := (List.getElem?_eq_some_iff.mp hchild).1
  have hwork {t : TarjanState} (hindex : t.index = s.index) (hframes : t.frames = ⟨u,c+1⟩::fs) :
      work n successors t < work n successors s := by
    rw [work_frames hindex hframes, work_frames (t := s) rfl hf, List.map_cons, List.map_cons,
      List.sum_cons, List.sum_cons]
    dsimp only
    omega
  have hnumbered {l : Nat → Nat} : Numbered n { s with lowLink := l, frames := ⟨u,c+1⟩::fs } :=
    h.numbered.congr rfl rfl rfl rfl
  have hcomponents {l : Nat → Nat} :
      Components n successors { s with lowLink := l, frames := ⟨u,c+1⟩::fs } :=
    h.components.congr (fun _ => .rfl) rfl rfl rfl rfl
  have hbump {l : Nat → Nat} (hother : ∀ v, v ≠ u → l v = s.lowLink v)
      (hlow : l u = s.lowLink u ∨
        child ∈ s.sccStack ∧ child < n ∧ l u = s.index child ∧ s.index child < s.lowLink u)
      (hseen : child ∈ s.sccStack → child < n → l u ≤ s.index child) :
      Search n successors (fun x => x = child ∧ x < n)
        { s with lowLink := l, frames := ⟨u,c+1⟩::fs } :=
    h.search.bump hf hchild rfl rfl rfl hother hlow hseen
  rw [TarjanState.advance]
  split_ifs with hlarge hnew hlower
  · refine ⟨⟨hnumbered, ?_, hcomponents⟩, fun v hv => hv, hwork rfl rfl⟩
    have hsearch := hbump (fun _ _ => rfl) (.inl rfl) fun _ hlt => absurd hlt (not_lt.mpr hlarge)
    exact hsearch.settle fun x hx => absurd (hx.1 ▸ hx.2) (not_lt.mpr hlarge)
  · have hunvisited : ¬ s.Visited child := not_not.mpr hnew
    have hlt := not_le.mp hlarge
    have hnext := (h.numbered.nextIndex_lt hlt hunvisited).trans_le hn
    have hsearch := hbump (fun _ _ => rfl) (.inl rfl) fun hmem _ =>
      absurd (h.numbered.visited child hmem) hunvisited
    refine ⟨?_, fun v hv => (visited_visit hnext).mpr (.inr hv), ?_⟩
    · refine Sound.visit hnumbered hcomponents hsearch hn hlt hunvisited fun v hv => ?_
      have hvpath : v ∈ s.path := (mem_path_iff hf).mpr (List.mem_cons.mp hv)
      refine (h.search.reach v hvpath u (h.search.onStack u (top_mem hf)) (h.search.top hf hvpath)).tail ?_
      exact ⟨List.mem_of_getElem? hchild, hlt⟩
    · refine (work_visit (s := { s with frames := ⟨u,c+1⟩::fs }) hlt hunvisited hnext).trans_lt ?_
      exact hwork rfl rfl
  · have hmem := (h.numbered.onStack child).mp hlower.1
    refine ⟨⟨hnumbered, ?_, hcomponents⟩, fun v hv => hv, hwork rfl rfl⟩
    have hsearch := hbump (fun v hv => Function.update_of_ne hv (s.index child) s.lowLink)
      (.inr ⟨hmem, not_le.mp hlarge, Function.update_self _ _ _, hlower.2⟩)
      fun _ _ => (Function.update_self _ _ _).le
    refine hsearch.settle fun x hx => .inl ?_
    rw [hx.1]
    exact hnew
  · refine ⟨⟨hnumbered, ?_, hcomponents⟩, fun v hv => hv, hwork rfl rfl⟩
    have hsearch := hbump (fun _ _ => rfl) (.inl rfl) fun hmem _ =>
      not_lt.mp fun hlt => hlower ⟨(h.numbered.onStack child).mpr hmem, hlt⟩
    refine hsearch.settle fun x hx => .inl ?_
    rw [hx.1]
    exact hnew

/-- The low links of the rest, when the top frame hands its own to its parent. -/
theorem finish_cases (node : Nat) (fs : List CfgTarjanFrame) (s : TarjanState) :
    ∃ r, r = (if s.lowLink node = s.index node then s.closeComponent node else s) ∧
      ∃ l, finish node fs s = { r with frames := fs, lowLink := l } ∧
        ∀ p rest, fs = p::rest → l p.node ≤ r.lowLink node ∧
          ∀ v, l v = r.lowLink v ∨
            (v = p.node ∧ l v = r.lowLink node ∧ r.lowLink node < r.lowLink v) := by
  refine ⟨_, rfl, ?_⟩
  rw [finish.eq_def]
  generalize (if s.lowLink node = s.index node then s.closeComponent node else s) = r
  cases fs with
  | nil =>
    refine ⟨r.lowLink, rfl, fun p rest hfs => ?_⟩
    cases hfs
  | cons parent rest =>
    refine ⟨_, rfl, ?_⟩
    rintro p rest' ⟨⟩
    split_ifs with hlt
    · rw [Function.update_self]
      refine ⟨le_rfl, fun v => ?_⟩
      by_cases hv : v = parent.node
      · rw [hv, Function.update_self]
        exact .inr ⟨rfl, rfl, hlt⟩
      · exact .inl (Function.update_of_ne hv _ _)
    · exact ⟨not_lt.mp hlt, fun v => .inl rfl⟩

/-- A round that ends the top frame. -/
theorem Sound.finish (h : Sound n successors s) (hf : s.frames = ⟨u,c⟩::fs)
    (hend : (successors u)[c]? = none) :
    Sound n successors (s.finish u fs) ∧ (∀ v, s.Visited v → (s.finish u fs).Visited v) ∧
      work n successors (s.finish u fs) < work n successors s := by
  have hwork {t : TarjanState} (hindex : t.index = s.index) (hframes : t.frames = fs) :
      work n successors t < work n successors s := by
    rw [work_frames hindex hframes, work_frames (t := s) rfl hf, List.map_cons, List.sum_cons]
    omega
  obtain ⟨r, hr, l, hl, hcons⟩ := finish_cases u fs s
  rw [hl]
  by_cases hroot : s.lowLink u = s.index u
  · rw [if_pos hroot] at hr
    obtain ⟨pre, rest, hsplit⟩ := List.append_of_mem (h.search.onStack u (top_mem hf))
    have hpre : u ∉ pre := by
      have hnodup := h.numbered.nodup
      rw [hsplit, List.nodup_append] at hnodup
      exact fun hmem => hnodup.2.2 u hmem u List.mem_cons_self rfl
    have hclosing : Closing s r pre rest u := hr ▸ closeComponent_closing hsplit hpre
    -- a root hands nothing over: its low link is not below that of its parent
    have hlow : ∀ v ∈ fs.map (·.node), l v = s.lowLink v := by
      intro v hv
      cases fs with
      | nil => exact absurd hv List.not_mem_nil
      | cons p fs =>
        rcases (hcons p fs rfl).2 v with heq | ⟨rfl, -, hlt⟩
        · rw [heq, hclosing.lowLink]
        · rw [hclosing.lowLink, hroot] at hlt
          obtain ⟨w, -, hwlow, hwle, -⟩ := h.search.low p.node
            ((mem_path_iff hf).mpr (.inr List.mem_cons_self))
          have hpu := h.search.rest_lt hf (v := p.node) List.mem_cons_self
          omega
    have hnumbered := h.numbered.closing hsplit hclosing
    have hcomponents := h.components.closing h.numbered h.search hf hend hroot hsplit hclosing
    refine ⟨⟨hnumbered.congr rfl rfl rfl rfl, ?_, hcomponents.congr (fun _ => .rfl) rfl rfl rfl rfl⟩,
      fun v hv => ?_, hwork hclosing.index rfl⟩
    · exact h.search.close h.numbered hf hend hroot hsplit rfl hclosing.index hclosing.sccStack hlow
    · show r.index v ≠ cfgUnvisited
      rw [hclosing.index]
      exact hv
  · rw [if_neg hroot] at hr
    subst hr
    refine ⟨⟨h.numbered.congr rfl rfl rfl rfl, ?_, h.components.congr (fun _ => .rfl) rfl rfl rfl rfl⟩,
      fun v hv => hv, hwork rfl rfl⟩
    refine h.search.keep hf hend hroot rfl rfl rfl (fun v hv => ?_) fun p rest hfs => (hcons p rest hfs).1
    cases fs with
    | nil => exact absurd hv List.not_mem_nil
    | cons p fs => exact ((hcons p fs rfl).2 v).imp_right And.right

/-- One round keeps what holds, forgets no node and has less work left. -/
theorem Sound.round (h : Sound n successors s) (hn : n ≤ cfgUnvisited)
    (hr : round n successors s = some t) :
    Sound n successors t ∧ (∀ v, s.Visited v → t.Visited v) ∧
      work n successors t < work n successors s := by
  rw [TarjanState.round] at hr
  split at hr
  · cases hr
  · next frame fs hf =>
    obtain ⟨u, c⟩ := frame
    split at hr
    · next child hchild =>
      cases hr
      exact h.advance hn hf hchild
    · next hend =>
      cases hr
      exact h.finish hf hend

theorem roundLimit_eq :
    roundLimit n successors = (∑ v ∈ Finset.range n, ((successors v).length+1))+1 := rfl

/-- A search from a node that is not numbered yet ends, and with no frames left. -/
theorem Sound.searchFrom (h : Sound n successors s) (hn : n ≤ cfgUnvisited) (hidle : s.frames = [])
    (hu : u < n) : ∃ t, searchFrom n successors s u = some t ∧ Sound n successors t ∧
      t.frames = [] ∧ (∀ v, s.Visited v → t.Visited v) ∧ t.Visited u := by
  rw [TarjanState.searchFrom]
  by_cases hvisited : s.index u ≠ cfgUnvisited
  · rw [if_pos hvisited]
    exact ⟨s, rfl, h, hidle, fun v hv => hv, hvisited⟩
  rw [if_neg hvisited]
  have hsame : ({ s with frames := [] } : TarjanState) = s := by
    rw [← hidle]
  rw [hsame]
  have hnext := (h.numbered.nextIndex_lt hu hvisited).trans_le hn
  have hpath : s.path = [] := by
    rw [path, hidle]
    rfl
  have hstart : Sound n successors (s.visit u) := by
    refine Sound.visit h.numbered h.components (h.search.settle fun x hx => hx.elim) hn hu hvisited ?_
    rw [hpath]
    exact fun v hv => absurd hv List.not_mem_nil
  have hlimit : work n successors (s.visit u) < roundLimit n successors := by
    rw [work_visit hu hvisited hnext, work, hidle, roundLimit_eq, List.map_nil, List.sum_nil,
      Nat.add_zero]
    exact Nat.lt_succ_of_le (Finset.sum_le_sum_of_subset (Finset.filter_subset _ _))
  obtain ⟨t, ht⟩ := loop_terminates_of (TarjanState.round n successors) (Sound n successors)
    (fun s t hr hs => (hs.round hn hr).1) (work n successors)
    (fun s t hs hr => (hs.round hn hr).2.2) _ _ hstart hlimit
  have hkept := loop_invariant (TarjanState.round n successors)
    (fun t => Sound n successors t ∧ ∀ v, (s.visit u).Visited v → t.Visited v)
    (fun s t hr hs => ⟨(hs.1.round hn hr).1, fun v hv => (hs.1.round hn hr).2.1 v (hs.2 v hv)⟩)
    _ _ _ ht ⟨hstart, fun v hv => hv⟩
  refine ⟨t, ht, hkept.1, ?_, fun v hv => hkept.2 v ((visited_visit hnext).mpr (.inr hv)),
    hkept.2 u ((visited_visit hnext).mpr (.inl rfl))⟩
  have hstable := loop_stable _ _ _ _ ht
  rw [TarjanState.round] at hstable
  split at hstable
  · next hframes => exact hframes
  · split at hstable <;> cases hstable

theorem Sound.searchAll (hn : n ≤ cfgUnvisited) (roots : List Nat) (hroots : ∀ u ∈ roots, u < n)
    (h : Sound n successors s) (hidle : s.frames = []) :
    ∃ t, roots.foldlM (TarjanState.searchFrom n successors) s = some t ∧ Sound n successors t ∧
      t.frames = [] ∧ (∀ v, s.Visited v → t.Visited v) ∧ ∀ u ∈ roots, t.Visited u := by
  induction roots generalizing s with
  | nil => exact ⟨s, rfl, h, hidle, fun v hv => hv, fun u hu => absurd hu List.not_mem_nil⟩
  | cons u roots ih =>
    obtain ⟨r, hr, hsound, hframes, hkept, hu⟩ :=
      h.searchFrom hn hidle (hroots u List.mem_cons_self)
    obtain ⟨t, ht, hsound', hframes', hkept', hall⟩ :=
      ih (fun v hv => hroots v (List.mem_cons_of_mem _ hv)) hsound hframes
    refine ⟨t, ?_, hsound', hframes', fun v hv => hkept' v (hkept v hv), ?_⟩
    · rw [List.foldlM_cons, hr]
      exact ht
    · intro v hv
      rcases List.mem_cons.mp hv with rfl | hv
      · exact hkept' v hu
      · exact hall v hv

theorem not_visited_start (v : Nat) : ¬ ({} : TarjanState).Visited v := fun h => h rfl

theorem Sound.start (n : Nat) (successors : Nat → List Nat) : Sound n successors {} := by
  have hnone {v : Nat} : v ∉ ([] : List Nat) := List.not_mem_nil
  refine ⟨⟨?_, ?_, ?_, ?_, ?_, ?_, .nil⟩, ⟨?_, .nil, ?_, ?_, ?_, ?_, ?_, ?_, ?_⟩, ⟨?_, ?_, rfl, rfl⟩⟩
  · exact fun v hv => absurd hv (not_visited_start v)
  · exact fun v hv => absurd hv (not_visited_start v)
  · exact fun v _ hv => absurd hv (not_visited_start v)
  · rw [Finset.filter_false_of_mem fun v _ => not_visited_start v]
    rfl
  · exact fun v => iff_of_false Bool.false_ne_true hnone
  · exact fun v hv => absurd hv hnone
  · exact fun v hv => absurd hv hnone
  · exact fun v hv => absurd hv hnone
  · exact fun v hv => absurd hv hnone
  · exact fun v hv => absurd hv hnone
  · exact fun v hv => absurd hv hnone
  · exact fun v hv => absurd hv hnone
  · exact fun v hv => absurd hv hnone
  · exact fun v hv => absurd hv.1 (not_visited_start v)
  · exact fun v hv => absurd hv.1 (not_visited_start v)
  · exact fun v _ hv => absurd hv.1 (not_visited_start v)

/-- The search ends, with the components of all nodes. -/
theorem search_spec (n : Nat) (successors : Nat → List Nat) (hn : n ≤ cfgUnvisited) :
    ∃ t, search n successors = some t ∧ Components n successors t ∧ ∀ v < n, t.Closed v := by
  obtain ⟨t, ht, hsound, hframes, -, hall⟩ := Sound.searchAll hn (List.range n)
    (fun u hu => List.mem_range.mp hu) (Sound.start n successors) rfl
  refine ⟨t, ht, hsound.components, fun v hv => ⟨hall v (List.mem_range.mpr hv), fun hmem => ?_⟩⟩
  obtain ⟨u, hu, -⟩ := hsound.search.above v hmem
  rw [path, hframes] at hu
  exact List.not_mem_nil hu

end

end TarjanState

end DSigMatcher.Cfg
