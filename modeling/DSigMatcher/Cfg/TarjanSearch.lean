import DSigMatcher.Cfg.StronglyConnected
import Mathlib

namespace DSigMatcher.Cfg
open DSigMatcher.Base DSigMatcher.Framework
open Relation (ReflTransGen TransGen)

/-- The edges of a graph of `n` nodes; a successor that is no node is none. -/
def Edge (n : Nat) (successors : Nat → List Nat) (u v : Nat) : Prop := v ∈ successors u ∧ v < n

namespace TarjanState

def Visited (s : TarjanState) (v : Nat) : Prop := s.index v ≠ cfgUnvisited

instance (s : TarjanState) : DecidablePred s.Visited := fun _ => inferInstanceAs (Decidable (_ ≠ _))

/-- A node whose component is known. -/
def Closed (s : TarjanState) (v : Nat) : Prop := s.Visited v ∧ v ∉ s.sccStack

instance (s : TarjanState) : DecidablePred s.Closed := fun _ => inferInstanceAs (Decidable (_ ∧ _))

/-- An edge that has been looked at, where its source has been visited. -/
def Explored (n : Nat) (successors : Nat → List Nat) (s : TarjanState) (u v : Nat) : Prop :=
  Edge n successors u v ∧ ∀ f ∈ s.frames, f.node = u → v ∈ (successors u).take f.cursor

/-- The numbers of the nodes, and the stack in their order. -/
structure Numbered (n : Nat) (s : TarjanState) : Prop where
  small : ∀ v, s.Visited v → v < n
  below : ∀ v, s.Visited v → s.index v < s.nextIndex
  apart : ∀ v w, s.Visited v → s.index v = s.index w → v = w
  count : ((Finset.range n).filter s.Visited).card = s.nextIndex
  onStack : ∀ v, s.onStack v = true ↔ v ∈ s.sccStack
  visited : ∀ v ∈ s.sccStack, s.Visited v
  sorted : s.sccStack.Pairwise fun v w => s.index w < s.index v

section
variable {n : Nat} {s : TarjanState} {node v w : Nat}

theorem Numbered.congr {t : TarjanState} (h : Numbered n s) (hindex : t.index = s.index)
    (hnext : t.nextIndex = s.nextIndex) (hstack : t.sccStack = s.sccStack)
    (hon : t.onStack = s.onStack) : Numbered n t := by
  obtain ⟨_, _, _, _, _, _, _, _, _, _⟩ := t
  dsimp only at hindex hnext hstack hon
  subst hindex hnext hstack hon
  exact ⟨h.small, h.below, h.apart, h.count, h.onStack, h.visited, h.sorted⟩

theorem Numbered.nextIndex_lt (h : Numbered n s) (hv : v < n) (hnew : ¬ s.Visited v) :
    s.nextIndex < n := by
  rw [← h.count]
  have hsub : (Finset.range n).filter s.Visited ⊂ Finset.range n := by
    refine Finset.filter_ssubset.mpr ⟨v, Finset.mem_range.mpr hv, hnew⟩
  have hlt := Finset.card_lt_card hsub
  rwa [Finset.card_range] at hlt

theorem visit_index_self : (s.visit node).index node = s.nextIndex := Function.update_self _ _ _

theorem visit_index_of_ne (h : v ≠ node) : (s.visit node).index v = s.index v :=
  Function.update_of_ne h _ _

theorem visited_visit (hnext : s.nextIndex < cfgUnvisited) :
    (s.visit node).Visited v ↔ v = node ∨ s.Visited v := by
  by_cases h : v = node
  · refine iff_of_true ?_ (.inl h)
    rw [h, Visited, visit_index_self]
    exact hnext.ne
  · rw [Visited, visit_index_of_ne h, or_iff_right h]
    rfl

theorem Numbered.visit (h : Numbered n s) (hn : n ≤ cfgUnvisited) (hnode : node < n)
    (hnew : ¬ s.Visited node) : Numbered n (s.visit node) := by
  have hnext := h.nextIndex_lt hnode hnew
  have hvisited {v : Nat} : (s.visit node).Visited v ↔ v = node ∨ s.Visited v :=
    visited_visit (hnext.trans_le hn)
  have hold {v : Nat} (hv : s.Visited v) : (s.visit node).index v = s.index v :=
    visit_index_of_ne fun heq => hnew (heq ▸ hv)
  have hoff : node ∉ s.sccStack := fun hmem => hnew (h.visited node hmem)
  refine ⟨?_, ?_, ?_, ?_, ?_, ?_, ?_⟩
  · intro v hv
    rcases hvisited.mp hv with rfl | hv
    · exact hnode
    · exact h.small v hv
  · intro v hv
    show (s.visit node).index v < s.nextIndex+1
    rcases hvisited.mp hv with rfl | hv
    · rw [visit_index_self]
      exact Nat.lt_succ_self _
    · rw [hold hv]
      exact (h.below v hv).trans (Nat.lt_succ_self _)
  · intro v w hv heq
    have hw : (s.visit node).Visited w := by
      rw [Visited, ← heq]
      exact hv
    rcases hvisited.mp hv with hv' | hv' <;> rcases hvisited.mp hw with hw' | hw'
    · rw [hv', hw']
    · rw [hv', visit_index_self, hold hw'] at heq
      exact absurd heq (h.below w hw').ne'
    · rw [hw', visit_index_self, hold hv'] at heq
      exact absurd heq (h.below v hv').ne
    · rw [hold hv', hold hw'] at heq
      exact h.apart v w hv' heq
  · have hset : (Finset.range n).filter (s.visit node).Visited =
        insert node ((Finset.range n).filter s.Visited) := by
      ext v
      rw [Finset.mem_filter, Finset.mem_insert, Finset.mem_filter, hvisited, Finset.mem_range]
      constructor
      · rintro ⟨hv, rfl | hvis⟩
        · exact .inl rfl
        · exact .inr ⟨hv, hvis⟩
      · rintro (rfl | ⟨hv, hvis⟩)
        · exact ⟨hnode, .inl rfl⟩
        · exact ⟨hv, .inr hvis⟩
    rw [hset, Finset.card_insert_of_notMem (fun hmem => hnew (Finset.mem_filter.mp hmem).2), h.count]
    rfl
  · intro v
    show Function.update s.onStack node true v = true ↔ v ∈ node::s.sccStack
    by_cases hv : v = node
    · rw [hv, Function.update_self]
      exact iff_of_true rfl List.mem_cons_self
    · rw [Function.update_of_ne hv, List.mem_cons, or_iff_right hv, h.onStack]
  · intro v hv
    rcases List.mem_cons.mp hv with rfl | hv
    · exact hvisited.mpr (.inl rfl)
    · exact hvisited.mpr (.inr (h.visited v hv))
  · show (node::s.sccStack).Pairwise _
    rw [List.pairwise_cons]
    refine ⟨fun v hv => ?_, h.sorted.imp_of_mem fun {v w} hv hw hlt => ?_⟩
    · rw [visit_index_self, hold (h.visited v hv)]
      exact h.below v (h.visited v hv)
    · rw [hold (h.visited v hv), hold (h.visited w hw)]
      exact hlt

end

/-- The nodes of the frames: a path of the search from its root, the last node first. -/
def path (s : TarjanState) : List Nat := s.frames.map (·.node)

/-- The invariant of the search, while some successors may still have to be visited. -/
structure Search (n : Nat) (successors : Nat → List Nat) (pending : Nat → Prop) (s : TarjanState) :
    Prop where
  onStack : ∀ u ∈ s.path, u ∈ s.sccStack
  sorted : s.path.Pairwise fun u v => s.index v < s.index u
  -- every node of the stack is behind a node of the path, and can be reached from it
  above : ∀ w ∈ s.sccStack, ∃ u ∈ s.path, s.index u ≤ s.index w
  reach : ∀ u ∈ s.path, ∀ w ∈ s.sccStack, s.index u ≤ s.index w →
    ReflTransGen (Edge n successors) u w
  -- the low link is the number of a node of the stack that can be reached
  low : ∀ u ∈ s.path, ∃ w ∈ s.sccStack, s.index w = s.lowLink u ∧ s.index w ≤ s.index u ∧
    ReflTransGen (Edge n successors) u w
  -- what was left on the stack reaches something in front of it
  down : ∀ w ∈ s.sccStack, w ∉ s.path →
    ∃ v ∈ s.sccStack, s.index v < s.index w ∧ ReflTransGen (Edge n successors) w v
  explored : ∀ w ∈ s.sccStack, ∀ x, Explored n successors s w x → s.Visited x ∨ pending x
  -- an edge to in front of a node of the path is in the low link of that node or one behind it
  recorded : ∀ u ∈ s.path, ∀ w ∈ s.sccStack, s.index u ≤ s.index w →
    ∀ x ∈ s.sccStack, Explored n successors s w x → s.index x < s.index u →
      ∃ v ∈ s.path, s.index u ≤ s.index v ∧ s.lowLink v ≤ s.index x
  closed : ∀ w, s.Closed w → ∀ x, Edge n successors w x → s.Closed x

section
variable {n : Nat} {successors : Nat → List Nat} {s t : TarjanState} {u v w x child c : Nat}
  {fs : List CfgTarjanFrame} {P Q : Nat → Prop}

theorem Search.settle (h : Search n successors P s) (hP : ∀ x, P x → s.Visited x ∨ Q x) :
    Search n successors Q s :=
  { h with explored := fun w hw x hx => (h.explored w hw x hx).elim .inl (hP x) }

/-- The top of the path has the greatest number. -/
theorem Search.top (h : Search n successors P s) (hf : s.frames = ⟨u,c⟩::fs) (hv : v ∈ s.path) :
    s.index v ≤ s.index u := by
  have hsorted := h.sorted
  rw [path, hf, List.map_cons] at hv hsorted
  rw [List.pairwise_cons] at hsorted
  rcases List.mem_cons.mp hv with rfl | hv
  · exact le_rfl
  · exact (hsorted.1 v hv).le

theorem Search.rest_lt (h : Search n successors P s) (hf : s.frames = ⟨u,c⟩::fs)
    (hv : v ∈ fs.map (·.node)) : s.index v < s.index u := by
  have hsorted := h.sorted
  rw [path, hf, List.map_cons, List.pairwise_cons] at hsorted
  exact hsorted.1 v hv

theorem top_mem (hf : s.frames = ⟨u,c⟩::fs) : u ∈ s.path := by
  rw [path, hf]
  exact List.mem_cons_self

theorem mem_path_iff (hf : s.frames = ⟨u,c⟩::fs) : v ∈ s.path ↔ v = u ∨ v ∈ fs.map (·.node) := by
  rw [path, hf, List.map_cons, List.mem_cons]

/-- All edges of a node that left the path have been looked at. -/
theorem explored_of_not_path (hw : w ∉ s.path) (hx : Edge n successors w x) :
    Explored n successors s w x := by
  refine ⟨hx, fun f hf heq => absurd ?_ hw⟩
  rw [← heq]
  exact List.mem_map_of_mem hf

/-- So have those of the top of the path, at its end. -/
theorem Search.explored_top (h : Search n successors P s) (hf : s.frames = ⟨u,c⟩::fs)
    (hend : (successors u)[c]? = none) (hx : Edge n successors u x) :
    Explored n successors s u x := by
  refine ⟨hx, fun f hmem heq => ?_⟩
  rw [hf] at hmem
  rcases List.mem_cons.mp hmem with rfl | hmem
  · rw [List.take_of_length_le (List.getElem?_eq_none_iff.mp hend)]
    exact hx.1
  · have hlt := h.rest_lt hf (List.mem_map_of_mem hmem)
    rw [heq] at hlt
    exact absurd hlt (lt_irrefl _)

/-- Moving the cursor makes one more edge an explored one. -/
theorem explored_bump (hf : s.frames = ⟨u,c⟩::fs) (hframes : t.frames = ⟨u,c+1⟩::fs)
    (hchild : (successors u)[c]? = some child) (h : Explored n successors t w x) :
    Explored n successors s w x ∨ (w = u ∧ x = child ∧ x < n) := by
  by_cases hlast : w = u ∧ x = child
  · exact .inr ⟨hlast.1, hlast.2, h.1.2⟩
  · refine .inl ⟨h.1, fun f hmem heq => ?_⟩
    rw [hf] at hmem
    rcases List.mem_cons.mp hmem with rfl | hmem
    · have hin := h.2 ⟨u,c+1⟩ (by rw [hframes]; exact List.mem_cons_self) heq
      have hw : u = w := heq
      subst hw
      dsimp only at hin ⊢
      rw [List.take_add_one, hchild] at hin
      rcases List.mem_append.mp hin with hin | hin
      · exact hin
      · exact absurd ⟨rfl, List.mem_singleton.mp hin⟩ hlast
    · exact h.2 f (by rw [hframes]; exact List.mem_cons_of_mem _ hmem) heq

/-- The cursor moves on; the low link of the top may go down to the number of the successor. -/
theorem Search.bump (h : Search n successors (fun _ => False) s) (hf : s.frames = ⟨u,c⟩::fs)
    (hchild : (successors u)[c]? = some child) (hframes : t.frames = ⟨u,c+1⟩::fs)
    (hindex : t.index = s.index) (hstack : t.sccStack = s.sccStack)
    (hother : ∀ v, v ≠ u → t.lowLink v = s.lowLink v)
    (hlow : t.lowLink u = s.lowLink u ∨
      child ∈ s.sccStack ∧ child < n ∧ t.lowLink u = s.index child ∧ s.index child < s.lowLink u)
    (hseen : child ∈ s.sccStack → child < n → t.lowLink u ≤ s.index child) :
    Search n successors (fun x => x = child ∧ x < n) t := by
  have hpath : t.path = s.path := by
    rw [path, hframes, path, hf]
    rfl
  have hvisited : t.Visited = s.Visited := by
    funext v
    rw [Visited, hindex]
    rfl
  have hclosed : t.Closed = s.Closed := by
    funext v
    rw [Closed, hvisited, hstack]
    rfl
  have hle (v : Nat) : t.lowLink v ≤ s.lowLink v := by
    by_cases hv : v = u
    · rw [hv]
      rcases hlow with heq | ⟨-, -, heq, hlt⟩
      · exact heq.le
      · rw [heq]
        exact hlt.le
    · exact (hother v hv).le
  have hbump {w x : Nat} (hx : Explored n successors t w x) :=
    explored_bump hf hframes hchild hx
  refine ⟨?_, ?_, ?_, ?_, ?_, ?_, ?_, ?_, ?_⟩
  · rw [hpath, hstack]
    exact h.onStack
  · rw [hpath, hindex]
    exact h.sorted
  · rw [hpath, hstack, hindex]
    exact h.above
  · rw [hpath, hstack, hindex]
    exact h.reach
  · rw [hpath, hstack, hindex]
    intro v hv
    by_cases hvu : v = u
    · rw [hvu]
      obtain ⟨w, hw, hwlow, hwle, hreach⟩ := h.low u (top_mem hf)
      rcases hlow with heq | ⟨hmem, hn, heq, hlt⟩
      · exact ⟨w, hw, by rw [heq, hwlow], hwle, hreach⟩
      · refine ⟨child, hmem, heq.symm, by omega, .single ⟨?_, hn⟩⟩
        exact List.mem_of_getElem? hchild
    · rw [hother v hvu]
      exact h.low v hv
  · rw [hpath, hstack, hindex]
    exact h.down
  · rw [hstack, hvisited]
    intro w hw x hx
    rcases hbump hx with hold | ⟨-, hlast⟩
    · exact .inl ((h.explored w hw x hold).resolve_right id)
    · exact .inr hlast
  · rw [hpath, hstack, hindex]
    intro v hv w hw hvw x hxs hx hlt
    rcases hbump hx with hold | ⟨rfl, rfl, hn⟩
    · obtain ⟨g, hg, hvg, hglow⟩ := h.recorded v hv w hw hvw x hxs hold hlt
      exact ⟨g, hg, hvg, (hle g).trans hglow⟩
    · exact ⟨w, top_mem hf, hvw, hseen hxs hn⟩
  · rw [hclosed]
    exact h.closed

/-- A node that is still to be visited is. -/
theorem Search.visit (h : Search n successors (fun x => x = child ∧ x < n) s) (hnumbered : Numbered n s)
    (hn : n ≤ cfgUnvisited) (hchild : child < n) (hnew : ¬ s.Visited child)
    (hreach : ∀ u ∈ s.path, ReflTransGen (Edge n successors) u child) :
    Search n successors (fun _ => False) (s.visit child) := by
  have hnext := (hnumbered.nextIndex_lt hchild hnew).trans_le hn
  have hvisited {v : Nat} : (s.visit child).Visited v ↔ v = child ∨ s.Visited v := visited_visit hnext
  have hoff : child ∉ s.sccStack := fun hmem => hnew (hnumbered.visited child hmem)
  have hne {v : Nat} (hv : v ∈ s.sccStack) : v ≠ child := fun heq => hoff (heq ▸ hv)
  have hold {v : Nat} (hv : v ∈ s.sccStack) : (s.visit child).index v = s.index v :=
    visit_index_of_ne (hne hv)
  have hlowLink {v : Nat} (hv : v ∈ s.sccStack) : (s.visit child).lowLink v = s.lowLink v :=
    Function.update_of_ne (hne hv) _ _
  have hbelow {v : Nat} (hv : v ∈ s.sccStack) : s.index v < s.nextIndex :=
    hnumbered.below v (hnumbered.visited v hv)
  have hexplored {w x : Nat} (hw : w ≠ child) (hx : Explored n successors (s.visit child) w x) :
      Explored n successors s w x :=
    ⟨hx.1, fun f hf heq => hx.2 f (List.mem_cons_of_mem _ hf) heq⟩
  have hnone {x : Nat} (hx : Explored n successors (s.visit child) child x) : False :=
    absurd (hx.2 ⟨child,0⟩ List.mem_cons_self rfl) List.not_mem_nil
  refine ⟨?_, ?_, ?_, ?_, ?_, ?_, ?_, ?_, ?_⟩
  · intro u hu
    rcases List.mem_cons.mp hu with rfl | hu
    · exact List.mem_cons_self
    · exact List.mem_cons_of_mem _ (h.onStack u hu)
  · show (child::s.path).Pairwise _
    rw [List.pairwise_cons]
    refine ⟨fun u hu => ?_, h.sorted.imp_of_mem fun {u v} hu hv hlt => ?_⟩
    · rw [visit_index_self, hold (h.onStack u hu)]
      exact hbelow (h.onStack u hu)
    · rw [hold (h.onStack u hu), hold (h.onStack v hv)]
      exact hlt
  · intro w hw
    rcases List.mem_cons.mp hw with rfl | hw
    · exact ⟨w, List.mem_cons_self, le_rfl⟩
    · obtain ⟨u, hu, hle⟩ := h.above w hw
      refine ⟨u, List.mem_cons_of_mem _ hu, ?_⟩
      rwa [hold (h.onStack u hu), hold hw]
  · intro u hu w hw hle
    rcases List.mem_cons.mp hu with hu' | hu' <;> rcases List.mem_cons.mp hw with hw' | hw'
    · rw [hu', hw']
    · rw [hu', visit_index_self, hold hw'] at hle
      exact absurd (hbelow hw') (not_lt.mpr hle)
    · rw [hw']
      exact hreach u hu'
    · rw [hold (h.onStack u hu'), hold hw'] at hle
      exact h.reach u hu' w hw' hle
  · intro u hu
    rcases List.mem_cons.mp hu with rfl | hu
    · refine ⟨u, List.mem_cons_self, ?_, le_rfl, .refl⟩
      rw [visit_index_self]
      exact (Function.update_self u s.nextIndex s.lowLink).symm
    · obtain ⟨w, hw, hlow, hle, hreach⟩ := h.low u hu
      refine ⟨w, List.mem_cons_of_mem _ hw, ?_, ?_, hreach⟩
      · rw [hold hw, hlow, hlowLink (h.onStack u hu)]
      · rwa [hold hw, hold (h.onStack u hu)]
  · intro w hw hpath
    rcases List.mem_cons.mp hw with rfl | hw
    · exact absurd List.mem_cons_self hpath
    · obtain ⟨v, hv, hlt, hreach⟩ := h.down w hw fun hmem => hpath (List.mem_cons_of_mem _ hmem)
      refine ⟨v, List.mem_cons_of_mem _ hv, ?_, hreach⟩
      rwa [hold hv, hold hw]
  · intro w hw x hx
    rcases List.mem_cons.mp hw with rfl | hw
    · exact (hnone hx).elim
    · rw [or_iff_left id, hvisited]
      rcases h.explored w hw x (hexplored (hne hw) hx) with hx | hx
      · exact .inr hx
      · exact .inl hx.1
  · intro u hu w hw hle x hxs hx hlt
    rcases List.mem_cons.mp hw with hw' | hw'
    · rw [hw'] at hx
      exact (hnone hx).elim
    rcases List.mem_cons.mp hu with hu' | hu'
    · rw [hu', visit_index_self, hold hw'] at hle
      exact absurd (hbelow hw') (not_lt.mpr hle)
    have hus := h.onStack u hu'
    rcases List.mem_cons.mp hxs with hxs' | hxs'
    · rw [hxs', visit_index_self, hold hus] at hlt
      exact absurd (hbelow hus) (not_lt.mpr hlt.le)
    rw [hold hus, hold hw'] at hle
    rw [hold hxs', hold hus] at hlt
    obtain ⟨g, hg, hug, hglow⟩ := h.recorded u hu' w hw' hle x hxs' (hexplored (hne hw') hx) hlt
    refine ⟨g, List.mem_cons_of_mem _ hg, ?_, ?_⟩
    · rwa [hold hus, hold (h.onStack g hg)]
    · rwa [hlowLink (h.onStack g hg), hold hxs']
  · have hclosed {v : Nat} : (s.visit child).Closed v ↔ s.Closed v := by
      rw [Closed, Closed, hvisited]
      constructor
      · rintro ⟨rfl | hv, hoff'⟩
        · exact absurd List.mem_cons_self hoff'
        · exact ⟨hv, fun hmem => hoff' (List.mem_cons_of_mem _ hmem)⟩
      · rintro ⟨hv, hoff'⟩
        refine ⟨.inr hv, fun hmem => ?_⟩
        rcases List.mem_cons.mp hmem with rfl | hmem
        · exact hnew hv
        · exact hoff' hmem
    intro w hw x hx
    rw [hclosed] at hw ⊢
    exact h.closed w hw x hx

theorem path_tail (hframes : t.frames = fs) : t.path = fs.map (·.node) := by
  rw [path, hframes]

/-- What has been looked at when the top frame has gone had been before. -/
theorem Search.explored_tail (h : Search n successors P s) (hf : s.frames = ⟨u,c⟩::fs)
    (hend : (successors u)[c]? = none) (hframes : t.frames = fs)
    (hx : Explored n successors t w x) : Explored n successors s w x := by
  by_cases hw : w = u
  · rw [hw] at hx ⊢
    exact h.explored_top hf hend hx.1
  · refine ⟨hx.1, fun f hmem heq => ?_⟩
    rw [hf] at hmem
    rcases List.mem_cons.mp hmem with rfl | hmem
    · exact absurd heq.symm hw
    · exact hx.2 f (by rwa [hframes]) heq

/-- The top frame goes and leaves its nodes to its parent, with its low link. -/
theorem Search.keep (h : Search n successors (fun _ => False) s) (hf : s.frames = ⟨u,c⟩::fs)
    (hend : (successors u)[c]? = none) (hroot : s.lowLink u ≠ s.index u) (hframes : t.frames = fs)
    (hindex : t.index = s.index) (hstack : t.sccStack = s.sccStack)
    (hlow : ∀ v ∈ fs.map (·.node), t.lowLink v = s.lowLink v ∨
      (t.lowLink v = s.lowLink u ∧ s.lowLink u < s.lowLink v))
    (hparent : ∀ p rest, fs = p::rest → t.lowLink p.node ≤ s.lowLink u) :
    Search n successors (fun _ => False) t := by
  have hvisited : t.Visited = s.Visited := by
    funext v
    rw [Visited, hindex]
    rfl
  have hclosed : t.Closed = s.Closed := by
    funext v
    rw [Closed, hvisited, hstack]
    rfl
  have hin {v : Nat} (hv : v ∈ fs.map (·.node)) : v ∈ s.path := (mem_path_iff hf).mpr (.inr hv)
  obtain ⟨w₀, hw₀, hw₀low, hw₀le, hw₀reach⟩ := h.low u (top_mem hf)
  have hw₀lt : s.index w₀ < s.index u := lt_of_le_of_ne hw₀le (hw₀low ▸ hroot)
  -- the top is not the root of the search, so it has a parent, and that is the last of the rest
  obtain ⟨p, rest, hfs⟩ : ∃ p rest, fs = p::rest := by
    obtain ⟨v, hv, hle⟩ := h.above w₀ hw₀
    rcases (mem_path_iff hf).mp hv with rfl | hv
    · exact absurd hw₀lt (not_lt.mpr hle)
    · cases fs with
      | nil => exact absurd hv List.not_mem_nil
      | cons p rest => exact ⟨p, rest, rfl⟩
  have hp : p.node ∈ fs.map (·.node) := by
    rw [hfs]
    exact List.mem_cons_self
  have hplast {v : Nat} (hv : v ∈ fs.map (·.node)) : s.index v ≤ s.index p.node := by
    have hsorted := h.sorted
    rw [path, hf, List.map_cons, List.pairwise_cons, hfs, List.map_cons, List.pairwise_cons] at hsorted
    rw [hfs, List.map_cons] at hv
    rcases List.mem_cons.mp hv with rfl | hv
    · exact le_rfl
    · exact (hsorted.2.1 v hv).le
  have hle {v : Nat} (hv : v ∈ fs.map (·.node)) : t.lowLink v ≤ s.lowLink v := by
    rcases hlow v hv with heq | ⟨heq, hlt⟩
    · exact heq.le
    · exact heq.le.trans hlt.le
  refine ⟨?_, ?_, ?_, ?_, ?_, ?_, ?_, ?_, ?_⟩
  · rw [path_tail hframes, hstack]
    exact fun v hv => h.onStack v (hin hv)
  · have hsorted := h.sorted
    rw [path, hf, List.map_cons, List.pairwise_cons] at hsorted
    rw [path_tail hframes, hindex]
    exact hsorted.2
  · rw [path_tail hframes, hstack, hindex]
    intro w hw
    obtain ⟨v, hv, hvw⟩ := h.above w hw
    rcases (mem_path_iff hf).mp hv with rfl | hv
    · exact ⟨p.node, hp, (h.rest_lt hf hp).le.trans hvw⟩
    · exact ⟨v, hv, hvw⟩
  · rw [path_tail hframes, hstack, hindex]
    exact fun v hv => h.reach v (hin hv)
  · rw [path_tail hframes, hstack, hindex]
    intro v hv
    obtain ⟨w, hw, hwlow, hwle, hreach⟩ := h.low v (hin hv)
    rcases hlow v hv with heq | ⟨heq, hlt⟩
    · exact ⟨w, hw, by rw [heq, hwlow], hwle, hreach⟩
    · refine ⟨w₀, hw₀, by rw [heq, hw₀low], by omega, ?_⟩
      exact (h.reach v (hin hv) u (h.onStack u (top_mem hf)) (h.rest_lt hf hv).le).trans hw₀reach
  · rw [path_tail hframes, hstack, hindex]
    intro w hw hpath
    by_cases hwu : w = u
    · rw [hwu]
      exact ⟨w₀, hw₀, hw₀lt, hw₀reach⟩
    · refine h.down w hw fun hmem => ?_
      exact ((mem_path_iff hf).mp hmem).elim hwu hpath
  · rw [hstack, hvisited]
    exact fun w hw x hx => h.explored w hw x (h.explored_tail hf hend hframes hx)
  · rw [path_tail hframes, hstack, hindex]
    intro v hv w hw hvw x hxs hx hlt
    obtain ⟨g, hg, hvg, hglow⟩ :=
      h.recorded v (hin hv) w hw hvw x hxs (h.explored_tail hf hend hframes hx) hlt
    rcases (mem_path_iff hf).mp hg with rfl | hg
    · exact ⟨p.node, hp, hplast hv, (hparent p rest hfs).trans hglow⟩
    · exact ⟨g, hg, hvg, (hle hg).trans hglow⟩
  · rw [hclosed]
    exact h.closed

/-- The part of the stack from the top down to a node of the path. -/
theorem Numbered.segment_iff {pre rest : List Nat} (h : Numbered n s)
    (hstack : s.sccStack = pre ++ u::rest) :
    (∀ v, v ∈ pre ++ [u] ↔ v ∈ s.sccStack ∧ s.index u ≤ s.index v) ∧
      ∀ v, v ∈ rest ↔ v ∈ s.sccStack ∧ s.index v < s.index u := by
  have hsorted := h.sorted
  rw [hstack, List.pairwise_append, List.pairwise_cons] at hsorted
  obtain ⟨-, ⟨hrest, -⟩, hpre⟩ := hsorted
  constructor
  · intro v
    rw [hstack, List.mem_append, List.mem_append, List.mem_singleton, List.mem_cons]
    constructor
    · rintro (hv | rfl)
      · exact ⟨.inl hv, (hpre v hv u List.mem_cons_self).le⟩
      · exact ⟨.inr (.inl rfl), le_rfl⟩
    · rintro ⟨hv | rfl | hv, hle⟩
      · exact .inl hv
      · exact .inr rfl
      · exact absurd (hrest v hv) (not_lt.mpr hle)
  · intro v
    rw [hstack, List.mem_append, List.mem_cons]
    constructor
    · intro hv
      exact ⟨.inr (.inr hv), hrest v hv⟩
    · rintro ⟨hv | rfl | hv, hlt⟩
      · exact absurd (hpre v hv u List.mem_cons_self) (not_lt.mpr hlt.le)
      · exact absurd hlt (lt_irrefl _)
      · exact hv

/-- From the nodes behind a root of a component every edge leads to one of them or to a closed node. -/
theorem Search.segment_closed (h : Search n successors (fun _ => False) s) (hnumbered : Numbered n s)
    (hf : s.frames = ⟨u,c⟩::fs) (hend : (successors u)[c]? = none) (hroot : s.lowLink u = s.index u)
    (hw : w ∈ s.sccStack) (hle : s.index u ≤ s.index w) (hx : Edge n successors w x) :
    s.Closed x ∨ x ∈ s.sccStack ∧ s.index u ≤ s.index x := by
  have hexplored : Explored n successors s w x := by
    by_cases hwu : w = u
    · rw [hwu] at hx ⊢
      exact h.explored_top hf hend hx
    · refine explored_of_not_path (fun hmem => hwu ?_) hx
      exact hnumbered.apart w u (hnumbered.visited w hw) (le_antisymm (h.top hf hmem) hle)
  have hvisited := (h.explored w hw x hexplored).resolve_right id
  by_cases hxs : x ∈ s.sccStack
  · refine .inr ⟨hxs, not_lt.mp fun hlt => ?_⟩
    obtain ⟨g, hg, hug, hglow⟩ := h.recorded u (top_mem hf) w hw hle x hxs hexplored hlt
    have hgu := hnumbered.apart g u (hnumbered.visited g (h.onStack g hg))
      (le_antisymm (h.top hf hg) hug)
    rw [hgu, hroot] at hglow
    exact absurd hlt (not_lt.mpr hglow)
  · exact .inl ⟨hvisited, hxs⟩

/-- And each of them reaches the root. -/
theorem Search.segment_reach (h : Search n successors (fun _ => False) s) (hnumbered : Numbered n s)
    (hf : s.frames = ⟨u,c⟩::fs) (hend : (successors u)[c]? = none) (hroot : s.lowLink u = s.index u)
    (hw : w ∈ s.sccStack) (hle : s.index u ≤ s.index w) :
    ReflTransGen (Edge n successors) w u := by
  have hstays {a b : Nat} (ha : s.Closed a ∨ a ∈ s.sccStack ∧ s.index u ≤ s.index a)
      (hab : ReflTransGen (Edge n successors) a b) :
      s.Closed b ∨ b ∈ s.sccStack ∧ s.index u ≤ s.index b := by
    induction hab with
    | refl => exact ha
    | tail _ hbc ih =>
      rcases ih with hb | ⟨hb, hub⟩
      · exact .inl (h.closed _ hb _ hbc)
      · exact h.segment_closed hnumbered hf hend hroot hb hub hbc
  induction hk : s.index w using Nat.strong_induction_on generalizing w with
  | _ k ih =>
    by_cases hwu : w = u
    · rw [hwu]
    · have hpath : w ∉ s.path := fun hmem => hwu
        (hnumbered.apart w u (hnumbered.visited w hw) (le_antisymm (h.top hf hmem) hle))
      obtain ⟨v, hv, hlt, hreach⟩ := h.down w hw hpath
      rcases hstays (.inr ⟨hw, hle⟩) hreach with hclosed | ⟨-, huv⟩
      · exact absurd hv hclosed.2
      · exact hreach.trans (ih (s.index v) (hk ▸ hlt) hv huv rfl)

/-- The top frame goes and takes the nodes behind it along. -/
theorem Search.close (h : Search n successors (fun _ => False) s) (hnumbered : Numbered n s)
    {pre rest : List Nat} (hf : s.frames = ⟨u,c⟩::fs) (hend : (successors u)[c]? = none)
    (hroot : s.lowLink u = s.index u) (hsplit : s.sccStack = pre ++ u::rest)
    (hframes : t.frames = fs) (hindex : t.index = s.index) (hstack : t.sccStack = rest)
    (hlow : ∀ v ∈ fs.map (·.node), t.lowLink v = s.lowLink v) :
    Search n successors (fun _ => False) t := by
  have hrest := (hnumbered.segment_iff hsplit).2
  have hin {v : Nat} (hv : v ∈ fs.map (·.node)) : v ∈ s.path := (mem_path_iff hf).mpr (.inr hv)
  have hvisited : t.Visited = s.Visited := by
    funext v
    rw [Visited, hindex]
    rfl
  refine ⟨?_, ?_, ?_, ?_, ?_, ?_, ?_, ?_, ?_⟩
  · rw [path_tail hframes, hstack]
    exact fun v hv => (hrest v).mpr ⟨h.onStack v (hin hv), h.rest_lt hf hv⟩
  · have hsorted := h.sorted
    rw [path, hf, List.map_cons, List.pairwise_cons] at hsorted
    rw [path_tail hframes, hindex]
    exact hsorted.2
  · rw [path_tail hframes, hstack, hindex]
    intro w hw
    obtain ⟨hws, hlt⟩ := (hrest w).mp hw
    obtain ⟨v, hv, hvw⟩ := h.above w hws
    rcases (mem_path_iff hf).mp hv with rfl | hv
    · exact absurd hlt (not_lt.mpr hvw)
    · exact ⟨v, hv, hvw⟩
  · rw [path_tail hframes, hstack, hindex]
    exact fun v hv w hw => h.reach v (hin hv) w ((hrest w).mp hw).1
  · rw [path_tail hframes, hstack, hindex]
    intro v hv
    obtain ⟨w, hw, hwlow, hwle, hreach⟩ := h.low v (hin hv)
    refine ⟨w, (hrest w).mpr ⟨hw, hwle.trans_lt (h.rest_lt hf hv)⟩, ?_, hwle, hreach⟩
    rw [hlow v hv, hwlow]
  · rw [path_tail hframes, hstack, hindex]
    intro w hw hpath
    obtain ⟨hws, hlt⟩ := (hrest w).mp hw
    obtain ⟨v, hv, hvw, hreach⟩ := h.down w hws fun hmem =>
      ((mem_path_iff hf).mp hmem).elim (fun heq => lt_irrefl _ (heq ▸ hlt)) hpath
    exact ⟨v, (hrest v).mpr ⟨hv, hvw.trans hlt⟩, hvw, hreach⟩
  · rw [hstack, hvisited]
    exact fun w hw x hx => h.explored w ((hrest w).mp hw).1 x (h.explored_tail hf hend hframes hx)
  · rw [path_tail hframes, hstack, hindex]
    intro v hv w hw hvw x hxs hx hlt
    obtain ⟨g, hg, hvg, hglow⟩ := h.recorded v (hin hv) w ((hrest w).mp hw).1 hvw x
      ((hrest x).mp hxs).1 (h.explored_tail hf hend hframes hx) hlt
    rcases (mem_path_iff hf).mp hg with rfl | hg
    · rw [hroot] at hglow
      have hxu := ((hrest x).mp hxs).2
      omega
    · exact ⟨g, hg, hvg, by rwa [hlow g hg]⟩
  · have hclosed {v : Nat} : t.Closed v ↔ s.Closed v ∨ v ∈ s.sccStack ∧ s.index u ≤ s.index v := by
      rw [Closed, hvisited, hstack, hrest, not_and, not_lt, Closed]
      constructor
      · rintro ⟨hv, himp⟩
        by_cases hvs : v ∈ s.sccStack
        · exact .inr ⟨hvs, himp hvs⟩
        · exact .inl ⟨hv, hvs⟩
      · rintro (⟨hv, hvs⟩ | ⟨hvs, hle⟩)
        · exact ⟨hv, fun hmem => absurd hmem hvs⟩
        · exact ⟨hnumbered.visited v hvs, fun _ => hle⟩
    intro w hw x hx
    rw [hclosed] at hw ⊢
    rcases hw with hw | ⟨hws, hle⟩
    · exact .inl (h.closed w hw x hx)
    · exact h.segment_closed hnumbered hf hend hroot hws hle hx

end

end TarjanState

end DSigMatcher.Cfg
