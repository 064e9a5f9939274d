import DSigMatcher.Cfg.TarjanSearch

namespace DSigMatcher.Cfg
open DSigMatcher.Base DSigMatcher.Framework
open Relation (ReflTransGen TransGen)

/-- Two nodes that reach each other. -/
def Mutual (n : Nat) (successors : Nat → List Nat) (u v : Nat) : Prop :=
  ReflTransGen (Edge n successors) u v ∧ ReflTransGen (Edge n successors) v u

namespace TarjanState

/-- The members of a component. -/
def members (n : Nat) (s : TarjanState) (k : Nat) : Finset Nat :=
  (Finset.range n).filter fun v => s.Closed v ∧ s.componentOfBlock v = k

/-- The components so far are those of the closed nodes. -/
structure Components (n : Nat) (successors : Nat → List Nat) (s : TarjanState) : Prop where
  below : ∀ v, s.Closed v → s.componentOfBlock v < s.nextComponent
  mutual_iff : ∀ v w, s.Closed v → s.Closed w →
    (s.componentOfBlock v = s.componentOfBlock w ↔ Mutual n successors v w)
  counts : s.componentNodeCounts =
    (List.range s.nextComponent).map fun k => (s.members n k).card
  loops : s.componentIsLoop = s.componentNodeCounts.map fun count => decide (1 < count)

section
variable {n : Nat} {successors : Nat → List Nat} {s t : TarjanState} {u v w c : Nat}
  {fs : List CfgTarjanFrame} {pre rest : List Nat}

theorem Components.congr (h : Components n successors s) (hclosed : ∀ v, t.Closed v ↔ s.Closed v)
    (hof : t.componentOfBlock = s.componentOfBlock) (hnext : t.nextComponent = s.nextComponent)
    (hcounts : t.componentNodeCounts = s.componentNodeCounts)
    (hloops : t.componentIsLoop = s.componentIsLoop) : Components n successors t := by
  have hmembers (k : Nat) : t.members n k = s.members n k := by
    rw [members, members, hof]
    exact Finset.filter_congr fun v _ => and_congr_left' (hclosed v)
  refine ⟨?_, ?_, ?_, ?_⟩
  · intro v hv
    rw [hof, hnext]
    exact h.below v ((hclosed v).mp hv)
  · intro v w hv hw
    rw [hof]
    exact h.mutual_iff v w ((hclosed v).mp hv) ((hclosed w).mp hw)
  · rw [hcounts, hnext, h.counts]
    exact List.map_congr_left fun k _ => by rw [hmembers]
  · rw [hloops, hcounts, h.loops]

/-- The inner loop pops what is above a node of the stack, and the node. -/
theorem popMembers_eq (pre rest : List Nat) (s : TarjanState) (m : Nat) (hu : u ∉ pre) :
    popMembers u (pre ++ u::rest) s m =
      ({ s with
          sccStack := rest
          onStack := fun v => if v ∈ pre ++ [u] then false else s.onStack v
          componentOfBlock := fun v =>
            if v ∈ pre ++ [u] then s.nextComponent else s.componentOfBlock v },
        m+pre.length+1) := by
  induction pre generalizing s m with
  | nil =>
    have hsame (v : Nat) : v ∈ ([] : List Nat) ++ [u] ↔ v = u := by
      rw [List.nil_append, List.mem_singleton]
    have hupdate {β : Type} (f : Nat → β) (b : β) :
        Function.update f u b = fun v => if v = u then b else f v :=
      funext fun v => Function.update_apply f u b v
    rw [List.nil_append, popMembers, if_pos rfl, hupdate, hupdate]
    simp only [hsame, List.length_nil, Nat.add_zero]
  | cons a pre ih =>
    rw [List.mem_cons, not_or] at hu
    rw [List.cons_append, popMembers, if_neg (Ne.symm hu.1), ih _ _ hu.2]
    have hfold {β : Type} (f : Nat → β) (b : β) :
        (fun v => if v ∈ pre ++ [u] then b else Function.update f a b v) =
          fun v => if v ∈ a::pre ++ [u] then b else f v := by
      funext v
      rw [List.cons_append, Function.update_apply]
      by_cases hv : v ∈ pre ++ [u]
      · rw [if_pos hv, if_pos (List.mem_cons_of_mem a hv)]
      · rw [if_neg hv]
        by_cases hva : v = a
        · rw [if_pos hva, if_pos (hva ▸ List.mem_cons_self)]
        · rw [if_neg hva, if_neg (by rw [List.mem_cons]; exact not_or.mpr ⟨hva, hv⟩)]
    rw [hfold, hfold, List.length_cons]
    congr 1
    omega

/-- What closing a component does to the stack and the components. -/
structure Closing (s t : TarjanState) (pre rest : List Nat) (u : Nat) : Prop where
  index : t.index = s.index
  nextIndex : t.nextIndex = s.nextIndex
  lowLink : t.lowLink = s.lowLink
  frames : t.frames = s.frames
  sccStack : t.sccStack = rest
  onStack : ∀ v, t.onStack v = if v ∈ pre ++ [u] then false else s.onStack v
  componentOfBlock : ∀ v, t.componentOfBlock v =
    if v ∈ pre ++ [u] then s.nextComponent else s.componentOfBlock v
  nextComponent : t.nextComponent = s.nextComponent+1
  counts : t.componentNodeCounts = s.componentNodeCounts ++ [(pre ++ [u]).length]
  loops : t.componentIsLoop = s.componentIsLoop ++ [decide (1 < (pre ++ [u]).length)]

theorem closeComponent_closing (hsplit : s.sccStack = pre ++ u::rest) (hu : u ∉ pre) :
    Closing s (s.closeComponent u) pre rest u := by
  have hpopped := popMembers_eq pre rest s 0 hu
  rw [Nat.zero_add, ← hsplit] at hpopped
  have hlength : (pre ++ [u]).length = pre.length+1 := by
    rw [List.length_append, List.length_singleton]
  rw [closeComponent, hpopped]
  refine ⟨rfl, rfl, rfl, rfl, rfl, fun _ => rfl, fun _ => rfl, rfl, ?_, ?_⟩ <;> rw [hlength]

theorem Numbered.nodup (h : Numbered n s) : s.sccStack.Nodup :=
  h.sorted.imp fun {v w} hlt heq => by
    rw [heq] at hlt
    exact lt_irrefl _ hlt

theorem Numbered.closing (h : Numbered n s) (hsplit : s.sccStack = pre ++ u::rest)
    (ht : Closing s t pre rest u) : Numbered n t := by
  have hsegment := h.segment_iff hsplit
  have hvisited : t.Visited = s.Visited := by
    funext v
    rw [Visited, ht.index]
    rfl
  have hin {v : Nat} (hv : v ∈ rest) : v ∈ s.sccStack := ((hsegment.2 v).mp hv).1
  refine ⟨?_, ?_, ?_, ?_, ?_, ?_, ?_⟩
  · rw [hvisited]
    exact h.small
  · rw [hvisited, ht.index, ht.nextIndex]
    exact h.below
  · rw [hvisited, ht.index]
    exact h.apart
  · rw [ht.nextIndex, ← h.count]
    exact congrArg Finset.card (Finset.filter_congr fun v _ => by rw [hvisited])
  · intro v
    rw [ht.onStack, ht.sccStack, hsegment.2]
    split_ifs with hv
    · refine iff_of_false id fun hrest => ?_
      exact absurd hrest.2 (not_lt.mpr ((hsegment.1 v).mp hv).2)
    · rw [h.onStack]
      refine ⟨fun hmem => ⟨hmem, not_le.mp fun hle => hv ((hsegment.1 v).mpr ⟨hmem, hle⟩)⟩, And.left⟩
  · rw [ht.sccStack, hvisited]
    exact fun v hv => h.visited v (hin hv)
  · rw [ht.sccStack, ht.index]
    have hsorted := h.sorted
    rw [hsplit, List.pairwise_append, List.pairwise_cons] at hsorted
    exact hsorted.2.1.2

/-- A component that is closed is a class of nodes that reach each other. -/
theorem Components.closing (h : Components n successors s) (hnumbered : Numbered n s)
    (hsearch : Search n successors (fun _ => False) s) (hf : s.frames = ⟨u,c⟩::fs)
    (hend : (successors u)[c]? = none) (hroot : s.lowLink u = s.index u)
    (hsplit : s.sccStack = pre ++ u::rest) (ht : Closing s t pre rest u) :
    Components n successors t := by
  obtain ⟨hsegment, hrest⟩ := hnumbered.segment_iff hsplit
  have hclosed {v : Nat} : t.Closed v ↔ s.Closed v ∨ v ∈ pre ++ [u] := by
    rw [Closed, Visited, ht.index, ht.sccStack, hrest, not_and, not_lt, Closed, hsegment]
    constructor
    · rintro ⟨hv, himp⟩
      by_cases hvs : v ∈ s.sccStack
      · exact .inr ⟨hvs, himp hvs⟩
      · exact .inl ⟨hv, hvs⟩
    · rintro (⟨hv, hvs⟩ | ⟨hvs, hle⟩)
      · exact ⟨hv, fun hmem => absurd hmem hvs⟩
      · exact ⟨hnumbered.visited v hvs, fun _ => hle⟩
  have hold {v : Nat} (hv : s.Closed v) : v ∉ pre ++ [u] := fun hmem => hv.2 ((hsegment v).mp hmem).1
  have hofOld {v : Nat} (hv : s.Closed v) : t.componentOfBlock v = s.componentOfBlock v := by
    rw [ht.componentOfBlock, if_neg (hold hv)]
  have hofNew {v : Nat} (hv : v ∈ pre ++ [u]) : t.componentOfBlock v = s.nextComponent := by
    rw [ht.componentOfBlock, if_pos hv]
  have hstays {a b : Nat} (ha : s.Closed a) (hab : ReflTransGen (Edge n successors) a b) :
      s.Closed b := by
    induction hab with
    | refl => exact ha
    | tail _ hbc ih => exact hsearch.closed _ ih _ hbc
  have hto {v : Nat} (hv : v ∈ pre ++ [u]) : ReflTransGen (Edge n successors) v u :=
    hsearch.segment_reach hnumbered hf hend hroot ((hsegment v).mp hv).1 ((hsegment v).mp hv).2
  have hfrom {v : Nat} (hv : v ∈ pre ++ [u]) : ReflTransGen (Edge n successors) u v :=
    hsearch.reach u (top_mem hf) v ((hsegment v).mp hv).1 ((hsegment v).mp hv).2
  refine ⟨?_, ?_, ?_, ?_⟩
  · intro v hv
    rw [ht.nextComponent]
    rcases hclosed.mp hv with hv | hv
    · rw [hofOld hv]
      exact (h.below v hv).trans (Nat.lt_succ_self _)
    · rw [hofNew hv]
      exact Nat.lt_succ_self _
  · intro v w hv hw
    rcases hclosed.mp hv with hv | hv <;> rcases hclosed.mp hw with hw | hw
    · rw [hofOld hv, hofOld hw]
      exact h.mutual_iff v w hv hw
    · rw [hofOld hv, hofNew hw]
      refine iff_of_false (h.below v hv).ne fun hmutual => hold (hstays hv hmutual.1) hw
    · rw [hofNew hv, hofOld hw]
      refine iff_of_false (h.below w hw).ne' fun hmutual => hold (hstays hw hmutual.2) hv
    · rw [hofNew hv, hofNew hw]
      exact iff_of_true rfl ⟨(hto hv).trans (hfrom hw), (hto hw).trans (hfrom hv)⟩
  · have hmembersOld {k : Nat} (hk : k < s.nextComponent) : t.members n k = s.members n k := by
      refine Finset.filter_congr fun v _ => ?_
      rw [hclosed]
      constructor
      · rintro ⟨hv | hv, heq⟩
        · exact ⟨hv, by rwa [hofOld hv] at heq⟩
        · rw [hofNew hv] at heq
          exact absurd heq hk.ne'
      · rintro ⟨hv, heq⟩
        exact ⟨.inl hv, by rwa [hofOld hv]⟩
    have hmembersNew : (t.members n s.nextComponent).card = (pre ++ [u]).length := by
      have hset : t.members n s.nextComponent = (pre ++ [u]).toFinset := by
        ext v
        rw [members, Finset.mem_filter, List.mem_toFinset, Finset.mem_range, hclosed]
        constructor
        · rintro ⟨-, hv | hv, heq⟩
          · rw [hofOld hv] at heq
            exact absurd heq (h.below v hv).ne
          · exact hv
        · intro hv
          have hvs := hnumbered.visited v ((hsegment v).mp hv).1
          exact ⟨hnumbered.small v hvs, .inr hv, hofNew hv⟩
      have hnodup : (pre ++ [u]).Nodup := by
        have hall := hnumbered.nodup
        rw [hsplit, List.append_cons] at hall
        exact hall.of_append_left
      rw [hset, List.toFinset_card_of_nodup hnodup]
    rw [ht.counts, ht.nextComponent, List.range_succ, List.map_append, h.counts, List.map_singleton,
      hmembersNew]
    exact congrArg (· ++ _) (List.map_congr_left fun k hk => by
      rw [hmembersOld (List.mem_range.mp hk)])
  · rw [ht.loops, ht.counts, h.loops, List.map_append, List.map_singleton]

end

end TarjanState

end DSigMatcher.Cfg
