import DSigMatcher.Base.Text
import DSigMatcher.Framework.Loop
import Mathlib

namespace DSigMatcher.Diff
open DSigMatcher.Base DSigMatcher.Framework

/-- The variables of the loop of `PointMatchesGlob`; `starG` is none for `npos`. -/
structure GlobState where
  p : Nat
  g : Nat
  starG : Option Nat
  starP : Nat

/-- A round of the loop: a byte that fits, a star, or the last star once more; none where the loop
ends or false is returned. -/
def globRound (point glob : Text) (s : GlobState) : Option GlobState :=
  match point[s.p]? with
  | none => none
  | some x =>
    if glob[s.g]?.any fun c => c = 63 || c = x then some { s with p := s.p+1, g := s.g+1 }
    else if glob[s.g]? = some 42 then
      some { s with starG := some s.g, g := s.g+1, starP := s.p }
    else s.starG.map fun starG =>
      { s with g := starG+1, p := s.starP+1, starP := s.starP+1 }

/-- How far the last star, the place of the name it was tried from and the pattern are from their
ends, in this order of weight. -/
def globMeasure (point glob : Text) (s : GlobState) : Nat :=
  let level := match s.starG with
    | none => 0
    | some starG => starG+1
  ((glob.length+1-level)*(point.length+1)+(point.length-s.starP))*(glob.length+1)+
    (glob.length-s.g)

def globStart : GlobState := ⟨0, 0, none, 0⟩

/-- What is returned from where the loop ends. -/
def globAnswer (point glob : Text) (s : GlobState) : Bool :=
  decide (point.length ≤ s.p) && ((glob.drop s.g).dropWhile (· = 42)).isEmpty

def pointMatchesGlob (point glob : Text) : Option Bool :=
  (loop (globRound point glob) (globMeasure point glob globStart+1) globStart).map
    (globAnswer point glob)

/-- A byte of the name stands for a byte of the pattern. -/
def FitsByte (c x : UInt8) : Prop := c = 63 ∨ c = x

instance (c x : UInt8) : Decidable (FitsByte c x) := inferInstanceAs (Decidable (_ ∨ _))

/-- A piece of the name stands for a byte of the pattern; any piece does for a star. -/
def FitsPiece (c : UInt8) (piece : Text) : Prop :=
  c = 42 ∨ ∃ x, piece = [x] ∧ FitsByte c x

/-- The name is cut into pieces for the bytes of the pattern, one by one. -/
structure IsCut (glob point : Text) (pieces : List Text) : Prop where
  flatten : pieces.flatten = point
  fits : List.Forall₂ FitsPiece glob pieces

def GlobMatches (glob point : Text) : Prop := ∃ pieces, IsCut glob point pieces

/-- Each star whose piece would begin at a star of the name takes that byte alone. -/
def StarsYield : Text → List Text → Prop
  | c::glob, piece::pieces =>
    (c = 42 → (piece::pieces).flatten.head? = some 42 → piece = [42]) ∧ StarsYield glob pieces
  | _, _ => True

def YieldingMatch (glob point : Text) : Prop :=
  ∃ pieces, IsCut glob point pieces ∧ StarsYield glob pieces

/-- A match with yielding stars, over the pattern. -/
def Takes : Text → Text → Prop
  | [], rest => rest = []
  | c::glob, rest =>
    if c = 42 then
      if rest.head? = some 42 then Takes glob rest.tail else ∃ k, Takes glob (rest.drop k)
    else ∃ x tail, rest = x::tail ∧ FitsByte c x ∧ Takes glob tail

section
variable {glob point rest : Text} {c x : UInt8}

theorem takes_star (h : rest.head? ≠ some 42) :
    Takes (42::glob) rest ↔ ∃ k, Takes glob (rest.drop k) := by
  rw [Takes, if_pos rfl, if_neg h]

theorem takes_byte (h : FitsByte c x) : Takes (c::glob) (x::rest) ↔ Takes glob rest := by
  rw [Takes]
  by_cases hc : c = 42
  · -- a star of the pattern at a star of the name
    subst hc
    have hx : x = 42 := (h.resolve_left (by decide)).symm
    rw [if_pos rfl, if_pos (by rw [hx]; rfl), List.tail_cons]
  · rw [if_neg hc]
    constructor
    · rintro ⟨y, tail, heq, -, htakes⟩
      rw [(List.cons.inj heq).2]
      exact htakes
    · intro htakes
      exact ⟨x, rest, rfl, h, htakes⟩

theorem takes_mismatch (hc : c ≠ 42) (h : ¬ FitsByte c x) : ¬ Takes (c::glob) (x::rest) := by
  rw [Takes, if_neg hc]
  rintro ⟨y, tail, heq, hfit, -⟩
  rw [← (List.cons.inj heq).1] at hfit
  exact h hfit

theorem takes_nil : Takes glob [] ↔ (glob.dropWhile (· = 42)).isEmpty := by
  induction glob with
  | nil => simp [Takes]
  | cons c glob ih =>
    by_cases hc : c = 42
    · subst hc
      rw [takes_star (by simp), List.dropWhile_cons_of_pos (by simp), ← ih]
      simp
    · rw [List.dropWhile_cons_of_neg (by simpa using hc), Takes, if_neg hc]
      simp

/-- Where a stretch of the pattern fits the name byte by byte, what follows it is never matched
earlier by starting later. -/
theorem takes_behind {segment part : Text} (h : List.Forall₂ FitsByte segment part) (d : Nat)
    (htakes : Takes (segment ++ glob) ((part ++ rest).drop d)) : ∃ e, Takes glob (rest.drop e) := by
  induction h generalizing d with
  | nil => exact ⟨d, htakes⟩
  | @cons c x segment part hfit hrest ih =>
    rw [List.cons_append, List.cons_append, Takes] at htakes
    split_ifs at htakes with hc hhead
    · rw [List.tail_drop, List.drop_succ_cons] at htakes
      exact ih d htakes
    · -- a star that takes a piece stands behind this one
      obtain ⟨k, htakes⟩ := htakes
      have hx : x = 42 := by
        rw [hc] at hfit
        exact (hfit.resolve_left (by decide)).symm
      cases d with
      | zero => exact absurd (by rw [hx]; rfl) hhead
      | succ d =>
        rw [List.drop_succ_cons, List.drop_drop] at htakes
        exact ih _ htakes
    · obtain ⟨y, tail, heq, -, htakes⟩ := htakes
      have htail : tail = (part ++ rest).drop d := by
        have hsame := congrArg List.tail heq
        rw [List.tail_drop, List.drop_succ_cons, List.tail_cons] at hsame
        exact hsame.symm
      rw [htail] at htakes
      exact ih d htakes

end

section
variable {point glob : Text} {s t : GlobState}

/-- What stands between the last star and the place of the loop fits byte by byte. -/
structure GlobInvariant (point glob : Text) (s : GlobState) : Prop where
  p : s.p ≤ point.length
  g : s.g ≤ glob.length
  star : ∀ starG, s.starG = some starG → starG < s.g ∧ s.starP ≤ s.p ∧
    ∃ segment part, glob.drop (starG+1) = segment ++ glob.drop s.g ∧
      point.drop s.starP = part ++ point.drop s.p ∧ List.Forall₂ FitsByte segment part

/-- What the loop can still find: a match from where it is, or one from a later place of the last
star. -/
def Reachable (point glob : Text) (s : GlobState) : Prop :=
  Takes (glob.drop s.g) (point.drop s.p) ∨ ∃ starG, s.starG = some starG ∧
    ∃ k, Takes (glob.drop (starG+1)) ((point.drop s.starP).drop (k+1))

theorem drop_of_getElem? {l : Text} {i : Nat} {x : UInt8} (h : l[i]? = some x) :
    l.drop i = x::l.drop (i+1) ∧ i < l.length := by
  obtain ⟨hlt, rfl⟩ := List.getElem?_eq_some_iff.mp h
  exact ⟨List.drop_eq_getElem_cons hlt, hlt⟩

/-- What a round of the loop does. -/
inductive GlobStep (point glob : Text) (s : GlobState) : GlobState → Prop
  | byte {c x : UInt8} (hg : glob[s.g]? = some c) (hp : point[s.p]? = some x) (hfit : FitsByte c x) :
    GlobStep point glob s { s with p := s.p+1, g := s.g+1 }
  | star {x : UInt8} (hg : glob[s.g]? = some 42) (hp : point[s.p]? = some x) (hx : x ≠ 42) :
    GlobStep point glob s { s with starG := some s.g, g := s.g+1, starP := s.p }
  | retry {starG : Nat} (hstar : s.starG = some starG) (hp : s.p < point.length)
    (hfail : ¬ Takes (glob.drop s.g) (point.drop s.p)) :
    GlobStep point glob s { s with g := starG+1, p := s.starP+1, starP := s.starP+1 }

/-- No byte and no star of the pattern is left that the name goes on with. -/
theorem takes_fail {x : UInt8} (hp : point[s.p]? = some x)
    (hbyte : ¬ glob[s.g]?.any (fun c => c = 63 || c = x) = true) (hstar : glob[s.g]? ≠ some 42) :
    ¬ Takes (glob.drop s.g) (point.drop s.p) := by
  rw [(drop_of_getElem? hp).1]
  cases hg : glob[s.g]? with
  | none =>
    rw [List.drop_eq_nil_of_le (List.getElem?_eq_none_iff.mp hg), Takes]
    exact List.cons_ne_nil _ _
  | some c =>
    rw [(drop_of_getElem? hg).1]
    rw [hg] at hbyte hstar
    apply takes_mismatch
    · intro hc
      exact hstar (congrArg some hc)
    · intro hfit
      apply hbyte
      simpa [FitsByte] using hfit

theorem globRound_step (h : globRound point glob s = some t) : GlobStep point glob s t := by
  unfold globRound at h
  cases hp : point[s.p]? with
  | none => simp [hp] at h
  | some x =>
    simp only [hp] at h
    split_ifs at h with hbyte hstar
    · obtain rfl := Option.some.inj h
      cases hg : glob[s.g]? with
      | none => simp [hg] at hbyte
      | some c =>
        rw [hg] at hbyte
        exact .byte hg hp (by simpa [FitsByte] using hbyte)
    · obtain rfl := Option.some.inj h
      refine .star hstar hp fun hx => hbyte ?_
      rw [hstar, hx]
      rfl
    · obtain ⟨starG, hstarG, rfl⟩ := Option.map_eq_some_iff.mp h
      exact .retry hstarG (drop_of_getElem? hp).2 (takes_fail hp hbyte hstar)

theorem globRound_none (h : globRound point glob s = none) :
    point.length ≤ s.p ∨ s.starG = none ∧ s.p < point.length ∧
      ¬ Takes (glob.drop s.g) (point.drop s.p) := by
  unfold globRound at h
  cases hp : point[s.p]? with
  | none => exact .inl (List.getElem?_eq_none_iff.mp hp)
  | some x =>
    simp only [hp] at h
    split_ifs at h with hbyte hstar
    exact .inr ⟨Option.map_eq_none_iff.mp h, (drop_of_getElem? hp).2, takes_fail hp hbyte hstar⟩

theorem globRound_invariant (hs : GlobInvariant point glob s) (h : globRound point glob s = some t) :
    GlobInvariant point glob t := by
  cases globRound_step h with
  | @byte c x hg hp hfit =>
    obtain ⟨hgdrop, hglt⟩ := drop_of_getElem? hg
    obtain ⟨hpdrop, hplt⟩ := drop_of_getElem? hp
    refine ⟨hplt, hglt, fun starG hstar => ?_⟩
    obtain ⟨hlt, hle, segment, part, hsegment, hpart, hfits⟩ := hs.star starG hstar
    refine ⟨Nat.lt_succ_of_lt hlt, Nat.le_succ_of_le hle, segment ++ [c], part ++ [x], ?_, ?_, ?_⟩
    · rw [hsegment, hgdrop, List.append_assoc]
      rfl
    · rw [hpart, hpdrop, List.append_assoc]
      rfl
    · exact List.rel_append hfits (.cons hfit .nil)
  | star hg hp hx =>
    obtain ⟨-, hglt⟩ := drop_of_getElem? hg
    refine ⟨hs.p, hglt, fun starG hstar => ?_⟩
    obtain rfl := Option.some.inj hstar
    exact ⟨Nat.lt_succ_self _, le_rfl, [], [], rfl, rfl, .nil⟩
  | @retry starG hstar hp hfail =>
    obtain ⟨hlt, hle, -⟩ := hs.star starG hstar
    refine ⟨by show s.starP+1 ≤ _; omega, ?_, fun starG' hstar' => ?_⟩
    · show starG+1 ≤ _
      exact Nat.le_trans hlt hs.g
    · obtain rfl := Option.some.inj (hstar.symm.trans hstar')
      exact ⟨Nat.lt_succ_self _, le_rfl, [], [], rfl, rfl, .nil⟩

/-- A match from a later place of the last star is one of what the pattern goes on with. -/
theorem reachable_behind (hs : GlobInvariant point glob s) (h : Reachable point glob s) :
    ∃ e, Takes (glob.drop s.g) ((point.drop s.p).drop e) := by
  rcases h with h | ⟨starG, hstar, k, h⟩
  · exact ⟨0, h⟩
  · obtain ⟨-, -, segment, part, hsegment, hpart, hfits⟩ := hs.star starG hstar
    rw [hsegment, hpart] at h
    exact takes_behind hfits _ h

/-- No round loses a match or finds one that is none. -/
theorem globRound_reachable (hs : GlobInvariant point glob s)
    (h : globRound point glob s = some t) : Reachable point glob s ↔ Reachable point glob t := by
  cases globRound_step h with
  | @byte c x hg hp hfit =>
    unfold Reachable
    rw [(drop_of_getElem? hg).1, (drop_of_getElem? hp).1, takes_byte hfit]
  | @star x hg hp hx =>
    have hhead : (point.drop s.p).head? ≠ some 42 := by
      rw [(drop_of_getElem? hp).1]
      exact fun heq => hx (Option.some.inj heq)
    have hcurrent : Takes (glob.drop s.g) (point.drop s.p) ↔
        ∃ k, Takes (glob.drop (s.g+1)) ((point.drop s.p).drop k) := by
      rw [(drop_of_getElem? hg).1]
      exact takes_star hhead
    constructor
    · intro hreach
      obtain ⟨e, htakes⟩ := reachable_behind hs hreach
      -- the star of this round takes what lies before
      have hlater : ∃ k, Takes (glob.drop (s.g+1)) ((point.drop s.p).drop k) := by
        rw [(drop_of_getElem? hg).1, Takes, if_pos rfl] at htakes
        split_ifs at htakes with hstar
        · rw [List.tail_drop] at htakes
          exact ⟨e+1, htakes⟩
        · obtain ⟨k, htakes⟩ := htakes
          rw [List.drop_drop] at htakes
          exact ⟨e+k, htakes⟩
      obtain ⟨k, htakes⟩ := hlater
      cases k with
      | zero => exact .inl htakes
      | succ k => exact .inr ⟨s.g, rfl, k, htakes⟩
    · rintro (htakes | ⟨starG, hstar, k, htakes⟩)
      · exact .inl (hcurrent.mpr ⟨0, htakes⟩)
      · obtain rfl := Option.some.inj hstar
        exact .inl (hcurrent.mpr ⟨k+1, htakes⟩)
  | @retry starG hstar hp hfail =>
    unfold Reachable
    rw [or_iff_right hfail]
    simp only [hstar, Option.some.injEq, exists_eq_left', List.drop_drop]
    constructor
    · rintro ⟨k, htakes⟩
      cases k with
      | zero => exact .inl htakes
      | succ k => exact .inr ⟨k, by rwa [show s.starP+1+(k+1) = s.starP+(k+1+1) by omega]⟩
    · rintro (htakes | ⟨k, htakes⟩)
      · exact ⟨0, htakes⟩
      · exact ⟨k+1, by rwa [show s.starP+(k+1+1) = s.starP+1+(k+1) by omega]⟩

/-- Where the loop ends, it has found out. -/
theorem globAnswer_reachable (hs : GlobInvariant point glob s)
    (h : globRound point glob s = none) :
    globAnswer point glob s = true ↔ Reachable point glob s := by
  rw [globAnswer, Bool.and_eq_true, decide_eq_true_iff, ← takes_nil]
  rcases globRound_none h with hend | ⟨hstar, hp, hfail⟩
  · have hdrop : point.drop s.p = [] := List.drop_eq_nil_of_le hend
    rw [and_iff_right hend]
    constructor
    · intro htakes
      exact .inl (by rwa [hdrop])
    · intro hreach
      obtain ⟨e, htakes⟩ := reachable_behind hs hreach
      rwa [hdrop, List.drop_nil] at htakes
  · refine iff_of_false (fun hend => absurd hp (Nat.not_lt.mpr hend.1)) ?_
    rintro (htakes | ⟨starG, hsome, -⟩)
    · exact hfail htakes
    · rw [hstar] at hsome
      cases hsome

end

/-- A number with more of a unit is larger, whatever the rest below the unit. -/
theorem weight_lt {unit m n rest : Nat} (hmn : m < n) (hrest : rest < unit) (rest' : Nat) :
    m*unit+rest < n*unit+rest' := by
  have hmul : (m+1)*unit ≤ n*unit := Nat.mul_le_mul_right unit hmn
  rw [Nat.add_mul, Nat.one_mul] at hmul
  omega

section
variable {point glob : Text} {s t : GlobState}

/-- Every round comes nearer to the end. -/
theorem globRound_measure (hs : GlobInvariant point glob s) (h : globRound point glob s = some t) :
    globMeasure point glob t < globMeasure point glob s := by
  unfold globMeasure
  cases globRound_step h with
  | byte hg hp hfit =>
    have hlt := (drop_of_getElem? hg).2
    simp only
    omega
  | star hg hp hx =>
    have hlt := (drop_of_getElem? hg).2
    have hlevel : (match s.starG with | none => 0 | some starG => starG+1) ≤ s.g := by
      cases hstar : s.starG with
      | none => exact Nat.zero_le _
      | some starG => exact (hs.star starG hstar).1
    apply weight_lt
    · apply weight_lt
      · simp only
        omega
      · omega
    · omega
  | @retry starG hstar hp hfail =>
    obtain ⟨hlt, hle, -⟩ := hs.star starG hstar
    apply weight_lt
    · simp only [hstar]
      omega
    · omega

/-- The loop ends on every pattern, and it finds the matches in which stars yield. -/
theorem pointMatchesGlob_takes (point glob : Text) :
    ∃ b, pointMatchesGlob point glob = some b ∧ (b = true ↔ Takes glob point) := by
  have hstart : GlobInvariant point glob globStart :=
    ⟨Nat.zero_le _, Nat.zero_le _, fun _ h => by cases h⟩
  obtain ⟨s, hloop⟩ := loop_terminates_of (globRound point glob) (GlobInvariant point glob)
    (fun _ _ h hs => globRound_invariant hs h) (globMeasure point glob)
    (fun _ _ hs h => globRound_measure hs h) _ globStart hstart (Nat.lt_succ_self _)
  have hrun := loop_invariant (globRound point glob)
    (fun s => GlobInvariant point glob s ∧ (Reachable point glob s ↔ Takes glob point))
    (fun s t h hs => ⟨globRound_invariant hs.1 h,
      (globRound_reachable hs.1 h).symm.trans hs.2⟩) _ globStart s hloop
  obtain ⟨hinv, hreach⟩ := hrun ⟨hstart, by simp [Reachable, globStart]⟩
  refine ⟨globAnswer point glob s, by rw [pointMatchesGlob, hloop]; rfl, ?_⟩
  rw [globAnswer_reachable hinv (loop_stable _ _ _ _ hloop), hreach]

end

section
variable {glob point : Text}

/-- The relation over the pattern is the cut into pieces. -/
theorem takes_iff : Takes glob point ↔ YieldingMatch glob point := by
  induction glob generalizing point with
  | nil =>
    constructor
    · rintro rfl
      exact ⟨[], ⟨rfl, .nil⟩, trivial⟩
    · rintro ⟨pieces, ⟨hflatten, hfits⟩, -⟩
      cases hfits
      exact hflatten.symm
  | cons c glob ih =>
    constructor
    · intro h
      have hpiece : ∃ piece rest, point = piece ++ rest ∧ FitsPiece c piece ∧ Takes glob rest ∧
          (c = 42 → point.head? = some 42 → piece = [42]) := by
        rw [Takes] at h
        split_ifs at h with hc hhead
        · obtain ⟨tail, rfl⟩ := List.head?_eq_some_iff.mp hhead
          exact ⟨[42], tail, rfl, .inl hc, h, fun _ _ => rfl⟩
        · obtain ⟨k, h⟩ := h
          exact ⟨point.take k, point.drop k, (List.take_append_drop k point).symm, .inl hc, h,
            fun _ hstar => absurd hstar hhead⟩
        · obtain ⟨x, tail, rfl, hfit, h⟩ := h
          exact ⟨[x], tail, rfl, .inr ⟨x, rfl, hfit⟩, h, fun hstar => absurd hstar hc⟩
      obtain ⟨piece, rest, rfl, hfit, htakes, hyield⟩ := hpiece
      obtain ⟨pieces, ⟨rfl, hfits⟩, hyields⟩ := ih.mp htakes
      exact ⟨piece::pieces, ⟨rfl, .cons hfit hfits⟩, hyield, hyields⟩
    · rintro ⟨pieces, ⟨rfl, hfits⟩, hyields⟩
      cases hfits with
      | @cons _ piece _ pieces hfit hfits =>
        obtain ⟨hyield, hyields⟩ := hyields
        have htakes := ih.mpr ⟨pieces, ⟨rfl, hfits⟩, hyields⟩
        rw [Takes, List.flatten_cons]
        split_ifs with hc hhead
        · rw [hyield hc hhead]
          exact htakes
        · exact ⟨piece.length, by rwa [List.drop_left]⟩
        · obtain ⟨x, rfl, hbyte⟩ := hfit.resolve_left hc
          exact ⟨x, pieces.flatten, rfl, hbyte, htakes⟩

theorem YieldingMatch.globMatches (h : YieldingMatch glob point) : GlobMatches glob point := by
  obtain ⟨pieces, hcut, -⟩ := h
  exact ⟨pieces, hcut⟩

/-- Without a star in the name every match is one with yielding stars. -/
theorem GlobMatches.yielding (hstar : 42 ∉ point) (h : GlobMatches glob point) :
    YieldingMatch glob point := by
  obtain ⟨pieces, hcut⟩ := h
  refine ⟨pieces, hcut, ?_⟩
  rw [← hcut.flatten] at hstar
  clear hcut
  induction glob generalizing pieces with
  | nil => trivial
  | cons c glob ih =>
    cases pieces with
    | nil => trivial
    | cons piece pieces =>
      refine ⟨fun _ hhead => absurd (List.mem_of_mem_head? hhead) hstar, ih pieces fun hmem => ?_⟩
      exact hstar (List.mem_append_right piece hmem)

end

/-- It ends on every pattern; it says whether the name matches unless the name matches only with a
star that does not yield. -/
theorem pointMatchesGlob_exact (point glob : Text) :
    (∃ b, pointMatchesGlob point glob = some b) ∧
    ((∃ b, pointMatchesGlob point glob = some b ∧ (b = true ↔ GlobMatches glob point)) ↔
      (GlobMatches glob point → YieldingMatch glob point)) := by
  obtain ⟨b, hb, htakes⟩ := pointMatchesGlob_takes point glob
  rw [takes_iff] at htakes
  refine ⟨⟨b, hb⟩, ?_⟩
  simp only [hb, Option.some.injEq, exists_eq_left', htakes]
  constructor
  · intro h
    exact h.mpr
  · intro h
    exact ⟨YieldingMatch.globMatches, h⟩

/-- A star of the name that a star of the pattern should take with what follows it. -/
theorem pointMatchesGlob_star : pointMatchesGlob (text "*a") (text "*") = some false ∧
    GlobMatches (text "*") (text "*a") := by
  refine ⟨by decide, [text "*a"], rfl, ?_⟩
  exact .cons (.inl (by decide)) .nil

section

/-- A pattern of `?` alone. -/
def marks (n : Nat) : Text := List.replicate n 63

theorem takes_marks {u rest glob : Text} :
    Takes (marks u.length ++ glob) (u ++ rest) ↔ Takes glob rest := by
  induction u with
  | nil => rfl
  | cons x u ih =>
    rw [List.length_cons, marks, List.replicate_succ, List.cons_append, List.cons_append,
      takes_byte (.inl rfl)]
    exact ih

theorem not_takes_marks (u : Text) : ¬ Takes (marks (u.length+1)) u := by
  have hlast : Takes (marks u.length ++ [63]) (u ++ []) ↔ Takes [63] [] := takes_marks
  rw [List.append_nil] at hlast
  rw [marks, List.replicate_succ', ← marks, hlast, takes_nil]
  decide

theorem matches_marks (u : Text) : IsCut (marks u.length) u (u.map fun x => [x]) where
  flatten := by
    rw [← List.flatMap_def, List.flatMap_singleton']
  fits := by
    induction u with
    | nil => exact .nil
    | cons x u ih =>
      rw [List.length_cons, marks, List.replicate_succ]
      exact .cons (.inr ⟨x, rfl, .inl rfl⟩) ih

/-- The names that match every pattern as they should are those without a star. -/
theorem pointMatchesGlob_every_glob (point : Text) :
    (∀ glob, ∃ b, pointMatchesGlob point glob = some b ∧ (b = true ↔ GlobMatches glob point)) ↔
      42 ∉ point := by
  constructor
  · intro h hstar
    obtain ⟨u, v, rfl⟩ := List.append_of_mem hstar
    obtain ⟨b, hb, hmatches⟩ := h (marks u.length ++ 42::marks (v.length+1))
    obtain ⟨b', hb', htakes⟩ :=
      pointMatchesGlob_takes (u ++ 42::v) (marks u.length ++ 42::marks (v.length+1))
    obtain rfl := Option.some.inj (hb.symm.trans hb')
    have hcut : GlobMatches (marks u.length ++ 42::marks (v.length+1)) (u ++ 42::v) := by
      obtain ⟨hflatten, hfits⟩ := matches_marks u
      obtain ⟨hflatten', hfits'⟩ := matches_marks (42::v)
      refine ⟨(u.map fun x => [x]) ++ []::((42::v).map fun x => [x]), ⟨?_, ?_⟩⟩
      · rw [List.flatten_append, List.flatten_cons, hflatten, hflatten', List.nil_append]
      · exact List.rel_append hfits (.cons (.inl rfl) hfits')
    have hfound := htakes.mp (hmatches.mpr hcut)
    rw [takes_marks, takes_byte (.inr rfl)] at hfound
    exact not_takes_marks v hfound
  · intro hstar glob
    obtain ⟨b, hb, htakes⟩ := pointMatchesGlob_takes point glob
    refine ⟨b, hb, ?_⟩
    rw [htakes, takes_iff]
    exact ⟨YieldingMatch.globMatches, GlobMatches.yielding hstar⟩

end

end DSigMatcher.Diff
