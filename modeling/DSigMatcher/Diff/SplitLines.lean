import DSigMatcher.Base.Text
import DSigMatcher.Framework.Utf8

namespace DSigMatcher.Diff
open DSigMatcher.Base DSigMatcher.Framework Utf8

/-- `LineBreakAt`: the bytes of the line break a text starts with. -/
def lineBreakAt : Text → Nat
  | [] => 0
  | c::r =>
    if c ∈ [0x0A, 0x0B, 0x0C, 0x0D, 0x1C, 0x1D, 0x1E] then 1
    else if c = 0xC2 then if r.head? = some 0x85 then 2 else 0
    else if c = 0xE2 then
      if r.head? = some 0x80 ∧ (r[1]? = some 0xA8 ∨ r[1]? = some 0xA9) then 3 else 0
    else 0

/-- The inner loop of `PySplitLines`: what stands before the next break, and the text from it on. -/
def findBreak : Text → Text × Text
  | [] => ([],[])
  | c::r =>
    if lineBreakAt (c::r) = 0 then
      let found := findBreak r
      (c::found.1,found.2)
    else ([],c::r)

/-- A break is consumed, CR LF as one. -/
def skipBreak (t : Text) : Text :=
  if t.head? = some 13 ∧ t[1]? = some 10 then t.drop 2 else t.drop (lineBreakAt t)

theorem findBreak_join (t : Text) : (findBreak t).1 ++ (findBreak t).2 = t := by
  fun_induction findBreak t with
  | case1 => rfl
  | case2 c r hbreak found ih => exact congrArg (c :: ·) ih
  | case3 c r hbreak => rfl

theorem findBreak_break (t : Text) (h : (findBreak t).2 ≠ []) : lineBreakAt (findBreak t).2 ≠ 0 := by
  fun_induction findBreak t with
  | case1 => exact absurd rfl h
  | case2 c r hbreak found ih => exact ih h
  | case3 c r hbreak => exact hbreak

/-- Each round of the outer loop moves on. -/
theorem skipBreak_length (t : Text) (ht : t ≠ []) :
    (skipBreak (findBreak t).2).length < t.length := by
  have hjoin := congrArg List.length (findBreak_join t)
  rw [List.length_append] at hjoin
  have hpos := List.length_pos_iff_ne_nil.mpr ht
  by_cases hrest : (findBreak t).2 = []
  · rw [hrest, skipBreak]
    simp [hpos]
  · have hbreak := findBreak_break t hrest
    have hrest' := List.length_pos_iff_ne_nil.mpr hrest
    unfold skipBreak
    split_ifs <;> rw [List.length_drop] <;> omega

/-- `PySplitLines`. -/
def pySplitLines (t : Text) : List Text :=
  if _ht : t = [] then []
  else (findBreak t).1::pySplitLines (skipBreak (findBreak t).2)
termination_by t.length
decreasing_by exact skipBreak_length t _ht

/-- Python's line boundaries. -/
def isLineBoundary (c : Char) : Bool :=
  [0x0A, 0x0B, 0x0C, 0x0D, 0x1C, 0x1D, 0x1E, 0x85, 0x2028, 0x2029].contains c.toNat

/-- `str.splitlines`: each line with the boundary behind it. -/
def charLines : List Char → List (List Char × List Char)
  | [] => []
  | '\r' :: '\n' :: cs => ([],['\r', '\n'])::charLines cs
  | c::cs =>
    if isLineBoundary c then ([],[c])::charLines cs
    else
      match charLines cs with
      | [] => [([c],[])]
      | l::ls => (c::l.1,l.2)::ls

/-- Lines and their boundaries, as `str.splitlines` cuts a text. -/
structure IsLines (cs : List Char) (lines : List (List Char × List Char)) : Prop where
  joined : lines.flatMap (fun l => l.1 ++ l.2) = cs
  plain : ∀ l ∈ lines, ∀ c ∈ l.1, isLineBoundary c = false
  boundary : ∀ l ∈ lines, l.2 = [] ∨ l.2 = ['\r', '\n'] ∨ ∃ c, isLineBoundary c = true ∧ l.2 = [c]
  nonempty : ∀ l ∈ lines, l.1 ++ l.2 ≠ []
  chain : lines.IsChain fun l m => l.2 ≠ [] ∧ (l.2 = ['\r'] → (m.1 ++ m.2).head? ≠ some '\n')

theorem IsLines.head {cs : List Char} {lines : List (List Char × List Char)}
    (h : IsLines cs lines) : ∀ m ∈ lines.head?, (m.1 ++ m.2).head? = cs.head? := by
  intro m hm
  obtain ⟨ls, rfl⟩ := List.head?_eq_some_iff.mp hm
  have hne := h.nonempty m List.mem_cons_self
  rw [← h.joined, List.flatMap_cons, List.head?_append_of_ne_nil _ hne]

/-- A line without characters of its own goes before lines. -/
theorem IsLines.ended {cs b : List Char} {lines : List (List Char × List Char)}
    (h : IsLines cs lines) (hb : b = ['\r', '\n'] ∨ ∃ c, isLineBoundary c = true ∧ b = [c])
    (hcr : b = ['\r'] → cs.head? ≠ some '\n') : IsLines (b ++ cs) (([],b)::lines) := by
  have hne : b ≠ [] := by
    rcases hb with rfl | ⟨c, -, rfl⟩ <;> simp
  refine ⟨?_, ?_, ?_, ?_, ?_⟩
  · rw [List.flatMap_cons, h.joined]
    rfl
  · exact List.forall_mem_cons.mpr ⟨by simp, h.plain⟩
  · exact List.forall_mem_cons.mpr ⟨Or.inr hb, h.boundary⟩
  · exact List.forall_mem_cons.mpr ⟨hne, h.nonempty⟩
  · refine List.isChain_cons.mpr ⟨fun m hm => ⟨hne, fun hr => ?_⟩, h.chain⟩
    rw [h.head m hm]
    exact hcr hr

/-- A character that is no boundary goes before the first line. -/
theorem IsLines.longer {c : Char} {cs : List Char} {l : List Char × List Char}
    {lines : List (List Char × List Char)} (hc : isLineBoundary c = false)
    (h : IsLines cs (l::lines)) : IsLines (c::cs) ((c::l.1,l.2)::lines) := by
  have hplain := List.forall_mem_cons.mp h.plain
  have hboundary := List.forall_mem_cons.mp h.boundary
  have hnonempty := List.forall_mem_cons.mp h.nonempty
  have hchain := List.isChain_cons.mp h.chain
  refine ⟨?_, ?_, ?_, ?_, ?_⟩
  · have hjoin := h.joined
    rw [List.flatMap_cons] at hjoin ⊢
    exact congrArg (c :: ·) hjoin
  · exact List.forall_mem_cons.mpr ⟨List.forall_mem_cons.mpr ⟨hc, hplain.1⟩, hplain.2⟩
  · exact List.forall_mem_cons.mpr hboundary
  · exact List.forall_mem_cons.mpr ⟨by simp, hnonempty.2⟩
  · exact List.isChain_cons.mpr hchain

theorem charLines_isLines (cs : List Char) : IsLines cs (charLines cs) := by
  fun_induction charLines cs with
  | case1 => exact ⟨rfl, by simp, by simp, by simp, .nil⟩
  | case2 cs ih => exact ih.ended (Or.inl rfl) (by simp)
  | case3 c cs hcrlf hc ih =>
    refine ih.ended (Or.inr ⟨c, hc, rfl⟩) fun hr hhead => ?_
    obtain ⟨ds, rfl⟩ := List.head?_eq_some_iff.mp hhead
    exact hcrlf ds (List.singleton_inj.mp hr) rfl
  | case4 c cs hcrlf hc hlines ih =>
    rw [hlines] at ih
    rw [Bool.not_eq_true] at hc
    obtain rfl : [] = cs := ih.joined
    exact ⟨rfl, by simp [hc], by simp, by simp, .singleton _⟩
  | case5 c cs hcrlf hc l ls hlines ih =>
    rw [hlines] at ih
    exact ih.longer (Bool.not_eq_true _ ▸ hc)

/-- A tail byte starts no break. -/
theorem lineBreakAt_tail {b : UInt8} (hb : isTail b = true) (r : Text) :
    lineBreakAt (b::r) = 0 := by
  have h : ∀ b : UInt8, isTail b = true →
      b ∉ [0x0A, 0x0B, 0x0C, 0x0D, 0x1C, 0x1D, 0x1E] ∧ b ≠ 0xC2 ∧ b ≠ 0xE2 := by
    decide +kernel
  obtain ⟨hone, htwo, hthree⟩ := h b hb
  rw [lineBreakAt, if_neg hone, if_neg htwo, if_neg hthree]

/-- A break is seen where a boundary stands, in its whole length. -/
theorem lineBreakAt_char (c : Char) (r : Text) :
    lineBreakAt (String.utf8EncodeChar c ++ r) =
      if isLineBoundary c then (String.utf8EncodeChar c).length else 0 := by
  have hboundary : isLineBoundary c = true ↔ c.toNat = 0x0A ∨ c.toNat = 0x0B ∨ c.toNat = 0x0C ∨
      c.toNat = 0x0D ∨ c.toNat = 0x1C ∨ c.toNat = 0x1D ∨ c.toNat = 0x1E ∨ c.toNat = 0x85 ∨
      c.toNat = 0x2028 ∨ c.toNat = 0x2029 := by
    simp [isLineBoundary]
  generalize isLineBoundary c = boundary at hboundary ⊢
  generalize hbytes : String.utf8EncodeChar c = bs
  have hchar := charBytes c
  rw [hbytes] at hchar
  generalize c.toNat = v at hchar hboundary
  cases hchar with
  | one h =>
    have hbyte : v < 256 := by omega
    have hone : UInt8.ofNat v ∈ [0x0A, 0x0B, 0x0C, 0x0D, 0x1C, 0x1D, 0x1E] ↔ boundary = true := by
      rw [hboundary]
      simp only [List.mem_cons, List.not_mem_nil, or_false, ofNat_eq_iff hbyte,
        UInt8.reduceToNat]
      omega
    have htwo : UInt8.ofNat v ≠ 0xC2 := by
      simp only [ne_eq, ofNat_eq_iff hbyte, UInt8.reduceToNat]
      omega
    have hthree : UInt8.ofNat v ≠ 0xE2 := by
      simp only [ne_eq, ofNat_eq_iff hbyte, UInt8.reduceToNat]
      omega
    rw [List.singleton_append, lineBreakAt, if_neg htwo, if_neg hthree]
    exact if_congr hone rfl rfl
  | two hlow hhigh =>
    have hbyte : 0xC0+v/64 < 256 := by omega
    have hone : UInt8.ofNat (0xC0+v/64) ∉ [0x0A, 0x0B, 0x0C, 0x0D, 0x1C, 0x1D, 0x1E] := by
      simp only [List.mem_cons, List.not_mem_nil, or_false, ofNat_eq_iff hbyte,
        UInt8.reduceToNat]
      omega
    have hthree : UInt8.ofNat (0xC0+v/64) ≠ 0xE2 := by
      simp only [ne_eq, ofNat_eq_iff hbyte, UInt8.reduceToNat]
      omega
    have htwo : (UInt8.ofNat (0xC0+v/64) = 0xC2 ∧ UInt8.ofNat (0x80+v%64) = 0x85) ↔
        boundary = true := by
      rw [hboundary, ofNat_eq_iff (by omega), ofNat_eq_iff (by omega)]
      simp only [UInt8.reduceToNat]
      omega
    rw [List.cons_append, lineBreakAt, if_neg hone, if_neg hthree, ← ite_and]
    simp only [List.cons_append, List.head?_cons, Option.some.injEq]
    exact if_congr htwo rfl rfl
  | three hlow hhigh hscalar =>
    have hbyte : 0xE0+v/4096 < 256 := by omega
    have hone : UInt8.ofNat (0xE0+v/4096) ∉ [0x0A, 0x0B, 0x0C, 0x0D, 0x1C, 0x1D, 0x1E] := by
      simp only [List.mem_cons, List.not_mem_nil, or_false, ofNat_eq_iff hbyte,
        UInt8.reduceToNat]
      omega
    have htwo : UInt8.ofNat (0xE0+v/4096) ≠ 0xC2 := by
      simp only [ne_eq, ofNat_eq_iff hbyte, UInt8.reduceToNat]
      omega
    have hthree : (UInt8.ofNat (0xE0+v/4096) = 0xE2 ∧ UInt8.ofNat (0x80+v/64%64) = 0x80 ∧
        (UInt8.ofNat (0x80+v%64) = 0xA8 ∨ UInt8.ofNat (0x80+v%64) = 0xA9)) ↔
        boundary = true := by
      rw [hboundary, ofNat_eq_iff (by omega), ofNat_eq_iff (by omega), ofNat_eq_iff (by omega),
        ofNat_eq_iff (by omega)]
      simp only [UInt8.reduceToNat]
      omega
    rw [List.cons_append, lineBreakAt, if_neg hone, if_neg htwo, ← ite_and]
    simp only [List.cons_append, List.head?_cons, List.getElem?_cons_succ, List.getElem?_cons_zero,
      Option.some.injEq]
    exact if_congr hthree rfl rfl
  | four hlow hhigh =>
    have hbyte : 0xF0+v/262144 < 256 := by omega
    have hone : UInt8.ofNat (0xF0+v/262144) ∉ [0x0A, 0x0B, 0x0C, 0x0D, 0x1C, 0x1D, 0x1E] := by
      simp only [List.mem_cons, List.not_mem_nil, or_false, ofNat_eq_iff hbyte,
        UInt8.reduceToNat]
      omega
    have htwo : UInt8.ofNat (0xF0+v/262144) ≠ 0xC2 := by
      simp only [ne_eq, ofNat_eq_iff hbyte, UInt8.reduceToNat]
      omega
    have hthree : UInt8.ofNat (0xF0+v/262144) ≠ 0xE2 := by
      simp only [ne_eq, ofNat_eq_iff hbyte, UInt8.reduceToNat]
      omega
    have hfalse : ¬ boundary = true := by
      rw [hboundary]
      omega
    rw [List.cons_append, lineBreakAt, if_neg hone, if_neg htwo, if_neg hthree, if_neg hfalse]

theorem findBreak_tail {tail : Text} (htail : ∀ b ∈ tail, isTail b = true) (r : Text) :
    findBreak (tail ++ r) = (tail ++ (findBreak r).1,(findBreak r).2) := by
  induction tail with
  | nil => rfl
  | cons b tail ih =>
    rw [List.forall_mem_cons] at htail
    rw [List.cons_append, findBreak, if_pos (lineBreakAt_tail htail.1 _), ih htail.2]
    rfl

/-- A character that is no boundary is passed over as a whole. -/
theorem findBreak_plain {c : Char} (hc : isLineBoundary c = false) (r : Text) :
    findBreak (String.utf8EncodeChar c ++ r) =
      (String.utf8EncodeChar c ++ (findBreak r).1,(findBreak r).2) := by
  obtain ⟨lead, tail, hbytes, -, htail⟩ := (charBytes c).split
  have hbreak := lineBreakAt_char c r
  rw [hc, if_neg Bool.false_ne_true] at hbreak
  rw [hbytes, List.cons_append] at hbreak ⊢
  rw [findBreak, if_pos hbreak, findBreak_tail htail]
  rfl

theorem findBreak_boundary {c : Char} (hc : isLineBoundary c = true) (r : Text) :
    findBreak (String.utf8EncodeChar c ++ r) = ([],String.utf8EncodeChar c ++ r) := by
  obtain ⟨lead, tail, hbytes, -, -⟩ := (charBytes c).split
  have hbreak := lineBreakAt_char c r
  rw [if_pos hc] at hbreak
  rw [hbytes, List.cons_append] at hbreak ⊢
  rw [findBreak, if_neg (by rw [hbreak]; exact Nat.succ_ne_zero _)]

/-- One boundary character is consumed, unless it is the CR of a CR LF. -/
theorem skipBreak_boundary {c : Char} {cs : List Char} (hc : isLineBoundary c = true)
    (hcrlf : ∀ ds, c = '\r' → cs = '\n'::ds → False) : skipBreak (encode (c::cs)) = encode cs := by
  have hnot : ¬ ((encode (c::cs)).head? = some 13 ∧ (encode (c::cs))[1]? = some 10) := by
    rintro ⟨hhead, hnext⟩
    obtain ⟨r, hr⟩ := List.head?_eq_some_iff.mp hhead
    obtain ⟨d, ds, hcons, hd, rfl⟩ := ascii_cons_eq_encode (by decide) hr.symm
    obtain ⟨rfl, rfl⟩ := List.cons.inj hcons
    rw [hr, List.getElem?_cons_succ, ← List.head?_eq_getElem?] at hnext
    obtain ⟨r', hr'⟩ := List.head?_eq_some_iff.mp hnext
    obtain ⟨e, es, rfl, he, -⟩ := ascii_cons_eq_encode (by decide) hr'.symm
    refine hcrlf es (Char.toNat_inj.mp hd) ?_
    rw [show e = '\n' from Char.toNat_inj.mp he]
  rw [skipBreak, if_neg hnot, encode_cons, lineBreakAt_char, if_pos hc, List.drop_left]

/-- One round of the outer loop takes one line. -/
theorem findBreak_charLines (cs : List Char) (hcs : cs ≠ []) :
    ∃ line b rest, charLines cs = (line,b)::charLines rest ∧ rest.length < cs.length ∧
      (findBreak (encode cs)).1 = encode line ∧
      skipBreak (findBreak (encode cs)).2 = encode rest := by
  fun_induction charLines cs with
  | case1 => exact absurd rfl hcs
  | case2 cs ih =>
    refine ⟨[], ['\r', '\n'], cs, rfl, by simp, ?_⟩
    rw [encode_cons, findBreak_boundary (by decide)]
    exact ⟨rfl, rfl⟩
  | case3 c cs hcrlf hc ih =>
    refine ⟨[], [c], cs, rfl, Nat.lt_succ_self _, ?_⟩
    rw [encode_cons, findBreak_boundary hc]
    exact ⟨rfl, skipBreak_boundary hc hcrlf⟩
  | case4 c cs hcrlf hc hlines ih =>
    have hjoined := (charLines_isLines cs).joined
    rw [hlines] at hjoined
    obtain rfl : [] = cs := hjoined
    refine ⟨[c], [], [], rfl, Nat.lt_succ_self _, ?_⟩
    rw [encode_cons, findBreak_plain (Bool.eq_false_iff.mpr hc)]
    exact ⟨rfl, rfl⟩
  | case5 c cs hcrlf hc l ls hlines ih =>
    have hne : cs ≠ [] := by
      rintro rfl
      cases hlines
    obtain ⟨line, b, rest, hstep, hless, hfound, hskip⟩ := ih hne
    obtain ⟨rfl, rfl⟩ := List.cons.inj (hlines.symm.trans hstep)
    refine ⟨c::line, b, rest, rfl, Nat.lt_succ_of_lt hless, ?_⟩
    rw [encode_cons, findBreak_plain (Bool.eq_false_iff.mpr hc), hfound]
    exact ⟨rfl, hskip⟩

theorem pySplitLines_encode (cs : List Char) :
    pySplitLines (encode cs) = (charLines cs).map fun l => encode l.1 := by
  induction hn : cs.length using Nat.strongRecOn generalizing cs with
  | _ n ih =>
    cases cs with
    | nil => rw [encode_nil, pySplitLines, dif_pos rfl, charLines, List.map_nil]
    | cons c cs =>
      obtain ⟨line, b, rest, hstep, hless, hfound, hskip⟩ :=
        findBreak_charLines (c::cs) (List.cons_ne_nil c cs)
      have hne : encode (c::cs) ≠ [] := by
        obtain ⟨lead, tail, hbytes, -⟩ := (charBytes c).split
        rw [encode_cons, hbytes]
        exact List.cons_ne_nil _ _
      rw [pySplitLines, dif_neg hne, hfound, hskip, hstep, List.map_cons,
        ih rest.length (hn ▸ hless) rest rfl]

/-- `PySplitLines` cuts a text as `str.splitlines` does, and it sees a break exactly where a boundary
character stands. -/
theorem pySplitLines_splitlines (cs : List Char) :
    (∃ lines, IsLines cs lines ∧ pySplitLines (encode cs) = lines.map fun l => encode l.1) ∧
    ∀ p s, encode cs = p ++ s →
      (lineBreakAt s ≠ 0 ↔ ∃ pre c post, cs = pre ++ c::post ∧ p = encode pre ∧
        isLineBoundary c = true ∧ lineBreakAt s = (String.utf8EncodeChar c).length) := by
  refine ⟨⟨charLines cs, charLines_isLines cs, pySplitLines_encode cs⟩, fun p s hsplit => ?_⟩
  constructor
  · intro hbreak
    rcases split_encode hsplit with ⟨pre, post, rfl, rfl, rfl⟩ | ⟨b, r, rfl, hb⟩
    · cases post with
      | nil => exact absurd rfl hbreak
      | cons c post =>
        rw [encode_cons, lineBreakAt_char] at hbreak ⊢
        split_ifs at hbreak ⊢ with hc
        · exact ⟨pre, c, post, rfl, rfl, hc, rfl⟩
        · exact absurd rfl hbreak
    · exact absurd (lineBreakAt_tail hb r) hbreak
  · rintro ⟨pre, c, post, rfl, rfl, hc, hbreak⟩
    rw [hbreak]
    exact Nat.ne_of_gt (List.length_pos_iff_ne_nil.mpr String.utf8EncodeChar_ne_nil)

end DSigMatcher.Diff
