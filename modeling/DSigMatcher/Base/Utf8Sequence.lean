import DSigMatcher.Base.Text
import DSigMatcher.Framework.Utf8

namespace DSigMatcher.Base
open DSigMatcher.Framework Utf8

/-- What a lead byte announces: the bytes behind it, and its bits of the code point. -/
def leadByte (lead : UInt8) : Option (Nat × Nat) :=
  if 0xC2 ≤ lead ∧ lead ≤ 0xDF then some (1,lead.toNat &&& 0x1F)
  else if 0xE0 ≤ lead ∧ lead ≤ 0xEF then some (2,lead.toNat &&& 0x0F)
  else if 0xF0 ≤ lead ∧ lead ≤ 0xF4 then some (3,lead.toNat &&& 0x07)
  else none

/-- The loop over the continuation bytes: the code point, and what follows it. -/
def continuationBytes : Nat → Nat → Text → Option (Nat × Text)
  | 0, code, r => some (code,r)
  | _+1, _, [] => none
  | need+1, code, c::r =>
    if c &&& 0xC0 = 0x80 then continuationBytes need (code <<< 6 ||| (c.toNat &&& 0x3F)) r
    else none

/-- A sequence of more than one byte, whose code point is checked at the end: what follows it. -/
def utf8Sequence (accepts : Nat → Nat → Bool) (lead : UInt8) (r : Text) : Option Text :=
  match leadByte lead with
  | none => none
  | some (need,code) =>
    if r.length < need then none
    else
      match continuationBytes need code r with
      | none => none
      | some (code,rest) => if accepts need code then some rest else none

/-- A check that admits the code points a sequence of each length is for, and no others. -/
structure SequenceCheck (accepts : Nat → Nat → Bool) : Prop where
  two : ∀ code, 0x80 ≤ code → code < 0x800 → accepts 1 code = true
  three : ∀ code < 0x10000, accepts 2 code = true ↔
    0x800 ≤ code ∧ (code < 0xD800 ∨ 0xDFFF < code)
  four : ∀ code, accepts 3 code = true ↔ 0x10000 ≤ code ∧ code < 0x110000

theorem continuation_tail (c : UInt8) : c &&& 0xC0 = 0x80 ↔ isTail c = true := by
  revert c
  decide +kernel

theorem continuationBytes_cons (need code : Nat) (c : UInt8) (r : Text) :
    continuationBytes (need+1) code (c::r) =
      if isTail c then continuationBytes need (code*64+c.toNat%64) r else none := by
  have hbits : c.toNat &&& 0x3F = c.toNat%64 := Nat.and_two_pow_sub_one_eq_mod c.toNat 6
  have hsum : code <<< 6 ||| c.toNat%64 = code*64+c.toNat%64 := by
    rw [← Nat.shiftLeft_add_eq_or_of_lt (by omega), Nat.shiftLeft_eq]
  rw [continuationBytes, hbits, hsum]
  exact if_congr (continuation_tail c) rfl rfl

theorem leadByte_eq (lead : UInt8) :
    leadByte lead =
      if 0xC2 ≤ lead.toNat ∧ lead.toNat ≤ 0xDF then some (1,lead.toNat-0xC0)
      else if 0xE0 ≤ lead.toNat ∧ lead.toNat ≤ 0xEF then some (2,lead.toNat-0xE0)
      else if 0xF0 ≤ lead.toNat ∧ lead.toNat ≤ 0xF4 then some (3,lead.toNat-0xF0)
      else none := by
  revert lead
  decide +kernel

/-- The code point of continuation bytes. -/
def tailCode (code : Nat) (tail : Text) : Nat := tail.foldl (fun v c => v*64+c.toNat%64) code

theorem continuationBytes_iff (need code code' : Nat) (r rest : Text) :
    continuationBytes need code r = some (code',rest) ↔
      ∃ tail : Text, tail.length = need ∧ (∀ c ∈ tail, isTail c = true) ∧ r = tail ++ rest ∧
        tailCode code tail = code' := by
  induction need generalizing code r with
  | zero =>
    simp only [continuationBytes, Option.some.injEq, Prod.mk.injEq, List.length_eq_zero_iff,
      exists_eq_left, List.not_mem_nil, false_implies, implies_true, true_and, List.nil_append,
      tailCode, List.foldl_nil]
    exact and_comm
  | succ need ih =>
    constructor
    · intro h
      cases r with
      | nil => cases h
      | cons c r =>
        rw [continuationBytes_cons] at h
        split_ifs at h with hc
        obtain ⟨tail, hlength, htail, rfl, hcode⟩ := (ih _ r).mp h
        exact ⟨c::tail, by rw [List.length_cons, hlength], List.forall_mem_cons.mpr ⟨hc, htail⟩,
          rfl, hcode⟩
    · rintro ⟨tail, hlength, htail, rfl, hcode⟩
      obtain ⟨c, tail, rfl⟩ := List.exists_cons_of_length_eq_add_one hlength
      rw [List.forall_mem_cons] at htail
      rw [List.cons_append, continuationBytes_cons, if_pos htail.1]
      exact (ih _ _).mpr ⟨tail, Nat.succ_inj.mp hlength, htail.2, rfl, hcode⟩

theorem utf8Sequence_iff (accepts : Nat → Nat → Bool) (lead : UInt8) (r rest : Text) :
    utf8Sequence accepts lead r = some rest ↔
      ∃ (code : Nat) (tail : Text), leadByte lead = some (tail.length,code) ∧
        (∀ c ∈ tail, isTail c = true) ∧ r = tail ++ rest ∧
        accepts tail.length (tailCode code tail) = true := by
  unfold utf8Sequence
  cases hlead : leadByte lead with
  | none => simp
  | some announced =>
    obtain ⟨need, code⟩ := announced
    simp only
    constructor
    · intro h
      split_ifs at h with hshort
      cases hbytes : continuationBytes need code r with
      | none => simp [hbytes] at h
      | some result =>
        obtain ⟨code', rest'⟩ := result
        rw [hbytes] at h
        simp only [Option.ite_none_right_eq_some, Option.some.injEq] at h
        obtain ⟨haccepts, rfl⟩ := h
        obtain ⟨tail, rfl, htail, hr, rfl⟩ := (continuationBytes_iff _ _ _ _ _).mp hbytes
        exact ⟨code, tail, rfl, htail, hr, haccepts⟩
    · rintro ⟨code', tail, hannounced, htail, rfl, haccepts⟩
      obtain ⟨rfl, rfl⟩ := Prod.mk.inj (Option.some.inj hannounced)
      have hbytes := (continuationBytes_iff tail.length code _ (tail ++ rest) rest).mpr
        ⟨tail, rfl, htail, rfl, rfl⟩
      rw [if_neg (by rw [List.length_append]; omega), hbytes]
      exact if_pos haccepts

theorem utf8Sequence_length {accepts : Nat → Nat → Bool} {lead : UInt8} {r rest : Text}
    (h : utf8Sequence accepts lead r = some rest) : rest.length ≤ r.length := by
  obtain ⟨code, tail, -, -, rfl, -⟩ := (utf8Sequence_iff _ _ _ _).mp h
  rw [List.length_append]
  omega

section
variable {accepts : Nat → Nat → Bool} (h : SequenceCheck accepts) {lead : UInt8} {r rest : Text}
include h

/-- What is read as a sequence is a character. -/
theorem charBytes_of_utf8Sequence (hseq : utf8Sequence accepts lead r = some rest) :
    ∃ v bs, CharBytes v bs ∧ 0x80 ≤ v ∧ lead::r = bs ++ rest := by
  obtain ⟨code, tail, hlead, htail, rfl, haccepts⟩ := (utf8Sequence_iff _ _ _ _).mp hseq
  have hbyte : ∀ c ∈ tail, ∀ n, n = c.toNat%64 → UInt8.ofNat (0x80+n) = c := by
    intro c hc n hn
    have hrange := (isTail_iff c).mp (htail c hc)
    rw [ofNat_eq_iff (by omega)]
    omega
  rw [leadByte_eq] at hlead
  split_ifs at hlead with h2 h3 h4
  · obtain ⟨hlength, rfl⟩ := Prod.mk.inj (Option.some.inj hlead)
    obtain ⟨x, rfl⟩ := List.length_eq_one_iff.mp hlength.symm
    refine ⟨(lead.toNat-0xC0)*64+x.toNat%64, _, .two (by omega) (by omega), by omega, ?_⟩
    rw [hbyte x (by simp) _ (by omega), (ofNat_eq_iff (by omega) lead).mpr (by omega)]
    rfl
  · obtain ⟨hlength, rfl⟩ := Prod.mk.inj (Option.some.inj hlead)
    obtain ⟨x, y, rfl⟩ := List.length_eq_two.mp hlength.symm
    have hlegal := (h.three (((lead.toNat-0xE0)*64+x.toNat%64)*64+y.toNat%64) (by omega)).mp haccepts
    refine ⟨((lead.toNat-0xE0)*64+x.toNat%64)*64+y.toNat%64, _,
      .three hlegal.1 (by omega) hlegal.2, by omega, ?_⟩
    rw [hbyte x (by simp) _ (by omega), hbyte y (by simp) _ (by omega),
      (ofNat_eq_iff (by omega) lead).mpr (by omega)]
    rfl
  · obtain ⟨hlength, rfl⟩ := Prod.mk.inj (Option.some.inj hlead)
    obtain ⟨x, y, z, rfl⟩ := List.length_eq_three.mp hlength.symm
    have hlegal := (h.four ((((lead.toNat-0xF0)*64+x.toNat%64)*64+y.toNat%64)*64+z.toNat%64)).mp
      haccepts
    refine ⟨(((lead.toNat-0xF0)*64+x.toNat%64)*64+y.toNat%64)*64+z.toNat%64, _,
      .four hlegal.1 hlegal.2, by omega, ?_⟩
    rw [hbyte x (by simp) _ (by omega), hbyte y (by simp) _ (by omega),
      hbyte z (by simp) _ (by omega), (ofNat_eq_iff (by omega) lead).mpr (by omega)]
    rfl

/-- A character of more than one byte is read as a sequence. -/
theorem utf8Sequence_of_charBytes {v : Nat} {bs : Text} (hbytes : CharBytes v bs) (hv : 0x80 ≤ v)
    (hsplit : lead::r = bs ++ rest) : utf8Sequence accepts lead r = some rest := by
  have htail (n : Nat) : isTail (UInt8.ofNat (0x80+n%64)) = true ∧
      (UInt8.ofNat (0x80+n%64)).toNat%64 = n%64 := by
    rw [isTail_iff, toNat_ofNat (by omega)]
    omega
  rw [utf8Sequence_iff, leadByte_eq]
  cases hbytes with
  | one h => omega
  | two hlow hhigh =>
    obtain ⟨rfl, rfl⟩ := List.cons.inj hsplit
    have hcode : tailCode (v/64) [UInt8.ofNat (0x80+v%64)] = v := by
      rw [tailCode, List.foldl_cons, (htail v).2, List.foldl_nil]
      omega
    rw [toNat_ofNat (by omega), if_pos (by omega), Nat.add_sub_cancel_left]
    refine ⟨v/64, [UInt8.ofNat (0x80+v%64)], rfl, by simp only [List.mem_singleton, forall_eq, htail],
      rfl, ?_⟩
    rw [hcode]
    exact h.two v hlow hhigh
  | three hlow hhigh hscalar =>
    obtain ⟨rfl, rfl⟩ := List.cons.inj hsplit
    have hcode : tailCode (v/4096) [UInt8.ofNat (0x80+v/64%64), UInt8.ofNat (0x80+v%64)] = v := by
      rw [tailCode, List.foldl_cons, (htail (v/64)).2, List.foldl_cons, (htail v).2, List.foldl_nil]
      omega
    rw [toNat_ofNat (by omega), if_neg (by omega), if_pos (by omega), Nat.add_sub_cancel_left]
    refine ⟨v/4096, [UInt8.ofNat (0x80+v/64%64), UInt8.ofNat (0x80+v%64)], rfl,
      by simp only [List.mem_cons, List.not_mem_nil, or_false, forall_eq_or_imp, forall_eq, htail,
        and_self], rfl, ?_⟩
    rw [hcode]
    exact (h.three v hhigh).mpr ⟨hlow, hscalar⟩
  | four hlow hhigh =>
    obtain ⟨rfl, rfl⟩ := List.cons.inj hsplit
    have hcode : tailCode (v/262144) [UInt8.ofNat (0x80+v/4096%64), UInt8.ofNat (0x80+v/64%64),
        UInt8.ofNat (0x80+v%64)] = v := by
      rw [tailCode, List.foldl_cons, (htail (v/4096)).2, List.foldl_cons, (htail (v/64)).2,
        List.foldl_cons, (htail v).2, List.foldl_nil]
      omega
    rw [toNat_ofNat (by omega), if_neg (by omega), if_neg (by omega), if_pos (by omega),
      Nat.add_sub_cancel_left]
    refine ⟨v/262144, [UInt8.ofNat (0x80+v/4096%64), UInt8.ofNat (0x80+v/64%64),
      UInt8.ofNat (0x80+v%64)], rfl, by simp only [List.mem_cons, List.not_mem_nil, or_false,
        forall_eq_or_imp, forall_eq, htail, and_self], rfl, ?_⟩
    rw [hcode]
    exact (h.four v).mpr ⟨hlow, hhigh⟩

/-- A text with a lead byte that is not ASCII is encoded text if it starts with a sequence and goes
on as encoded text. -/
theorem encoded_sequence (hlead : ¬ lead < 0x80) :
    (∃ cs, lead::r = encode cs) ↔
      ∃ rest, utf8Sequence accepts lead r = some rest ∧ ∃ cs, rest = encode cs := by
  constructor
  · rintro ⟨cs, hcs⟩
    obtain ⟨c, ds, tail, rfl, hchar, rfl⟩ := cons_eq_encode hcs
    have hbytes := charBytes c
    rw [hchar] at hbytes
    refine ⟨encode ds, utf8Sequence_of_charBytes h hbytes ?_ rfl, ds, rfl⟩
    by_contra hsmall
    exact hlead (UInt8.lt_iff_toNat_lt.mpr (hbytes.ascii_iff.mpr (by omega)))
  · rintro ⟨rest, hseq, cs, rfl⟩
    obtain ⟨v, bs, hbytes, -, hsplit⟩ := charBytes_of_utf8Sequence h hseq
    obtain ⟨c, -, rfl⟩ := hbytes.exists_char
    exact ⟨c::cs, hsplit⟩

end

/-- An ASCII byte is a character of its own. -/
theorem encoded_ascii {lead : UInt8} (hlead : lead < 0x80) (r : Text) :
    (∃ cs, lead::r = encode cs) ↔ ∃ cs, r = encode cs := by
  have hsmall : lead.toNat < 0x80 := UInt8.lt_iff_toNat_lt.mp hlead
  constructor
  · rintro ⟨cs, hcs⟩
    obtain ⟨c, ds, -, -, hr⟩ := ascii_cons_eq_encode hsmall hcs
    exact ⟨ds, hr⟩
  · rintro ⟨cs, rfl⟩
    obtain ⟨c, -, hchar⟩ := (CharBytes.one hsmall).exists_char
    exact ⟨c::cs, by rw [encode_cons, hchar, UInt8.ofNat_toNat, List.singleton_append]⟩

end DSigMatcher.Base
