import Mathlib

namespace DSigMatcher.Framework.Utf8

/-- The bytes of a text in UTF-8. -/
def encode (cs : List Char) : List UInt8 := cs.flatMap String.utf8EncodeChar

@[simp] theorem encode_nil : encode [] = [] := rfl

theorem encode_cons (c : Char) (cs : List Char) :
    encode (c::cs) = String.utf8EncodeChar c ++ encode cs := rfl

theorem encode_append (cs ds : List Char) : encode (cs ++ ds) = encode cs ++ encode ds :=
  List.flatMap_append

/-- A byte behind the first one of a character. -/
def isTail (b : UInt8) : Bool := 128 ≤ b.toNat && b.toNat < 192

theorem isTail_iff (b : UInt8) : isTail b = true ↔ 128 ≤ b.toNat ∧ b.toNat < 192 := by
  simp [isTail]

/-- The bytes of a scalar value, by their number. -/
inductive CharBytes (v : Nat) : List UInt8 → Prop
  | one (h : v < 0x80) : CharBytes v [.ofNat v]
  | two (hlow : 0x80 ≤ v) (hhigh : v < 0x800) :
      CharBytes v [.ofNat (0xC0+v/64), .ofNat (0x80+v%64)]
  | three (hlow : 0x800 ≤ v) (hhigh : v < 0x10000) (hscalar : v < 0xD800 ∨ 0xDFFF < v) :
      CharBytes v [.ofNat (0xE0+v/4096), .ofNat (0x80+v/64%64), .ofNat (0x80+v%64)]
  | four (hlow : 0x10000 ≤ v) (hhigh : v < 0x110000) :
      CharBytes v [.ofNat (0xF0+v/262144), .ofNat (0x80+v/4096%64), .ofNat (0x80+v/64%64),
        .ofNat (0x80+v%64)]

theorem charBytes (c : Char) : CharBytes c.toNat (String.utf8EncodeChar c) := by
  have hvalid : c.toNat < 0xD800 ∨ 0xDFFF < c.toNat ∧ c.toNat < 0x110000 := c.valid
  unfold String.utf8EncodeChar
  change CharBytes c.toNat (if c.toNat ≤ 0x7F then _ else if c.toNat ≤ 0x7FF then _ else
    if c.toNat ≤ 0xFFFF then _ else _)
  split_ifs with h1 h2 h3
  · exact .one (by omega)
  · have hlead : c.toNat/64%0x20+0xC0 = 0xC0+c.toNat/64 := by omega
    have htail : c.toNat%0x40+0x80 = 0x80+c.toNat%64 := by omega
    exact hlead ▸ htail ▸ .two (by omega) (by omega)
  · have hlead : c.toNat/4096%0x10+0xE0 = 0xE0+c.toNat/4096 := by omega
    have htail : c.toNat/64%0x40+0x80 = 0x80+c.toNat/64%64 := by omega
    have htail' : c.toNat%0x40+0x80 = 0x80+c.toNat%64 := by omega
    exact hlead ▸ htail ▸ htail' ▸ .three (by omega) (by omega) (by omega)
  · have hlead : c.toNat/262144%0x08+0xF0 = 0xF0+c.toNat/262144 := by omega
    have htail : c.toNat/4096%0x40+0x80 = 0x80+c.toNat/4096%64 := by omega
    have htail' : c.toNat/64%0x40+0x80 = 0x80+c.toNat/64%64 := by omega
    have htail'' : c.toNat%0x40+0x80 = 0x80+c.toNat%64 := by omega
    exact hlead ▸ htail ▸ htail' ▸ htail'' ▸ .four (by omega) (by omega)

theorem CharBytes.unique {v : Nat} {bs bs' : List UInt8} (h : CharBytes v bs)
    (h' : CharBytes v bs') : bs = bs' := by
  cases h <;> cases h' <;> first | rfl | omega

/-- A scalar value of these bytes is a character with these bytes. -/
theorem CharBytes.exists_char {v : Nat} {bs : List UInt8} (h : CharBytes v bs) :
    ∃ c : Char, c.toNat = v ∧ String.utf8EncodeChar c = bs := by
  have hvalid : v.isValidChar := by
    cases h with
    | one h => exact Or.inl (by omega)
    | two hlow hhigh => exact Or.inl (by omega)
    | three hlow hhigh hscalar =>
      rcases hscalar with hless | hmore
      · exact Or.inl hless
      · exact Or.inr ⟨hmore, by omega⟩
    | four hlow hhigh => exact Or.inr ⟨by omega, hhigh⟩
  exact ⟨Char.ofNatAux v hvalid, rfl, (charBytes (Char.ofNatAux v hvalid)).unique h⟩

theorem toNat_ofNat {n : Nat} (h : n < 256) : (UInt8.ofNat n).toNat = n := by
  rw [UInt8.toNat_ofNat', Nat.mod_eq_of_lt h]

theorem ofNat_eq_iff {n : Nat} (h : n < 256) (b : UInt8) : UInt8.ofNat n = b ↔ n = b.toNat := by
  rw [← UInt8.toNat_inj, toNat_ofNat h]

/-- A character is one byte that is no tail, and tail bytes. -/
theorem CharBytes.split {v : Nat} {bs : List UInt8} (h : CharBytes v bs) :
    ∃ lead tail, bs = lead::tail ∧ isTail lead = false ∧ ∀ b ∈ tail, isTail b = true := by
  have htail (n : Nat) : isTail (UInt8.ofNat (0x80+n%64)) = true := by
    rw [isTail_iff, toNat_ofNat (by omega)]
    omega
  have hlead {n : Nat} (hn : n < 128 ∨ 192 ≤ n) (hbyte : n < 256) :
      isTail (UInt8.ofNat n) = false := by
    rw [← Bool.not_eq_true, isTail_iff, toNat_ofNat hbyte]
    omega
  cases h with
  | one h => exact ⟨_, _, rfl, hlead (by omega) (by omega), by simp⟩
  | two hlow hhigh =>
    exact ⟨_, _, rfl, hlead (by omega) (by omega), List.forall_mem_singleton.mpr (htail _)⟩
  | three hlow hhigh hscalar =>
    exact ⟨_, _, rfl, hlead (by omega) (by omega), List.forall_mem_cons.mpr
      ⟨htail _, List.forall_mem_singleton.mpr (htail _)⟩⟩
  | four hlow hhigh =>
    exact ⟨_, _, rfl, hlead (by omega) (by omega), List.forall_mem_cons.mpr
      ⟨htail _, List.forall_mem_cons.mpr ⟨htail _, List.forall_mem_singleton.mpr (htail _)⟩⟩⟩

theorem CharBytes.ascii {v : Nat} {bs : List UInt8} (h : CharBytes v bs) (hv : v < 0x80) :
    bs = [.ofNat v] := h.unique (.one hv)

theorem CharBytes.ascii_iff {v : Nat} {b : UInt8} {tail : List UInt8}
    (h : CharBytes v (b::tail)) : b.toNat < 0x80 ↔ v < 0x80 := by
  cases h with
  | one h => rw [toNat_ofNat (by omega)]
  | two hlow hhigh =>
    rw [toNat_ofNat (by omega)]
    omega
  | three hlow hhigh hscalar =>
    rw [toNat_ofNat (by omega)]
    omega
  | four hlow hhigh =>
    rw [toNat_ofNat (by omega)]
    omega

/-- The first byte of a text is that of its first character. -/
theorem cons_eq_encode {b : UInt8} {r : List UInt8} {cs : List Char} (h : b::r = encode cs) :
    ∃ c ds tail, cs = c::ds ∧ String.utf8EncodeChar c = b::tail ∧ r = tail ++ encode ds := by
  cases cs with
  | nil => cases h
  | cons c ds =>
    obtain ⟨lead, tail, hbytes, -⟩ := (charBytes c).split
    rw [encode_cons, hbytes, List.cons_append, List.cons.injEq] at h
    exact ⟨c, ds, tail, rfl, by rw [hbytes, h.1], h.2⟩

/-- An ASCII byte at the start is a character of its own. -/
theorem ascii_cons_eq_encode {b : UInt8} {r : List UInt8} {cs : List Char} (hb : b.toNat < 0x80)
    (h : b::r = encode cs) : ∃ c ds, cs = c::ds ∧ c.toNat = b.toNat ∧ r = encode ds := by
  obtain ⟨c, ds, tail, rfl, hchar, rfl⟩ := cons_eq_encode h
  have hbytes := charBytes c
  rw [hchar] at hbytes
  have hsmall := hbytes.ascii_iff.mp hb
  obtain ⟨rfl, rfl⟩ := List.cons.inj (hbytes.ascii hsmall)
  exact ⟨c, ds, rfl, (toNat_ofNat (by omega)).symm, rfl⟩

/-- A rest of an encoded text starts at a character or with a tail byte. -/
theorem split_encode {cs : List Char} {p s : List UInt8} (h : encode cs = p ++ s) :
    (∃ pre post, cs = pre ++ post ∧ p = encode pre ∧ s = encode post) ∨
      ∃ b r, s = b::r ∧ isTail b = true := by
  induction cs generalizing p with
  | nil =>
    obtain ⟨rfl, rfl⟩ := List.append_eq_nil_iff.mp h.symm
    exact Or.inl ⟨[], [], rfl, rfl, rfl⟩
  | cons c cs ih =>
    rw [encode_cons, List.append_eq_append_iff] at h
    obtain ⟨lead, tail, hbytes, -, htail⟩ := (charBytes c).split
    rcases h with ⟨p', rfl, hrest⟩ | ⟨s', hchar, rfl⟩
    · rcases ih hrest with ⟨pre, post, rfl, rfl, rfl⟩ | hinside
      · exact Or.inl ⟨c::pre, post, rfl, rfl, rfl⟩
      · exact Or.inr hinside
    · cases p with
      | nil => exact Or.inl ⟨[], c::cs, rfl, rfl, by rw [encode_cons, hchar]; rfl⟩
      | cons b p =>
        rw [hbytes, List.cons_append, List.cons.injEq] at hchar
        cases s' with
        | nil =>
          refine Or.inl ⟨[c], cs, rfl, ?_, rfl⟩
          rw [encode_cons, encode_nil, List.append_nil, hbytes, hchar.1, hchar.2,
            List.append_nil]
        | cons d s' =>
          exact Or.inr ⟨d, s' ++ encode cs, rfl, htail d (by rw [hchar.2]; simp)⟩

end DSigMatcher.Framework.Utf8
