import Mathlib

namespace DSigMatcher.Framework

/-- A digest over blocks: what a block makes of the state, and the bytes a length is written as
behind the padding. -/
structure BlockDigest (σ : Type*) where
  size : Nat
  tail : Nat
  start : σ
  transform : σ → List UInt8 → σ
  lengthBytes : UInt64 → List UInt8
  length_lengthBytes : ∀ bits, (lengthBytes bits).length = tail
  tail_pos : 0 < tail
  tail_lt : tail < size

namespace BlockDigest
variable {σ : Type*} (D : BlockDigest σ)

theorem size_pos : 0 < D.size := Nat.lt_trans D.tail_pos D.tail_lt

/-- The blocks of a message, one after the other. -/
def compress (state : σ) (message : List UInt8) : σ :=
  if _h : D.size ≤ message.length then
    compress (D.transform state (message.take D.size)) (message.drop D.size)
  else state
  termination_by message.length
  decreasing_by
    have hpos := D.size_pos
    rw [List.length_drop]
    omega

/-- The zeros that fill the last block up to the length. -/
def zeros (length : Nat) : Nat := (2*D.size-D.tail-1-length%D.size)%D.size

/-- The message, a marker, zeros and the length in bits, in 64 bits. -/
def padded (message : List UInt8) : List UInt8 :=
  message ++ (0x80::List.replicate (D.zeros message.length) 0) ++
    D.lengthBytes (UInt64.ofNat message.length*8)

/-- The state that the whole padded message leads to. -/
def digest (message : List UInt8) : σ := D.compress D.start (D.padded message)

/-- A digest in progress: the first bytes of the buffer wait for the rest of their block. -/
structure Stream where
  state : σ
  bitCount : UInt64
  buffer : List UInt8
  bufferLength : Nat
  length_buffer : buffer.length = D.size
  bufferLength_lt : bufferLength < D.size

namespace Stream
variable {D}

def init : Stream D where
  state := D.start
  bitCount := 0
  buffer := List.replicate D.size 0
  bufferLength := 0
  length_buffer := List.length_replicate
  bufferLength_lt := D.size_pos

/-- The buffer with bytes copied behind those that wait. -/
def copied (s : Stream D) (chunk : List UInt8) : List UInt8 :=
  s.buffer.take s.bufferLength ++ chunk ++ s.buffer.drop (s.bufferLength+chunk.length)

theorem length_copied (s : Stream D) {chunk : List UInt8}
    (h : s.bufferLength+chunk.length ≤ D.size) : (s.copied chunk).length = D.size := by
  have hbuffer := s.length_buffer
  rw [copied, List.length_append, List.length_append, List.length_take, List.length_drop]
  omega

/-- A chunk that the block has room for; a full block is transformed. -/
def take (s : Stream D) (chunk : List UInt8) (h : s.bufferLength+chunk.length ≤ D.size) :
    Stream D :=
  if hfull : s.bufferLength+chunk.length = D.size then
    { state := D.transform s.state (s.copied chunk)
      bitCount := s.bitCount
      buffer := s.copied chunk
      bufferLength := 0
      length_buffer := s.length_copied h
      bufferLength_lt := D.size_pos }
  else
    { s with
      buffer := s.copied chunk
      bufferLength := s.bufferLength+chunk.length
      length_buffer := s.length_copied h
      bufferLength_lt := Nat.lt_of_le_of_ne h hfull }

theorem chunk_le (s : Stream D) (data : List UInt8) :
    s.bufferLength+(data.take (D.size-s.bufferLength)).length ≤ D.size := by
  have hlt := s.bufferLength_lt
  rw [List.length_take]
  omega

/-- The loop of an update: a chunk at a time. -/
def fill (s : Stream D) (data : List UInt8) : Stream D :=
  if _h : 0 < data.length then
    fill (s.take (data.take (D.size-s.bufferLength)) (s.chunk_le data))
      (data.drop (D.size-s.bufferLength))
  else s
  termination_by data.length
  decreasing_by
    have hlt := s.bufferLength_lt
    rw [List.length_drop]
    omega

def update (s : Stream D) (data : List UInt8) : Stream D :=
  fill { s with bitCount := s.bitCount+UInt64.ofNat data.length*8 } data

/-- The stream has taken in a message: all its whole blocks are transformed, and the rest waits. -/
def Holds (s : Stream D) (message : List UInt8) : Prop :=
  ∃ blocks, D.size ∣ blocks.length ∧ s.state = D.compress D.start blocks ∧
    message = blocks ++ s.buffer.take s.bufferLength

end Stream

section
variable {D}

theorem compress_block {block : List UInt8} (hblock : block.length = D.size) (state : σ)
    (message : List UInt8) :
    D.compress state (block ++ message) = D.compress (D.transform state block) message := by
  have hle : D.size ≤ (block ++ message).length := by
    rw [List.length_append]
    omega
  rw [compress, dif_pos hle, ← hblock, List.take_left, List.drop_left]

theorem compress_nil (state : σ) : D.compress state [] = state := by
  have hpos := D.size_pos
  rw [compress, dif_neg]
  rw [List.length_nil]
  omega

/-- What follows whole blocks goes on from their state. -/
theorem compress_append {blocks : List UInt8} (hblocks : D.size ∣ blocks.length) (state : σ)
    (message : List UInt8) :
    D.compress state (blocks ++ message) = D.compress (D.compress state blocks) message := by
  obtain ⟨n, hn⟩ := hblocks
  induction n generalizing blocks state with
  | zero =>
    rw [Nat.mul_zero] at hn
    rw [List.length_eq_zero_iff.mp hn, compress_nil, List.nil_append]
  | succ n ih =>
    have htake : (blocks.take D.size).length = D.size := by
      rw [List.length_take, hn, Nat.mul_succ]
      omega
    have hdrop : (blocks.drop D.size).length = D.size*n := by
      rw [List.length_drop, hn, Nat.mul_succ, Nat.add_sub_cancel]
    rw [← List.take_append_drop D.size blocks, List.append_assoc, compress_block htake,
      compress_block htake, ih _ hdrop]

end

namespace Stream
variable {D} {s : Stream D} {message : List UInt8}

theorem holds_init : (init : Stream D).Holds [] :=
  ⟨[], Nat.dvd_zero _, compress_nil _ |>.symm, rfl⟩

/-- The bytes that wait behind a copied chunk. -/
theorem copied_take (s : Stream D) (chunk : List UInt8) :
    (s.copied chunk).take (s.bufferLength+chunk.length) =
      s.buffer.take s.bufferLength ++ chunk := by
  have hlt := s.bufferLength_lt
  have hbuffer := s.length_buffer
  have hlen : (s.buffer.take s.bufferLength ++ chunk).length = s.bufferLength+chunk.length := by
    rw [List.length_append, List.length_take, hbuffer]
    omega
  rw [copied, ← hlen, List.take_left]

theorem holds_take {chunk : List UInt8} (h : s.bufferLength+chunk.length ≤ D.size)
    (hs : s.Holds message) : (s.take chunk h).Holds (message ++ chunk) := by
  obtain ⟨blocks, hblocks, hstate, rfl⟩ := hs
  have hcopied := s.copied_take chunk
  have hlen := s.length_copied h
  unfold take
  split_ifs with hfull
  · rw [hfull, List.take_of_length_le (Nat.le_of_eq hlen)] at hcopied
    refine ⟨blocks ++ s.copied chunk, ?_, ?_, ?_⟩
    · rw [List.length_append, hlen]
      exact Nat.dvd_add hblocks (Nat.dvd_refl _)
    · show D.transform s.state (s.copied chunk) = _
      have hone := compress_block hlen (D.compress D.start blocks) []
      rw [List.append_nil, compress_nil] at hone
      rw [compress_append hblocks, hone, hstate]
    · rw [List.take_zero, List.append_nil, hcopied, List.append_assoc]
  · refine ⟨blocks, hblocks, hstate, ?_⟩
    rw [List.append_assoc, ← hcopied]

theorem holds_fill (s : Stream D) (data : List UInt8) (hs : s.Holds message) :
    (s.fill data).Holds (message ++ data) := by
  induction s, data using fill.induct generalizing message with
  | case1 s data h ih =>
    rw [fill, dif_pos h]
    have hnext := ih (holds_take (s.chunk_le data) hs)
    rwa [List.append_assoc, List.take_append_drop] at hnext
  | case2 s data h =>
    have hnil : data = [] := List.length_eq_zero_iff.mp (by omega)
    rw [fill, dif_neg h, hnil, List.append_nil]
    exact hs

theorem fill_bitCount (s : Stream D) (data : List UInt8) : (s.fill data).bitCount = s.bitCount := by
  induction s, data using fill.induct with
  | case1 s data h ih =>
    rw [fill, dif_pos h, ih, take]
    split_ifs <;> rfl
  | case2 s data h => rw [fill, dif_neg h]

/-- An update takes in its bytes. -/
theorem holds_update (data : List UInt8) (hs : s.Holds message) :
    (s.update data).Holds (message ++ data) :=
  holds_fill { s with bitCount := s.bitCount+UInt64.ofNat data.length*8 } data hs

theorem update_bitCount (s : Stream D) (data : List UInt8) :
    (s.update data).bitCount = s.bitCount+UInt64.ofNat data.length*8 := fill_bitCount _ data

/-- How many bytes wait is known from the length of the message. -/
theorem Holds.bufferLength (hs : s.Holds message) : s.bufferLength = message.length%D.size := by
  obtain ⟨blocks, ⟨n, hn⟩, -, rfl⟩ := hs
  have hlt := s.bufferLength_lt
  rw [List.length_append, List.length_take, s.length_buffer, hn, Nat.min_eq_left (Nat.le_of_lt hlt),
    Nat.mul_add_mod, Nat.mod_eq_of_lt hlt]

/-- A stream of whole blocks is in the state they lead to. -/
theorem Holds.state (hs : s.Holds message) (hmessage : D.size ∣ message.length) :
    s.state = D.compress D.start message := by
  have hlen := hs.bufferLength
  rw [Nat.mod_eq_zero_of_dvd hmessage] at hlen
  obtain ⟨blocks, -, hstate, rfl⟩ := hs
  rw [hlen, List.take_zero, List.append_nil, hstate]

/-- One more byte waits, or none. -/
theorem bufferLength_update_byte (s : Stream D) (x : UInt8) :
    (s.update [x]).bufferLength = (s.bufferLength+1)%D.size := by
  have hlt := s.bufferLength_lt
  have hdrop : [x].drop (D.size-s.bufferLength) = [] :=
    List.drop_eq_nil_of_le (by rw [List.length_singleton]; omega)
  have htake : [x].take (D.size-s.bufferLength) = [x] :=
    List.take_of_length_le (by rw [List.length_singleton]; omega)
  rw [update, fill, dif_pos (by simp), fill, dif_neg (by rw [hdrop]; simp), take]
  simp only [htake, List.length_singleton]
  split_ifs with hfull
  · rw [hfull, Nat.mod_self]
  · show s.bufferLength+1 = _
    rw [Nat.mod_eq_of_lt (by omega)]

/-- How many bytes are left up to where the length is written. -/
def missing (s : Stream D) : Nat := (2*D.size-D.tail-s.bufferLength)%D.size

theorem missing_eq_zero : s.missing = 0 ↔ s.bufferLength = D.size-D.tail := by
  have hlt := s.bufferLength_lt
  have htail := D.tail_lt
  have hpos := D.tail_pos
  rw [missing]
  rcases Nat.lt_trichotomy s.bufferLength (D.size-D.tail) with h | h | h
  · rw [show 2*D.size-D.tail-s.bufferLength = (D.size-D.tail-s.bufferLength)+D.size by omega,
      Nat.add_mod_right, Nat.mod_eq_of_lt (by omega)]
    omega
  · rw [show 2*D.size-D.tail-s.bufferLength = D.size by omega, Nat.mod_self]
    exact iff_of_true rfl h
  · rw [Nat.mod_eq_of_lt (by omega)]
    omega

theorem missing_update_byte (x : UInt8) (h : s.missing ≠ 0) :
    (s.update [x]).missing+1 = s.missing := by
  have hlt := s.bufferLength_lt
  have htail := D.tail_lt
  have hpos := D.tail_pos
  have hne := mt missing_eq_zero.mpr h
  rw [missing, missing, bufferLength_update_byte]
  rcases Nat.lt_or_ge s.bufferLength (D.size-D.tail) with hbefore | hbehind
  · rw [Nat.mod_eq_of_lt (a := s.bufferLength+1) (by omega),
      show 2*D.size-D.tail-s.bufferLength = (D.size-D.tail-s.bufferLength)+D.size by omega,
      show 2*D.size-D.tail-(s.bufferLength+1) = (D.size-D.tail-s.bufferLength-1)+D.size by omega,
      Nat.add_mod_right, Nat.add_mod_right, Nat.mod_eq_of_lt (by omega), Nat.mod_eq_of_lt (by omega)]
    omega
  · rcases Nat.lt_or_ge (s.bufferLength+1) D.size with hnext | hnext
    · rw [Nat.mod_eq_of_lt hnext, Nat.mod_eq_of_lt (by omega), Nat.mod_eq_of_lt (by omega)]
      omega
    · have hfull : s.bufferLength+1 = D.size := by omega
      rw [hfull, Nat.mod_self, Nat.sub_zero,
        show 2*D.size-D.tail = (D.size-D.tail)+D.size by omega, Nat.add_mod_right,
        Nat.mod_eq_of_lt (by omega), Nat.mod_eq_of_lt (by omega)]
      omega

/-- `BitCount_ = Bits`. -/
def withBits (s : Stream D) (bits : UInt64) : Stream D := { s with bitCount := bits }

/-- Zeros are taken in until the length fits behind them; the count of bits stays that of the
message. -/
def pad (bits : UInt64) (s : Stream D) : Stream D :=
  if _h : s.bufferLength ≠ D.size-D.tail then pad bits ((s.update [0]).withBits bits) else s
  termination_by s.missing
  decreasing_by
    exact Nat.lt_of_succ_le (Nat.le_of_eq (missing_update_byte 0 (mt missing_eq_zero.mp _h)))

/-- Marker, zeros and length, and the state they lead to. -/
def finish (s : Stream D) : σ :=
  let marked := (s.update [0x80]).withBits s.bitCount
  ((marked.pad s.bitCount).update (D.lengthBytes s.bitCount)).state

theorem holds_pad (bits : UInt64) (s : Stream D) (hs : s.Holds message) :
    (s.pad bits).Holds (message ++ List.replicate s.missing 0) ∧
      (s.pad bits).bufferLength = D.size-D.tail := by
  induction s using pad.induct bits generalizing message with
  | case1 s h ih =>
    obtain ⟨hnext, hend⟩ := ih (holds_update [0] hs)
    have hmissing : s.missing = ((s.update [0]).withBits bits).missing+1 :=
      (missing_update_byte 0 (mt missing_eq_zero.mp h)).symm
    rw [pad, dif_pos h, hmissing, List.replicate_succ]
    rw [List.append_assoc, List.singleton_append] at hnext
    exact ⟨hnext, hend⟩
  | case2 s h =>
    have hend := missing_eq_zero.mpr (not_not.mp h)
    rw [pad, dif_neg h, hend, List.replicate_zero, List.append_nil]
    exact ⟨hs, not_not.mp h⟩

/-- What is missing behind the marker are the zeros. -/
theorem missing_marked (hs : s.Holds (message ++ [0x80])) : s.missing = D.zeros message.length := by
  have hlt := Nat.mod_lt message.length D.size_pos
  have htail := D.tail_lt
  have hpos := D.tail_pos
  have hlen := hs.bufferLength
  rw [List.length_append, List.length_singleton, Nat.add_mod,
    Nat.mod_eq_of_lt (a := 1) (by omega)] at hlen
  rw [missing, zeros, hlen]
  rcases Nat.lt_or_ge (message.length%D.size+1) D.size with h | h
  · rw [Nat.mod_eq_of_lt h]
    congr 1
    omega
  · have hfull : message.length%D.size+1 = D.size := by omega
    have hzeros : 2*D.size-D.tail-1-message.length%D.size = D.size-D.tail := by omega
    rw [hfull, Nat.mod_self, hzeros, Nat.sub_zero,
      show 2*D.size-D.tail = (D.size-D.tail)+D.size by omega, Nat.add_mod_right]

/-- Finishing leads to the state of the whole padded message. -/
theorem finish_eq (hs : s.Holds message) (hbits : s.bitCount = UInt64.ofNat message.length*8) :
    s.finish = D.digest message := by
  have hmarked : ((s.update [0x80]).withBits s.bitCount).Holds (message ++ [0x80]) :=
    holds_update [0x80] hs
  obtain ⟨hpad, hend⟩ := holds_pad s.bitCount _ hmarked
  rw [missing_marked hmarked] at hpad
  have hfull := holds_update (D.lengthBytes s.bitCount) hpad
  have hmessage : message ++ [0x80] ++ List.replicate (D.zeros message.length) 0 ++
      D.lengthBytes s.bitCount = D.padded message := by
    rw [padded, hbits, List.append_assoc message, List.singleton_append]
  rw [hmessage] at hfull
  have hwhole : D.size ∣ (D.padded message).length := by
    -- the length bytes fill the block that the zeros end in
    have hbefore := hpad.bufferLength
    have htail := D.tail_lt
    rw [hend] at hbefore
    rw [← hmessage, List.length_append, D.length_lengthBytes]
    apply Nat.dvd_of_mod_eq_zero
    rw [Nat.add_mod, ← hbefore, Nat.mod_eq_of_lt htail, Nat.sub_add_cancel (Nat.le_of_lt htail),
      Nat.mod_self]
  rw [finish, digest, hfull.state hwhole]

/-- However a message is cut, the updates take in all of it and count its bits. -/
theorem foldl_update (pieces : List (List UInt8)) (s : Stream D) (hs : s.Holds message)
    (hbits : s.bitCount = UInt64.ofNat message.length*8) :
    (pieces.foldl update s).Holds (message ++ pieces.flatten) ∧
      (pieces.foldl update s).bitCount =
        UInt64.ofNat (message ++ pieces.flatten).length*8 := by
  induction pieces generalizing s message with
  | nil =>
    rw [List.flatten_nil, List.append_nil]
    exact ⟨hs, hbits⟩
  | cons piece pieces ih =>
    rw [List.foldl_cons, List.flatten_cons, ← List.append_assoc]
    apply ih _ (holds_update piece hs)
    rw [update_bitCount, hbits, List.length_append, UInt64.ofNat_add, UInt64.add_mul]

/-- The state of a finished stream is that of the whole padded message, however it was cut. -/
theorem finish_pieces (pieces : List (List UInt8)) :
    (pieces.foldl update (init : Stream D)).finish = D.digest pieces.flatten := by
  obtain ⟨hs, hbits⟩ := foldl_update pieces (init : Stream D) holds_init rfl
  exact finish_eq hs hbits

end Stream
end BlockDigest
end DSigMatcher.Framework
