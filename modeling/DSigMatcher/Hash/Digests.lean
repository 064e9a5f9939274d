import DSigMatcher.Base.Text
import DSigMatcher.Framework.BlockDigest
import Mathlib

namespace DSigMatcher.Hash
open DSigMatcher.Base DSigMatcher.Framework

def hexDigits : Text := text "0123456789abcdef"

/-- `Hex`. -/
def hex (bytes : Text) : Text :=
  bytes.flatMap fun byte : UInt8 =>
    [hexDigits.getD (byte >>> 4).toNat 0, hexDigits.getD (byte &&& 0x0F).toNat 0]

/-- The bytes of a word, the highest first. -/
def bigEndian (word : UInt32) : Text :=
  [(word >>> 24).toUInt8, (word >>> 16).toUInt8, (word >>> 8).toUInt8, word.toUInt8]

/-- The bytes of a word, the lowest first. -/
def littleEndian (word : UInt32) : Text :=
  [word.toUInt8, (word >>> 8).toUInt8, (word >>> 16).toUInt8, (word >>> 24).toUInt8]

namespace Sha256

def roundConstants : List UInt32 :=
  [0x428a2f98, 0x71374491, 0xb5c0fbcf, 0xe9b5dba5, 0x3956c25b, 0x59f111f1, 0x923f82a4,
   0xab1c5ed5, 0xd807aa98, 0x12835b01, 0x243185be, 0x550c7dc3, 0x72be5d74, 0x80deb1fe,
   0x9bdc06a7, 0xc19bf174, 0xe49b69c1, 0xefbe4786, 0x0fc19dc6, 0x240ca1cc, 0x2de92c6f,
   0x4a7484aa, 0x5cb0a9dc, 0x76f988da, 0x983e5152, 0xa831c66d, 0xb00327c8, 0xbf597fc7,
   0xc6e00bf3, 0xd5a79147, 0x06ca6351, 0x14292967, 0x27b70a85, 0x2e1b2138, 0x4d2c6dfc,
   0x53380d13, 0x650a7354, 0x766a0abb, 0x81c2c92e, 0x92722c85, 0xa2bfe8a1, 0xa81a664b,
   0xc24b8b70, 0xc76c51a3, 0xd192e819, 0xd6990624, 0xf40e3585, 0x106aa070, 0x19a4c116,
   0x1e376c08, 0x2748774c, 0x34b0bcb5, 0x391c0cb3, 0x4ed8aa4a, 0x5b9cca4f, 0x682e6ff3,
   0x748f82ee, 0x78a5636f, 0x84c87814, 0x8cc70208, 0x90befffa, 0xa4506ceb, 0xbef9a3f7,
   0xc67178f2]

def rotateRight (value bits : UInt32) : UInt32 := value >>> bits ||| value <<< (32-bits)

/-- The words of a block. -/
def blockWord (block : Text) (index : Nat) : UInt32 :=
  let byte (offset : Nat) := (block.getD (index*4+offset) 0).toUInt32
  byte 0 <<< 24 ||| byte 1 <<< 16 ||| byte 2 <<< 8 ||| byte 3

/-- One more word behind the words of the schedule so far. -/
def extend (schedule : List UInt32) (index : Nat) : List UInt32 :=
  let word (i : Nat) := schedule.getD i 0
  let previous := word (index-15)
  let older := word (index-2)
  let sigma0 := rotateRight previous 7 ^^^ rotateRight previous 18 ^^^ previous >>> 3
  let sigma1 := rotateRight older 17 ^^^ rotateRight older 19 ^^^ older >>> 10
  schedule ++ [word (index-16)+sigma0+word (index-7)+sigma1]

def schedule (block : Text) : List UInt32 :=
  (List.range' 16 48).foldl extend ((List.range 16).map (blockWord block))

def round (schedule working : List UInt32) (index : Nat) : List UInt32 :=
  let slot (i : Nat) := working.getD i 0
  let bigSigma1 := rotateRight (slot 4) 6 ^^^ rotateRight (slot 4) 11 ^^^ rotateRight (slot 4) 25
  let choose := (slot 4 &&& slot 5) ^^^ (~~~slot 4 &&& slot 6)
  let temporary1 :=
    slot 7+bigSigma1+choose+roundConstants.getD index 0+schedule.getD index 0
  let bigSigma0 := rotateRight (slot 0) 2 ^^^ rotateRight (slot 0) 13 ^^^ rotateRight (slot 0) 22
  let majority := (slot 0 &&& slot 1) ^^^ (slot 0 &&& slot 2) ^^^ (slot 1 &&& slot 2)
  let temporary2 := bigSigma0+majority
  [temporary1+temporary2, slot 0, slot 1, slot 2, slot 3+temporary1, slot 4, slot 5, slot 6]

def transform (state : List UInt32) (block : Text) : List UInt32 :=
  let working := (List.range 64).foldl (round (schedule block)) state
  List.zipWith (· + ·) state working

/-- `Tail`, the highest byte of the length first. -/
def lengthBytes (bits : UInt64) : Text :=
  (List.range 8).map fun index => (bits >>> UInt64.ofNat (56-index*8) &&& 0xFF).toUInt8

def digest : BlockDigest (List UInt32) where
  size := 64
  tail := 8
  start := [0x6a09e667, 0xbb67ae85, 0x3c6ef372, 0xa54ff53a, 0x510e527f, 0x9b05688c, 0x1f83d9ab,
    0x5be0cd19]
  transform := transform
  lengthBytes := lengthBytes
  length_lengthBytes := fun bits => by rw [lengthBytes, List.length_map, List.length_range]
  tail_pos := by decide
  tail_lt := by decide

def init : digest.Stream := .init

def update (s : digest.Stream) (data : Text) : digest.Stream := s.update data

def hexState (state : List UInt32) : Text := hex (state.flatMap bigEndian)

def finishHex (s : digest.Stream) : Text := hexState s.finish

/-- The digest of a message padded as a whole. -/
def hexDigest (message : Text) : Text := hexState (digest.digest message)

end Sha256

namespace Md5

def roundConstants : List UInt32 :=
  [0xd76aa478, 0xe8c7b756, 0x242070db, 0xc1bdceee, 0xf57c0faf, 0x4787c62a, 0xa8304613,
   0xfd469501, 0x698098d8, 0x8b44f7af, 0xffff5bb1, 0x895cd7be, 0x6b901122, 0xfd987193,
   0xa679438e, 0x49b40821, 0xf61e2562, 0xc040b340, 0x265e5a51, 0xe9b6c7aa, 0xd62f105d,
   0x02441453, 0xd8a1e681, 0xe7d3fbc8, 0x21e1cde6, 0xc33707d6, 0xf4d50d87, 0x455a14ed,
   0xa9e3e905, 0xfcefa3f8, 0x676f02d9, 0x8d2a4c8a, 0xfffa3942, 0x8771f681, 0x6d9d6122,
   0xfde5380c, 0xa4beea44, 0x4bdecfa9, 0xf6bb4b60, 0xbebfbc70, 0x289b7ec6, 0xeaa127fa,
   0xd4ef3085, 0x04881d05, 0xd9d4d039, 0xe6db99e5, 0x1fa27cf8, 0xc4ac5665, 0xf4292244,
   0x432aff97, 0xab9423a7, 0xfc93a039, 0x655b59c3, 0x8f0ccc92, 0xffeff47d, 0x85845dd1,
   0x6fa87e4f, 0xfe2ce6e0, 0xa3014314, 0x4e0811a1, 0xf7537e82, 0xbd3af235, 0x2ad7d2bb,
   0xeb86d391]

def rotateAmounts : List UInt32 :=
  [7, 12, 17, 22, 7, 12, 17, 22, 7, 12, 17, 22, 7, 12, 17, 22,
   5, 9, 14, 20, 5, 9, 14, 20, 5, 9, 14, 20, 5, 9, 14, 20,
   4, 11, 16, 23, 4, 11, 16, 23, 4, 11, 16, 23, 4, 11, 16, 23,
   6, 10, 15, 21, 6, 10, 15, 21, 6, 10, 15, 21, 6, 10, 15, 21]

def rotateLeft (value bits : UInt32) : UInt32 := value <<< bits ||| value >>> (32-bits)

def blockWord (block : Text) (index : Nat) : UInt32 :=
  let byte (offset : Nat) := (block.getD (index*4+offset) 0).toUInt32
  byte 0 ||| byte 1 <<< 8 ||| byte 2 <<< 16 ||| byte 3 <<< 24

/-- The variables `A` to `D` of `Transform`. -/
structure Words where
  a : UInt32
  b : UInt32
  c : UInt32
  d : UInt32
  deriving DecidableEq

/-- The mixed bits of a round, and the word of the block that it takes. -/
def mix (w : Words) (index : Nat) : UInt32 × Nat :=
  if index < 16 then ((w.b &&& w.c) ||| (~~~w.b &&& w.d), index)
  else if index < 32 then ((w.d &&& w.b) ||| (~~~w.d &&& w.c), (5*index+1)%16)
  else if index < 48 then (w.b ^^^ w.c ^^^ w.d, (3*index+5)%16)
  else (w.c ^^^ (w.b ||| ~~~w.d), (7*index)%16)

def round (block : Text) (w : Words) (index : Nat) : Words :=
  let f := (mix w index).1+w.a+roundConstants.getD index 0+blockWord block (mix w index).2
  { a := w.d, b := w.b+rotateLeft f (rotateAmounts.getD index 0), c := w.b, d := w.c }

def transform (state : Words) (block : Text) : Words :=
  let w := (List.range 64).foldl (round block) state
  { a := state.a+w.a, b := state.b+w.b, c := state.c+w.c, d := state.d+w.d }

/-- `Tail`, the lowest byte of the length first. -/
def lengthBytes (bits : UInt64) : Text :=
  (List.range 8).map fun index => (bits >>> UInt64.ofNat (index*8) &&& 0xFF).toUInt8

def digest : BlockDigest Words where
  size := 64
  tail := 8
  start := ⟨0x67452301, 0xefcdab89, 0x98badcfe, 0x10325476⟩
  transform := transform
  lengthBytes := lengthBytes
  length_lengthBytes := fun bits => by rw [lengthBytes, List.length_map, List.length_range]
  tail_pos := by decide
  tail_lt := by decide

def init : digest.Stream := .init

def update (s : digest.Stream) (data : Text) : digest.Stream := s.update data

def hexState (state : Words) : Text :=
  hex ([state.a,state.b,state.c,state.d].flatMap littleEndian)

def finishHex (s : digest.Stream) : Text := hexState s.finish

/-- The digest of a message padded as a whole. -/
def hexDigest (message : Text) : Text := hexState (digest.digest message)

/-- `OfString`. -/
def ofString (t : Text) : Text := finishHex (update init t)

theorem ofString_eq (t : Text) : ofString t = hexDigest t := by
  have hpieces := BlockDigest.Stream.finish_pieces (σ := Words) (D := digest) [t]
  rw [List.flatten_singleton] at hpieces
  exact congrArg hexState hpieces

end Md5

/-- The digests do not depend on how a message is cut into updates. -/
theorem finishHex_pieces (pieces : List Text) :
    Sha256.finishHex (pieces.foldl Sha256.update Sha256.init) = Sha256.hexDigest pieces.flatten ∧
      Md5.finishHex (pieces.foldl Md5.update Md5.init) = Md5.hexDigest pieces.flatten :=
  ⟨congrArg Sha256.hexState (BlockDigest.Stream.finish_pieces pieces),
    congrArg Md5.hexState (BlockDigest.Stream.finish_pieces pieces)⟩

end DSigMatcher.Hash
