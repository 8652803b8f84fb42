import SigComp.Bytes

/-!
# SHA-1

The digest that names states.  A message is padded to whole blocks of 64 bytes,
each block is spread over 80 words, and 80 rounds mix these into five words.
-/

namespace SigComp.Sha1

/-- Rotation of a 32-bit word to the left. -/
def rotateLeft (x n : UInt32) : UInt32 := x <<< n ||| x >>> (32 - n)

/-- The 32-bit word of four bytes, most significant first. -/
def quad (a b c d : UInt8) : UInt32 :=
  a.toUInt32 <<< 24 ||| b.toUInt32 <<< 16 ||| c.toUInt32 <<< 8 ||| d.toUInt32

/-- The four bytes of a 32-bit word, most significant first. -/
def quadBytes (w : UInt32) : Bytes :=
  [(w >>> 24).toUInt8, (w >>> 16).toUInt8, (w >>> 8).toUInt8, w.toUInt8]

/-- The words of a block; bytes that fill no word are dropped. -/
def quads : Bytes → List UInt32
  | a :: b :: c :: d :: rest => quad a b c d :: quads rest
  | _ => []

/-! ## Chaining value -/

/-- The five words that the rounds mix. -/
structure Chain where
  a : UInt32
  b : UInt32
  c : UInt32
  d : UInt32
  e : UInt32
  deriving DecidableEq

/-- The value that the first block starts from. -/
def Chain.initial : Chain := ⟨0x67452301, 0xefcdab89, 0x98badcfe, 0x10325476, 0xc3d2e1f0⟩

/-- Sum of two chaining values, word by word. -/
def Chain.add (x y : Chain) : Chain := ⟨x.a + y.a, x.b + y.b, x.c + y.c, x.d + y.d, x.e + y.e⟩

/-- The mixing function and the constant of round `t`: choice, parity, majority, parity. -/
def mixer (t : Nat) (b c d : UInt32) : UInt32 :=
  if t < 20 then (b &&& c ||| ~~~b &&& d) + 0x5a827999
  else if t < 40 then (b ^^^ c ^^^ d) + 0x6ed9eba1
  else if t < 60 then (b &&& c ||| b &&& d ||| c &&& d) + 0x8f1bbcdc
  else (b ^^^ c ^^^ d) + 0xca62c1d6

/-- Round `t` with the schedule word `w`. -/
def round (t : Nat) (w : UInt32) (s : Chain) : Chain :=
  ⟨rotateLeft s.a 5 + mixer t s.b s.c s.d + s.e + w, s.a, rotateLeft s.b 30, s.c, s.d⟩

/-- The rounds from `t` on, one for each schedule word. -/
def rounds : Nat → List UInt32 → Chain → Chain
  | _, [], s => s
  | t, w :: ws, s => rounds (t + 1) ws (round t w s)

/-- `n` further schedule words in front of the newest-first list `ws`. -/
def extend : Nat → List UInt32 → List UInt32
  | 0, ws => ws
  | n + 1, ws =>
    extend n (rotateLeft (ws.getD 2 0 ^^^ ws.getD 7 0 ^^^ ws.getD 13 0 ^^^ ws.getD 15 0) 1 :: ws)

/-- One block of 64 bytes mixed into the chaining value. -/
def absorb (s : Chain) (block : Bytes) : Chain :=
  s.add (rounds 0 (extend 64 (quads block).reverse).reverse s)

/-! ## Digest -/

/-- A message with the marker byte, the zeros and the bit length that fill its last block. -/
def pad (data : Bytes) : Bytes :=
  let bits := UInt64.ofNat (8 * data.length)
  let filler : Bytes := 0x80 :: List.replicate ((119 - data.length % 64) % 64) 0
  data ++ filler ++ quadBytes (bits >>> 32).toUInt32 ++ quadBytes bits.toUInt32

/-- All blocks of a padded message mixed into the chaining value. -/
def absorbAll (s : Chain) (data : Bytes) : Chain :=
  if data.isEmpty then s else absorbAll (absorb s (data.take 64)) (data.drop 64)
termination_by data.length
decreasing_by
  rename_i h
  have : data.length ≠ 0 := by simpa using h
  simp only [List.length_drop]
  omega

/-- The twenty bytes of a chaining value. -/
def Chain.octets (s : Chain) : Vector UInt8 20 :=
  ⟨(quadBytes s.a ++ quadBytes s.b ++ quadBytes s.c ++ quadBytes s.d ++ quadBytes s.e).toArray, by
    simp [quadBytes]⟩

/-- The SHA-1 digest of a byte string. -/
def digest (data : Bytes) : Vector UInt8 20 := (absorbAll .initial (pad data)).octets

end SigComp.Sha1
