import SigComp.Bytes

/-!
# Frame check sequence

The 16-bit check of the CRC instruction: division by the reflected polynomial
`0x8408`, least significant bit of each byte first.

* `FrameCheck.serial` divides bit by bit and is the definition of the code;
* `FrameCheck.accumulate` takes a byte at a time through a table of the 256
  one-byte remainders, and continues from the value of the bytes before it.
-/

namespace SigComp.FrameCheck

/-- The value that a check starts from. -/
def start : UInt16 := 0xffff

/-- The generator polynomial, reflected. -/
def polynomial : UInt16 := 0x8408

/-- One bit of the division: the bit that leaves decides whether the polynomial is subtracted. -/
def shiftBit (fcs : UInt16) : UInt16 :=
  if fcs &&& 1 = 0 then fcs >>> 1 else fcs >>> 1 ^^^ polynomial

/-- `n` bits of the division. -/
def shiftBits : Nat → UInt16 → UInt16
  | 0, fcs => fcs
  | n + 1, fcs => shiftBits n (shiftBit fcs)

/-- The check of a byte string, one bit at a time. -/
def serial (fcs : UInt16) (data : Bytes) : UInt16 :=
  data.foldl (fun f b => shiftBits 8 (f ^^^ b.toUInt16)) fcs

/-- The remainder that each byte value leaves. -/
def remainders : Vector UInt16 256 :=
  Vector.ofFn fun b => shiftBits 8 (UInt16.ofNat b)

/-- One byte of the check: the low half selects a remainder, the high half moves down. -/
def step (fcs : UInt16) (byte : UInt8) : UInt16 :=
  fcs >>> 8 ^^^ remainders.get (fcs ^^^ byte.toUInt16).toUInt8.toFin

/-- The check of a byte string that continues from `fcs`; the result is not inverted. -/
def accumulate (fcs : UInt16) (data : Bytes) : UInt16 := data.foldl step fcs

/-- A check of a concatenation is the check of the second part continued from the first. -/
theorem accumulate_append (fcs : UInt16) (a b : Bytes) :
    accumulate fcs (a ++ b) = accumulate (accumulate fcs a) b := List.foldl_append

end SigComp.FrameCheck
