import SigComp.Checked.Number
import SigComp.Machine.BitInput

/-!
# Bit input, checked

The input of a machine as the processor has it: the whole of it with a position in it,
and a buffer of 32 bits whose most significant bits are the ones left over.

* `BitStream.takeBytes` and `BitStream.takeBits` are the two ways to read;
* `BitStream.view` is what the stream is to a machine.
-/

namespace SigComp

/-- The input of a machine: all its bytes, the position of the next one, and a buffer of 32 bits
of which the first `held` are left over from the last byte. -/
structure BitStream where
  data : Bytes
  position : Nat := 0
  bits : Nat := 0
  held : Nat := 0
  lsbFirst : Bool := false
  deriving DecidableEq, Repr

namespace BitStream

open Checked

/-- What is left of the input. -/
def view (s : BitStream) : BitInput :=
  ⟨s.data.drop s.position, s.bits >>> (32 - s.held), s.held, s.lsbFirst⟩

/-- The stream without bits left over. -/
def emptied (s : BitStream) : BitStream := { s with bits := 0, held := 0 }

/-- The number of bytes to come. -/
def remaining (s : BitStream) : Calc Nat := sub s.data.length s.position

/-- The next `n` bytes, or nothing if there are fewer; either way bits left over are discarded. -/
def takeBytes (s : BitStream) (n : Nat) : Calc (Option Bytes × BitStream) := do
  let s := s.emptied
  let left ← s.remaining
  if left < n then return (none, s)
  else
    let stop ← add 64 s.position n
    let taken ← slice s.data s.position stop
    return (some taken, { s with position := stop })

/-- Bytes are fetched until `n` bits are held; nothing if the input ends first. -/
def fetch (n : Nat) : (rounds : Nat) → BitStream → Calc (Option BitStream)
  | 0, s => if s.held < n then endless else return some s
  | rounds + 1, s =>
    if s.held < n then
      match s.data[s.position]? with
      | none => return none
      | some b => do
        let position ← add 64 s.position 1
        let place ← sub 24 s.held
        let byte ← shiftLeft 32 (BitInput.byteValue s.lsbFirst b) place
        let held ← add 32 s.held 8
        fetch n rounds { s with position, bits := s.bits ||| byte, held }
    else return some s

/-- The first `n` of the bits held, and the stream without them. -/
def cut (s : BitStream) (n : Nat) : Calc (Nat × BitStream) := do
  let rest ← sub 32 n
  let value ← shiftRight 32 s.bits rest
  let bits ← shiftLeft 32 s.bits n
  let held ← sub s.held n
  return (value % 65536, { s with bits, held })

/-- The bits left over that a read in the given order can use. -/
def usable (s : BitStream) (lsbFirst : Bool) : Nat := if lsbFirst = s.lsbFirst then s.held else 0

/-- The stream as a read in the given order finds it: a change of order discards bits left over. -/
def ordered (s : BitStream) (lsbFirst : Bool) : BitStream :=
  if lsbFirst = s.lsbFirst then s else { s with bits := 0, held := 0, lsbFirst }

/-- The next `n` bits of those that there are, in the order of the stream. -/
def takeOrdered (s : BitStream) (n : Nat) : Calc (Option (Nat × BitStream)) :=
  if n = 0 then return some (0, s)
  else do
    match ← fetch n n s with
    | none => return none
    | some s => some <$> s.cut n

/-- The next `n` bits as a number, the first of them most significant; nothing if there are
fewer. -/
def takeBits (s : BitStream) (n : Nat) (lsbFirst : Bool) : Calc (Option (Nat × BitStream)) := do
  let left ← s.remaining
  let whole ← mul 64 8 left
  let all ← add 64 (s.usable lsbFirst) whole
  if all < n then return none else (s.ordered lsbFirst).takeOrdered n

end BitStream

namespace Checked

/-- The lowest `n` of sixteen bits in the opposite order. -/
def reverseBits (n v : Nat) : Calc Nat :=
  if n = 0 then return 0
  else do
    let unused ← sub 16 n
    shiftRight 16 (SigComp.reverseBits 16 v) unused

end Checked

end SigComp
