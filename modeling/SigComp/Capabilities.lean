import SigComp.Settings

/-!
# Capabilities

The cycles per bit, decompression memory, state memory and version that one side
has.  A peer announces its own in one byte, `cpb(2) dms(3) sms(3)`, each field the
logarithm of the value.

* `Capabilities.decode` reads a byte; a memory field of zero, which no endpoint
  may announce, stands for 2048 and is worth a warning;
* `Capabilities.encode` rounds each value down to one that the byte can hold, so
  an announcement never promises more than there is.
-/

namespace SigComp

/-- What one side of an exchange can do.  A state memory of zero keeps no states. -/
structure Capabilities where
  cyclesPerBit : UInt16
  decompressionMemory : Nat
  stateMemory : Nat
  version : UInt8
  deriving DecidableEq, Repr

namespace Capabilities

/-- The version of SigComp that this library speaks. -/
def sigcompVersion : UInt16 := 1

/-- What is assumed of a peer that has announced nothing. -/
def peerDefault : Capabilities := ⟨16, 8192, 0, 1⟩

/-- What an endpoint with the given settings can do. -/
def ofSettings (s : Settings) : Capabilities :=
  ⟨s.cyclesPerBit, s.decompressionMemory, s.stateMemory, sigcompVersion.toUInt8⟩

/-! ## The packed byte -/

/-- The logarithm of the cycles per bit, over 16. -/
def cyclesField (packed : UInt8) : Nat := packed.toNat / 64

/-- The logarithm of the decompression memory, over 1024. -/
def memoryField (packed : UInt8) : Nat := packed.toNat / 8 % 8

/-- The logarithm of the state memory, over 1024; zero stands for none. -/
def stateField (packed : UInt8) : Nat := packed.toNat % 8

/-- The capabilities that a byte announces.  There is no version zero. -/
def decode (packed version : UInt8) : Capabilities where
  cyclesPerBit := UInt16.ofNat (16 <<< cyclesField packed)
  decompressionMemory := if memoryField packed = 0 then 2048 else 1024 <<< memoryField packed
  stateMemory := if stateField packed = 0 then 0 else 1024 <<< stateField packed
  version := max version 1

/-- The warning that an announcement gives rise to, if any. -/
def decodeWarnings (packed : UInt8) : List Warning :=
  if memoryField packed = 0 then [.memorySizeAnnounced packed] else []

/-- The byte that announces the capabilities, each field rounded down. -/
def encode (c : Capabilities) : UInt8 :=
  let cycles := min (Nat.log2 (max c.cyclesPerBit.toNat 16 / 16)) 3
  let memory := min (Nat.log2 (max c.decompressionMemory 2048 / 1024)) 7
  let state := if c.stateMemory < 2048 then 0 else min (Nat.log2 (c.stateMemory / 1024)) 7
  UInt8.ofNat (cycles * 64 + memory * 8 + state)

end Capabilities

end SigComp
