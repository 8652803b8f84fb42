import SigComp.Settings

/-!
# Transports

A message arrives either as a whole or as part of a stream.  The decompression memory
holds the message too: one that arrives as a whole leaves its machine the rest, one
out of a stream leaves it half.
-/

namespace SigComp

/-- How a message travels. -/
inductive Transport where
  | message
  | stream
  deriving DecidableEq, Repr

/-- What a machine gets of `memory` bytes when its message has `length` of them. -/
def Transport.machineMemory (memory length : Nat) : Transport → Except Error Nat
  | stream => .ok (min (memory / 2) Settings.maxMemory)
  | message =>
    if memory ≤ length then .error .insufficientBuffer
    else .ok (min (memory - length) Settings.maxMemory)

end SigComp
