import SigComp.Arena
import SigComp.Fault

/-!
# Buffer tiers

States and contexts occupy buffers of a few sizes, of which there are so many each.
A tier counts its buffers; `Tier.reserve` takes one of the smallest that will do.
-/

namespace SigComp

/-- Buffers of one size. -/
structure Tier where
  size : Nat
  capacity : Nat
  inUse : Nat := 0
  peak : Nat := 0
  deriving DecidableEq, Repr

namespace Tier

/-- There is a buffer left and it is large enough. -/
def offers (size : Nat) (t : Tier) : Bool := size ≤ t.size && t.inUse < t.capacity

/-- One buffer more is in use. -/
def take (t : Tier) : Tier := { t with inUse := t.inUse + 1, peak := max t.peak (t.inUse + 1) }

/-- One buffer fewer is in use. -/
def giveBack (t : Tier) : Tier := { t with inUse := t.inUse - 1 }

/-- The use that is made of the tier. -/
def usage (t : Tier) : Usage := ⟨t.capacity, t.inUse, t.peak⟩

/-- The size of the largest buffers. -/
def largest (tiers : List Tier) : Nat := (tiers.getLast?.map (·.size)).getD 0

/-- A buffer of the first tier that offers one; the answer is the number of the tier. -/
def reserve (size : Nat) : EStateM Error (List Tier) Nat := fun tiers =>
  if largest tiers < size then .error (.badParam .stateSize) tiers
  else match tiers.findIdx? (offers size) with
    | some i => .ok i (tiers.modify i take)
    | none => .error (.outOfResources .stateBuffers) tiers

end Tier

end SigComp
