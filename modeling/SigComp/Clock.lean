/-!
# Clock

Time is counted in milliseconds.  A clock only moves when it is told to.
-/

namespace SigComp

/-- A clock: where it started and how far it has been moved since. -/
structure Clock where
  origin : Nat := 0
  elapsed : Nat := 0
  deriving DecidableEq, Repr

namespace Clock

/-- The present moment. -/
def now (c : Clock) : Nat := c.origin + c.elapsed

/-- The clock `ms` milliseconds later. -/
def advance (c : Clock) (ms : Nat) : Clock := { c with elapsed := c.elapsed + ms }

/-- Time never runs backwards. -/
theorem now_le_advance (c : Clock) (ms : Nat) : c.now ≤ (c.advance ms).now := by
  simp only [now, advance]
  omega

end Clock

end SigComp
