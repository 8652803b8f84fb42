import SigComp.Checked.Number
import SigComp.Machine.Window

/-!
# Memory and copy window, checked

The accesses that memory itself looks after report what is outside of it; what is left
are the places in the bytes that they answer with, and the arithmetic of a walk along
the ring.

* `run` is one contiguous piece of a walk, `segments` and `advance` the whole of it;
* `pieces` and `store` read and write the pieces of a walk one after the other;
* `behind` is the address some steps back.
-/

namespace SigComp.Checked

/-- An access to memory that may be stopped. -/
abbrev Access := EStateM Halt Memory

section Lifting

variable {σ α : Type}

/-- A computation that leaves a state alone. -/
def still (c : Calc α) : EStateM Halt σ α := fun s =>
  match c with
  | .ok a => .ok a s
  | .error h => .error h s

/-- An outcome that was not trapped. -/
def orderly : EStateM.Result Failure σ α → EStateM.Result Halt σ α
  | .ok a s => .ok a s
  | .error r s => .error (.fault r) s

/-- An action in which nothing can be trapped. -/
def plainly (x : EStateM Failure σ α) : EStateM Halt σ α := fun s => orderly (x s)

instance : MonadLift Calc (EStateM Halt σ) where
  monadLift := still

instance : MonadLift (EStateM Failure σ) (EStateM Halt σ) where
  monadLift := plainly

end Lifting

/-! ## Words -/

/-- The word at an address. -/
def readWord (a : UInt16) : Access UInt16 := do
  let raw ← Memory.readSlice a.toNat 2
  return word (← index raw 0) (← index raw 1)

/-- Bytes are stored into the `n` places from an address on, and there must be as many of them. -/
def writeSlice (a n : Nat) (data : Bytes) : Access Unit := fun m =>
  if a + n ≤ m.size then
    if data.length = n then .ok () (m.put a data) else .error (.trap .range) m
  else .error (.fault .memoryAccess) m

/-- A word is stored. -/
def writeWord (a w : UInt16) : Access Unit := writeSlice a.toNat 2 (Bytes.ofWord w)

/-! ## Along the ring -/

/-- The borders of the copy window. -/
def window : Access Window := do
  let left ← readWord Memory.byteCopyLeft
  let right ← readWord Memory.byteCopyRight
  return ⟨left, right⟩

/-- How many of the next `n` addresses follow `a` without a jump, and the address after them. -/
def run (w : Window) (a : UInt16) (n : Nat) : Calc (Nat × UInt16) := do
  let boundary := if a < w.right then w.right.toNat else 65536
  let gap ← sub boundary a.toNat
  let length := min n gap
  let stop ← add 64 a.toNat length
  let next :=
    if stop = w.right.toNat ∨ (stop = 65536 ∧ w.right = 0) then w.left else UInt16.ofNat stop
  return (length, next)

/-- The walk of `n` addresses from `a` on as ranges of memory.  It is refused if one of them leaves
the memory. -/
def segments (w : Window) (size : Nat) : (rounds : Nat) → UInt16 → Nat → Calc (List (Nat × Nat))
  | 0, _, n => if n = 0 then return [] else endless
  | rounds + 1, a, n =>
    if n = 0 then return []
    else do
      let (length, next) ← run w a n
      let stop ← add 64 a.toNat length
      if size < stop then .error (.fault .memoryAccess)
      else
        let left ← sub n length
        let rest ← segments w size rounds next left
        return (a.toNat, stop) :: rest

/-- The address `n` steps after `a`. -/
def advance (w : Window) : (rounds : Nat) → UInt16 → Nat → Calc UInt16
  | 0, a, n => if n = 0 then return a else endless
  | rounds + 1, a, n =>
    if n = 0 then return a
    else do
      let (length, next) ← run w a n
      let left ← sub n length
      advance w rounds next left

/-- The bytes in some ranges. -/
def slices (data : Bytes) : List (Nat × Nat) → Calc (List Bytes)
  | [] => return []
  | (start, stop) :: ranges => do
    let first ← slice data start stop
    let rest ← slices data ranges
    return first :: rest

/-- The `n` bytes along the ring from `a` on, range by range. -/
def pieces (w : Window) (m : Memory) (a : UInt16) (n : Nat) : Calc (List Bytes) := do
  let ranges ← segments w m.size n a n
  slices m.cells.toList ranges

/-- The `n` bytes along the ring from `a` on. -/
def readRing (w : Window) (a : UInt16) (n : Nat) : Access Bytes := fun m =>
  still (List.flatten <$> pieces w m a n) m

/-- The bytes from `offset` on are stored into one range after the other; the answer is the address
after the last one. -/
def store (w : Window) (data : Bytes) : List (Nat × Nat) → Nat → UInt16 → Access UInt16
  | [], _, a => return a
  | (start, stop) :: ranges, offset, a => do
    let length := stop - start
    let last ← add 64 offset length
    let part ← slice data offset last
    writeSlice start length part
    let next ← advance w length a length
    store w data ranges last next

/-- Bytes are stored along the ring from `a` on; the answer is the address after the last one. -/
def writeRing (w : Window) (a : UInt16) (data : Bytes) : Access UInt16 := fun m =>
  match segments w m.size data.length a data.length with
  | .ok ranges => store w data ranges 0 a m
  | .error h => .error h m

/-- The address `offset` steps before `a`. -/
def behind (w : Window) (a offset : UInt16) : Calc UInt16 :=
  let width := w.right - w.left
  let into := a - w.left
  if width = 0 ∨ offset ≤ into then return a - offset
  else do
    let past ← sub16 offset into
    let rest ← UInt16.ofNat <$> remainder past.toNat width.toNat
    return if rest = 0 then w.left else w.right - rest

end SigComp.Checked
