import SigComp.Machine.Memory

/-!
# Copy window

Block instructions walk through memory along a ring: after the address before
`right` comes `left`, after any other address the next one, and 0 after 65535.

* `Window.next` is one step; `Window.walk` are the addresses of a walk;
* `Window.segments?` cuts a walk into pieces that are contiguous in memory, so that
  reading and writing go piece by piece;
* `Window.copy` goes byte by byte, because a copy may read what it has written;
* `Window.behind` is the address some steps back.
-/

namespace SigComp

/-- The borders of the ring. -/
structure Window where
  left : UInt16
  right : UInt16
  deriving DecidableEq, Repr

namespace Window

/-! ## Steps -/

/-- The address after `a`. -/
def next (w : Window) (a : UInt16) : UInt16 := if a + 1 = w.right then w.left else a + 1

/-- The address `n` steps after `a`. -/
def after (w : Window) (a : UInt16) : Nat → UInt16
  | 0 => a
  | n + 1 => w.after (w.next a) n

/-- The `n` addresses from `a` on. -/
def walk (w : Window) (a : UInt16) : Nat → List UInt16
  | 0 => []
  | n + 1 => a :: w.walk (w.next a) n

/-- The address before `a`. -/
def previous (w : Window) (a : UInt16) : UInt16 := if a = w.left then w.right - 1 else a - 1

/-! ## Contiguous pieces -/

/-- How many of the next `n` addresses follow `a` without a jump. -/
def reach (w : Window) (a : UInt16) (n : Nat) : Nat :=
  min n ((if a < w.right then w.right.toNat else 65536) - a.toNat)

/-- The address after the piece of `n` addresses from `a` on that has no jump inside. -/
def land (w : Window) (a : UInt16) (n : Nat) : UInt16 :=
  let stop := a.toNat + n
  if stop = w.right.toNat ∨ (stop = 65536 ∧ w.right = 0) then w.left else UInt16.ofNat stop

/-- A walk that has not ended goes at least one step without a jump. -/
theorem reach_pos (w : Window) (a : UInt16) {n : Nat} (h : n ≠ 0) : 0 < w.reach a n := by
  have ha : a.toNat < 65536 := a.toNat_lt
  simp only [reach]
  split
  · next hr =>
    have : a.toNat < w.right.toNat := UInt16.lt_iff_toNat_lt.1 hr
    omega
  · omega

/-- The walk of `n` addresses from `a` on as pieces of contiguous memory, each with its start and
length; nothing if a piece leaves the memory. -/
def segments? (w : Window) (size : Nat) (a : UInt16) (n : Nat) : Option (List (Nat × Nat)) :=
  if n = 0 then some []
  else
    let run := w.reach a n
    if a.toNat + run ≤ size then
      (w.segments? size (w.land a run) (n - run)).map ((a.toNat, run) :: ·)
    else none
termination_by n
decreasing_by
  have := w.reach_pos a (n := n) (by assumption)
  omega

/-- The address `n` steps after `a`, found piece by piece. -/
def advance (w : Window) (a : UInt16) (n : Nat) : UInt16 :=
  if n = 0 then a
  else w.advance (w.land a (w.reach a n)) (n - w.reach a n)
termination_by n
decreasing_by
  have := w.reach_pos a (n := n) (by assumption)
  omega

/-- The address `offset` steps before `a`.  Steps that go past the left border go on from the
right one. -/
def behind (w : Window) (a offset : UInt16) : UInt16 :=
  let width := w.right - w.left
  let into := a - w.left
  if width = 0 ∨ offset ≤ into then a - offset
  else
    let rest := (offset - into) % width
    if rest = 0 then w.left else w.right - rest

/-! ## Memory along the ring -/

/-- The borders that a memory holds in its registers. -/
def ofMemory? (m : Memory) : Option Window :=
  match m.word? Memory.byteCopyLeft, m.word? Memory.byteCopyRight with
  | some left, some right => some ⟨left, right⟩
  | _, _ => none

/-- The borders that the registers hold. -/
def current : Memory.Action Window := fun m =>
  match ofMemory? m with
  | some w => .ok w m
  | none => .error .memoryAccess m

/-- The `n` bytes along the ring from `a` on, in contiguous pieces. -/
def pieces? (w : Window) (m : Memory) (a : UInt16) (n : Nat) : Option (List Bytes) :=
  (w.segments? m.size a n).map fun segments => segments.map fun (start, length) =>
    m.bytes start length

/-- The `n` bytes along the ring from `a` on. -/
def read (w : Window) (a : UInt16) (n : Nat) : Memory.Action Bytes := fun m =>
  match w.pieces? m a n with
  | some pieces => .ok pieces.flatten m
  | none => .error .memoryAccess m

/-- The memory with bytes stored into one piece after the other. -/
def fill (m : Memory) : List (Nat × Nat) → Bytes → Memory
  | [], _ => m
  | (start, length) :: segments, data =>
    fill (m.put start (data.take length)) segments (data.drop length)

/-- Bytes are stored along the ring from `a` on, all or none of them; the answer is the address
after the last one. -/
def write (w : Window) (a : UInt16) (data : Bytes) : Memory.Action UInt16 := fun m =>
  match w.segments? m.size a data.length with
  | some segments => .ok (w.advance a data.length) (fill m segments data)
  | none => .error .memoryAccess m

/-- `n` bytes are copied along the ring one at a time, so that a byte that has been stored can be
read again; the answer is the address after the last one stored. -/
def copy (w : Window) : (n : Nat) → (source destination : UInt16) → Memory.Action UInt16
  | 0, _, destination => pure destination
  | n + 1, source, destination => do
    let b ← Memory.readByte source.toNat
    Memory.writeByte destination.toNat b
    w.copy n (w.next source) (w.next destination)

/-! ## Size -/

theorem size_fill (m : Memory) (segments : List (Nat × Nat)) (data : Bytes) :
    (fill m segments data).size = m.size := by
  induction segments generalizing m data with
  | nil => rfl
  | cons segment segments ih =>
    obtain ⟨start, length⟩ := segment
    rw [fill, ih, Memory.size_put]

open Memory (KeepsSize)

theorem keepsSize_current : KeepsSize current := by
  intro m
  simp only [current]
  split <;> rfl

theorem keepsSize_read (w : Window) (a : UInt16) (n : Nat) : KeepsSize (w.read a n) := by
  intro m
  simp only [read]
  split <;> rfl

theorem keepsSize_write (w : Window) (a : UInt16) (data : Bytes) : KeepsSize (w.write a data) := by
  intro m
  simp only [write]
  split
  · exact size_fill _ _ _
  · rfl

theorem keepsSize_copy (w : Window) (n : Nat) (source destination : UInt16) :
    KeepsSize (w.copy n source destination) := by
  induction n generalizing source destination with
  | zero => exact .pure _
  | succ n ih => exact .bind (.readByte _) fun _ => .bind (.writeByte _ _) fun _ => ih _ _

end Window

end SigComp
