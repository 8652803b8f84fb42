import SigComp.Fault

/-!
# Machine memory

A machine has a private memory of at most 65536 bytes.  Memory is total as a value:
a store outside it changes nothing.  The actions check the address first, and an
access outside memory fails with `memoryAccess` and changes nothing.

* `get?_set` — a store changes the byte at its address and no other;
* `size_put` — no store changes the size;
* `KeepsSize` — an access that leaves as much memory as it found, also if it fails.
-/

namespace SigComp

/-- The memory of a machine. -/
structure Memory where
  cells : Array UInt8
  deriving DecidableEq

namespace Memory

/-- An access that may fail. -/
abbrev Action := EStateM Failure Memory

/-- Memory of zeros. -/
def zeroed (size : Nat) : Memory := ⟨Array.replicate size 0⟩

/-- The number of bytes. -/
def size (m : Memory) : Nat := m.cells.size

/-! ## Reading -/

/-- The byte at an address. -/
def get? (m : Memory) (a : Nat) : Option UInt8 := m.cells[a]?

/-- The word at an address. -/
def word? (m : Memory) (a : UInt16) : Option UInt16 :=
  match m.get? a.toNat, m.get? (a.toNat + 1) with
  | some high, some low => some (word high low)
  | _, _ => none

/-- The `n` bytes from an address on. -/
def bytes (m : Memory) (a n : Nat) : Bytes := (m.cells.extract a (a + n)).toList

/-- The `n` bytes from an address on, if all of them are in memory. -/
def slice? (m : Memory) (a n : Nat) : Option Bytes :=
  if a + n ≤ m.size then some (m.bytes a n) else none

/-! ## Storing -/

/-- The memory with a byte stored. -/
def set (m : Memory) (a : Nat) (b : UInt8) : Memory := ⟨m.cells.setIfInBounds a b⟩

/-- The memory with a word stored. -/
def setWord (m : Memory) (a w : UInt16) : Memory :=
  (m.set a.toNat (highByte w)).set (a.toNat + 1) (lowByte w)

/-- The memory with bytes stored one after the other. -/
def put (m : Memory) (a : Nat) : Bytes → Memory
  | [] => m
  | b :: rest => (m.set a b).put (a + 1) rest

@[simp] theorem size_set (m : Memory) (a : Nat) (b : UInt8) : (m.set a b).size = m.size := by
  simp [set, size]

@[simp] theorem size_setWord (m : Memory) (a w : UInt16) : (m.setWord a w).size = m.size := by
  simp [setWord]

@[simp] theorem size_put (m : Memory) (a : Nat) (data : Bytes) : (m.put a data).size = m.size := by
  induction data generalizing m a with
  | nil => rfl
  | cons b rest ih => rw [put, ih, size_set]

@[simp] theorem size_zeroed (n : Nat) : (zeroed n).size = n := by simp [zeroed, size]

/-- A store changes the byte at its address and no other. -/
theorem get?_set (m : Memory) (a b : Nat) (v : UInt8) :
    (m.set a v).get? b = if a = b ∧ b < m.size then some v else m.get? b := by
  simp only [set, get?, size, Array.getElem?_setIfInBounds]
  split
  · next h =>
    subst h
    split
    · next h => simp [h]
    · next h => simp [h]
  · next h => simp [h]

/-! ## Checked access -/

/-- The byte at an address. -/
def readByte (a : Nat) : Action UInt8 := fun m =>
  match m.get? a with
  | some b => .ok b m
  | none => .error .memoryAccess m

/-- The word at an address. -/
def readWord (a : UInt16) : Action UInt16 := fun m =>
  match m.word? a with
  | some w => .ok w m
  | none => .error .memoryAccess m

/-- The `n` bytes from an address on, which do not wrap around. -/
def readSlice (a n : Nat) : Action Bytes := fun m =>
  match m.slice? a n with
  | some data => .ok data m
  | none => .error .memoryAccess m

/-- A byte is stored. -/
def writeByte (a : Nat) (b : UInt8) : Action Unit := fun m =>
  if a < m.size then .ok () (m.set a b) else .error .memoryAccess m

/-- A word is stored, whole or not at all. -/
def writeWord (a w : UInt16) : Action Unit := fun m =>
  if a.toNat + 2 ≤ m.size then .ok () (m.setWord a w) else .error .memoryAccess m

/-- Bytes are stored from an address on, all or none of them. -/
def writeSlice (a : Nat) (data : Bytes) : Action Unit := fun m =>
  if a + data.length ≤ m.size then .ok () (m.put a data) else .error .memoryAccess m

/-! ## Registers -/

/-- Where the copy window begins. -/
def byteCopyLeft : UInt16 := 64

/-- Where the copy window ends. -/
def byteCopyRight : UInt16 := 66

/-- In which order input bits come. -/
def inputBitOrder : UInt16 := 68

/-- Where the stack is. -/
def stackLocation : UInt16 := 70

/-- What a program finds in the first ten bytes: the size of its memory (modulo 65536), the cycles
it is granted per bit, the version, and the lengths of the partial identifier and of the state that
it came from, both zero if the message brought it along. -/
def writeHeader (size cyclesPerBit version partialLength stateLength : UInt16) : Action Unit := do
  writeWord 0 size
  writeWord 2 cyclesPerBit
  writeWord 4 version
  writeWord 6 partialLength
  writeWord 8 stateLength

/-! ## Size -/

/-- The memory that an access leaves, whether it fails or not. -/
def final {α : Type} : EStateM.Result Failure Memory α → Memory
  | .ok _ m => m
  | .error _ m => m

/-- An access that leaves as much memory as it found. -/
def KeepsSize {α : Type} (x : Action α) : Prop := ∀ m, (final (x m)).size = m.size

namespace KeepsSize

variable {α β : Type}

protected theorem pure (a : α) : KeepsSize (pure a) := fun _ => rfl

protected theorem bind {x : Action α} {k : α → Action β} (hx : KeepsSize x)
    (hk : ∀ a, KeepsSize (k a)) : KeepsSize (x >>= k) := by
  intro m
  have first := hx m
  simp only [Bind.bind, EStateM.bind]
  split
  · next a m' run =>
    rw [run] at first
    exact (hk a m').trans first
  · next r m' run =>
    rw [run] at first
    exact first

protected theorem readByte (a : Nat) : KeepsSize (readByte a) := by
  intro m
  simp only [Memory.readByte]
  split <;> rfl

protected theorem readWord (a : UInt16) : KeepsSize (readWord a) := by
  intro m
  simp only [Memory.readWord]
  split <;> rfl

protected theorem readSlice (a n : Nat) : KeepsSize (readSlice a n) := by
  intro m
  simp only [Memory.readSlice]
  split <;> rfl

protected theorem writeByte (a : Nat) (b : UInt8) : KeepsSize (writeByte a b) := by
  intro m
  simp only [Memory.writeByte]
  split
  · exact size_set m a b
  · rfl

protected theorem writeWord (a w : UInt16) : KeepsSize (writeWord a w) := by
  intro m
  simp only [Memory.writeWord]
  split
  · exact size_setWord m a w
  · rfl

protected theorem writeSlice (a : Nat) (data : Bytes) : KeepsSize (writeSlice a data) := by
  intro m
  simp only [Memory.writeSlice]
  split
  · exact size_put m a data
  · rfl

theorem writeHeader (size cyclesPerBit version partialLength stateLength : UInt16) :
    KeepsSize (writeHeader size cyclesPerBit version partialLength stateLength) :=
  .bind (.writeWord _ _) fun _ => .bind (.writeWord _ _) fun _ => .bind (.writeWord _ _) fun _ =>
    .bind (.writeWord _ _) fun _ => .writeWord _ _

/-- So does the memory of an access that completes. -/
theorem of_ok {x : Action α} (h : KeepsSize x) {m m' : Memory} {a : α} (run : x m = .ok a m') :
    m'.size = m.size := by
  have kept := h m
  rw [run] at kept
  exact kept

end KeepsSize

/-! ## What completes -/

theorem writeWord_ok {m : Memory} {a w : UInt16} (h : a.toNat + 2 ≤ m.size) :
    writeWord a w m = .ok () (m.setWord a w) :=
  if_pos h

/-- Ten bytes are enough for the header. -/
theorem writeHeader_ok {m : Memory} (size cyclesPerBit version partialLength stateLength : UInt16)
    (h : 10 ≤ m.size) :
    ∃ m', writeHeader size cyclesPerBit version partialLength stateLength m = .ok () m' ∧
      m'.size = m.size := by
  refine ⟨((((m.setWord 0 size).setWord 2 cyclesPerBit).setWord 4 version).setWord 6
    partialLength).setWord 8 stateLength, ?_, by simp only [size_setWord]⟩
  simp only [writeHeader, bind, EStateM.bind]
  rw [writeWord_ok (show 0 + 2 ≤ _ by omega)]
  dsimp only
  rw [writeWord_ok (show 2 + 2 ≤ _ by simp only [size_setWord]; omega)]
  dsimp only
  rw [writeWord_ok (show 4 + 2 ≤ _ by simp only [size_setWord]; omega)]
  dsimp only
  rw [writeWord_ok (show 6 + 2 ≤ _ by simp only [size_setWord]; omega)]
  dsimp only
  rw [writeWord_ok (show 8 + 2 ≤ _ by simp only [size_setWord]; omega)]

end Memory

end SigComp
