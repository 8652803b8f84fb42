import SigComp.Machine.BitInput
import SigComp.Machine.Window

/-!
# Frames

What one instruction works on: memory, input and cycle budget, the address of the
instruction and the place from which its next operand is read.  A failing
instruction leaves its frame as it is at that moment.

* `Exec` are the actions on a frame;
* `Exec.literal`, `Exec.reference`, `Exec.multitype` and `Exec.address` read operands;
* `Exec.drawBytes` and `Exec.drawBits` consume input and are granted cycles for it;
* `Exec.Frugal` says that an action is paid for: what is granted never exceeds what
  the consumed input was worth, cycles spent stay spent, and input that is consumed is
  left tidy.
-/

namespace SigComp

/-- Cycles spent, cycles that may be spent, and cycles granted for a bit of input. -/
structure Budget where
  total : Nat
  target : Nat
  perBit : Nat
  deriving DecidableEq, Repr

/-- What one instruction works on. -/
structure Frame where
  pc : UInt16
  cursor : Nat
  memory : Memory
  input : BitInput
  budget : Budget

/-- The work of an instruction, which may fail. -/
abbrev Exec := EStateM Failure Frame

namespace Frame

/-- The cycles that may ever be spent: those granted, and those that the input is still worth. -/
def potential (f : Frame) : Nat := f.budget.target + f.budget.perBit * f.input.unread

/-- The frame `g` may come after `f`: nothing has been granted that was not paid for, and the input
is tidy if it was. -/
structure Precedes (f g : Frame) : Prop where
  perBit : g.budget.perBit = f.budget.perBit
  potential : g.potential ≤ f.potential
  total : f.budget.total ≤ g.budget.total
  tidy : f.input.Tidy → g.input.Tidy

theorem Precedes.refl (f : Frame) : f.Precedes f := ⟨rfl, Nat.le_refl _, Nat.le_refl _, id⟩

theorem Precedes.trans {f g h : Frame} (fg : f.Precedes g) (gh : g.Precedes h) : f.Precedes h :=
  ⟨gh.perBit.trans fg.perBit, Nat.le_trans gh.potential fg.potential,
    Nat.le_trans fg.total gh.total, gh.tidy ∘ fg.tidy⟩

end Frame

namespace Exec

/-! ## Memory -/

/-- The instruction fails. -/
def fail {α : Type} (r : Failure) : Exec α := fun f => .error r f

/-- An access to the memory of the frame. -/
def onMemory {α : Type} (x : Memory.Action α) : Exec α := fun ⟨pc, cursor, memory, input, budget⟩ =>
  match x memory with
  | .ok a memory => .ok a ⟨pc, cursor, memory, input, budget⟩
  | .error r memory => .error r ⟨pc, cursor, memory, input, budget⟩

/-- The word at an address. -/
def readWord (a : UInt16) : Exec UInt16 := onMemory (Memory.readWord a)

/-- A word is stored. -/
def writeWord (a w : UInt16) : Exec Unit := onMemory (Memory.writeWord a w)

/-- The borders of the copy window. -/
def window : Exec Window := onMemory Window.current

/-! ## Operands -/

/-- The operand bytes are read one after the other. -/
def nextByte : Exec UInt8 := fun f =>
  match f.memory.get? f.cursor with
  | some b => .ok b { f with cursor := f.cursor + 1 }
  | none => .error .memoryAccess f

/-- Two operand bytes as a word. -/
def nextWord : Exec UInt16 := do
  let high ← nextByte
  let low ← nextByte
  return word high low

/-- The address of the instruction. -/
def here : Exec UInt16 := fun f => .ok f.pc f

/-- The address of the next operand, or of the next instruction after the last operand. -/
def position : Exec Nat := fun f => .ok f.cursor f

/-- The address of the instruction behind the operands, modulo 65536. -/
def following : Exec UInt16 := fun f => .ok (UInt16.ofNat f.cursor) f

/-- A number of 7, 14 or 16 bits, by its first byte. -/
def literal : Exec UInt16 := do
  let first ← nextByte
  if first < 0x80 then return first.toUInt16
  else if first < 0xc0 then return word (first &&& 0x3f) (← nextByte)
  else if first = 0xc0 then nextWord
  else fail .illegalOperand

/-- The address of a word: an even one of up to 15 bits, or any of 16. -/
def reference : Exec UInt16 := do
  let first ← nextByte
  if first < 0x80 then return first.toUInt16 * 2
  else if first < 0xc0 then return word (first &&& 0x3f) (← nextByte) * 2
  else if first = 0xc0 then nextWord
  else fail .illegalOperand

/-- A number, a power of two or the word at an address, by its first byte. -/
def multitype : Exec UInt16 := do
  let first ← nextByte
  if first < 0x40 then return first.toUInt16
  else if first < 0x80 then readWord ((first &&& 0x3f).toUInt16 * 2)
  else if first = 0x80 then nextWord
  else if first = 0x81 then readWord (← nextWord)
  else if first = 0x86 then return 64
  else if first = 0x87 then return 128
  else if first < 0x88 then fail .illegalOperand
  else if first < 0x90 then return 1 <<< (first - 0x80).toUInt16
  else if first < 0xa0 then return word (first &&& 0x0f) (← nextByte) + 61440
  else if first < 0xc0 then return word (first &&& 0x1f) (← nextByte)
  else if first < 0xe0 then readWord (word (first &&& 0x1f) (← nextByte))
  else return (first - 0xe0).toUInt16 + 65504

/-- An address, written as its distance from the instruction. -/
def address : Exec UInt16 := do
  let distance ← multitype
  return (← here) + distance

/-- `n` operands that do not matter; they must be well-formed all the same. -/
def skip : Nat → Exec Unit
  | 0 => pure ()
  | n + 1 => do
    let _ ← multitype
    skip n

/-! ## Budget and input -/

/-- Cycles are spent over and above the one that every instruction costs. -/
def charge (n : Nat) : Exec Unit := fun f =>
  .ok () { f with budget := { f.budget with total := f.budget.total + n } }

/-- Cycles are granted. -/
def Budget.grant (b : Budget) (bits : Nat) : Budget :=
  { b with target := b.target + bits * b.perBit }

/-- The next `n` bytes of input, and the cycles for them; nothing if there are fewer.  The cycles
are granted when the bytes are taken, and not only once INPUT-BYTES has written them: a step that
fails on the write leaves `budget.target` higher by them. -/
def drawBytes (n : Nat) : Exec (Option Bytes) := fun f =>
  match f.input.takeBytes n with
  | (some data, input) => .ok (some data) { f with input, budget := Budget.grant f.budget (8 * n) }
  | (none, input) => .ok none { f with input }

/-- The next `n` bits of input, and the cycles for them, granted before INPUT-BITS writes what they
say; nothing if there are fewer. -/
def drawBits (n : Nat) (lsbFirst : Bool) : Exec (Option Nat) := fun f =>
  match f.input.takeBits? n lsbFirst with
  | some (v, input) => .ok (some v) { f with input, budget := Budget.grant f.budget n }
  | none => .ok none f

/-! ## Frugality -/

/-- The frame that an action ends with, whether it fails or not. -/
def final {α : Type} : EStateM.Result Failure Frame α → Frame
  | .ok _ f => f
  | .error _ f => f

/-- An action that is paid for. -/
def Frugal {α : Type} (x : Exec α) : Prop := ∀ f : Frame, f.Precedes (final (x f))

namespace Frugal

variable {α β : Type}

protected theorem pure (a : α) : Frugal (pure a) := fun f => .refl f

protected theorem fail (r : Failure) : Frugal (fail r : Exec α) := fun f => .refl f

protected theorem bind {x : Exec α} {k : α → Exec β} (hx : Frugal x) (hk : ∀ a, Frugal (k a)) :
    Frugal (x >>= k) := by
  intro f
  have first := hx f
  simp only [bind, EStateM.bind]
  split
  · next a g run =>
    rw [run] at first
    exact first.trans (hk a g)
  · next r g run =>
    rw [run] at first
    exact first

/-- Memory is worth nothing. -/
protected theorem onMemory (x : Memory.Action α) : Frugal (onMemory x) := by
  intro f
  simp only [onMemory]
  split <;> exact ⟨rfl, Nat.le_refl _, Nat.le_refl _, id⟩

protected theorem charge (n : Nat) : Frugal (charge n) :=
  fun _ => ⟨rfl, Nat.le_refl _, Nat.le_add_right _ _, id⟩

/-- A grant is covered when the input has become poorer by as many bits. -/
theorem potential_of_grant (f : Frame) {input : BitInput} {n : Nat}
    (h : input.unread + n ≤ f.input.unread) :
    ({ f with input, budget := Budget.grant f.budget n } : Frame).potential ≤ f.potential := by
  have worth := Nat.mul_le_mul_left f.budget.perBit h
  rw [Nat.mul_add, Nat.mul_comm f.budget.perBit n] at worth
  simp only [Frame.potential, Budget.grant]
  omega

protected theorem drawBytes (n : Nat) : Frugal (drawBytes n) := by
  intro f
  have less := f.input.unread_takeBytes_le n
  simp only [drawBytes]
  split
  · next data input run =>
    have enough : (f.input.takeBytes n).2.unread + 8 * n ≤ f.input.unread :=
      BitInput.unread_takeBytes (congrArg Prod.fst run)
    rw [run] at enough
    have tidy := f.input.tidy_takeBytes n
    rw [run] at tidy
    exact ⟨rfl, potential_of_grant f enough, Nat.le_refl _, fun _ => tidy⟩
  · next input run =>
    rw [run] at less
    have tidy := f.input.tidy_takeBytes n
    rw [run] at tidy
    exact ⟨rfl, Nat.add_le_add_left (Nat.mul_le_mul_left _ less) _, Nat.le_refl _, fun _ => tidy⟩

protected theorem drawBits (n : Nat) (o : Bool) : Frugal (drawBits n o) := by
  intro f
  simp only [drawBits]
  split
  · next v input run =>
    exact ⟨rfl, potential_of_grant f (BitInput.unread_takeBits? run), Nat.le_refl _,
      fun tidy => (tidy.takeBits? run).2⟩
  · exact .refl f

/-! ### Operands -/

protected theorem here : Frugal here := fun f => .refl f

protected theorem position : Frugal position := fun f => .refl f

protected theorem following : Frugal following := fun f => .refl f

protected theorem nextByte : Frugal nextByte := by
  intro f
  simp only [nextByte]
  split <;> exact ⟨rfl, Nat.le_refl _, Nat.le_refl _, id⟩

end Frugal

end Exec

end SigComp
