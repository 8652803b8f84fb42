import SigComp.Checked.BitStream
import SigComp.Checked.Memory
import SigComp.Machine.Frame

/-!
# Frames, checked

What one instruction works on, with the input as the processor has it and counters that
are words: the place of the next operand, and the cycles spent and granted.

* `literal`, `reference`, `multitype` and `address` read operands;
* `drawBytes` and `drawBits` consume input and are granted cycles for it.
-/

namespace SigComp.Checked

/-- What one instruction works on. -/
structure Frame where
  pc : UInt16
  cursor : Nat
  memory : Memory
  input : BitStream
  budget : Budget

/-- What the frame is to a machine. -/
def Frame.view (f : Frame) : SigComp.Frame := ⟨f.pc, f.cursor, f.memory, f.input.view, f.budget⟩

/-- The work of an instruction, which may fail or be stopped. -/
abbrev Exec := EStateM Halt Frame

/-! ## Memory -/

/-- The instruction fails. -/
def fail {α : Type} (r : Failure) : Exec α := fun f => .error (.fault r) f

/-- An access to the memory of the frame. -/
def onMemory {α : Type} (x : Access α) : Exec α := fun ⟨pc, cursor, memory, input, budget⟩ =>
  match x memory with
  | .ok a memory => .ok a ⟨pc, cursor, memory, input, budget⟩
  | .error r memory => .error r ⟨pc, cursor, memory, input, budget⟩

/-- The word at an address. -/
def wordAt (a : UInt16) : Exec UInt16 := onMemory (readWord a)

/-- A word is stored. -/
def putWord (a w : UInt16) : Exec Unit := onMemory (writeWord a w)

/-! ## Operands -/

/-- The operand bytes are read one after the other. -/
def nextByte : Exec UInt8 := fun f =>
  match f.memory.get? f.cursor with
  | none => .error (.fault .memoryAccess) f
  | some b =>
    match add 64 f.cursor 1 with
    | .ok cursor => .ok b { f with cursor }
    | .error h => .error h f

/-- Two operand bytes as a word. -/
def nextWord : Exec UInt16 := do
  let high ← nextByte
  let low ← nextByte
  return word high low

/-- The address of the instruction. -/
def here : Exec UInt16 := fun f => .ok f.pc f

/-- The address of the next operand, or of the next instruction after the last operand. -/
def position : Exec Nat := fun f => .ok f.cursor f

/-- The address of the instruction behind the operands, modulo 65536. -/
def following : Exec UInt16 := fun f => .ok (UInt16.ofNat f.cursor) f

/-- A number of 7, 14 or 16 bits, by its first byte. -/
def literal : Exec UInt16 := do
  let first ← nextByte
  if first < 0x80 then return first.toUInt16
  else if first < 0xc0 then return word (first &&& 0x3f) (← nextByte)
  else if first = 0xc0 then nextWord
  else fail .illegalOperand

/-- The address of a word: an even one of up to 15 bits, or any of 16. -/
def reference : Exec UInt16 := do
  let first ← nextByte
  if first < 0x80 then mul16 first.toUInt16 2
  else if first < 0xc0 then
    let low ← nextByte
    mul16 (word (first &&& 0x3f) low) 2
  else if first = 0xc0 then nextWord
  else fail .illegalOperand

/-- The power of two that a byte from 0x88 to 0x8f stands for. -/
def power (first : UInt8) : Calc UInt16 := do
  let distance ← sub first.toNat 0x88
  let exponent ← add 8 distance 8
  UInt16.ofNat <$> shiftLeft 16 1 exponent

/-- The number close to 65536 that a byte from 0xe0 on stands for. -/
def nearTop (first : UInt8) : Calc UInt16 := do
  let distance ← sub first.toNat 0xe0
  add16 (UInt16.ofNat distance) 65504

/-- A number, a power of two or the word at an address, by its first byte. -/
def multitype : Exec UInt16 := do
  let first ← nextByte
  if first < 0x40 then return first.toUInt16
  else if first < 0x80 then
    let a ← mul16 (first &&& 0x3f).toUInt16 2
    wordAt a
  else if first = 0x80 then nextWord
  else if first = 0x81 then wordAt (← nextWord)
  else if first = 0x86 then return 64
  else if first = 0x87 then return 128
  else if first < 0x88 then fail .illegalOperand
  else if first < 0x90 then power first
  else if first < 0xa0 then
    let low ← nextByte
    add16 (word (first &&& 0x0f) low) 61440
  else if first < 0xc0 then return word (first &&& 0x1f) (← nextByte)
  else if first < 0xe0 then wordAt (word (first &&& 0x1f) (← nextByte))
  else nearTop first

/-- An address, written as its distance from the instruction. -/
def address : Exec UInt16 := do
  let distance ← multitype
  return (← here) + distance

/-- `n` operands that do not matter; they must be well-formed all the same. -/
def skip : Nat → Exec Unit
  | 0 => pure ()
  | n + 1 => do
    let _ ← multitype
    skip n

/-! ## Budget and input -/

/-- Cycles are spent over and above the one that every instruction costs. -/
def charge (n : Nat) : Exec Unit := fun f =>
  match add 64 f.budget.total n with
  | .ok total => .ok () { f with budget := { f.budget with total } }
  | .error h => .error h f

/-- Cycles are granted for bits of input. -/
def granted (b : Budget) (bits : Nat) : Calc Budget := do
  let cycles ← mul 64 bits b.perBit
  let target ← add 64 b.target cycles
  return { b with target }

/-- The next `n` bytes of input, and the cycles for them; nothing if there are fewer.  The cycles
are granted at once, before anything that may still fail, so that no overflow of them goes
unnoticed. -/
def drawBytes (n : Nat) : Exec (Option Bytes) := fun f =>
  match f.input.takeBytes n with
  | .error h => .error h f
  | .ok (none, input) => .ok none { f with input }
  | .ok (some data, input) =>
    match mul 64 8 n >>= granted f.budget with
    | .error h => .error h { f with input }
    | .ok budget => .ok (some data) { f with input, budget }

/-- The next `n` bits of input, and the cycles for them; nothing if there are fewer. -/
def drawBits (n : Nat) (lsbFirst : Bool) : Exec (Option Nat) := fun f =>
  match f.input.takeBits n lsbFirst with
  | .error h => .error h f
  | .ok none => .ok none f
  | .ok (some (v, input)) =>
    match granted f.budget n with
    | .error h => .error h { f with input }
    | .ok budget => .ok (some v) { f with input, budget }

end SigComp.Checked
