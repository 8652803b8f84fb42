import SigComp.Machine.Inheritance

/-!
# Instructions are paid for

No instruction is granted more cycles than the input that it consumed was worth, and
none gives cycles back: `frugal_execute`.  Only the two ways to draw input are granted
any, and each is paid for.
-/

namespace SigComp.Exec

theorem heritable_frugal : Heritable Frugal where
  pure := .pure
  fail := .fail
  bind := .bind
  nextByte := .nextByte
  here := .here
  position := .position
  following := .following
  charge := .charge
  drawBytes := .drawBytes
  drawBits := .drawBits
  readWord _ := .onMemory _
  writeWord _ _ := .onMemory _
  readSlice _ _ := .onMemory _
  writeSlice _ _ := .onMemory _
  window := .onMemory _
  readAlong _ _ _ := .onMemory _
  writeAlong _ _ _ := .onMemory _
  copyAlong _ _ _ _ := .onMemory _

end SigComp.Exec

namespace SigComp.Instruction

/-- No instruction is granted more than it paid for. -/
theorem frugal_execute (s : Surroundings) (o : Opcode) : Exec.Frugal (execute s o) :=
  Exec.heritable_frugal.execute s o

end SigComp.Instruction
