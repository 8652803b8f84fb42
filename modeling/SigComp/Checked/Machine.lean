import SigComp.Checked.Instruction
import SigComp.Machine.Run

/-!
# Machines, checked

A machine as the processor has it: its input is a stream with a position, its counters
are words.  What the outside sees of it when it stops is a machine like any other,
`Machine.view`.

* `Machine.ofCode` and `Machine.ofState` load the bytecode;
* `Machine.step` runs one instruction, `Machine.loop` one after the other;
* `Machine.run` gives the machine a budget and reports how the run went.
-/

namespace SigComp.Checked

/-- A machine whose input is a stream. -/
structure Machine where
  pc : UInt16
  memory : Memory
  input : BitStream
  budget : Budget
  output : Array UInt8
  outputCapacity : Nat
  instructions : Nat
  completion : Option Completion
  requests : Requests
  feedbackAt : UInt16
  parametersAt : UInt16

namespace Machine

/-- The machine with what is left of its input. -/
def view (m : Machine) : SigComp.Machine where
  pc := m.pc
  memory := m.memory
  input := m.input.view
  budget := m.budget
  output := m.output
  outputCapacity := m.outputCapacity
  instructions := m.instructions
  completion := m.completion
  requests := m.requests
  feedbackAt := m.feedbackAt
  parametersAt := m.parametersAt

/-! ## Loading -/

/-- What a program finds in the first ten bytes. -/
def writeHeader (size cyclesPerBit version partialLength stateLength : UInt16) : Access Unit := do
  writeWord 0 size
  writeWord 2 cyclesPerBit
  writeWord 4 version
  writeWord 6 partialLength
  writeWord 8 stateLength

/-- The header and the bytes of a program are stored. -/
def writeProgram (s : Setup) (size : Nat) (partialLength stateLength : UInt16) (data : Bytes)
    (destination : UInt16) : Access Unit := do
  writeHeader (UInt16.ofNat size) s.cyclesPerBit Capabilities.sigcompVersion partialLength
    stateLength
  writeSlice destination.toNat data.length data

/-- A machine whose memory holds the header and the bytes of a program. -/
def load (s : Setup) (partialLength stateLength : UInt16) (data : Bytes)
    (destination entry : UInt16) : Calc Machine :=
  let size := min s.memorySize Settings.maxMemory
  match writeProgram s size partialLength stateLength data destination (Memory.zeroed size) with
  | .error h _ => .error h
  | .ok () memory => .ok {
      pc := entry
      memory
      input := { data := s.input }
      budget := ⟨0, 0, s.cyclesPerBit.toNat⟩
      output := #[]
      outputCapacity := s.outputCapacity
      instructions := 0
      completion := none
      requests := []
      feedbackAt := 0
      parametersAt := 0 }

/-- A machine with bytecode that came with the message. -/
def ofCode (s : Setup) (code : Bytes) (destination : UInt16) : Calc Machine :=
  load s 0 0 code destination destination

/-- A machine with bytecode that is a state. -/
def ofState (s : Setup) (partialId : Bytes) (store : Store) : Calc Machine := do
  match ← find store partialId false with
  | .error _ => .error (.fault .stateAccess)
  | .ok state =>
    load s (UInt16.ofNat partialId.length) (UInt16.ofNat state.data.length) state.data
      state.address state.instruction

/-! ## One instruction -/

/-- What the next instruction works on: its operands begin behind its opcode. -/
def frame (m : Machine) : Calc Frame := do
  let cursor ← add 64 m.pc.toNat 1
  return ⟨m.pc, cursor, m.memory, m.input, m.budget⟩

/-- The machine with what an instruction has done to its frame. -/
def absorb (m : Machine) (f : Frame) : Machine :=
  { m with memory := f.memory, input := f.input, budget := f.budget }

/-- A completed instruction costs one cycle more than it charged, and is counted. -/
def tick (m : Machine) : Calc Machine := do
  let total ← add 64 m.budget.total 1
  let instructions ← add 64 m.instructions 1
  return { m with budget := { m.budget with total }, instructions }

/-- The machine after a completed instruction, but for what the instruction did to its frame. -/
def complete (m : Machine) : Outcome → Machine
  | .go pc => { m with pc }
  | .emit data pc => { m with pc, output := m.output.appendList data }
  | .enqueue requests pc => { m with pc, requests }
  | .finish feedbackAt parametersAt requests pc =>
    { m with pc, requests, feedbackAt, parametersAt,
             completion := some (SigComp.Machine.completionOf feedbackAt parametersAt requests) }

/-- The next instruction is run. -/
def step (store : Store) : EStateM Halt Machine Unit := fun m =>
  match m.view.fetch with
  | .error r => .error (.fault r) m
  | .ok o =>
    match m.frame with
    | .error h => .error h m
    | .ok f =>
      match Instruction.execute (m.view.surroundings store) o f with
      | .error h f => .error h (m.absorb f)
      | .ok outcome f =>
        match (m.absorb f).tick with
        | .error h => .error h (m.absorb f)
        | .ok m => .ok () (m.complete outcome)

/-! ## Runs -/

/-- Steps are made as long as the machine runs; the answer is the failure that stopped it, if any,
and the machine as it is then. -/
def loop (store : Store) : (rounds : Nat) → Machine → Calc (Option Failure × SigComp.Machine)
  | 0, m => if m.view.isRunning then endless else return (none, m.view)
  | rounds + 1, m =>
    if m.view.isRunning then
      match step store m with
      | .ok () m => loop store rounds m
      | .error (.fault r) m => return (some r, m.view)
      | .error (.trap t) _ => .error (.trap t)
    else return (none, m.view)

/-- The program runs with `cycles` to spend, and with what it is granted for input.  It may make one
step for each cycle that there can ever be. -/
def run (m : Machine) (cycles : Nat) (store : Store) :
    Calc (SigComp.Machine × SigComp.Machine.Report) := do
  let target ← add 64 m.budget.total cycles
  let m := { m with budget := { m.budget with target } }
  let (r, m) ← loop store m.view.potential m
  return (m, m.report r)

end Machine

end SigComp.Checked
