import SigComp.Capabilities
import SigComp.Machine.Frugality

/-!
# Machines

A machine runs the decompression bytecode of one message on its input, within a
budget of cycles.

* `Machine.ofCode` and `Machine.ofState` load the bytecode;
* `Machine.step` runs one instruction; if it fails, only what lies in its frame may
  have changed;
* `step_potential` — a completed step spends at least one cycle, and is granted no
  more than the input that it consumed was worth.
-/

namespace SigComp

/-- How a program ends: for good, or with something left to settle with its sender's compartment. -/
inductive Completion where
  | finished
  | waiting
  deriving DecidableEq, Repr

/-- What a machine starts with. -/
structure Setup where
  memorySize : Nat
  cyclesPerBit : UInt16
  outputCapacity : Nat
  input : Bytes
  deriving DecidableEq, Repr

/-- A machine. -/
structure Machine where
  pc : UInt16
  memory : Memory
  input : BitInput
  budget : Budget
  output : Array UInt8
  outputCapacity : Nat
  instructions : Nat
  completion : Option Completion
  requests : Requests
  feedbackAt : UInt16
  parametersAt : UInt16

namespace Machine

/-! ## Loading -/

/-- A machine whose memory holds the header and the bytes of a program.  The lengths are those of
the state that the program came from. -/
def load (s : Setup) (partialLength stateLength : UInt16) (data : Bytes)
    (destination entry : UInt16) : Except Failure Machine :=
  let size := min s.memorySize Settings.maxMemory
  let load : Memory.Action Unit := do
    Memory.writeHeader (UInt16.ofNat size) s.cyclesPerBit Capabilities.sigcompVersion
      partialLength stateLength
    Memory.writeSlice destination.toNat data
  match load (Memory.zeroed size) with
  | .error r _ => .error r
  | .ok () memory => .ok {
      pc := entry
      memory
      input := ⟨s.input, 0, 0, false⟩
      budget := ⟨0, 0, s.cyclesPerBit.toNat⟩
      output := #[]
      outputCapacity := s.outputCapacity
      instructions := 0
      completion := none
      requests := []
      feedbackAt := 0
      parametersAt := 0 }

/-- A machine with bytecode that came with the message. -/
def ofCode (s : Setup) (code : Bytes) (destination : UInt16) : Except Failure Machine :=
  load s 0 0 code destination destination

/-- A machine with bytecode that is a state. -/
def ofState (s : Setup) (partialId : Bytes) (store : Store) : Except Failure Machine :=
  match store.lookup partialId false with
  | .error _ => .error .stateAccess
  | .ok state =>
    load s (UInt16.ofNat partialId.length) (UInt16.ofNat state.data.length) state.data
      state.address state.instruction

/-- A program is loaded if the header and the program fit into memory. -/
theorem load_ok (s : Setup) (partialLength stateLength : UInt16) (data : Bytes)
    (destination entry : UInt16) (header : 10 ≤ min s.memorySize Settings.maxMemory)
    (fits : destination.toNat + data.length ≤ min s.memorySize Settings.maxMemory) :
    ∃ m, load s partialLength stateLength data destination entry = .ok m := by
  obtain ⟨memory, written, size⟩ :=
    Memory.writeHeader_ok (m := Memory.zeroed (min s.memorySize Settings.maxMemory))
      (UInt16.ofNat (min s.memorySize Settings.maxMemory)) s.cyclesPerBit
      Capabilities.sigcompVersion partialLength stateLength (by rwa [Memory.size_zeroed])
  have stored : Memory.writeSlice destination.toNat data memory =
      .ok () (memory.put destination.toNat data) := by
    rw [Memory.writeSlice, if_pos (by rwa [size, Memory.size_zeroed])]
  simp only [load, bind, EStateM.bind, written, stored]
  exact ⟨_, rfl⟩

/-- A machine that has just been loaded has spent nothing, may spend nothing yet, has its whole
input before it, and has asked for nothing. -/
structure Fresh (s : Setup) (m : Machine) : Prop where
  budget : m.budget = ⟨0, 0, s.cyclesPerBit.toNat⟩
  input : m.input = ⟨s.input, 0, 0, false⟩
  instructions : m.instructions = 0
  requests : m.requests = []

theorem fresh_of_load {s : Setup} {partialLength stateLength destination entry : UInt16}
    {data : Bytes} {m : Machine}
    (h : load s partialLength stateLength data destination entry = .ok m) : Fresh s m := by
  simp only [load] at h
  split at h
  · cases h
  · cases h
    exact ⟨rfl, rfl, rfl, rfl⟩

theorem fresh_of_ofCode {s : Setup} {code : Bytes} {destination : UInt16} {m : Machine}
    (h : ofCode s code destination = .ok m) : Fresh s m :=
  fresh_of_load h

theorem fresh_of_ofState {s : Setup} {partialId : Bytes} {store : Store} {m : Machine}
    (h : ofState s partialId store = .ok m) : Fresh s m := by
  simp only [ofState] at h
  split at h
  · cases h
  · exact fresh_of_load h

/-! ## One instruction -/

/-- The cycles that may ever be spent: those granted, and those that the input is still worth. -/
def potential (m : Machine) : Nat := m.budget.target + m.budget.perBit * m.input.unread

/-- The instruction that comes next, if its number names one. -/
def fetch (m : Machine) : Except Failure Opcode :=
  match m.memory.get? m.pc.toNat with
  | none => .error .memoryAccess
  | some b =>
    match Opcode.ofByte? b with
    | none => .error .illegalInstruction
    | some o => .ok o

/-- What an instruction can see of its machine. -/
def surroundings (m : Machine) (store : Store) : Surroundings :=
  ⟨store, m.output.size, m.outputCapacity, m.requests⟩

/-- A completed instruction costs one cycle more than it charged. -/
def Budget.tick (b : Budget) : Budget := { b with total := b.total + 1 }

/-- How a program ends whose END-MESSAGE has the given operands. -/
def completionOf (feedbackAt parametersAt : UInt16) (requests : Requests) : Completion :=
  if feedbackAt ≠ 0 ∨ parametersAt ≠ 0 ∨ ¬ requests.isEmpty then .waiting else .finished

/-- The machine after a completed instruction, but for what the instruction did to its frame. -/
def complete (m : Machine) : Outcome → Machine
  | .go pc => { m with pc }
  | .emit data pc => { m with pc, output := m.output.appendList data }
  | .enqueue requests pc => { m with pc, requests }
  | .finish feedbackAt parametersAt requests pc =>
    { m with pc, requests, feedbackAt, parametersAt,
             completion := some (completionOf feedbackAt parametersAt requests) }

/-- The next instruction is run.  A failure keeps the address of the instruction, the output, the
requests and the count of instructions. -/
def step (store : Store) : EStateM Failure Machine Unit := fun m =>
  match m.fetch with
  | .error r => .error r m
  | .ok o =>
    let s := m.surroundings store
    match m with
    | ⟨pc, memory, input, budget, output, capacity, instructions, completion, requests, fa, pa⟩ =>
      match Instruction.execute s o ⟨pc, pc.toNat + 1, memory, input, budget⟩ with
      | .error r f =>
        .error r ⟨pc, f.memory, f.input, f.budget, output, capacity, instructions, completion,
          requests, fa, pa⟩
      | .ok outcome f =>
        .ok () (complete ⟨pc, f.memory, f.input, Budget.tick f.budget, output, capacity,
          instructions + 1, completion, requests, fa, pa⟩ outcome)

/-! ## What a step costs -/

@[simp] theorem budget_complete (m : Machine) (o : Outcome) : (m.complete o).budget = m.budget := by
  cases o <;> rfl

@[simp] theorem input_complete (m : Machine) (o : Outcome) : (m.complete o).input = m.input := by
  cases o <;> rfl

/-- A completed step spends a cycle and is granted no more than it paid for. -/
theorem step_potential {store : Store} {m m' : Machine} (h : step store m = .ok () m') :
    m'.budget.perBit = m.budget.perBit ∧ m'.potential ≤ m.potential ∧
      m.budget.total < m'.budget.total := by
  rcases m with
    ⟨pc, memory, input, budget, output, capacity, instructions, completion, requests, fa, pa⟩
  simp only [step] at h
  split at h
  · cases h
  · next o _ =>
    have paid := Instruction.frugal_execute (surroundings ⟨pc, memory, input, budget, output,
      capacity, instructions, completion, requests, fa, pa⟩ store) o
      ⟨pc, pc.toNat + 1, memory, input, budget⟩
    split at h
    · cases h
    · next outcome f run =>
      rw [run] at paid
      cases h
      refine ⟨?_, ?_, ?_⟩
      · rw [budget_complete]
        exact paid.perBit
      · simp only [potential, budget_complete, input_complete]
        exact paid.potential
      · rw [budget_complete]
        exact Nat.lt_succ_of_le paid.total

end Machine

end SigComp
