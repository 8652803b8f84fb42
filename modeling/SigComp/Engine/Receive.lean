import SigComp.Engine.Compartments

/-!
# Receiving

A message is decompressed at once, and what it leaves to be settled waits for the
caller to say whose message it was.

* `Engine.decompress` runs the machine of a message, and suspends it if need be;
* `Engine.declare` settles a suspended machine with a compartment, or discards it.
-/

namespace SigComp

/-- The cycles that a message brings along: those of 1000 bits and of its header. -/
def Message.cycles (m : Message) (perBit : UInt16) : Nat :=
  (8 * m.headerLength + 1000) * perBit.toNat

/-- Whose message it was: a peer's that has no compartment yet, a peer's that has one, or nobody's
whose word can be trusted. -/
inductive Declaration where
  | fresh (algorithm : Option String)
  | existing (compartment : Key)
  | unauthorized
  deriving DecidableEq, Repr

namespace Engine

/-! ## Decompression -/

/-- Machines whose time is over are given up. -/
def reap (e : Engine) : Engine :=
  let (pending, expired) := e.pending.reap e.clock.now
  { e with pending }.warned (expired.map .machineExpired)

@[simp] theorem settings_reap (e : Engine) : e.reap.settings = e.settings := rfl

@[simp] theorem store_reap (e : Engine) : e.reap.store = e.store := rfl

/-- The machine of a message, loaded and ready. -/
def machineFor (e : Engine) (m : Message) (length : Nat) (t : Transport) :
    Except Error Machine := do
  let memory ← t.machineMemory e.settings.decompressionMemory length
  let setup : Setup := ⟨memory, e.settings.cyclesPerBit, memory, m.input⟩
  let loaded := match m.body with
    | .bytecode code destination => Machine.ofCode setup code destination
    | .stateId partialId => Machine.ofState setup partialId e.store
  loaded.mapError .malformed

/-- A machine waits for the declaration of its message. -/
def suspend (m : Machine) (feedback : Option Bytes) : Action MachineId := fun e =>
  let deadline := e.clock.now + e.settings.pendingSeconds * 1000
  match e.pending.suspend m feedback deadline with
  | none => .error (.outOfResources .machineSlots) e
  | some (id, pending) => .ok id { e with pending }

/-- What becomes of a machine that has come to its end: it waits unless there is nothing to settle
with anyone. -/
def conclude (m : Machine) (feedback : Option Bytes) (completion : Completion) :
    Action (Bytes × MachineId) :=
  let (plain, m) := m.takeOutput
  if completion = .finished ∧ feedback = none then return (plain, 0)
  else do return (plain, ← suspend m feedback)

/-- The machine of a message runs. -/
def runMachine (m : Machine) (cycles : Nat) (feedback : Option Bytes) :
    Action (Bytes × MachineId) := do
  let (m, report) := m.run cycles (← get).store
  modify fun e => e.warned report.warnings
  match report.verdict with
  | .error p => throw (.ofPostmortem p)
  | .ok completion => conclude m feedback completion

/-- A message is decompressed.  The answer is the plain text and the name of the machine, which is
zero if there is nothing to declare. -/
def decompress (data : Bytes) (t : Transport) : Action (Bytes × MachineId) := do
  modify reap
  let e ← get
  if e.pending.machines.isFull then throw (.outOfResources .machineSlots)
  else
    match Message.parse? data with
    | none => throw (.malformed .messageFormat)
    | some m => do
      let machine ← ofExcept (e.machineFor m data.length t)
      runMachine machine (m.cycles e.settings.cyclesPerBit) m.feedback

/-! ## Declaration -/

/-- A suspended machine is taken out of those that wait. -/
def claim (id : MachineId) : Action Suspended := do
  modify reap
  let e ← get
  let (suspended, pending) ← ofExcept (e.pending.claim id)
  set { e with pending }
  return suspended

/-- A suspended machine is settled with a compartment, whose algorithm is then told. -/
def settle (id : MachineId) (k : Key) : Action Unit := do
  let suspended ← claim id
  let e ← get
  let c ← ofExcept (e.compartment k)
  let ((c, store), warnings) := c.settle e.store e.clock.now suspended.machine suspended.feedback
  let e := { e with store }.putCompartment k c
  set ((e.warned warnings).called (.peerMessage c.algorithm.name k (e.briefing c)))

/-- A compartment that was opened for a message which could not be settled with it is closed. -/
def rollBack (e : Engine) (k : Key) : Engine :=
  match close k e with
  | .ok () e => e
  | .error r e => e.warned [.rollbackFailed r]

/-- A compartment is opened and a suspended machine settled with it; it does not stay open if the
machine cannot be. -/
def settleFresh (id : MachineId) (algorithm : Option String) : Action Key := do
  let k ← create algorithm
  fun e =>
    match settle id k e with
    | .ok () e => .ok k e
    | .error r e => .error r (e.rollBack k)

/-- It is declared whose message it was that a machine belongs to; the answer is the compartment, if
one now has it.  The name zero stands for no machine, so there is nothing to be done for it. -/
def declare (id : MachineId) (d : Declaration) : Action (Option Key) :=
  if id = 0 then return none
  else
    match d with
    | .fresh algorithm => do return some (← settleFresh id algorithm)
    | .existing k => do
      let _ ← ofExcept ((← get).compartment k)
      settle id k
      return some k
    | .unauthorized => do
      let _ ← claim id
      return none

end Engine

end SigComp
