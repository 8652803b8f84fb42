import SigComp.Checked.Machine
import SigComp.Engine.Receive

/-!
# Decompression, checked

From the bytes of a message to its plain text: the header is read with a position that
goes from byte to byte, and what follows it is the input of a checked machine.  Who waits
and for how long is a matter of the engine, and is taken from there.

* `parse` takes a message apart;
* `decompress` runs the machine of a message.
-/

namespace SigComp.Checked

/-! ## Headers -/

/-- A message whose header is no header is refused. -/
def malformed {α : Type} : Calc α := .error (.fault .messageFormat)

/-- The byte at a position of a message, and the position after it. -/
def byteAt (message : Bytes) (position : Nat) : Calc (UInt8 × Nat) :=
  match message[position]? with
  | none => malformed
  | some b => do
    let next ← add 64 position 1
    return (b, next)

/-- The `n` bytes at a position of a message, and the position after them. -/
def bytesAt (message : Bytes) (position n : Nat) : Calc (Bytes × Nat) :=
  if position + n < 1 <<< 64 ∧ position + n ≤ message.length then do
    let taken ← slice message position (position + n)
    return (taken, position + n)
  else malformed

/-- The feedback item that the first byte announces, and the position after it. -/
def feedbackAt (message : Bytes) (first : UInt8) (position : Nat) : Calc (Option Bytes × Nat) :=
  if first &&& Header.feedbackBit = 0 then return (none, position)
  else do
    let (lead, position) ← byteAt message position
    if lead.toNat ≤ 127 then return (some [lead], position)
    else do
      let (item, position) ← bytesAt message position (lead &&& 0x7f).toNat
      return (some item, position)

/-- The body of the class that the first byte announces, and the position after it. -/
def bodyAt (message : Bytes) (first : UInt8) (position : Nat) : Calc (Body × Nat) :=
  if first &&& 3 = 0 then do
    let (high, position) ← byteAt message position
    let (low, position) ← byteAt message position
    let upper ← shiftLeft 64 high.toNat 4
    let lower ← shiftRight 8 low.toNat 4
    let nibble := low.toNat % 16
    if nibble = 0 ∨ upper ||| lower = 0 then malformed
    else do
      let (code, position) ← bytesAt message position (upper ||| lower)
      let blocks ← add 16 nibble 1
      let destination ← mul 16 blocks 64
      return (.bytecode code (UInt16.ofNat destination), position)
  else do
    let triples ← mul 64 3 (first &&& 3).toNat
    let length ← add 64 3 triples
    let (p, position) ← bytesAt message position length
    return (.stateId p, position)

/-- A message taken apart. -/
def parse (message : Bytes) : Calc Message := do
  let (first, position) ← byteAt message 0
  if Header.isMarked first then do
    let (feedback, position) ← feedbackAt message first position
    let (body, position) ← bodyAt message first position
    let input ← slice message position message.length
    return ⟨feedback, body, input, position⟩
  else malformed

/-! ## Machines for messages -/

/-- What a machine gets of `memory` bytes when its message has `length` of them. -/
def machineMemory (memory length : Nat) : Transport → Calc (Except Error Nat)
  | .stream => return .ok (min (memory / 2) Settings.maxMemory)
  | .message =>
    if memory ≤ length then return .error .insufficientBuffer
    else do
      let rest ← sub memory length
      return .ok (min rest Settings.maxMemory)

/-- The machine of a message, loaded. -/
def Machine.ofBody (s : Setup) (store : Store) : Body → Calc Machine
  | .bytecode code destination => ofCode s code destination
  | .stateId partialId => ofState s partialId store

/-- The cycles that a message brings along. -/
def cycles (m : Message) (perBit : UInt16) : Calc Nat := do
  let header ← mul 64 8 m.headerLength
  let bits ← add 64 header 1000
  mul 64 bits perBit.toNat

/-! ## Decompression -/

/-- What an operation does, or that it is stopped. -/
abbrev Action (α : Type) := Engine → Calc (EStateM.Result Error Engine α)

/-- What becomes of a machine that has run. -/
def settle (m : SigComp.Machine) (report : SigComp.Machine.Report) (feedback : Option Bytes) :
    Engine.Action (Bytes × MachineId) := do
  modify fun e => e.warned report.warnings
  match report.verdict with
  | .error p => throw (.ofPostmortem p)
  | .ok completion => Engine.conclude m feedback completion

/-- The machine of a message is loaded and runs. -/
def process (msg : Message) (memory : Nat) : Action (Bytes × MachineId) := fun e => do
  let setup : Setup := ⟨memory, e.settings.cyclesPerBit, memory, msg.input⟩
  match ← attempt (Machine.ofBody setup e.store msg.body) with
  | .error r => return .error (.malformed r) e
  | .ok m => do
    let cycles ← cycles msg e.settings.cyclesPerBit
    let (m, report) ← m.run cycles e.store
    return settle m report msg.feedback e

/-- A message is decompressed. -/
def decompress (data : Bytes) (t : Transport) : Action (Bytes × MachineId) := fun e => do
  let e := e.reap
  if e.pending.machines.isFull then return .error (.outOfResources .machineSlots) e
  else
    match ← attempt (parse data) with
    | .error r => return .error (.malformed r) e
    | .ok msg => do
      match ← machineMemory e.settings.decompressionMemory data.length t with
      | .error r => return .error r e
      | .ok memory => process msg memory e

end SigComp.Checked
