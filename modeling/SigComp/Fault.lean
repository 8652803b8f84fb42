import SigComp.StateId

/-!
# What can go wrong

* `Failure` — why a machine stopped; `Postmortem` — where it stopped;
* `Error` — why an operation was refused, with the cause as a constructor and the
  wording in `Error.message`;
* `Warning` — what an operation noticed and went on from.
-/

namespace SigComp

/-! ## Failures of a machine -/

/-- Why decompression failed. -/
inductive Failure where
  | unknown
  | memoryAccess
  | input
  | resources
  | zeroDivision
  | cyclesExceeded
  | illegalOperand
  | illegalInstruction
  | stackUnderflow
  | huffmanMatch
  | huffmanBits
  | state
  | stateAccess
  | messageFormat
  deriving DecidableEq, Repr

namespace Failure

/-- The text of a failure. -/
def name : Failure → String
  | unknown => "UNKNOWN"
  | memoryAccess => "MEMORY_ACCESS"
  | input => "INPUT"
  | resources => "RESOURCES"
  | zeroDivision => "ZERO_DIVISION"
  | cyclesExceeded => "CYCLES_EXCEEDED"
  | illegalOperand => "ILLEGAL_OPERAND"
  | illegalInstruction => "ILLEGAL_INSTRUCTION"
  | stackUnderflow => "STACK_UNDERFLOW"
  | huffmanMatch => "HUFFMAN_MATCH"
  | huffmanBits => "HUFFMAN_BITS"
  | state => "STATE"
  | stateAccess => "STATE_ACCESS"
  | messageFormat => "MESSAGE_FORMAT"

/-- All failures, in the order in which they are numbered. -/
def all : List Failure :=
  [unknown, memoryAccess, input, resources, zeroDivision, cyclesExceeded, illegalOperand,
    illegalInstruction, stackUnderflow, huffmanMatch, huffmanBits, state, stateAccess,
    messageFormat]

end Failure

/-- Where a machine stopped: the address of the instruction that failed, the byte now at that
address (255 outside memory), and what had been spent by then. -/
structure Postmortem where
  reason : Failure
  pc : UInt16
  cycles : Nat
  instructions : Nat
  opcode : UInt8
  deriving DecidableEq, Repr

/-- The text of a postmortem. -/
def Postmortem.render (p : Postmortem) : String :=
  p.reason.name ++ " at pc=" ++ toString p.pc.toNat ++ " opcode=" ++ toString p.opcode.toNat ++
    " cycles=" ++ toString p.cycles ++ " instructions=" ++ toString p.instructions

/-! ## Refused operations -/

/-- What is wrong with an argument. -/
inductive BadParam where
  | bufferSizes
  | partialIdLength
  | partialIdForm
  | feedbackLength
  | codeLength
  | destination
  | stateSize
  | zeroId
  | contentLength
  | accessLength
  | stateMemory
  | algorithmName
  | emptyCode
  | dictionaryLength
  | machineSlot
  deriving DecidableEq, Repr

/-- The reason given for a bad argument. -/
def BadParam.reason : BadParam → String
  | bufferSizes => "buffer tier sizes must be non-decreasing"
  | partialIdLength => "partial state id length outside 6..=20"
  | partialIdForm => "partial state id must be 6, 9 or 12 bytes"
  | feedbackLength => "feedback item longer than 127 bytes"
  | codeLength => "bytecode length outside 1..=4095"
  | destination => "destination must be a multiple of 64 within 128..=1024"
  | stateSize => "state larger than largest buffer tier"
  | zeroId => "zero state identifier"
  | contentLength => "content length differs from reserved size"
  | accessLength => "minimum access length outside 6..=20"
  | stateMemory => "state exceeds compartment state memory"
  | algorithmName => "empty algorithm name"
  | emptyCode => "empty decompression bytecode"
  | dictionaryLength => "dictionary length outside 1..=65535"
  | machineSlot => "udvm id outside slot range"

/-- What has run out. -/
inductive Resource where
  | machineSlots
  | stateStructs
  | stateBuffers
  | compartments
  | stateMemory
  | algorithms
  | dictionaries
  | named (name : String)
  deriving DecidableEq, Repr

/-- The name of a resource. -/
def Resource.name : Resource → String
  | machineSlots => "udvm-slots"
  | stateStructs => "state-structs"
  | stateBuffers => "state-buffers"
  | compartments => "compartments"
  | stateMemory => "compartment-state-memory"
  | algorithms => "algorithms"
  | dictionaries => "dictionaries"
  | named name => name

/-- Why an operation was refused. -/
inductive Error where
  | badParam (cause : BadParam)
  | outOfResources (resource : Resource)
  | notFound
  | collision
  | destructed
  | insufficientBuffer
  | decompression (reason : Failure) (postmortem : Option Postmortem)
  | algorithm (name text : String)
  deriving DecidableEq, Repr

namespace Error

/-- The text of an error. -/
def message : Error → String
  | badParam cause => "bad parameter: " ++ cause.reason
  | outOfResources resource => "out of resources: " ++ resource.name
  | notFound => "not found"
  | collision => "state digest collision with different content"
  | destructed => "entity has been destructed"
  | insufficientBuffer => "insufficient buffer"
  | decompression reason _ => "decompression failed: " ++ reason.name
  | algorithm name text => "compression algorithm `" ++ name ++ "` failed: " ++ text

/-- A decompression that failed before the machine ran. -/
def malformed (reason : Failure) : Error := decompression reason none

/-- A decompression whose machine stopped. -/
def ofPostmortem (p : Postmortem) : Error := decompression p.reason (some p)

end Error

/-! ## Warnings -/

/-- The name of a suspended machine; zero names none. -/
abbrev MachineId := UInt32

/-- The text of a machine's name: eight hexadecimal digits. -/
def MachineId.render (id : MachineId) : String :=
  let digits := Nat.toDigits 16 id.toNat
  "0x" ++ String.ofList (List.replicate (8 - digits.length) '0' ++ digits)

/-- What an operation noticed and went on from. -/
inductive Warning where
  | memorySizeAnnounced (packed : UInt8)
  | cyclesExhausted (pc : UInt16) (total target : Nat)
  | machineExpired (id : MachineId)
  | feedbackRejected (error : Error)
  | saveSkipped (reason : Failure) (address : UInt16) (length : Nat)
  | saveFailed (error : Error) (id : StateId)
  | freeFailed (error : Error)
  | freeSkipped (reason : Failure)
  | feedbackDropped (error : Error)
  | rollbackFailed (error : Error)
  | bytecodeRepeated (slot : Nat) (algorithm : String)
  deriving DecidableEq

/-- The text of a warning, without its particulars. -/
def Warning.message : Warning → String
  | memorySizeAnnounced _ =>
    "peer announced invalid decompression memory size, assuming 2048"
  | cyclesExhausted .. => "udvm cycles exhausted"
  | machineExpired _ => "pending udvm expired before compartment declaration"
  | feedbackRejected _ => "requested feedback rejected"
  | saveSkipped .. => "state save skipped"
  | saveFailed .. => "state save failed"
  | freeFailed _ => "state free failed"
  | freeSkipped _ => "state free skipped"
  | feedbackDropped _ => "returned feedback dropped"
  | rollbackFailed _ => "rollback of new compartment failed"
  | bytecodeRepeated .. => "bytecode uploaded although peer already holds it"

end SigComp
