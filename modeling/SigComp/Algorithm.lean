import SigComp.Capabilities
import SigComp.Arena
import SigComp.Store.Content
import SigComp.Transport

/-!
# Compression algorithms

How to compress is for an algorithm to decide; the library decides when, and what the
algorithm is told.  An algorithm comes with the bytecode that undoes its work, which
peers find in the state store.

* `Descriptor` — what is known of an algorithm, its bytecode included;
* `Briefing` — what an algorithm is told about a compartment;
* `Compressor` — the algorithm at work: a job and a context make a message and the
  context for the next job;
* `Callback` — what an algorithm is called for, by which its history can be read.
-/

namespace SigComp

/-! ## Descriptors -/

/-- What is known of an algorithm: its name, the context that it needs in each compartment, the
bytecode that undoes its work, and what a peer needs to run that. -/
structure Descriptor where
  name : String
  code : Bytes
  contextSize : Nat := 0
  address : UInt16 := 128
  instruction : UInt16 := 128
  cyclesPerBit : UInt16 := 16
  decompressionMemory : Nat := 8192
  stateMemory : Nat := 2048
  version : UInt8 := 1
  deriving DecidableEq, Repr

/-- The minimum access length of bytecode. -/
def Descriptor.codeAccess : UInt16 := 6

/-- The identifier of the bytecode as a state. -/
def Descriptor.codeId (d : Descriptor) : StateId :=
  .ofData d.code d.address d.instruction codeAccess

/-- What the bytecode is known by as a state. -/
def Descriptor.codeLabel (d : Descriptor) : Label :=
  ⟨d.codeId, d.address, d.instruction, codeAccess, permanentPriority⟩

/-! ## Briefings -/

/-- What an algorithm is told about a compartment.  `resetContext` asks for the bytecode to be sent
again; the lists of identifiers are sequences of a length and as many bytes. -/
structure Briefing where
  returnedFeedback : Bytes
  resetContext : Bool
  dictionaryMandatory : Bool
  remote : Capabilities
  remoteChanged : Bool
  remoteIds : Bytes
  own : Capabilities
  ownIds : Bytes
  sendCapabilities : Bool
  sendIds : Bool
  keepRemoteStates : Bool
  incoming : Nat
  lastIncoming : Option Nat
  deriving DecidableEq, Repr

/-! ## Compressors -/

/-- One message to compress. -/
structure Job where
  compartment : Key
  descriptor : Descriptor
  briefing : Briefing
  plain : Bytes
  transport : Transport
  deriving DecidableEq, Repr

/-- An algorithm at work.  `compress` makes a job and a context into a whole message, or the reason
why there is none, and the context for the next job; `created` prepares the context of a new
compartment. -/
structure Compressor where
  compress : Job → Bytes → Except String Bytes × Bytes
  created : Key → Bytes → Bytes := fun _ context => context

/-- An algorithm that compartments can use. -/
structure Algorithm where
  descriptor : Descriptor
  compressor : Compressor

/-- The name of an algorithm. -/
def Algorithm.name (a : Algorithm) : String := a.descriptor.name

/-! ## Callbacks -/

/-- What an algorithm is called for.  Compartments are named by their keys; contexts are shown as
they are before the call. -/
inductive Callback where
  | initialized (algorithm : String)
  | ended (algorithm : String)
  | created (algorithm : String) (compartment : Key) (context : Bytes)
  | destructed (algorithm : String) (compartment : Key) (context : Bytes)
  | peerMessage (algorithm : String) (compartment : Key) (briefing : Briefing)
  | compress (algorithm : String) (compartment : Key) (transport : Transport) (context : Bytes)
      (briefing : Briefing)
  deriving DecidableEq, Repr

/-- The algorithm that is called. -/
def Callback.algorithm : Callback → String
  | initialized a | ended a | created a .. | destructed a .. | peerMessage a .. | compress a .. => a

end SigComp
