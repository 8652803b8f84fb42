import SigComp.Catalogue
import SigComp.Message.Header
import SigComp.Store.Basic

/-!
# Compartments

What an endpoint remembers of one peer: the states that it holds for the peer and the
memory that these leave, the capabilities of both sides, feedback that waits to be
sent, and the context of the algorithm that writes to the peer.

* `Compartment.briefing` — what the algorithm is told;
* `Compartment.learn` — what the peer announces replaces what was known of it;
* `Compartment.sent` — a message that was sent settles what was due with it.
-/

namespace SigComp

/-- A state that a compartment holds.  The order counts the states that the compartment has
admitted since it last held none. -/
structure Member where
  key : Key
  id : StateId
  length : Nat
  priority : UInt16
  order : UInt32
  deriving DecidableEq

/-- What a member takes from the state memory of its compartment. -/
def Member.cost (m : Member) : Nat := m.length + stateOverhead

/-- What an endpoint remembers of one peer. -/
structure Compartment where
  algorithm : Algorithm
  context : Option Context
  own : Capabilities
  maxStates : Nat
  members : List Member := []
  admitted : UInt32 := 0
  available : Nat := own.stateMemory
  remote : Capabilities := .peerDefault
  remoteChanged : Bool := false
  remoteIds : Bytes := []
  keepRemoteStates : Bool := true
  sendBytecode : Bool := true
  sendCapabilities : Bool := true
  sendIds : Bool := false
  requestedFeedback : Bytes := []
  returnedFeedback : Bytes := []
  incoming : Nat := 0
  lastIncoming : Option Nat := none

namespace Compartment

/-! ## The algorithm's view -/

/-- The bytes of the algorithm's context; none if it has no context. -/
def contextBytes (c : Compartment) : Bytes := (c.context.map (·.bytes)).getD []

/-- The algorithm's context is written over. -/
def writeContext (c : Compartment) (data : Bytes) : Compartment :=
  { c with context := c.context.map (·.write data) }

/-- What the algorithm is told.  `ownIds` and `dictionaryMandatory` are the same for all
compartments. -/
def briefing (c : Compartment) (ownIds : Bytes) (dictionaryMandatory : Bool) : Briefing where
  returnedFeedback := c.returnedFeedback
  resetContext := c.sendBytecode
  dictionaryMandatory
  remote := c.remote
  remoteChanged := c.remoteChanged
  remoteIds := c.remoteIds
  own := c.own
  ownIds
  sendCapabilities := c.sendCapabilities
  sendIds := c.sendIds
  keepRemoteStates := c.keepRemoteStates
  incoming := c.incoming
  lastIncoming := c.lastIncoming

/-- The bytecode, the returned feedback and the news about the peer have been sent. -/
def sent (c : Compartment) : Compartment :=
  { c with returnedFeedback := [], sendBytecode := false, remoteChanged := false }

/-! ## What the peer says -/

/-- A message of the peer has come. -/
def received (c : Compartment) (now : Nat) : Compartment :=
  { c with incoming := c.incoming + 1, lastIncoming := some now }

/-- The peer's capabilities after an announcement; a byte of zero announces the version alone. -/
def announced (c : Compartment) (packed version : UInt8) : Capabilities :=
  if packed = 0 then { c.remote with version := max version 1 } else .decode packed version

/-- What the peer announces of itself replaces what was known of it. -/
def learn (c : Compartment) (packed version : UInt8) : Compartment :=
  let next := c.announced packed version
  if next = c.remote then c else { c with remote := next, remoteChanged := true }

/-- The warning that an announcement gives rise to, if any. -/
def learnWarnings (packed : UInt8) : List Warning :=
  if packed = 0 then [] else Capabilities.decodeWarnings packed

/-- The feedback that the peer asks for with its next message. -/
def requestFeedback (c : Compartment) (keepStates sendIds : Bool) (item : Option Bytes) :
    Except Error Compartment :=
  let item := item.getD []
  if item.length > Header.maxFeedback then .error (.badParam .feedbackLength)
  else .ok { c with keepRemoteStates := keepStates, sendIds, requestedFeedback := item }

/-- The feedback that the peer returns. -/
def returnFeedback (c : Compartment) (item : Bytes) : Except Error Compartment :=
  if item.length > Header.maxFeedback then .error (.badParam .feedbackLength)
  else .ok { c with returnedFeedback := item }

end Compartment

end SigComp
