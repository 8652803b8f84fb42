import SigComp.Machine.Basic

/-!
# Commitments

What a program leaves to be done once it is known which peer sent the message: the
parameters and feedback that it points to, and the states that it wants saved or
given up.  `Machine.commitments` reads all of this from memory, in the order in
which it is to be done, so that doing it is a matter of the compartment alone.

* `Machine.idsEnd?` finds the end of a list of identifiers;
* `Machine.fittingLength?` cuts a state to the state memory that there is.
-/

namespace SigComp

/-- Something that a program leaves to be done.  What cannot be done for want of memory is skipped
with a reason. -/
inductive Commitment where
  | capabilities (packed version : UInt8)
  | remoteIds (ids : Bytes)
  | feedback (keepStates sendIds : Bool) (item : Option Bytes)
  | save (label : Label) (content : Content)
  | skipSave (reason : Failure) (address : UInt16) (length : Nat)
  | free (partialId : Bytes)
  | skipFree (reason : Failure)

namespace Machine

/-! ## Returned parameters -/

/-- The end of a list of identifiers that goes on at `stop`: each entry is a length of 6 to 20 and
as many bytes.  The list ends before the first byte that is no such length, or before the entry with
which it would exceed `capacity` bytes; it has no end if memory ends first. -/
def idsEnd? (m : Memory) (start capacity stop : Nat) : Option Nat :=
  match h : m.get? stop with
  | none => none
  | some n =>
    if StateId.isPartialLength n.toNat then
      let next := stop + 1 + n.toNat
      if m.size < next then none
      else if capacity < next - start then some stop
      else idsEnd? m start capacity next
    else some stop
termination_by m.size - stop
decreasing_by
  have inside : stop < m.size := by
    simp only [Memory.get?, Array.getElem?_eq_some_iff] at h
    exact h.1
  omega

/-- The capabilities that a program returns, and the identifiers of the states that its sender
holds, up to `capacity` bytes of them. -/
def returnedParameters (m : Memory) (location capacity : Nat) : List Commitment :=
  match m.get? location, m.get? (location + 1) with
  | some packed, some version =>
    let start := location + 2
    let ids := (idsEnd? m start capacity start).bind fun stop => m.slice? start (stop - start)
    .capabilities packed version :: (ids.map .remoteIds).toList
  | _, _ => []

/-! ## Requested feedback -/

/-- The feedback item at an address: a byte below 128, or a length and as many bytes. -/
def feedbackItem? (m : Memory) (location : Nat) : Option Bytes :=
  (m.get? location).bind fun first =>
    if first.toNat ≤ 127 then some [first]
    else m.slice? (location + 1) (first &&& 0x7f).toNat

/-- What a program asks its receiver to send back.  The flags say whether the sender gives up its
states (2), wants no identifiers (1), and has an item to be returned (4). -/
def requestedFeedback (m : Memory) (location : Nat) : List Commitment :=
  match m.get? location with
  | none => []
  | some flags =>
    let keepStates := flags &&& 2 == 0
    let sendIds := flags &&& 1 == 0
    if flags &&& 4 = 0 then [.feedback keepStates sendIds none]
    else
      match feedbackItem? m (location + 1) with
      | some item => [.feedback keepStates sendIds (some item)]
      | none => []

/-! ## States -/

/-- The label of a state whose bytes come in the given pieces. -/
def labelOf (r : SaveRequest) (length : Nat) (pieces : List Bytes) : Label where
  id := .ofPieces (UInt16.ofNat length) r.address r.instruction r.access pieces
  address := r.address
  instruction := r.instruction
  access := r.access
  priority := r.priority

/-- The length to which a state is cut so that it fits into a state memory; nothing if not even the
overhead of a state does. -/
def fittingLength? (stateMemory length : Nat) : Option Nat :=
  if length + stateOverhead ≤ stateMemory then some length
  else if stateOverhead ≤ stateMemory then some (stateMemory - stateOverhead)
  else none

/-- What becomes of a request to save a state. -/
def saveCommitment (m : Memory) (stateMemory : Nat) (r : SaveRequest) : List Commitment :=
  match fittingLength? stateMemory r.length.toNat with
  | none => []
  | some length =>
    match (Window.ofMemory? m).bind fun w => w.pieces? m r.address length with
    | some pieces => [.save (labelOf r length pieces) ⟨pieces⟩]
    | none => [.skipSave .memoryAccess r.address length]

/-- What becomes of a request to give a state up. -/
def freeCommitment (m : Memory) (r : FreeRequest) : Commitment :=
  match (Window.ofMemory? m).bind fun w => w.pieces? m r.start r.length.toNat with
  | some pieces => .free pieces.flatten
  | none => .skipFree .memoryAccess

/-- What becomes of a request. -/
def requestCommitment (m : Memory) (stateMemory : Nat) : Request → List Commitment
  | .save r => saveCommitment m stateMemory r
  | .free r => [freeCommitment m r]

/-! ## All commitments -/

/-- What a machine leaves to be done, in order: parameters, feedback, and the requests as they were
made.  A location of zero points nowhere. -/
def commitments (m : Machine) (stateMemory capacity : Nat) : List Commitment :=
  (if m.parametersAt = 0 then [] else returnedParameters m.memory m.parametersAt.toNat capacity) ++
  (if m.feedbackAt = 0 then [] else requestedFeedback m.memory m.feedbackAt.toNat) ++
  m.requests.flatMap (requestCommitment m.memory stateMemory)

/-- The machine once its requests have been dealt with. -/
def settled (m : Machine) : Machine := { m with requests := [] }

end Machine

end SigComp
