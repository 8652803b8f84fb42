import SigComp.Checked.Memory
import SigComp.Machine.Commitment

/-!
# Commitments, checked

What a machine leaves to be done, read from its memory once more: every address that is
one or two further on, every length that is a difference, and every piece of a state that
is compared with a stored one or copied into a buffer.

* `commitments` reads all of it, in the order in which it is to be done;
* `agrees` and `copied` are what a store does with the content of a state.
-/

namespace SigComp.Checked

/-! ## Returned parameters -/

/-- The end of a list of identifiers that goes on at `stop`. -/
def idsEnd (m : Memory) (start capacity : Nat) : (rounds stop : Nat) → Calc (Option Nat)
  | 0, _ => endless
  | rounds + 1, stop =>
    match m.get? stop with
    | none => return none
    | some n =>
      if StateId.isPartialLength n.toNat then do
        let first ← add 64 stop 1
        let next ← add 64 first n.toNat
        if m.size < next then return none
        else do
          let length ← sub next start
          if capacity < length then return some stop
          else idsEnd m start capacity rounds next
      else return some stop

/-- The identifiers from `start` on, up to `capacity` bytes of them.  Each takes up some of
these. -/
def ids (m : Memory) (start capacity : Nat) : Calc (Option Bytes) := do
  match ← idsEnd m start capacity (capacity + 1) start with
  | none => return none
  | some stop => do
    let length ← sub stop start
    return m.slice? start length

/-- The capabilities that a program returns, and the identifiers of the states that its sender
holds. -/
def returnedParameters (m : Memory) (location capacity : Nat) : Calc (List Commitment) := do
  let second ← add 64 location 1
  match m.get? location, m.get? second with
  | some packed, some version => do
    let start ← add 64 location 2
    let ids ← ids m start capacity
    return .capabilities packed version :: (ids.map .remoteIds).toList
  | _, _ => return []

/-! ## Requested feedback -/

/-- The feedback item behind the flags at an address. -/
def feedbackItem (m : Memory) (location : Nat) : Calc (Option Bytes) := do
  let second ← add 64 location 1
  match m.get? second with
  | none => return none
  | some first =>
    if first.toNat ≤ 127 then return m.slice? second 1
    else do
      let third ← add 64 location 2
      return m.slice? third (first &&& 0x7f).toNat

/-- What a program asks its receiver to send back. -/
def requestedFeedback (m : Memory) (location : Nat) : Calc (List Commitment) :=
  match m.get? location with
  | none => return []
  | some flags =>
    let keepStates := flags &&& 2 == 0
    let sendIds := flags &&& 1 == 0
    if flags &&& 4 = 0 then return [.feedback keepStates sendIds none]
    else do
      match ← feedbackItem m location with
      | some item => return [.feedback keepStates sendIds (some item)]
      | none => return []

/-! ## States -/

/-- The pieces of a stretch of the ring, with the borders that the registers hold. -/
def region (m : Memory) (a : UInt16) (n : Nat) : Calc (List Bytes) :=
  match window m with
  | .ok w _ => pieces w m a n
  | .error h _ => .error h

/-- A stretch of the ring is to become a state. -/
def saveRegion (m : Memory) (r : SaveRequest) (length : Nat) : Calc (List Commitment) := do
  match ← attempt (region m r.address length) with
  | .ok pieces => return [.save (SigComp.Machine.labelOf r length pieces) ⟨pieces⟩]
  | .error reason => return [.skipSave reason r.address length]

/-- What becomes of a request to save a state. -/
def saveCommitment (m : Memory) (stateMemory : Nat) (r : SaveRequest) : Calc (List Commitment) := do
  let cost ← add 64 r.length.toNat stateOverhead
  if stateMemory < cost then
    if stateMemory < stateOverhead then return []
    else do
      let length ← sub stateMemory stateOverhead
      saveRegion m r length
  else saveRegion m r r.length.toNat

/-- What becomes of a request to give a state up. -/
def freeCommitment (m : Memory) (r : FreeRequest) : Calc Commitment := do
  match ← attempt (region m r.start r.length.toNat) with
  | .ok pieces => return .free pieces.flatten
  | .error reason => return .skipFree reason

/-- What becomes of a request. -/
def requestCommitment (m : Memory) (stateMemory : Nat) : Request → Calc (List Commitment)
  | .save r => saveCommitment m stateMemory r
  | .free r => do return [← freeCommitment m r]

/-- What becomes of requests, one after the other. -/
def requestCommitments (m : Memory) (stateMemory : Nat) : Requests → Calc (List Commitment)
  | [] => return []
  | r :: rs => do
    let first ← requestCommitment m stateMemory r
    let rest ← requestCommitments m stateMemory rs
    return first ++ rest

/-! ## All commitments -/

/-- What is found at a location.  A location of zero points nowhere. -/
def located (location : UInt16) (read : Nat → Calc (List Commitment)) : Calc (List Commitment) :=
  if location = 0 then return [] else read location.toNat

/-- What a machine leaves to be done, in order. -/
def commitments (m : SigComp.Machine) (stateMemory capacity : Nat) : Calc (List Commitment) := do
  let parameters ← located m.parametersAt fun a => returnedParameters m.memory a capacity
  let feedback ← located m.feedbackAt (requestedFeedback m.memory)
  let requests ← requestCommitments m.memory stateMemory m.requests
  return parameters ++ feedback ++ requests

/-! ## Content -/

/-- The pieces stand one after the other in `stored`, from an offset on. -/
def agreesFrom (stored : Bytes) : List Bytes → (offset : Nat) → Calc Bool
  | [], _ => return true
  | p :: ps, offset => do
    let stop ← add 64 offset p.length
    let part ← slice stored offset stop
    if part == p then agreesFrom stored ps stop else return false

/-- The content is the stored byte string. -/
def agrees (c : Content) (stored : Bytes) : Calc Bool :=
  if stored.length = c.length then agreesFrom stored c.pieces 0 else return false

/-- The pieces are stored one after the other, from an offset on. -/
def copiedFrom : List Bytes → (offset : Nat) → Bytes → Calc Bytes
  | [], _, target => return target
  | p :: ps, offset, target => do
    let stop ← add 64 offset p.length
    let target ← overwrite target offset stop p
    copiedFrom ps stop target

/-- The content in a buffer of its length. -/
def copied (c : Content) : Calc Bytes := copiedFrom c.pieces 0 (List.replicate c.length 0)

end SigComp.Checked
