import SigComp.Compartment.Membership
import SigComp.Machine.Commitment

/-!
# Settlement

A compartment does what a program has left to be done, one commitment after the other.
Nothing here can fail as a whole: what cannot be done is left undone with a warning.
-/

namespace SigComp.Compartment

/-- The longest list of a peer's identifiers that a compartment remembers. -/
def remoteIdsCapacity : Nat := 512

/-- One commitment is carried out. -/
def carryOut (c : Compartment) (s : Store) : Commitment → (Compartment × Store) × List Warning
  | .capabilities packed version => ((c.learn packed version, s), learnWarnings packed)
  | .remoteIds ids => (({ c with remoteIds := ids }, s), [])
  | .feedback keepStates sendIds item =>
    match c.requestFeedback keepStates sendIds item with
    | .ok c => ((c, s), [])
    | .error e => ((c, s), [.feedbackRejected e])
  | .save l content =>
    match accept l content (c, s) with
    | .ok _ after => (after, [])
    | .error e after => (after, [.saveFailed e l.id])
  | .skipSave reason address length => ((c, s), [.saveSkipped reason address length])
  | .free partialId =>
    match expel partialId (c, s) with
    | .ok () after => (after, [])
    | .error e after => (after, [.freeFailed e])
  | .skipFree reason => ((c, s), [.freeSkipped reason])

/-- Commitments are carried out in order. -/
def carryOutAll (c : Compartment) (s : Store) :
    List Commitment → (Compartment × Store) × List Warning
  | [] => ((c, s), [])
  | todo :: rest =>
    let ((c, s), first) := c.carryOut s todo
    let (after, others) := c.carryOutAll s rest
    (after, first ++ others)

/-- The feedback that came with a message, if any, waits to be passed on. -/
def acceptFeedback (c : Compartment) : Option Bytes → Compartment × List Warning
  | none => (c, [])
  | some item =>
    match c.returnFeedback item with
    | .ok c => (c, [])
    | .error e => (c, [.feedbackDropped e])

/-- The machine of a message that has come from the compartment's peer is settled with it. -/
def settle (c : Compartment) (s : Store) (now : Nat) (m : Machine) (feedback : Option Bytes) :
    (Compartment × Store) × List Warning :=
  let todo := m.commitments c.own.stateMemory remoteIdsCapacity
  let ((c, s), first) := (c.received now).carryOutAll s todo
  let (c, others) := c.acceptFeedback feedback
  ((c, s), first ++ others)

end SigComp.Compartment
