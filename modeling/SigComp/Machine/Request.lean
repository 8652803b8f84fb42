import SigComp.Store.Content

/-!
# Requests

What a program asks of the state store.  Requests are collected while the program
runs and wait until it is known which peer sent the message.

* `Requests.addSave?` and `Requests.addFree?` are the only ways to collect one, so a
  list of requests holds at most four of each kind and none that is inadmissible.
-/

namespace SigComp

/-- Memory that is to become a state. -/
structure SaveRequest where
  length : UInt16
  address : UInt16
  instruction : UInt16
  access : UInt16
  priority : UInt16
  deriving DecidableEq, Repr

/-- A state with such an access length and priority can be created. -/
def SaveRequest.admissible (r : SaveRequest) : Bool :=
  StateId.isPartialLength r.access.toNat && r.priority != permanentPriority

/-- A state that is to be given up, by the place of its partial identifier in memory. -/
structure FreeRequest where
  start : UInt16
  length : UInt16
  deriving DecidableEq, Repr

/-- What a program asks for. -/
inductive Request where
  | save (r : SaveRequest)
  | free (r : FreeRequest)
  deriving DecidableEq, Repr

/-- Memory is to become a state. -/
def Request.isSave : Request → Bool
  | save _ => true
  | free _ => false

/-- What a program has asked for, in order. -/
abbrev Requests := List Request

namespace Requests

/-- A program may ask for so many of each kind. -/
def limit : Nat := 4

/-- The number of states to be saved. -/
def saves (rs : Requests) : Nat := rs.countP Request.isSave

/-- The number of states to be given up. -/
def frees (rs : Requests) : Nat := rs.countP fun r => !r.isSave

/-- A further state to be saved; nothing if it is inadmissible or one too many. -/
def addSave? (rs : Requests) (r : SaveRequest) : Option Requests :=
  if r.admissible && saves rs < limit then some (rs ++ [.save r]) else none

/-- A further state to be given up; nothing if its identifier is too short or long or it is one too
many. -/
def addFree? (rs : Requests) (r : FreeRequest) : Option Requests :=
  if StateId.isPartialLength r.length.toNat && frees rs < limit then some (rs ++ [.free r])
  else none

end Requests

end SigComp
