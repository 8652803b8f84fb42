import SigComp.Sha1

/-!
# State identifiers

A state is named by the SHA-1 digest of its length, the address and instruction
that go with it, its minimum access length and its bytes.  A peer may abbreviate
an identifier to a prefix of 6 to 20 bytes.
-/

namespace SigComp

/-- The identifier of a state. -/
structure StateId where
  octets : Vector UInt8 20
  deriving DecidableEq

namespace StateId

/-- The length of a full identifier. -/
def size : Nat := 20

/-- The length of the shortest prefix that may stand for an identifier. -/
def minPartial : Nat := 6

/-- A prefix of this length may stand for an identifier. -/
def isPartialLength (n : Nat) : Bool := minPartial ≤ n && n ≤ size

/-- The twenty bytes of an identifier. -/
def toBytes (id : StateId) : Bytes := id.octets.toList

@[simp] theorem length_toBytes (id : StateId) : id.toBytes.length = size := by
  simp [toBytes, size]

/-- The shortest prefix, by which states are indexed. -/
def indexKey (id : StateId) : Bytes := id.toBytes.take minPartial

/-- The identifier that no state may have. -/
def isZero (id : StateId) : Bool := id.toBytes.all (· == 0)

/-- The identifier of a state whose bytes come in pieces.  The length is a word of its own in the
digest, so that a sender and a receiver who hold the same pieces agree on it. -/
def ofPieces (length address instruction access : UInt16) (pieces : List Bytes) : StateId :=
  ⟨Sha1.digest (Bytes.ofWord length ++ Bytes.ofWord address ++ Bytes.ofWord instruction ++
    Bytes.ofWord access ++ pieces.flatten)⟩

/-- The identifier of a state; lengths above 65535 are hashed modulo 65536. -/
def ofData (data : Bytes) (address instruction access : UInt16) : StateId :=
  ofPieces (UInt16.ofNat data.length) address instruction access [data]

/-- The hexadecimal text of an identifier. -/
def toHex (id : StateId) : String := id.toBytes.toHex

/-- The identifier as a value in diagnostics. -/
def render (id : StateId) : String := "StateId(" ++ id.toHex ++ ")"

end StateId

end SigComp
