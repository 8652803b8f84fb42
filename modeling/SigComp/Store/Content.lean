import SigComp.StateId

/-!
# States and their content

A state is a byte string with the label that it is known by.  Content that is yet
to become a state may lie in memory in several pieces; it can be compared and
measured piece by piece, and `Content.agrees_iff` says that nothing depends on
where the pieces end.
-/

namespace SigComp

/-! ## Content in pieces -/

/-- Bytes in the contiguous pieces in which memory holds them. -/
structure Content where
  pieces : List Bytes
  deriving DecidableEq

namespace Content

/-- Content that lies in one piece. -/
def ofBytes (data : Bytes) : Content := ⟨[data]⟩

/-- The bytes of all pieces in order. -/
def bytes (c : Content) : Bytes := c.pieces.flatten

/-- The number of bytes. -/
def length (c : Content) : Nat := c.pieces.foldr (fun p rest => p.length + rest) 0

/-- The pieces stand one after the other at the front of `stored`, and nothing follows them. -/
def agreesFrom : List Bytes → Bytes → Bool
  | [], stored => stored.isEmpty
  | p :: ps, stored => stored.take p.length == p && agreesFrom ps (stored.drop p.length)

/-- The content is the stored byte string. -/
def agrees (c : Content) (stored : Bytes) : Bool :=
  stored.length == c.length && agreesFrom c.pieces stored

@[simp] theorem bytes_ofBytes (data : Bytes) : (ofBytes data).bytes = data := by
  simp [ofBytes, bytes]

theorem length_bytes (c : Content) : c.bytes.length = c.length := by
  obtain ⟨pieces⟩ := c
  simp only [bytes, length]
  induction pieces with
  | nil => rfl
  | cons p ps ih => rw [List.flatten_cons, List.length_append, ih, List.foldr_cons]

/-- A piece at the front of a byte string is the one of its own length. -/
theorem agreesFrom_iff {ps : List Bytes} {stored : Bytes} :
    agreesFrom ps stored = true ↔ stored = ps.flatten := by
  induction ps generalizing stored with
  | nil => simp [agreesFrom]
  | cons p ps ih =>
    simp only [agreesFrom, Bool.and_eq_true, beq_iff_eq, ih, List.flatten_cons]
    constructor
    · rintro ⟨front, back⟩
      rw [← List.take_append_drop p.length stored, front, back]
    · rintro rfl
      simp

/-- Comparison by pieces is comparison of the bytes. -/
theorem agrees_iff {c : Content} {stored : Bytes} : c.agrees stored = true ↔ stored = c.bytes := by
  simp only [agrees, Bool.and_eq_true, beq_iff_eq, agreesFrom_iff]
  constructor
  · exact fun h => h.2
  · intro h
    refine ⟨?_, h⟩
    rw [h, length_bytes]

end Content

/-! ## States -/

/-- What a state is known by: its identifier, the address and instruction that go with its bytes,
the shortest prefix that may name it, and how long to keep it. -/
structure Label where
  id : StateId
  address : UInt16
  instruction : UInt16
  access : UInt16
  priority : UInt16
  deriving DecidableEq

/-- A label with the bytes that it stands for. -/
structure State extends Label where
  data : Bytes
  deriving DecidableEq

/-- What a state costs a compartment over and above its bytes. -/
def stateOverhead : Nat := 64

/-- The priority of states that are never given up. -/
def permanentPriority : UInt16 := 65535

end SigComp
