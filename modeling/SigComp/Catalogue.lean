import SigComp.Algorithm

/-!
# Catalogue

The algorithms and dictionaries that an endpoint has, in the order in which they were
added.  The first algorithm is used where none is asked for, and the dictionaries are
announced to peers.
-/

namespace SigComp

/-- A dictionary as peers know it: its identifier and how much of it they have to give. -/
structure Dictionary where
  id : StateId
  access : UInt16
  deriving DecidableEq

/-- A dictionary as it is announced: a length and as many bytes of the identifier. -/
def Dictionary.announcement (d : Dictionary) : Bytes :=
  d.access.toUInt8 :: d.id.toBytes.take d.access.toNat

/-- The minimum access length that a dictionary gets: the nearest one that is possible. -/
def Dictionary.clampAccess (access : UInt16) : UInt16 := min (max access 6) 20

/-- A text as a dictionary. -/
def Dictionary.ofData (data : Bytes) (access : UInt16) : Dictionary :=
  let access := clampAccess access
  ⟨.ofData data 0 0 access, access⟩

/-- What a dictionary is known by as a state. -/
def Dictionary.label (d : Dictionary) : Label := ⟨d.id, 0, 0, d.access, permanentPriority⟩

/-- The algorithms and dictionaries of an endpoint. -/
structure Catalogue where
  algorithms : List Algorithm := []
  dictionaries : List Dictionary := []

namespace Catalogue

/-- The algorithm of a name. -/
def find? (c : Catalogue) (name : String) : Option Algorithm :=
  c.algorithms.find? (·.name == name)

/-- The algorithm of a name, or the first one if no name is given. -/
def select? (c : Catalogue) : Option String → Option Algorithm
  | some name => c.find? name
  | none => c.algorithms.head?

/-- The identifiers that peers may use, as they are announced. -/
def ownIds (c : Catalogue) : Bytes := c.dictionaries.flatMap Dictionary.announcement

/-- The use that is made of the places for algorithms. -/
def algorithmUsage (c : Catalogue) : Usage :=
  ⟨Settings.maxAlgorithms, c.algorithms.length, c.algorithms.length⟩

/-- The use that is made of the places for dictionaries. -/
def dictionaryUsage (c : Catalogue) : Usage :=
  ⟨Settings.maxDictionaries, c.dictionaries.length, c.dictionaries.length⟩

end Catalogue

end SigComp
