/-!
# Arenas

A bounded collection whose values are named by keys.  A key is a slot and the
generation that the slot had when the value was put there; taking the value out
starts the next generation, so a key that has served its time never names the
value that comes after.

The number of a slot is written in keys and in the list of free slots, and of what
type these numbers are is a parameter.  In a word of 32 bits the number of a slot is
cut off, so that the slot after the last has the number of the first: `Arena α UInt32`.
The arenas of an engine are of type `Arena α`, where every number is as it is; they do
the same up to a capacity of 4294967296 (`SigComp.Proofs.ArenaWords`).

* `Arena.get?` is the view: the value under a key, if the key is current;
* `Arena.insert?` fails exactly when no slot is free and none may be added;
* vacant slots are reused in the order last freed, first used.
-/

namespace SigComp

/-- The numbers of slots: how the number of a slot is written, and which slot a number means. -/
class SlotNumber (ι : Type) where
  ofNat : Nat → ι
  toNat : ι → Nat
  ofNat_toNat : ∀ i, ofNat (toNat i) = i

namespace SlotNumber

attribute [simp] ofNat_toNat

instance : SlotNumber Nat := ⟨fun i => i, fun i => i, fun _ => rfl⟩

@[simp] theorem ofNat_nat (i : Nat) : (ofNat i : Nat) = i := rfl

@[simp] theorem toNat_nat (i : Nat) : toNat i = i := rfl

instance : SlotNumber UInt32 := ⟨UInt32.ofNat, UInt32.toNat, fun _ => UInt32.ofNat_toNat⟩

@[simp] theorem ofNat_word (i : Nat) : (ofNat i : UInt32) = UInt32.ofNat i := rfl

@[simp] theorem toNat_word (i : UInt32) : toNat i = i.toNat := rfl

end SlotNumber

/-- The name of a value in an arena. -/
structure Key (ι : Type := Nat) where
  slot : ι
  generation : UInt32
  deriving DecidableEq, Repr

/-- How much of a bounded resource there is, is in use, and has been in use at most. -/
structure Usage where
  allocated : Nat
  inUse : Nat
  peak : Nat
  deriving DecidableEq, Repr

/-- One place of an arena: how often it has been vacated, and what it holds. -/
structure Slot (α : Type) where
  generation : UInt32
  value : Option α

/-- A bounded collection with generation-checked keys. -/
structure Arena (α : Type) (ι : Type := Nat) where
  capacity : Nat
  slots : Array (Slot α) := #[]
  free : List ι := []
  size : Nat := 0
  peak : Nat := 0

namespace Arena

open SlotNumber (ofNat toNat)

variable {α ι : Type} [SlotNumber ι]

/-! ## Looking up -/

/-- The value under a key; a key of another generation names nothing. -/
def get? (a : Arena α ι) (k : Key ι) : Option α :=
  (a.slots[toNat k.slot]?).bind fun s => if s.generation = k.generation then s.value else none

/-- The value in a slot, with the key that is current there. -/
def getSlot? (a : Arena α ι) (i : Nat) : Option (Key ι × α) :=
  (a.slots[i]?).bind fun s => s.value.map fun v => (⟨ofNat i, s.generation⟩, v)

/-- A slot is in use. -/
def occupied (a : Arena α ι) (i : Nat) : Bool := (a.getSlot? i).isSome

/-- All values with their keys, in the order of the slots. -/
def toList (a : Arena α ι) : List (Key ι × α) := (List.range a.slots.size).filterMap a.getSlot?

/-- No value is held. -/
def isEmpty (a : Arena α ι) : Bool := a.size == 0

/-- No further value can be held. -/
def isFull (a : Arena α ι) : Bool := a.capacity ≤ a.size

/-- The use that is made of the arena. -/
def usage (a : Arena α ι) : Usage := ⟨a.capacity, a.size, a.peak⟩

/-! ## Changing -/

/-- The arena with `v` in slot `i`. -/
def occupy (a : Arena α ι) (i : Nat) (v : α) : Arena α ι :=
  { a with
    slots := a.slots.modify i fun s => { s with value := some v }
    size := a.size + 1
    peak := max a.peak (a.size + 1) }

/-- The arena with `v` in the slot of a number, and the key that is current there. -/
def seat (a : Arena α ι) (i : ι) (v : α) : Key ι × Arena α ι :=
  (⟨i, ((a.slots[toNat i]?).map (·.generation)).getD 0⟩, a.occupy (toNat i) v)

/-- The value is put into the slot freed last, or into a new one if none is free. -/
def insert? (a : Arena α ι) (v : α) : Option (Key ι × Arena α ι) :=
  match a.free with
  | i :: free => some ({ a with free }.seat i v)
  | [] =>
    if a.slots.size < a.capacity then
      some ({ a with slots := a.slots.push ⟨0, none⟩ }.seat (ofNat a.slots.size) v)
    else none

/-- The arena with slot `i` vacated and its generation over. -/
def vacate (a : Arena α ι) (i : Nat) : Arena α ι :=
  { a with
    slots := a.slots.modify i fun s => ⟨s.generation + 1, none⟩
    free := ofNat i :: a.free
    size := a.size - 1 }

/-- The arena without the value under a key; a key that names nothing removes nothing. -/
def erase (a : Arena α ι) (k : Key ι) : Arena α ι :=
  match a.get? k with
  | some _ => a.vacate (toNat k.slot)
  | none => a

/-- The arena with the value under a key replaced by its image. -/
def modify (a : Arena α ι) (k : Key ι) (f : α → α) : Arena α ι :=
  match a.get? k with
  | some v =>
    { a with slots := a.slots.modify (toNat k.slot) fun s => { s with value := some (f v) } }
  | none => a

/-- The arena with the value in slot `i`, if there is one, replaced by its image. -/
def modifyAt (a : Arena α ι) (i : Nat) (f : α → α) : Arena α ι :=
  { a with slots := a.slots.modify i fun s => { s with value := s.value.map f } }

/-- The arena after all values have been taken out, in the order of the slots. -/
def clear (a : Arena α ι) : Arena α ι :=
  { ((List.range a.slots.size).filter a.occupied).foldl vacate a with size := 0 }

end Arena

end SigComp
