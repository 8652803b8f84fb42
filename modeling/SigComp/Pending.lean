import SigComp.Arena
import SigComp.Machine.Run

/-!
# Pending machines

A message can be decompressed before it is known which peer it came from.  A machine
that has something to settle with its sender's compartment waits until the sender is
known, or until its time is over.

* `Pending.suspend` names a machine; the ten low bits of the name are its slot and the
  others count, so a name is not given again soon (`idOf_nextCount_ne_zero`: and it
  never is zero);
* `Pending.claim` takes a machine out by its name;
* `Pending.reap` takes out all those whose time is over.
-/

namespace SigComp

/-- A machine that waits, and the feedback that came with its message. -/
structure Suspended where
  id : MachineId
  machine : Machine
  feedback : Option Bytes

/-- The machines that wait, and when the time of each is over, in the order in which they were
suspended. -/
structure Pending where
  machines : Arena Suspended
  deadlines : List (Key × Nat) := []
  count : UInt32 := 0

namespace Pending

/-- Nothing waits. -/
def ofSettings (s : Settings) : Pending where
  machines := { capacity := s.pendingMachines }

/-! ## Names -/

/-- The name of a machine in a slot, for a value of the count. -/
def idOf (count : UInt32) (slot : Nat) : MachineId :=
  count <<< 10 ||| (UInt32.ofNat slot &&& 1023)

/-- The slot that a name tells. -/
def slotOf (id : MachineId) : Nat := (id &&& 1023).toNat

/-- The count goes on by one, or by two where that would make the name zero. -/
def nextCount (count : UInt32) (slot : Nat) : UInt32 :=
  if idOf (count + 1) slot = 0 then count + 2 else count + 1

/-- A name is zero only where both of its parts are. -/
theorem idOf_eq_zero_iff {count : UInt32} {slot : Nat} :
    idOf count slot = 0 ↔ count <<< 10 = 0 ∧ UInt32.ofNat slot &&& 1023 = 0 := by
  simp only [idOf, ← UInt32.toBitVec_inj, UInt32.toBitVec_or, UInt32.toBitVec_zero,
    BitVec.or_eq_zero_iff]

/-- Two counts in a row do not both make the name zero. -/
theorem idOf_nextCount_ne_zero (count : UInt32) (slot : Nat) :
    idOf (nextCount count slot) slot ≠ 0 := by
  unfold nextCount
  split
  · next zero =>
    intro again
    have first := congrArg UInt32.toNat (idOf_eq_zero_iff.1 zero).1
    have second := congrArg UInt32.toNat (idOf_eq_zero_iff.1 again).1
    simp only [UInt32.toNat_shiftLeft, UInt32.toNat_add, UInt32.reduceToNat,
      Nat.shiftLeft_eq, Nat.reducePow, Nat.reduceMod] at first second
    omega
  · assumption

/-! ## Waiting -/

/-- A machine waits until its deadline, under a name of its own; nothing if no slot is free. -/
def suspend (p : Pending) (machine : Machine) (feedback : Option Bytes) (deadline : Nat) :
    Option (MachineId × Pending) :=
  (p.machines.insert? ⟨0, machine, feedback⟩).map fun (k, machines) =>
    let count := nextCount p.count k.slot
    let id := idOf count k.slot
    (id, {
      machines := machines.modify k fun s => { s with id }
      deadlines := p.deadlines ++ [(k, deadline)]
      count })

/-- A machine is taken out by its name. -/
def claim (p : Pending) (id : MachineId) : Except Error (Suspended × Pending) :=
  if p.machines.capacity ≤ slotOf id then .error (.badParam .machineSlot)
  else
    match p.machines.getSlot? (slotOf id) with
    | none => .error .notFound
    | some (k, s) =>
      if s.id = id then
        .ok (s, { p with
          machines := p.machines.erase k
          deadlines := p.deadlines.filter (·.1 ≠ k) })
      else .error .notFound

/-! ## Expiry -/

/-- Machines are taken out in the order in which they were suspended, up to the first whose time is
not over; the names of those taken out are told. -/
def reapFrom (now : Nat) : List (Key × Nat) → Arena Suspended →
    List (Key × Nat) × Arena Suspended × List MachineId
  | [], machines => ([], machines, [])
  | (k, deadline) :: rest, machines =>
    if now < deadline then ((k, deadline) :: rest, machines, [])
    else
      let (deadlines, left, ids) := reapFrom now rest (machines.erase k)
      (deadlines, left, ((machines.get? k).map (·.id)).toList ++ ids)

/-- The machines whose time is over are taken out. -/
def reap (p : Pending) (now : Nat) : Pending × List MachineId :=
  let (deadlines, machines, ids) := reapFrom now p.deadlines p.machines
  ({ p with machines, deadlines }, ids)

end Pending

end SigComp
