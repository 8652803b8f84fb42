import SigComp.Machine.Commitment
import SigComp.Proofs.RingTraversal
import SigComp.Proofs.SelfOverwriting

/-!
# Reading identifiers

A program names a state by the place of a partial identifier in its memory.  STATE-ACCESS reads
there one address after the other; when a state is given up its identifier is read along the
ring.

* `Window.Jumps`, `toNat_walk_eq_iff`: both go through the same places exactly if the ring has
  no jump between the first and the last of them.
* `Memory.readEach`: what is found at places, if all are in memory.
* `stateAccess_of_operands`, `freeCommitment_eq_ringSlice?`: what each of the two reads.
* `identifiers_read_alike_iff`: so both name the same state wherever there is no jump.
* `severed_identifier_is_read_apart`: across a jump they need not.
-/

namespace SigComp

/-! ## Places -/

namespace Window

variable {w : Window} {a : UInt16} {n : Nat}

/-- On the way from `a` through `n` addresses the ring jumps: from its right border to another place
on the left, or from the end of memory to its beginning. -/
def Jumps (w : Window) (a : UInt16) (n : Nat) : Prop :=
  65536 < a.toNat + n ∨
    (w.left ≠ w.right ∧ a.toNat < w.right.toNat ∧ w.right.toNat < a.toNat + n)

/-- A step leads to the next address unless it is a jump. -/
theorem toNat_next_eq_iff :
    (w.next a).toNat = a.toNat + 1 ↔
      a.toNat + 1 < 65536 ∧ (a.toNat + 1 = w.right.toNat → w.left = w.right) := by
  have here := a.toNat_lt
  have left := w.left.toNat_lt
  have sum : (a + 1).toNat = (a.toNat + 1) % 65536 := UInt16.toNat_add a 1
  unfold next
  split
  · next border =>
    rw [← UInt16.toNat_inj, sum] at border
    rw [← UInt16.toNat_inj]
    omega
  · next inside =>
    rw [← UInt16.toNat_inj, sum] at inside
    rw [sum]
    omega

theorem not_jumps_of_le_one (short : n ≤ 1) : ¬ w.Jumps a n := by
  have here := a.toNat_lt
  unfold Jumps
  omega

/-- There is a jump if the first step is one or there is one later. -/
theorem jumps_succ_iff :
    w.Jumps a (n + 2) ↔ (w.next a).toNat ≠ a.toNat + 1 ∨ w.Jumps (w.next a) (n + 1) := by
  have border := w.right.toNat_lt
  have step := toNat_next_eq_iff (w := w) (a := a)
  by_cases level : w.left = w.right
  · simp only [Jumps, level, ne_eq, not_true_eq_false, false_and, or_false]
    simp only [level, implies_true, and_true] at step
    omega
  · simp only [Jumps, level, ne_eq, not_false_eq_true, true_and]
    simp only [level, imp_false] at step
    omega

/-- A walk goes through consecutive addresses exactly if there is no jump on the way. -/
theorem toNat_walk_eq_iff :
    (w.walk a n).map UInt16.toNat = List.range' a.toNat n ↔ ¬ w.Jumps a n := by
  induction n generalizing a with
  | zero => simp [walk, not_jumps_of_le_one]
  | succ n ih =>
    rw [walk, List.map_cons, List.range'_succ, List.cons_inj_right]
    cases n with
    | zero => simp [walk, not_jumps_of_le_one]
    | succ n =>
      rw [jumps_succ_iff, not_or, Decidable.not_not, ← ih]
      constructor
      · intro same
        have next : (w.next a).toNat = a.toNat + 1 := by
          rw [walk, List.map_cons, List.range'_succ] at same
          exact (List.cons.inj same).1
        exact ⟨next, next ▸ same⟩
      · rintro ⟨next, same⟩
        exact next ▸ same

end Window

/-! ## Readings -/

namespace Memory

variable {m : Memory} {a : UInt16} {n : Nat}

/-- What is found at the given places, if all of them are in memory. -/
def readEach (m : Memory) (places : List Nat) : Option Bytes :=
  if places.all (· < m.size) then some (places.map m.byteAt) else none

/-- The `n` bytes from an address on along the ring that the registers describe. -/
def ringSlice? (m : Memory) (a : UInt16) (n : Nat) : Option Bytes :=
  (Window.ofMemory? m).bind fun w => (w.pieces? m a n).map List.flatten

theorem slice?_eq_readEach (m : Memory) (start : Nat) (some : n ≠ 0) :
    m.slice? start n = m.readEach (List.range' start n) := by
  have inside : (List.range' start n).all (· < m.size) = decide (start + n ≤ m.size) := by
    rw [Bool.eq_iff_iff, List.all_eq_true, decide_eq_true_iff]
    simp only [List.mem_range'_1, decide_eq_true_eq]
    constructor
    · intro each
      have last := each (start + n - 1) (by omega)
      omega
    · intro fits b among
      omega
  rw [slice?, readEach, inside]
  by_cases fits : start + n ≤ m.size
  · rw [if_pos fits, if_pos (decide_eq_true fits), bytes_eq_map fits]
  · rw [if_neg fits, if_neg (by simpa using fits)]

theorem ringSlice?_eq_readEach {w : Window} (registers : Window.ofMemory? m = some w) :
    m.ringSlice? a n = m.readEach ((w.walk a n).map UInt16.toNat) := by
  rw [ringSlice?, registers, Option.bind_some, w.map_flatten_pieces?, readEach, List.all_map,
    List.map_map]
  rfl

/-- Both readings are the same if they go through the same places. -/
theorem slice?_eq_ringSlice? {w : Window} (registers : Window.ofMemory? m = some w) (some : n ≠ 0)
    (straight : ¬ w.Jumps a n) : m.slice? a.toNat n = m.ringSlice? a n := by
  rw [slice?_eq_readEach m _ some, ringSlice?_eq_readEach registers,
    Window.toNat_walk_eq_iff.2 straight]

end Memory

/-! ## The two ways to name a state -/

/-- The operands of STATE-ACCESS. -/
structure AccessOperands where
  idStart : UInt16
  idLength : UInt16
  first : UInt16
  length : UInt16
  target : UInt16
  entry : UInt16

namespace Instruction

open Exec

/-- The operands of STATE-ACCESS are read. -/
def accessOperands : Exec AccessOperands := do
  let idStart ← multitype
  let idLength ← multitype
  let first ← multitype
  let length ← multitype
  let target ← multitype
  let entry ← multitype
  return ⟨idStart, idLength, first, length, target, entry⟩

/-- The state of a partial identifier is brought into memory. -/
def bring (s : Surroundings) (o : AccessOperands) (partialId : Bytes) : Exec Outcome := do
  let state ← require .stateAccess (s.store.lookup partialId false).toOption
  storeState state o.first.toNat (if o.length = 0 then state.data.length else o.length.toNat)
    (orElse o.target state.address) (orElse o.entry state.instruction)

theorem reads_accessOperands : Reads accessOperands :=
  .bind .multitype fun _ => .bind .multitype fun _ => .bind .multitype fun _ =>
    .bind .multitype fun _ => .bind .multitype fun _ => .bind .multitype fun _ => .pure _

theorem stateAccess_eq (s : Surroundings) :
    stateAccess s = accessOperands >>= fun o =>
      if StateId.isPartialLength o.idLength.toNat then
        onMemory (Memory.readSlice o.idStart.toNat o.idLength.toNat) >>= bring s o
      else fail .illegalOperand := by
  simp only [accessOperands, bind_assoc, pure_bind]
  rfl

variable {f g : Frame} {o : AccessOperands}

/-- STATE-ACCESS looks for the identifier that it finds straight on from an address. -/
theorem stateAccess_of_operands (operands : accessOperands f = .ok o g)
    (fits : StateId.isPartialLength o.idLength.toNat = true) (s : Surroundings) :
    stateAccess s f =
      match f.memory.slice? o.idStart.toNat o.idLength.toNat with
      | some id => bring s o id g
      | none => .error .memoryAccess g := by
  have kept := (reads_accessOperands f o g operands).2
  rw [stateAccess_eq]
  simp only [bind, EStateM.bind, operands, fits, if_true, onMemory, Memory.readSlice, kept]
  cases f.memory.slice? o.idStart.toNat o.idLength.toNat <;> simp only [← kept]

end Instruction

/-- The identifier of a state that is to be given up is what stands along the ring. -/
theorem Machine.freeCommitment_eq_ringSlice? (m : Memory) (r : FreeRequest) :
    freeCommitment m r =
      match m.ringSlice? r.start r.length.toNat with
      | some id => .free id
      | none => .skipFree .memoryAccess := by
  rw [freeCommitment, Memory.ringSlice?]
  cases Window.ofMemory? m with
  | none => rfl
  | some w =>
    rw [Option.bind_some, Option.bind_some]
    cases w.pieces? m r.start r.length.toNat <;> rfl

namespace Instruction

open Exec

variable {f g : Frame} {o : AccessOperands}

/-- STATE-ACCESS looks up the bytes that stand one after the other, and a state is given up by those
that stand along the ring.  These are the same places exactly if the ring does not jump on the way;
then both find the same identifier, or neither finds any. -/
theorem identifiers_read_alike_iff (operands : accessOperands f = .ok o g)
    (fits : StateId.isPartialLength o.idLength.toNat = true) (s : Surroundings) :
    let accessed := f.memory.slice? o.idStart.toNat o.idLength.toNat
    let freed := f.memory.ringSlice? o.idStart o.idLength.toNat
    let straight := List.range' o.idStart.toNat o.idLength.toNat
    stateAccess s f =
      (match accessed with
      | some id => bring s o id g
      | none => .error .memoryAccess g) ∧
    Machine.freeCommitment f.memory ⟨o.idStart, o.idLength⟩ =
      (match freed with
      | some id => .free id
      | none => .skipFree .memoryAccess) ∧
    accessed = f.memory.readEach straight ∧
    (Window.ofMemory? f.memory = none → freed = none) ∧
    ∀ w, Window.ofMemory? f.memory = some w →
      freed = f.memory.readEach ((w.walk o.idStart o.idLength.toNat).map UInt16.toNat) ∧
      ((w.walk o.idStart o.idLength.toNat).map UInt16.toNat = straight ↔
        ¬ w.Jumps o.idStart o.idLength.toNat) ∧
      (¬ w.Jumps o.idStart o.idLength.toNat → accessed = freed) := by
  intro accessed freed straight
  have some : o.idLength.toNat ≠ 0 := by
    intro none
    rw [none] at fits
    cases fits
  refine ⟨stateAccess_of_operands operands fits s, Machine.freeCommitment_eq_ringSlice? _ _,
    Memory.slice?_eq_readEach _ _ some, fun absent => ?_, fun w registers => ?_⟩
  · show (Window.ofMemory? f.memory).bind _ = none
    rw [absent]
    rfl
  · exact ⟨Memory.ringSlice?_eq_readEach registers, Window.toNat_walk_eq_iff,
      Memory.slice?_eq_ringSlice? registers some⟩

/-- A frame in the middle of a STATE-ACCESS whose identifier has six bytes, three before the right
border of a ring of six and three behind its left border. -/
def severing : Frame where
  pc := 0
  cursor := 1
  memory := ((((Memory.zeroed 96).put 0 [0x1f, 43, 6]).setWord 64 40).setWord 66 46).put 40
    [4, 5, 6, 1, 2, 3]
  input := ⟨[], 0, 0, false⟩
  budget := ⟨0, 0, 0⟩

theorem operands_severing :
    accessOperands severing = .ok ⟨43, 6, 0, 0, 0, 0⟩ { severing with cursor := 7 } := by
  have operand (cursor : Nat) (b : UInt8) (found : severing.memory.get? cursor = some b)
      (small : b < 0x40) : multitype { severing with cursor } =
        .ok b.toUInt16 { severing with cursor := cursor + 1 } :=
    multitype_of_lt found small
  have first := operand 1 43 (by decide +kernel) (by decide)
  have second := operand 2 6 (by decide +kernel) (by decide)
  have zero (cursor : Nat) (found : severing.memory.get? cursor = some 0) :=
    operand cursor 0 found (by decide)
  have third := zero 3 (by decide +kernel)
  have fourth := zero 4 (by decide +kernel)
  have fifth := zero 5 (by decide +kernel)
  have sixth := zero 6 (by decide +kernel)
  have start : severing = { severing with cursor := 1 } := rfl
  rw [start]
  simp only [accessOperands, bind, EStateM.bind, first, second, third, fourth, fifth, sixth]
  rfl

/-- The identifier that STATE-ACCESS looks up there is not the one by which the state would be given
up. -/
theorem severed_identifier_is_read_apart :
    ∃ g w, accessOperands severing = .ok ⟨43, 6, 0, 0, 0, 0⟩ g ∧
      StateId.isPartialLength 6 = true ∧
      Window.ofMemory? severing.memory = some w ∧ w.Jumps 43 6 ∧
      (∀ s, stateAccess s severing = bring s ⟨43, 6, 0, 0, 0, 0⟩ [1, 2, 3, 0, 0, 0] g) ∧
      Machine.freeCommitment severing.memory ⟨43, 6⟩ = .free [1, 2, 3, 4, 5, 6] := by
  have registers : Window.ofMemory? severing.memory = some ⟨40, 46⟩ := by decide +kernel
  have straight : severing.memory.slice? 43 6 = some [1, 2, 3, 0, 0, 0] := by decide +kernel
  have around : severing.memory.readEach ((Window.walk ⟨40, 46⟩ 43 6).map UInt16.toNat) =
      some [1, 2, 3, 4, 5, 6] := by
    decide +kernel
  have alike := identifiers_read_alike_iff operands_severing (by decide)
  refine ⟨_, _, operands_severing, by decide, registers, .inr (by decide), fun s => ?_, ?_⟩
  · obtain ⟨accesses, _⟩ := alike s
    simp only [UInt16.reduceToNat, straight] at accesses
    exact accesses
  · obtain ⟨_, frees, _, _, ring⟩ := alike ⟨.ofSettings {}, 0, 0, []⟩
    obtain ⟨freed, _⟩ := ring _ registers
    simp only [UInt16.reduceToNat, around] at freed
    simp only [UInt16.reduceToNat, freed] at frees
    exact frees

end Instruction

end SigComp
