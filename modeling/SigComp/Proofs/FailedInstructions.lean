import SigComp.Proofs.RunRecord

/-!
# What a failing instruction leaves behind

`Machine.step` changes the machine around a frame only when the instruction has completed.  An
interpreter that has the whole machine in its hands changes it as it goes along: a request is
entered before it is charged for, output is written before the next address is known, END-MESSAGE
stores what it has read field by field.  The two agree, because no such change is followed by
anything that could fail.

* `Work`: actions on a whole machine.  `Work.perform` is the instruction of an opcode, its changes
  made one after the other.
* `Work.perform_eq`: they may as well be made together at the end; `Machine.stepInPlace_eq_step`: so
  may those of a step.
* `Machine.Retains`: what a failing step keeps.
* `failing_instruction_has_no_effect`: a run that is stopped by an instruction ends with what the
  instructions before it have left, and its report names the one that failed.
-/

namespace SigComp

/-- The instruction that comes next. -/
def Outcome.next : Outcome → UInt16
  | go pc => pc
  | emit _ pc => pc
  | enqueue _ pc => pc
  | finish _ _ _ pc => pc

/-- A machine in the middle of an instruction, with the place of the next operand. -/
structure Bench where
  machine : Machine
  cursor : Nat

/-- The work of an instruction on a whole machine. -/
abbrev Work := EStateM Failure Bench

namespace Bench

/-- What an instruction works on. -/
def frame (d : Bench) : Frame :=
  ⟨d.machine.pc, d.cursor, d.machine.memory, d.machine.input, d.machine.budget⟩

/-- The machine with what has been done to its frame. -/
def absorb (d : Bench) (f : Frame) : Bench :=
  ⟨{ d.machine with pc := f.pc, memory := f.memory, input := f.input, budget := f.budget },
    f.cursor⟩

end Bench

namespace Work

open Instruction

/-! ## Changes -/

/-- An action on the frame alone. -/
def onFrame {α : Type} (x : Exec α) : Work α := fun d =>
  match x d.frame with
  | .ok a f => .ok a (d.absorb f)
  | .error r f => .error r (d.absorb f)

/-- An action on the frame that depends on what can be seen of the machine. -/
def seeing {α : Type} (store : Store) (x : Surroundings → Exec α) : Work α := fun d =>
  onFrame (x (d.machine.surroundings store)) d

/-- The machine is changed. -/
def change (u : Machine → Machine) : Work Unit := fun d => .ok () { d with machine := u d.machine }

/-- The instruction at an address is next. -/
def moveTo (pc : UInt16) : Work Unit := change fun m => { m with pc }

/-- Requests are entered, or there are too many. -/
def enter (add : Requests → Option Requests) : Work Unit := fun d =>
  match add d.machine.requests with
  | some requests => change (fun m => { m with requests }) d
  | none => .error .state d

/-- There is room for so much more output, or the instruction fails. -/
def reserve (n : Nat) : Work Unit := fun d =>
  if d.machine.outputCapacity < d.machine.output.size + n then .error .resources d else .ok () d

/-! ## Instructions -/

/-- A state is to be saved. -/
def stateCreate : Work Unit := do
  let r ← onFrame saveOperands
  enter (Requests.addSave? · r)
  onFrame (Exec.charge r.length.toNat)
  moveTo (← onFrame Exec.following)

/-- A state is to be given up. -/
def stateFree : Work Unit := do
  let start ← onFrame Exec.multitype
  let length ← onFrame Exec.multitype
  enter (Requests.addFree? · ⟨start, length⟩)
  moveTo (← onFrame Exec.following)

/-- A stretch of the ring becomes output. -/
def output : Work Unit := do
  let start ← onFrame Exec.multitype
  let length ← onFrame Exec.multitype
  reserve length.toNat
  let w ← onFrame Exec.window
  let data ← onFrame (readRing w start length.toNat)
  change fun m => { m with output := m.output.appendList data }
  onFrame (Exec.charge length.toNat)
  moveTo (← onFrame Exec.following)

/-- The program ends. -/
def endMessage : Work Unit := do
  let feedbackAt ← onFrame Exec.multitype
  let parametersAt ← onFrame Exec.multitype
  let r ← onFrame saveOperands
  if r.length ≠ 0 ∧ r.admissible then enter (Requests.addSave? · r) else pure ()
  change fun m => { m with feedbackAt }
  change fun m => { m with parametersAt }
  onFrame (Exec.charge r.length.toNat)
  change fun m =>
    { m with completion := some (Machine.completionOf feedbackAt parametersAt m.requests) }
  moveTo (← onFrame Exec.following)

/-- The instruction of an opcode.  All but four leave the machine around the frame alone until they
know where to go on. -/
def perform (store : Store) : Opcode → Work Unit
  | .stateCreate => stateCreate
  | .stateFree => stateFree
  | .output => output
  | .endMessage => endMessage
  | o => do moveTo (← seeing store fun s => execute s o).next

/-! ## Changes at the end -/

/-- The changes that an instruction makes to the machine around its frame, all at once. -/
def settle (outcome : Outcome) : Work Unit := change fun m => m.complete outcome

variable {α β : Type} {d d' : Bench} {f : Frame} {a : α} {r : Failure}

theorem onFrame_of_ok {x : Exec α} (run : x d.frame = .ok a f) :
    onFrame x d = .ok a (d.absorb f) := by
  simp only [onFrame, run]

theorem onFrame_of_error {x : Exec α} (run : x d.frame = .error r f) :
    onFrame x d = .error r (d.absorb f) := by
  simp only [onFrame, run]

theorem bind_of_ok {x : Work α} (run : x d = .ok a d') (k : α → Work β) :
    (x >>= k) d = k a d' := by
  simp only [bind, EStateM.bind, run]

theorem bind_of_error {x : Work α} (run : x d = .error r d') (k : α → Work β) :
    (x >>= k) d = .error r d' := by
  simp only [bind, EStateM.bind, run]

/-- What is done to the frame goes on from where it has come to. -/
theorem onFrame_bind_of_ok {x : Exec α} (run : x d.frame = .ok a f) (k : α → Exec β) :
    onFrame (x >>= k) d = onFrame (k a) (d.absorb f) := by
  cases onward : k a f with
  | ok b g =>
    rw [onFrame_of_ok ((Exec.bind_of_ok run k).trans onward)]
    exact (onFrame_of_ok (d := d.absorb f) onward).symm
  | error r g =>
    rw [onFrame_of_error ((Exec.bind_of_ok run k).trans onward)]
    exact (onFrame_of_error (d := d.absorb f) onward).symm

/-- What is done to the frame alone may be done together with what comes behind it. -/
theorem onFrame_bind {x : Exec α} {k : α → Exec Outcome} {k' : α → Work Unit}
    (rest : ∀ a f, k' a (d.absorb f) = (onFrame (k a) >>= settle) (d.absorb f)) :
    (onFrame x >>= k') d = (onFrame (x >>= k) >>= settle) d := by
  cases run : x d.frame with
  | error r f =>
    rw [bind_of_error (onFrame_of_error run),
      bind_of_error (onFrame_of_error (Exec.bind_of_error run k))]
  | ok a f =>
    rw [bind_of_ok (onFrame_of_ok run), rest]
    simp only [bind, EStateM.bind]
    rw [← onFrame_bind_of_ok run k]
    rfl

theorem stateCreate_eq (s : Surroundings) (same : s.requests = d.machine.requests) :
    stateCreate d = (onFrame (Instruction.stateCreate s) >>= settle) d := by
  refine onFrame_bind fun r f => ?_
  simp only [enter, same, Bind.bind, EStateM.bind, onFrame, Bench.absorb]
  cases d.machine.requests.addSave? r <;> rfl

theorem stateFree_eq (s : Surroundings) (same : s.requests = d.machine.requests) :
    stateFree d = (onFrame (Instruction.stateFree s) >>= settle) d := by
  refine onFrame_bind fun start f => onFrame_bind fun length g => ?_
  simp only [enter, same, Bind.bind, EStateM.bind, onFrame, Bench.absorb]
  cases d.machine.requests.addFree? ⟨start, length⟩ <;> rfl

theorem output_eq (s : Surroundings) (written : s.written = d.machine.output.size)
    (capacity : s.capacity = d.machine.outputCapacity) :
    output d = (onFrame (Instruction.output s) >>= settle) d := by
  refine onFrame_bind fun start f => onFrame_bind fun length g => ?_
  rw [written, capacity]
  by_cases full : d.machine.outputCapacity < d.machine.output.size + length.toNat
  · have refused : reserve length.toNat ((d.absorb f).absorb g) =
        .error .resources ((d.absorb f).absorb g) := if_pos full
    rw [bind_of_error refused, if_pos full]
    rfl
  · have granted : reserve length.toNat ((d.absorb f).absorb g) = .ok () ((d.absorb f).absorb g) :=
      if_neg full
    rw [bind_of_ok granted, if_neg full]
    exact onFrame_bind fun w h => onFrame_bind fun data i => rfl

theorem endMessage_eq (s : Surroundings) (same : s.requests = d.machine.requests) :
    endMessage d = (onFrame (Instruction.endMessage s) >>= settle) d := by
  refine onFrame_bind fun feedbackAt f => onFrame_bind fun parametersAt g =>
    onFrame_bind fun r h => ?_
  rw [same]
  by_cases counts : r.length ≠ 0 ∧ r.admissible
  · rw [if_pos counts, if_pos counts]
    simp only [enter, Bind.bind, EStateM.bind, onFrame, Bench.absorb]
    cases d.machine.requests.addSave? r <;> rfl
  · rw [if_neg counts, if_neg counts]
    rfl

/-- Making every change at its place comes to the same as making all of them at the end: none is
followed by anything that could fail. -/
theorem perform_eq (store : Store) (o : Opcode) :
    perform store o d = (onFrame (execute (d.machine.surroundings store) o) >>= settle) d := by
  by_cases plain : o.isPlain = true
  · have moved : (seeing store (fun s => execute s o) >>= fun outcome => moveTo outcome.next) d =
        (onFrame (execute (d.machine.surroundings store) o) >>= settle) d := by
      cases run : execute (d.machine.surroundings store) o d.frame with
      | error r f =>
        rw [bind_of_error (onFrame_of_error run),
          bind_of_error (x := seeing _ _) (onFrame_of_error run)]
      | ok outcome f =>
        rw [bind_of_ok (onFrame_of_ok run), bind_of_ok (x := seeing _ _) (onFrame_of_ok run)]
        have moves := moves_execute _ plain _ _ _ run
        cases outcome with
        | go pc => rfl
        | emit data pc => exact moves.elim
        | enqueue requests pc => exact moves.elim
        | finish feedbackAt parametersAt requests pc => exact moves.elim
    cases o <;> first | exact moved | cases plain
  · cases o with
    | stateCreate => exact stateCreate_eq _ rfl
    | stateFree => exact stateFree_eq _ rfl
    | output => exact output_eq _ rfl rfl
    | endMessage => exact endMessage_eq _ rfl
    | _ => exact absurd rfl plain

end Work

/-! ## Steps -/

namespace Machine

variable {store : Store} {m p : Machine} {n : Nat} {r : Failure}

/-- The next instruction is run, and changes the machine as it goes along. -/
def stepInPlace (store : Store) : EStateM Failure Machine Unit := fun m =>
  match m.fetch with
  | .error r => .error r m
  | .ok o =>
    match Work.perform store o ⟨m, m.pc.toNat + 1⟩ with
    | .ok () d => .ok () { d.machine with
        budget := Budget.tick d.machine.budget
        instructions := d.machine.instructions + 1 }
    | .error r d => .error r d.machine

/-- Nothing is lost by waiting with all changes until the instruction has completed. -/
theorem stepInPlace_eq_step (store : Store) (m : Machine) : stepInPlace store m = step store m := by
  cases fetched : m.fetch with
  | error r => simp only [stepInPlace, step, fetched]
  | ok o =>
    have performed := Work.perform_eq (d := ⟨m, m.pc.toNat + 1⟩) store o
    cases run : Instruction.execute (m.surroundings store) o m.frame with
    | ok outcome f =>
      rw [Work.bind_of_ok (Work.onFrame_of_ok (d := ⟨m, m.pc.toNat + 1⟩) run)] at performed
      simp only [stepInPlace, fetched, performed, step_of_ok fetched run]
      cases outcome <;> rfl
    | error r f =>
      have stays := Instruction.stays_execute (m.surroundings store) o m.frame
      rw [run] at stays
      have address : f.pc = m.pc := stays.pc
      rw [Work.bind_of_error (Work.onFrame_of_error (d := ⟨m, m.pc.toNat + 1⟩) run)] at performed
      simp only [stepInPlace, fetched, performed, step_of_error fetched run, Bench.absorb, address]

/-- What can be seen of a machine from outside, its count of instructions and its place in the
program are as they were. -/
structure Retains (m p : Machine) : Prop where
  pc : p.pc = m.pc
  output : p.output = m.output
  outputCapacity : p.outputCapacity = m.outputCapacity
  requests : p.requests = m.requests
  completion : p.completion = m.completion
  feedbackAt : p.feedbackAt = m.feedbackAt
  parametersAt : p.parametersAt = m.parametersAt
  instructions : p.instructions = m.instructions

theorem retains_of_step_error (failed : step store m = .error r p) : m.Retains p := by
  rcases failed_of_step failed with ⟨_, rfl⟩ | ⟨o, f, _, _, rfl⟩ <;>
    exact ⟨rfl, rfl, rfl, rfl, rfl, rfl, rfl, rfl⟩

/-- A run that comes to an instruction that fails ends there. -/
theorem Steps.loop_eq_error (steps : Steps store n m p) {q : Machine} (running : p.isRunning = true)
    (failed : step store p = .error r q) : loop store m = (some r, q) := by
  induction steps with
  | refl m => exact loop_of_step_error running failed
  | head running' first _ ih => rw [loop_of_step running' first, ih running failed]

/-- An instruction that fails, for whatever reason and at whatever point, leaves no trace outside
memory, input and budget, although it changes the machine as it goes along.  So a run that comes to
it ends with its address, with the number of instructions completed before it, and with the output
and the requests of these. -/
theorem failing_instruction_has_no_effect (failed : step store m = .error r p) :
    stepInPlace store m = .error r p ∧ m.Retains p ∧
    ∀ (start : Machine) (cycles n : Nat),
      Steps store n (start.allow cycles) m → m.isRunning = true →
      start.run cycles store = (p, ⟨.error {
        reason := r
        pc := m.pc
        cycles := p.budget.total
        instructions := start.instructions + n
        opcode := (p.memory.get? m.pc.toNat).getD 0xff }, []⟩) ∧
      p.output.toList = start.output.toList ++ gather (writes store) store n (start.allow cycles) ∧
      p.requests = start.requests ++ gather asks store n (start.allow cycles) ∧
      p.completion = none := by
  have retains := retains_of_step_error failed
  refine ⟨(stepInPlace_eq_step store m).trans failed, retains,
    fun start cycles n steps running => ⟨?_, ?_, ?_, ?_⟩⟩
  · have counted : p.instructions = start.instructions + n :=
      retains.instructions.trans steps.descends.instructions
    rw [run, steps.loop_eq_error running failed]
    simp only [report, postmortem, retains.pc, counted]
  · rw [retains.output]
    exact steps.output
  · rw [retains.requests]
    exact steps.requests
  · rw [retains.completion]
    simp only [isRunning, Bool.and_eq_true, Option.isNone_iff_eq_none] at running
    exact running.2

/-- A program that writes two bytes, puts 7 on the stack, and takes it off into a place outside
memory.  The stack is at address 40. -/
def popOutside (fill value : UInt8) : Memory :=
  ⟨#[0x22, 0, 2, 0x10, 7, 0x11, 0xff, 0, 0, 0, 0, 0, 0, 0, 0, 0, 0, 0, 0, 0, 0, 0, 0, 0, 0, 0, 0, 0,
    0, 0, 0, 0, 0, 0, 0, 0, 0, 0, 0, 0, 0, fill, 0, value, 0, 0, 0, 0, 0, 0, 0, 0, 0, 0, 0, 0, 0, 0,
    0, 0, 0, 0, 0, 0, 0, 0, 0, 0, 0, 0, 0, 40]⟩

/-- The program fails at its third instruction.  By then the stack is empty again. -/
theorem failed_pop_has_no_effect :
    let start : Machine := {
      pc := 0
      memory := popOutside 0 0
      input := ⟨[], 0, 0, false⟩
      budget := ⟨0, 0, 16⟩
      output := #[]
      outputCapacity := 4
      instructions := 0
      completion := none
      requests := []
      feedbackAt := 0
      parametersAt := 0 }
    let m : Machine := { start with
      pc := 5
      memory := popOutside 1 7
      budget := ⟨4, 100, 16⟩
      output := #[0x22, 0]
      instructions := 2 }
    let p : Machine := { m with memory := popOutside 0 7 }
    let store : Store := .ofSettings {}
    step store m = .error .memoryAccess p ∧ m.Retains p ∧
      start.run 100 store = (p, ⟨.error ⟨.memoryAccess, 5, 4, 2, 0x11⟩, []⟩) ∧
      p.output.toList = [0x22, 0] := by
  intro start m p store
  have first : step store (start.allow 100) = .ok () { start with
      pc := 3, budget := ⟨3, 100, 16⟩, output := #[0x22, 0], instructions := 1 } := by
    cbv
  have second : step store { start with
      pc := 3, budget := ⟨3, 100, 16⟩, output := #[0x22, 0], instructions := 1 } = .ok () m := by
    cbv
  have failed : step store m = .error .memoryAccess p := by cbv
  have steps : Steps store 2 (start.allow 100) m :=
    .head rfl first (.head rfl second (.refl m))
  obtain ⟨-, retains, reported⟩ := failing_instruction_has_no_effect failed
  exact ⟨failed, retains, (reported start 100 2 steps rfl).1, rfl⟩

end Machine

end SigComp
