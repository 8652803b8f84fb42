import SigComp.Proofs.OperandScanning
import SigComp.Proofs.RequestAdmission

/-!
# What a run has behind it

A run is a sequence of completed instructions, and what it has asked for and written is what these
have asked for and written, one after the other.

* `Machine.failed_of_step`: what a failing step leaves behind.
* `Instruction.asked`: what an instruction asks for, by its operands alone; `collected_execute`: it
  comes behind what has been asked for before.
* `Outcome.written`: what an instruction writes, which comes behind what has been written before.
* `Machine.gather`: something collected from the machines that the steps of a run begin with.
* `Steps.requests` and `Steps.output`: the requests and the output that a run leaves are those it
  found and those of its steps, in order.
-/

namespace SigComp

/-! ## Outcomes -/

namespace Outcome

/-- The requests that there are afterwards. -/
def collected (requests : Requests) : Outcome → Requests
  | go _ => requests
  | emit _ _ => requests
  | enqueue requests _ => requests
  | finish _ _ requests _ => requests

/-- The output that is written. -/
def written : Outcome → Bytes
  | emit data _ => data
  | _ => []

/-- An instruction that only moves on writes nothing and leaves the requests as they are. -/
theorem Moves.idle {o : Outcome} (moves : o.Moves) (requests : Requests) :
    o.collected requests = requests ∧ o.written = [] := by
  cases o with
  | go pc => exact ⟨rfl, rfl⟩
  | emit data pc => exact moves.elim
  | enqueue requests pc => exact moves.elim
  | finish feedbackAt parametersAt requests pc => exact moves.elim

end Outcome

/-! ## One instruction -/

namespace Instruction

open Exec

/-- What an instruction asks for, by its operands. -/
def asked : Opcode → Exec (List Request)
  | .stateCreate => do return [.save (← saveOperands)]
  | .stateFree => do
    let start ← multitype
    let length ← multitype
    return [.free ⟨start, length⟩]
  | .endMessage => do
    let _ ← multitype
    let _ ← multitype
    let r ← saveOperands
    return if r.length ≠ 0 ∧ r.admissible then [.save r] else []
  | _ => pure []

variable {s : Surroundings} {o : Opcode} {outcome : Outcome} {f g : Frame} {rs rs' : Requests}

/-- What comes behind a required value has it. -/
theorem require_bind_eq_ok {α β : Type} {r : Failure} {x : Option α} {k : α → Exec β} {b : β}
    (run : (require r x >>= k) f = .ok b g) : ∃ a, x = some a ∧ k a f = .ok b g := by
  cases x with
  | none => cases run
  | some a => exact ⟨a, rfl, run⟩

theorem eq_append_of_addSave? {r : SaveRequest} (added : rs.addSave? r = some rs') :
    rs' = rs ++ [.save r] := by
  unfold Requests.addSave? at added
  split at added <;> cases added
  rfl

theorem eq_append_of_addFree? {r : FreeRequest} (added : rs.addFree? r = some rs') :
    rs' = rs ++ [.free r] := by
  unfold Requests.addFree? at added
  split at added <;> cases added
  rfl

theorem collected_output (s : Surroundings) :
    Answers (fun outcome => outcome.collected s.requests = s.requests) (output s) :=
  .after fun _ => .after fun _ => .ite (fun _ => .fail _) fun _ => .after fun _ => .after fun _ =>
    .after fun _ => .after fun _ => .pure rfl

/-- What a completed instruction asks for comes behind what has been asked for before. -/
theorem collected_execute (run : execute s o f = .ok outcome g) :
    ∃ rs h, asked o f = .ok rs h ∧ outcome.collected s.requests = s.requests ++ rs := by
  by_cases plain : o.isPlain = true
  · have idle := (moves_execute s plain f outcome g run).idle s.requests
    refine ⟨[], f, ?_, by rw [idle.1, List.append_nil]⟩
    cases o <;> first | rfl | cases plain
  cases o with
  | stateCreate =>
    obtain ⟨r, f₁, operands, run⟩ := bind_eq_ok run
    obtain ⟨requests, added, run⟩ := require_bind_eq_ok run
    cases run
    exact ⟨_, _, bind_of_ok operands _, eq_append_of_addSave? added⟩
  | stateFree =>
    obtain ⟨start, f₁, first, run⟩ := bind_eq_ok run
    obtain ⟨length, f₂, second, run⟩ := bind_eq_ok run
    obtain ⟨requests, added, run⟩ := require_bind_eq_ok run
    cases run
    exact ⟨_, _, (bind_of_ok first _).trans (bind_of_ok second _), eq_append_of_addFree? added⟩
  | output =>
    exact ⟨[], f, rfl, by rw [collected_output s f outcome g run, List.append_nil]⟩
  | endMessage =>
    obtain ⟨feedbackAt, f₁, first, run⟩ := bind_eq_ok run
    obtain ⟨parametersAt, f₂, second, run⟩ := bind_eq_ok run
    obtain ⟨r, f₃, operands, run⟩ := bind_eq_ok run
    obtain ⟨requests, added, run⟩ := require_bind_eq_ok run
    cases run
    refine ⟨_, _, (bind_of_ok first _).trans ((bind_of_ok second _).trans (bind_of_ok operands _)),
      ?_⟩
    split at added
    · next counts =>
      rw [if_pos counts]
      exact eq_append_of_addSave? added
    · next counts =>
      cases added
      rw [if_neg counts, List.append_nil]
      rfl
  | _ => exact absurd rfl plain

end Instruction

/-! ## One step -/

namespace Machine

variable {store : Store} {m p q : Machine} {n : Nat} {r : Failure}

@[simp] theorem requests_complete (m : Machine) (o : Outcome) :
    (m.complete o).requests = o.collected m.requests := by
  cases o <;> rfl

@[simp] theorem output_complete (m : Machine) (o : Outcome) :
    (m.complete o).output.toList = m.output.toList ++ o.written := by
  cases o <;> simp [complete, Outcome.written]

/-- What the next instruction asks for. -/
def asks (m : Machine) : List Request :=
  match m.fetch with
  | .error _ => []
  | .ok o =>
    match Instruction.asked o m.frame with
    | .ok rs _ => rs
    | .error _ _ => []

/-- What the next instruction writes. -/
def writes (store : Store) (m : Machine) : Bytes :=
  match m.fetch with
  | .error _ => []
  | .ok o =>
    match Instruction.execute (m.surroundings store) o m.frame with
    | .ok outcome _ => outcome.written
    | .error _ _ => []

/-- A completed step is an instruction that has completed. -/
theorem completed_of_step (h : step store m = .ok () p) :
    ∃ o outcome f, m.fetch = .ok o ∧
      Instruction.execute (m.surroundings store) o m.frame = .ok outcome f ∧
      p = complete { m with
        memory := f.memory
        input := f.input
        budget := Budget.tick f.budget
        instructions := m.instructions + 1 } outcome := by
  cases fetched : m.fetch with
  | error r =>
    simp only [step, fetched] at h
    cases h
  | ok o =>
    obtain ⟨outcome, f, run, same⟩ := executed_of_step fetched h
    exact ⟨o, outcome, f, rfl, run, same⟩

/-- A failing step has found no instruction, or one that failed. -/
theorem failed_of_step (h : step store m = .error r p) :
    (m.fetch = .error r ∧ p = m) ∨
      ∃ o f, m.fetch = .ok o ∧ Instruction.execute (m.surroundings store) o m.frame = .error r f ∧
        p = { m with memory := f.memory, input := f.input, budget := f.budget } := by
  cases fetched : m.fetch with
  | error r' =>
    simp only [step, fetched] at h
    cases h
    exact .inl ⟨rfl, rfl⟩
  | ok o =>
    refine .inr ⟨o, ?_⟩
    cases run : Instruction.execute (m.surroundings store) o m.frame with
    | ok outcome f =>
      rw [step_of_ok fetched run] at h
      cases h
    | error r' f =>
      rw [step_of_error fetched run] at h
      cases h
      exact ⟨f, rfl, rfl, rfl⟩

theorem requests_of_step (h : step store m = .ok () p) : p.requests = m.requests ++ m.asks := by
  obtain ⟨o, outcome, f, fetched, run, rfl⟩ := completed_of_step h
  obtain ⟨rs, g, asked, behind⟩ := Instruction.collected_execute run
  have asks : m.asks = rs := by simp only [Machine.asks, fetched, asked]
  rw [requests_complete, asks]
  exact behind

theorem output_of_step (h : step store m = .ok () p) :
    p.output.toList = m.output.toList ++ m.writes store := by
  obtain ⟨o, outcome, f, fetched, run, rfl⟩ := completed_of_step h
  have writes : m.writes store = outcome.written := by simp only [Machine.writes, fetched, run]
  rw [output_complete, writes]

/-! ## A run -/

/-- What is collected from the machines that the first `n` steps begin with, in order. -/
def gather {α : Type} (what : Machine → List α) (store : Store) : Nat → Machine → List α
  | 0, _ => []
  | n + 1, m =>
    match step store m with
    | .ok () p => what m ++ gather what store n p
    | .error _ _ => []

/-- What each step adds to has all been added after the last. -/
theorem Steps.eq_append_gather {α : Type} (view : Machine → List α) {what : Machine → List α}
    (each : ∀ m p, step store m = .ok () p → view p = view m ++ what m)
    (steps : Steps store n m p) :
    view p = view m ++ gather what store n m := by
  induction steps with
  | refl m => rw [gather, List.append_nil]
  | head _ first _ ih =>
    rw [ih, each _ _ first, List.append_assoc]
    simp only [gather, first]

/-- A run asks for what its instructions ask for, one after the other. -/
theorem Steps.requests (steps : Steps store n m p) :
    p.requests = m.requests ++ gather asks store n m :=
  steps.eq_append_gather Machine.requests fun _ _ => requests_of_step

/-- A run writes what its instructions write, one after the other. -/
theorem Steps.output (steps : Steps store n m p) :
    p.output.toList = m.output.toList ++ gather (writes store) store n m :=
  steps.eq_append_gather (fun m => m.output.toList) fun _ _ => output_of_step

/-- A machine that steps lead to, and that no longer runs, is where the run ends. -/
theorem Steps.loop_eq (steps : Steps store n m p) (idle : p.isRunning = false) :
    loop store m = (none, p) := by
  induction steps with
  | refl m => exact loop_of_idle (Bool.eq_false_iff.1 idle)
  | head running first _ ih => rw [loop_of_step running first, ih idle]

end Machine

end SigComp
