import SigComp.Proofs.InstructionOutcomes
import SigComp.Proofs.RunBudget

/-!
# What a program may ask for

The requests that wait in a machine have all been admitted, however the program got
there: at most four of each kind, and none that is inadmissible.

* `Requests.Lawful`: what holds of a list of requests.
* `lawful_execute`: only three instructions collect requests, and these add to the ones
  there are.
* `lawful_run`: so a run leaves lawful requests if it was given such.
-/

namespace SigComp

/-! ## Lists of requests -/

/-- The access length and the priority of a state to be saved, or the length of an identifier, are
such as the store takes. -/
def Request.Admissible : Request → Prop
  | save r => r.admissible = true
  | free r => StateId.isPartialLength r.length.toNat = true

/-- There are at most four requests of each kind, and all are admissible. -/
structure Requests.Lawful (rs : Requests) : Prop where
  saves : rs.saves ≤ Requests.limit
  frees : rs.frees ≤ Requests.limit
  admissible : ∀ r ∈ rs, r.Admissible

namespace Requests

variable {rs rs' : Requests}

theorem lawful_nil : Lawful [] := ⟨Nat.zero_le _, Nat.zero_le _, by simp⟩

theorem Lawful.addSave? {r : SaveRequest} (lawful : rs.Lawful) (h : rs.addSave? r = some rs') :
    rs'.Lawful := by
  unfold Requests.addSave? at h
  split at h
  · next admitted =>
    cases h
    rw [Bool.and_eq_true, decide_eq_true_eq] at admitted
    obtain ⟨admissible, room⟩ := admitted
    refine ⟨?_, ?_, ?_⟩
    · simp only [Requests.saves, List.countP_append] at room ⊢
      exact room
    · simp only [Requests.frees, List.countP_append]
      exact lawful.frees
    · intro q among
      rcases List.mem_append.1 among with before | last
      · exact lawful.admissible q before
      · rw [List.mem_singleton.1 last]
        exact admissible
  · cases h

theorem Lawful.addFree? {r : FreeRequest} (lawful : rs.Lawful) (h : rs.addFree? r = some rs') :
    rs'.Lawful := by
  unfold Requests.addFree? at h
  split at h
  · next admitted =>
    cases h
    rw [Bool.and_eq_true, decide_eq_true_eq] at admitted
    obtain ⟨admissible, room⟩ := admitted
    refine ⟨?_, ?_, ?_⟩
    · simp only [Requests.saves, List.countP_append]
      exact lawful.saves
    · simp only [Requests.frees, List.countP_append] at room ⊢
      exact room
    · intro q among
      rcases List.mem_append.1 among with before | last
      · exact lawful.admissible q before
      · rw [List.mem_singleton.1 last]
        exact admissible
  · cases h

end Requests

/-! ## One instruction -/

/-- The requests that an instruction leaves are lawful, if it leaves any. -/
def Outcome.Lawful : Outcome → Prop
  | go _ => True
  | emit _ _ => True
  | enqueue requests _ => requests.Lawful
  | finish _ _ requests _ => requests.Lawful

namespace Instruction

open Exec

theorem lawful_stateCreate {s : Surroundings} (lawful : s.requests.Lawful) :
    Answers Outcome.Lawful (stateCreate s) := by
  refine .after fun r => .bind (.require _ _) fun rs added => .after fun _ => .after fun _ => ?_
  exact .pure (lawful.addSave? added)

theorem lawful_stateFree {s : Surroundings} (lawful : s.requests.Lawful) :
    Answers Outcome.Lawful (stateFree s) := by
  refine .after fun _ => .after fun _ => .bind (.require _ _) fun rs added => .after fun _ => ?_
  exact .pure (lawful.addFree? added)

theorem lawful_endMessage {s : Surroundings} (lawful : s.requests.Lawful) :
    Answers Outcome.Lawful (endMessage s) := by
  refine .after fun _ => .after fun _ => .after fun r => .bind (.require _ _) fun rs added =>
    .after fun _ => .after fun _ => .pure ?_
  split at added
  · exact lawful.addSave? added
  · cases added
    exact lawful

/-- An instruction leaves lawful requests if it finds such. -/
theorem lawful_execute {s : Surroundings} (lawful : s.requests.Lawful) (o : Opcode) :
    Answers Outcome.Lawful (execute s o) := by
  by_cases plain : o.isPlain = true
  · refine (moves_execute s plain).mono fun outcome moves => ?_
    cases outcome with
    | go pc => exact trivial
    | emit data pc => exact trivial
    | enqueue requests pc => exact moves.elim
    | finish feedbackAt parametersAt requests pc => exact moves.elim
  · cases o with
    | output =>
      exact .after fun _ => .after fun _ => .ite (fun _ => .fail _) fun _ => .after fun _ =>
        .after fun _ => .after fun _ => .after fun _ => .pure trivial
    | stateCreate => exact lawful_stateCreate lawful
    | stateFree => exact lawful_stateFree lawful
    | endMessage => exact lawful_endMessage lawful
    | _ => exact absurd rfl plain

end Instruction

/-! ## A run -/

namespace Machine

variable {store : Store} {m p : Machine} {n : Nat} {r : Failure}

theorem lawful_complete {o : Outcome} (lawful : m.requests.Lawful) (answered : o.Lawful) :
    (m.complete o).requests.Lawful := by
  cases o with
  | go pc => exact lawful
  | emit data pc => exact lawful
  | enqueue requests pc => exact answered
  | finish feedbackAt parametersAt requests pc => exact answered

theorem lawful_of_step (lawful : m.requests.Lawful) (h : step store m = .ok () p) :
    p.requests.Lawful := by
  rcases m with
    ⟨pc, memory, input, budget, output, capacity, instructions, completion, requests, fa, pa⟩
  simp only [step] at h
  split at h
  · cases h
  · split at h
    · cases h
    · next outcome f run =>
      cases h
      exact lawful_complete lawful (Instruction.lawful_execute lawful _ _ _ _ run)

/-- A failing step leaves the requests as they are. -/
theorem requests_of_step_error (h : step store m = .error r p) : p.requests = m.requests := by
  rcases m with
    ⟨pc, memory, input, budget, output, capacity, instructions, completion, requests, fa, pa⟩
  simp only [step] at h
  split at h
  · cases h
    rfl
  · split at h
    · cases h
      rfl
    · cases h

theorem Steps.lawful (h : Steps store n m p) (lawful : m.requests.Lawful) : p.requests.Lawful := by
  induction h with
  | refl m => exact lawful
  | head _ step _ ih => exact ih (lawful_of_step lawful step)

/-- A run leaves lawful requests if it finds such. -/
theorem lawful_run (store : Store) (cycles : Nat) (lawful : m.requests.Lawful) :
    (m.run cycles store).1.requests.Lawful := by
  rcases run_stops store m cycles with ⟨n, last, steps, stops⟩
  have before : last.requests.Lawful := steps.lawful lawful
  cases stops with
  | idle _ final =>
    rw [final]
    exact before
  | failed _ final =>
    rw [requests_of_step_error final]
    exact before

end Machine

end SigComp
