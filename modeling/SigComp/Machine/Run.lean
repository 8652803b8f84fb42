import SigComp.Machine.Basic

/-!
# Runs

A machine runs until its program ends, an instruction fails or its budget is spent.

* `Machine.loop` needs no bound of its own: input is worth what will be granted for
  it, so `Machine.potential` less what has been spent goes down with every step;
* `Machine.run` gives the machine a budget and reports how the run went;
* `Machine.trace` are the instructions that a run begins.
-/

namespace SigComp.Machine

/-- There is budget left and the program has not ended. -/
def isRunning (m : Machine) : Bool := m.budget.total < m.budget.target && m.completion.isNone

/-- A running machine has spent less than it may ever spend. -/
theorem total_lt_potential {m : Machine} (running : m.isRunning = true) :
    m.budget.total < m.potential := by
  have inBudget : m.budget.total < m.budget.target := by
    simp only [isRunning, Bool.and_eq_true, decide_eq_true_eq] at running
    exact running.1
  have worth : m.budget.target ≤ m.potential := Nat.le_add_right _ _
  exact Nat.lt_of_lt_of_le inBudget worth

/-- While a machine runs, a completed step lessens what it may still spend. -/
theorem remaining_lt_of_step {store : Store} {m m' : Machine} (running : m.isRunning = true)
    (h : step store m = .ok () m') :
    m'.potential - m'.budget.total < m.potential - m.budget.total := by
  have left := total_lt_potential running
  have ⟨_, potential, total⟩ := step_potential h
  omega

/-- Steps are made as long as the machine runs; the answer is the failure that stopped it, if any,
and the machine as it is then. -/
def loop (store : Store) (m : Machine) : Option Failure × Machine :=
  if _ : m.isRunning = true then
    match _ : step store m with
    | .ok () m' => loop store m'
    | .error r m' => (some r, m')
  else (none, m)
termination_by m.potential - m.budget.total
decreasing_by exact remaining_lt_of_step ‹m.isRunning = true› ‹step store m = .ok () m'›

/-- A step that completes is followed by the rest of the run. -/
theorem loop_of_step {store : Store} {m p : Machine} (running : m.isRunning = true)
    (h : step store m = .ok () p) : loop store m = loop store p := by
  rw [loop, dif_pos running]
  split
  · next p' h' =>
    rw [h] at h'
    cases h'
    rfl
  · next h' =>
    rw [h] at h'
    cases h'

/-- A step that fails ends the run. -/
theorem loop_of_step_error {store : Store} {m p : Machine} {r : Failure}
    (running : m.isRunning = true) (h : step store m = .error r p) :
    loop store m = (some r, p) := by
  rw [loop, dif_pos running]
  split
  · next h' =>
    rw [h] at h'
    cases h'
  · next h' =>
    rw [h] at h'
    cases h'
    rfl

theorem loop_of_idle {store : Store} {m : Machine} (idle : ¬ m.isRunning = true) :
    loop store m = (none, m) := by
  rw [loop, dif_neg idle]

/-- What is known of a machine that was stopped.  Outside memory the opcode reads as 255. -/
def postmortem (m : Machine) (r : Failure) : Postmortem where
  reason := r
  pc := m.pc
  cycles := m.budget.total
  instructions := m.instructions
  opcode := (m.memory.get? m.pc.toNat).getD 0xff

/-- The machine with `cycles` to spend from now on. -/
def allow (m : Machine) (cycles : Nat) : Machine :=
  { m with budget := { m.budget with target := m.budget.total + cycles } }

/-- How a run went. -/
structure Report where
  verdict : Except Postmortem Completion
  warnings : List Warning

/-- The verdict on a machine that has stopped.  A program that overdrew its budget has failed even
if it came to its end. -/
def report (m : Machine) : Option Failure → Report
  | some r => ⟨.error (m.postmortem r), []⟩
  | none =>
    match m.completion with
    | some c =>
      if m.budget.total ≤ m.budget.target then ⟨.ok c, []⟩ else exhausted
    | none => exhausted
where
  /-- The budget is spent. -/
  exhausted : Report :=
    ⟨.error (m.postmortem .cyclesExceeded),
      [.cyclesExhausted m.pc m.budget.total m.budget.target]⟩

/-- The program runs with `cycles` to spend, and with what it is granted for input. -/
def run (m : Machine) (cycles : Nat) (store : Store) : Machine × Report :=
  match loop store (m.allow cycles) with
  | (r, m) => (m, m.report r)

/-- The instruction that is about to begin, with its address. -/
def upcoming (m : Machine) : List (UInt16 × Opcode) :=
  match m.fetch with
  | .ok o => [(m.pc, o)]
  | .error _ => []

/-- The instructions that a machine begins, newest first, in front of those begun before. -/
def begun (store : Store) (before : List (UInt16 × Opcode)) (m : Machine) :
    List (UInt16 × Opcode) :=
  if _ : m.isRunning = true then
    match _ : step store m with
    | .ok () m' => begun store (m.upcoming ++ before) m'
    | .error _ _ => m.upcoming ++ before
  else before
termination_by m.potential - m.budget.total
decreasing_by exact remaining_lt_of_step ‹m.isRunning = true› ‹step store m = .ok () m'›

/-- The instructions that a run begins, in order, with their addresses. -/
def trace (m : Machine) (cycles : Nat) (store : Store) : List (UInt16 × Opcode) :=
  (begun store [] (m.allow cycles)).reverse

/-! ## Output -/

/-- The output that has not been taken, and the machine without it. -/
def takeOutput (m : Machine) : Bytes × Machine := (m.output.toList, { m with output := #[] })

end SigComp.Machine
