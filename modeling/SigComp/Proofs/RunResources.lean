import SigComp.Proofs.RunRecord

/-!
# What a machine takes up

A machine is made for one message, runs once or several times, and its output is taken in between.
Whatever its program does, it never takes up more than it was given.

* `Requests.Ledger`: requests with a count of each kind that is kept up as they come in.
* `Machine.Contained`: the bounds, with the requests that have been issued.
* `Contained.step` and `Contained.failed`: a step keeps them, also if it fails; `Contained.passes`:
  so does a run, at every point of it.
* `Machine.Call` and `Machine.serve`: what is done to a machine from outside.
* `machine_stays_within_resources`: all of this for all calls, and that a machine whose program has
  ended is left alone.
-/

namespace SigComp

/-! ## Requests and their counts -/

namespace Requests

/-- Requests, and how many there are of each kind as far as they have been counted. -/
structure Ledger where
  items : Requests := []
  saves : Nat := 0
  frees : Nat := 0

namespace Ledger

/-- A request comes in and is counted; nothing if it is inadmissible or one too many. -/
def enter? (l : Ledger) : Request → Option Ledger
  | .save r =>
    if r.admissible && l.saves < limit then some ⟨l.items ++ [.save r], l.saves + 1, l.frees⟩
    else none
  | .free r =>
    if StateId.isPartialLength r.length.toNat && l.frees < limit then
      some ⟨l.items ++ [.free r], l.saves, l.frees + 1⟩
    else none

/-- Requests come in one after the other. -/
def enterAll? (l : Ledger) : List Request → Option Ledger
  | [] => some l
  | r :: rest => (l.enter? r).bind fun l => l.enterAll? rest

/-- A ledger whose counts are right. -/
def ofRequests (rs : Requests) : Ledger := ⟨rs, rs.saves, rs.frees⟩

/-- A request that leaves lawful requests comes in, and the counts stay right. -/
theorem enter?_ofRequests {rs : Requests} {r : Request} (lawful : Lawful (rs ++ [r])) :
    (ofRequests rs).enter? r = some (ofRequests (rs ++ [r])) := by
  obtain ⟨saves, frees, admissible⟩ := lawful
  have admitted := admissible r (List.mem_append_right _ (List.mem_singleton_self r))
  cases r with
  | save r =>
    have admitted : r.admissible = true := admitted
    have one : Requests.saves (rs ++ [.save r]) = rs.saves + 1 := List.countP_append
    have same : Requests.frees (rs ++ [.save r]) = rs.frees := List.countP_append
    rw [ofRequests, enter?,
      if_pos (by simp only [admitted, Bool.true_and, decide_eq_true_eq]; omega),
      ofRequests, one, same]
  | free r =>
    have admitted : StateId.isPartialLength r.length.toNat = true := admitted
    have same : Requests.saves (rs ++ [.free r]) = rs.saves := List.countP_append
    have one : Requests.frees (rs ++ [.free r]) = rs.frees + 1 := List.countP_append
    rw [ofRequests, enter?,
      if_pos (by simp only [admitted, Bool.true_and, decide_eq_true_eq]; omega),
      ofRequests, one, same]

theorem lawful_of_append {rs rs' : Requests} (lawful : Lawful (rs ++ rs')) : Lawful rs := by
  obtain ⟨saves, frees, admissible⟩ := lawful
  rw [Requests.saves, List.countP_append] at saves
  rw [Requests.frees, List.countP_append] at frees
  exact ⟨Nat.le_trans (Nat.le_add_right _ _) saves, Nat.le_trans (Nat.le_add_right _ _) frees,
    fun r among => admissible r (List.mem_append_left _ among)⟩

/-- Lawful requests come in one after the other, and the counts stay right. -/
theorem enterAll?_ofRequests {rs rs' : Requests} (lawful : Lawful (rs ++ rs')) :
    (ofRequests rs).enterAll? rs' = some (ofRequests (rs ++ rs')) := by
  induction rs' generalizing rs with
  | nil => rw [List.append_nil]; rfl
  | cons r rest ih =>
    rw [← List.singleton_append, ← List.append_assoc] at lawful ⊢
    rw [List.singleton_append, enterAll?, enter?_ofRequests (lawful_of_append lawful),
      Option.bind_some, ih lawful]

end Ledger

end Requests

/-! ## Bounds -/

namespace Machine

/-- A machine takes up what it was given and no more, and its requests are those that have been
issued, in this order. -/
structure Contained (s : Setup) (issued : List Request) (m : Machine) : Prop where
  memory : m.memory.size = min s.memorySize 65536
  capacity : m.outputCapacity = s.outputCapacity
  output : m.output.size ≤ s.outputCapacity
  inOrder : m.requests = issued
  saves : m.requests.saves ≤ 4
  frees : m.requests.frees ≤ 4
  ofSave : ∀ r, .save r ∈ m.requests → 6 ≤ r.access.toNat ∧ r.access.toNat ≤ 20 ∧ r.priority ≠ 65535
  ofFree : ∀ r, .free r ∈ m.requests → 6 ≤ r.length.toNat ∧ r.length.toNat ≤ 20
  counted : ({} : Requests.Ledger).enterAll? issued =
    some ⟨m.requests, m.requests.saves, m.requests.frees⟩
  instructions : m.instructions ≤ m.budget.total

variable {s : Setup} {store : Store} {issued : List Request} {m p q : Machine} {n : Nat}
  {r : Failure}

@[simp] theorem memory_complete (m : Machine) (o : Outcome) : (m.complete o).memory = m.memory := by
  cases o <;> rfl

@[simp] theorem outputCapacity_complete (m : Machine) (o : Outcome) :
    (m.complete o).outputCapacity = m.outputCapacity := by
  cases o <;> rfl

/-- What is admitted has the lengths and the priority that the store takes. -/
theorem contained_of_lawful (memory : m.memory.size = min s.memorySize 65536)
    (capacity : m.outputCapacity = s.outputCapacity) (output : m.output.size ≤ s.outputCapacity)
    (inOrder : m.requests = issued) (lawful : m.requests.Lawful)
    (instructions : m.instructions ≤ m.budget.total) : Contained s issued m where
  memory := memory
  capacity := capacity
  output := output
  inOrder := inOrder
  saves := lawful.saves
  frees := lawful.frees
  ofSave r among := by
    have admissible : r.admissible = true := lawful.admissible _ among
    simp only [SaveRequest.admissible, StateId.isPartialLength, Bool.and_eq_true,
      decide_eq_true_eq, bne_iff_ne] at admissible
    exact ⟨admissible.1.1, admissible.1.2, admissible.2⟩
  ofFree r among := by
    have admissible : StateId.isPartialLength r.length.toNat = true := lawful.admissible _ among
    simp only [StateId.isPartialLength, Bool.and_eq_true, decide_eq_true_eq] at admissible
    exact admissible
  counted := by
    rw [← inOrder]
    have all : Requests.Lawful ([] ++ m.requests) := lawful
    exact Requests.Ledger.enterAll?_ofRequests all
  instructions := instructions

namespace Contained

theorem lawful (h : m.Contained s issued) : m.requests.Lawful := by
  refine ⟨h.saves, h.frees, fun r among => ?_⟩
  cases r with
  | save r =>
    obtain ⟨least, most, priority⟩ := h.ofSave r among
    simp only [Request.Admissible, SaveRequest.admissible, StateId.isPartialLength,
      Bool.and_eq_true, decide_eq_true_eq, bne_iff_ne]
    exact ⟨⟨least, most⟩, priority⟩
  | free r =>
    simp only [Request.Admissible, StateId.isPartialLength, Bool.and_eq_true, decide_eq_true_eq]
    exact h.ofFree r among

/-! ### Steps -/

/-- A completed step issues what its instruction asks for. -/
theorem step (h : m.Contained s issued) (done : Machine.step store m = .ok () p) :
    p.Contained s (issued ++ m.asks) := by
  have requests := requests_of_step done
  have lawful := lawful_of_step h.lawful done
  have spent := (descends_of_step done).total
  have counted := instructions_of_step done
  have output := congrArg List.length (output_of_step done)
  obtain ⟨o, outcome, f, fetched, run, rfl⟩ := completed_of_step done
  have stays := Instruction.stays_execute (m.surroundings store) o m.frame
  have fits := Instruction.fits_execute (m.surroundings store) o m.frame outcome f run
  have writes : m.writes store = outcome.written := by simp only [Machine.writes, fetched, run]
  rw [run] at stays
  refine contained_of_lawful ?_ ?_ ?_ (by rw [requests, h.inOrder]) lawful ?_
  · rw [memory_complete]
    exact stays.size.trans h.memory
  · rw [outputCapacity_complete]
    exact h.capacity
  · rw [writes, List.length_append, Array.length_toList, Array.length_toList] at output
    rw [output, ← h.capacity]
    cases outcome with
    | emit data pc => exact fits
    | go pc => exact h.capacity ▸ h.output
    | enqueue requests pc => exact h.capacity ▸ h.output
    | finish feedbackAt parametersAt requests pc => exact h.capacity ▸ h.output
  · have := h.instructions
    omega

/-- A failing step issues nothing. -/
theorem failed (h : m.Contained s issued) (failed : Machine.step store m = .error r p) :
    p.Contained s issued := by
  have spent := (potential_of_step_error failed).2.2.1
  rcases failed_of_step failed with ⟨_, rfl⟩ | ⟨o, f, _, run, rfl⟩
  · exact h
  · have stays := Instruction.stays_execute (m.surroundings store) o m.frame
    rw [run] at stays
    exact contained_of_lawful (stays.size.trans h.memory) h.capacity h.output h.inOrder h.lawful
      (Nat.le_trans h.instructions spent)

/-! ### Runs and calls -/

theorem steps (h : m.Contained s issued) (steps : Steps store n m p) :
    p.Contained s (issued ++ gather asks store n m) := by
  induction steps generalizing issued with
  | refl m =>
    rw [gather, List.append_nil]
    exact h
  | head _ first _ ih =>
    have after := ih (h.step first)
    rw [List.append_assoc] at after
    simp only [gather, first]
    exact after

/-- At every point of a run what its instructions have asked for so far has been issued. -/
theorem passes (h : m.Contained s issued) (passes : Passes store m n q) :
    q.Contained s (issued ++ gather asks store n m) := by
  cases passes with
  | completed steps => exact h.steps steps
  | failing steps _ failed => exact (h.steps steps).failed failed

theorem allow (h : m.Contained s issued) (cycles : Nat) : (m.allow cycles).Contained s issued :=
  contained_of_lawful h.memory h.capacity h.output h.inOrder h.lawful h.instructions

theorem takeOutput (h : m.Contained s issued) : m.takeOutput.2.Contained s issued :=
  contained_of_lawful h.memory h.capacity (Nat.zero_le _) h.inOrder h.lawful h.instructions

end Contained

theorem contained_of_load {partialLength stateLength destination entry : UInt16} {data : Bytes}
    (loaded : load s partialLength stateLength data destination entry = .ok m) :
    m.Contained s [] := by
  have program : Memory.KeepsSize (do
      Memory.writeHeader (UInt16.ofNat (min s.memorySize Settings.maxMemory)) s.cyclesPerBit
        Capabilities.sigcompVersion partialLength stateLength
      Memory.writeSlice destination.toNat data) :=
    .bind (.writeHeader _ _ _ _ _) fun _ => .writeSlice _ _
  simp only [load] at loaded
  split at loaded
  · cases loaded
  · next memory written =>
    cases loaded
    have size := program.of_ok written
    rw [Memory.size_zeroed] at size
    exact contained_of_lawful size rfl (Nat.zero_le _) rfl Requests.lawful_nil (Nat.le_refl 0)

/-! ## Calls -/

/-- What is done to a machine from outside. -/
inductive Call where
  | run (cycles : Nat) (store : Store)
  | takeOutput

/-- The machine after a call. -/
def serve (m : Machine) : Call → Machine
  | .run cycles store => (m.run cycles store).1
  | .takeOutput => m.takeOutput.2

/-- What the program asks for in the course of a call, as many instructions as it completes. -/
def issuedIn (m : Machine) : Call → List Request
  | .run cycles store =>
    gather asks store ((m.run cycles store).1.instructions - m.instructions) (m.allow cycles)
  | .takeOutput => []

/-- The machine after calls, and what its program has asked for. -/
def serveAll (m : Machine) (issued : List Request) : List Call → Machine × List Request
  | [] => (m, issued)
  | call :: calls => (m.serve call).serveAll (issued ++ m.issuedIn call) calls

theorem Contained.run (h : m.Contained s issued) (cycles : Nat) (store : Store) :
    (m.run cycles store).1.Contained s (issued ++ m.issuedIn (.run cycles store)) := by
  obtain ⟨n, passes⟩ := passes_run store m cycles
  have count : (m.run cycles store).1.instructions = m.instructions + n :=
    passes.descends.instructions
  rw [issuedIn, count, Nat.add_sub_cancel_left]
  exact (h.allow cycles).passes passes

theorem Contained.serveAll (h : m.Contained s issued) (calls : List Call) :
    (m.serveAll issued calls).1.Contained s (m.serveAll issued calls).2 := by
  induction calls generalizing m issued with
  | nil => exact h
  | cons call calls ih =>
    refine ih ?_
    cases call with
    | run cycles store => exact h.run cycles store
    | takeOutput =>
      rw [issuedIn, List.append_nil]
      exact h.takeOutput

/-! ## Programs that have ended -/

/-- A machine whose program has ended does not run. -/
theorem idle_of_completed (ended : m.completion.isSome = true) : ¬ m.isRunning = true := by
  cases completion : m.completion with
  | none =>
    rw [completion] at ended
    cases ended
  | some c => simp [isRunning, completion]

theorem eq_of_completed (ended : m.completion.isSome = true) (passes : Passes store m n q) :
    n = 0 ∧ q = m := by
  have idle := idle_of_completed ended
  cases passes with
  | completed steps =>
    cases steps with
    | refl => exact ⟨rfl, rfl⟩
    | head running _ _ => exact absurd running idle
  | failing steps running _ =>
    cases steps with
    | refl => exact absurd running idle
    | head running _ _ => exact absurd running idle

/-- Whatever program is loaded, and in whatever order the machine is run and its output taken:
memory keeps the size that it was given, which is 65536 bytes at most, the output that has not been
taken fits the buffer, and there are no more instructions than cycles.  What waits to be settled is
what the program has asked for, in this order; these are at most four requests of each kind, as many
as were counted when they came in, and the lengths and priorities are such as the store takes.  All
of this holds at every point of every run.  Once the program has ended no instruction is executed
any more. -/
theorem machine_stays_within_resources {partialLength stateLength destination entry : UInt16}
    {data : Bytes} (loaded : load s partialLength stateLength data destination entry = .ok m)
    (calls : List Call) :
    let p := (m.serveAll [] calls).1
    let issued := (m.serveAll [] calls).2
    p.Contained s issued ∧
    (∀ cycles store n q, Passes store (p.allow cycles) n q →
      q.Contained s (issued ++ gather asks store n (p.allow cycles))) ∧
    ∀ q : Machine, q.completion.isSome = true →
      (∀ store n q', Passes store q n q' → n = 0 ∧ q' = q) ∧
      ∀ cycles store, (q.run cycles store).1 =
        { q with budget := { q.budget with target := q.budget.total + cycles } } := by
  intro p issued
  have contained : p.Contained s issued := (contained_of_load loaded).serveAll calls
  refine ⟨contained, fun cycles store n q passes => (contained.allow cycles).passes passes,
    fun q ended => ⟨fun store n q' passes => eq_of_completed ended passes, fun cycles store => ?_⟩⟩
  obtain ⟨n, passes⟩ := passes_run store q cycles
  exact (eq_of_completed (m := q.allow cycles) ended passes).2

/-- A program that asks for a state to be saved and for another to be given up, and ends. -/
def twoRequests : Bytes := [0x20, 1, 0, 0, 6, 0, 0x21, 0, 6, 0x23, 0, 0, 0, 0, 0, 0, 0]

/-- A machine with this program, which is run with 100 cycles and whose output is then taken. -/
theorem contained_of_twoRequests :
    let s : Setup := ⟨32, 16, 4, []⟩
    let issued : List Request := [.save ⟨1, 0, 0, 6, 0⟩, .free ⟨0, 6⟩]
    ∃ m p, load s 0 0 twoRequests 10 10 = .ok m ∧
      m.serveAll [] [.run 100 (.ofSettings {}), .takeOutput] = (p, issued) ∧
      p.completion = some .waiting ∧ p.Contained s issued ∧
      ∀ cycles store, (p.run cycles store).1 =
        { p with budget := { p.budget with target := p.budget.total + cycles } } := by
  intro s issued
  let store : Store := .ofSettings {}
  let m : Machine := {
    pc := 10
    memory := ⟨#[0, 32, 0, 16, 0, 1, 0, 0, 0, 0] ++ twoRequests.toArray ++ Array.replicate 5 0⟩
    input := ⟨[], 0, 0, false⟩
    budget := ⟨0, 0, 16⟩
    output := #[]
    outputCapacity := 4
    instructions := 0
    completion := none
    requests := []
    feedbackAt := 0
    parametersAt := 0 }
  let p : Machine := { m with
    pc := 27
    budget := ⟨4, 100, 16⟩
    instructions := 3
    completion := some .waiting
    requests := issued }
  have loaded : load s 0 0 twoRequests 10 10 = .ok m := by cbv
  have first : step store (m.allow 100) = .ok () { m with
      pc := 16, budget := ⟨2, 100, 16⟩, instructions := 1,
      requests := [.save ⟨1, 0, 0, 6, 0⟩] } := by
    cbv
  have second : step store { m with
      pc := 16, budget := ⟨2, 100, 16⟩, instructions := 1, requests := [.save ⟨1, 0, 0, 6, 0⟩] } =
    .ok () { m with pc := 19, budget := ⟨3, 100, 16⟩, instructions := 2, requests := issued } := by
    cbv
  have third : step store { m with
      pc := 19, budget := ⟨3, 100, 16⟩, instructions := 2, requests := issued } = .ok () p := by
    cbv
  have steps : Steps store 3 (m.allow 100) p :=
    .head rfl first (.head rfl second (.head rfl third (.refl p)))
  have ended : loop store (m.allow 100) = (none, p) := steps.loop_eq rfl
  have ran : (m.run 100 store).1 = p := by rw [run, ended]
  have asked : gather asks store 3 (m.allow 100) = issued := by
    simp only [gather, first, second, third]
    cbv
  have served : m.serveAll [] [.run 100 store, .takeOutput] = (p, issued) := by
    have after : p.instructions - m.instructions = 3 := rfl
    simp only [serveAll, serve, issuedIn, ran, after, asked, takeOutput]
    rfl
  obtain ⟨contained, -, quiet⟩ :=
    machine_stays_within_resources loaded [.run 100 store, .takeOutput]
  rw [served] at contained
  exact ⟨m, p, loaded, served, rfl, contained, (quiet p rfl).2⟩

end Machine

end SigComp
