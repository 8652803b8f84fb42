import SigComp.Engine.Receive

/-!
# What a run may spend

A budget of cycles grows while a program runs, so it does not by itself bound the run.
What bounds it is the potential: the cycles granted so far and those that the unread
input is still worth.

* `Machine.Steps store n m p`: `n` completed steps of a running machine lead from `m`
  to `p`.  `Machine.Passes` adds the machine that a failing step leaves behind, so its
  machines are all those that a run can be seen in.
* `Passes.descends`: along a run the potential never rises, and each completed step
  spends at least one cycle.
* `loop_stops`: a run is a finite number of completed steps that lead to a machine
  which is not running or whose next step fails.
* `decompression_within_budget`: the machine of a message starts with as much potential
  as the message has bits, and 1000 bits more.
-/

namespace SigComp

namespace Machine

variable {store : Store} {m p q : Machine} {n k : Nat} {r : Failure}

/-! ## One step -/

@[simp] theorem instructions_complete (m : Machine) (o : Outcome) :
    (m.complete o).instructions = m.instructions := by
  cases o <;> rfl

/-- A completed step counts as one instruction. -/
theorem instructions_of_step (h : step store m = .ok () p) :
    p.instructions = m.instructions + 1 := by
  rcases m with
    ⟨pc, memory, input, budget, output, capacity, instructions, completion, requests, fa, pa⟩
  simp only [step] at h
  split at h
  · cases h
  · split at h
    · cases h
    · cases h
      rw [instructions_complete]

/-- A failing step counts as none, and what it was granted before it failed was paid for. -/
theorem potential_of_step_error (h : step store m = .error r p) :
    p.budget.perBit = m.budget.perBit ∧ p.potential ≤ m.potential ∧
      m.budget.total ≤ p.budget.total ∧ p.instructions = m.instructions := by
  rcases m with
    ⟨pc, memory, input, budget, output, capacity, instructions, completion, requests, fa, pa⟩
  simp only [step] at h
  split at h
  · cases h
    exact ⟨rfl, Nat.le_refl _, Nat.le_refl _, rfl⟩
  · next o _ =>
    have paid := Instruction.frugal_execute (surroundings ⟨pc, memory, input, budget, output,
      capacity, instructions, completion, requests, fa, pa⟩ store) o
      ⟨pc, pc.toNat + 1, memory, input, budget⟩
    split at h
    · next failure frame run =>
      rw [run] at paid
      cases h
      exact ⟨paid.perBit, paid.potential, paid.total, rfl⟩
    · cases h

/-- A step that completes leaves tidy input tidy, and so does one that fails. -/
theorem tidy_of_step (tidy : m.input.Tidy) :
    (∀ p, step store m = .ok () p → p.input.Tidy) ∧
      ∀ r p, step store m = .error r p → p.input.Tidy := by
  rcases m with
    ⟨pc, memory, input, budget, output, capacity, instructions, completion, requests, fa, pa⟩
  simp only [step]
  cases fetch _ with
  | error r =>
    refine ⟨fun p h => ?_, fun r p h => ?_⟩ <;> cases h
    exact tidy
  | ok o =>
    have paid := Instruction.frugal_execute (surroundings ⟨pc, memory, input, budget, output,
      capacity, instructions, completion, requests, fa, pa⟩ store) o
      ⟨pc, pc.toNat + 1, memory, input, budget⟩
    dsimp only
    generalize Instruction.execute _ _ _ = result at paid ⊢
    cases result with
    | ok outcome f =>
      refine ⟨fun p h => ?_, fun r p h => ?_⟩ <;> cases h
      rw [input_complete]
      exact paid.tidy tidy
    | error r f =>
      refine ⟨fun p h => ?_, fun r p h => ?_⟩ <;> cases h
      exact paid.tidy tidy

/-! ## The machines of a run -/

/-- `n` completed steps, each of a running machine, lead from the first machine to the second. -/
inductive Steps (store : Store) : Nat → Machine → Machine → Prop
  | refl (m : Machine) : Steps store 0 m m
  | head {n : Nat} {m p q : Machine} :
    m.isRunning = true → step store m = .ok () p → Steps store n p q → Steps store (n + 1) m q

/-- A run from the first machine is seen in the second after `n` completed steps: either the run has
come to it, or the step after those fails there. -/
inductive Passes (store : Store) (m : Machine) (n : Nat) (q : Machine) : Prop
  | completed : Steps store n m q → Passes store m n q
  | failing {p : Machine} {r : Failure} :
    Steps store n m p → p.isRunning = true → step store p = .error r q → Passes store m n q

/-- What a run has left to spend cannot rise, each completed step spends some of it, and the input
stays tidy. -/
structure Descends (m : Machine) (n : Nat) (q : Machine) : Prop where
  perBit : q.budget.perBit = m.budget.perBit
  potential : q.potential ≤ m.potential
  total : m.budget.total + n ≤ q.budget.total
  instructions : q.instructions = m.instructions + n
  tidy : m.input.Tidy → q.input.Tidy

theorem Descends.refl (m : Machine) : m.Descends 0 m :=
  ⟨rfl, Nat.le_refl _, Nat.le_refl _, rfl, id⟩

theorem Descends.trans (first : m.Descends n p) (second : p.Descends k q) :
    m.Descends (n + k) q := by
  refine ⟨second.perBit.trans first.perBit, Nat.le_trans second.potential first.potential, ?_, ?_,
    second.tidy ∘ first.tidy⟩
  · have := first.total
    have := second.total
    omega
  · rw [second.instructions, first.instructions, Nat.add_assoc]

theorem descends_of_step (h : step store m = .ok () p) : m.Descends 1 p := by
  rcases step_potential h with ⟨perBit, potential, total⟩
  exact ⟨perBit, potential, total, instructions_of_step h, fun tidy => (tidy_of_step tidy).1 _ h⟩

theorem Steps.descends (h : Steps store n m p) : m.Descends n p := by
  induction h with
  | refl m => exact .refl m
  | @head n m p q running first rest ih =>
    rw [Nat.add_comm]
    exact (descends_of_step first).trans ih

/-- Along a run the potential never rises, each completed step spends at least one cycle, and the
input stays tidy. -/
theorem Passes.descends (h : Passes store m n q) : m.Descends n q := by
  cases h with
  | completed steps => exact steps.descends
  | failing steps running failed =>
    rcases potential_of_step_error failed with ⟨perBit, potential, total, instructions⟩
    exact steps.descends.trans (k := 0) ⟨perBit, potential, total, instructions, fun tidy =>
      (tidy_of_step tidy).2 _ _ failed⟩

/-- No run has more completed steps than it had cycles left at its start. -/
theorem Steps.le_potential (h : Steps store n m p) : n ≤ m.potential - m.budget.total := by
  induction h with
  | refl m => exact Nat.zero_le _
  | @head n m p q running first rest ih =>
    have left := total_lt_potential running
    have ⟨_, potential, total⟩ := step_potential first
    omega

/-- The step that fails is covered too. -/
theorem Steps.lt_potential (h : Steps store n m p) (running : p.isRunning = true) :
    n < m.potential - m.budget.total := by
  have left := total_lt_potential running
  have ⟨_, potential, total, _, _⟩ := h.descends
  omega

theorem Passes.le_potential (h : Passes store m n q) : n ≤ m.potential - m.budget.total := by
  cases h with
  | completed steps => exact steps.le_potential
  | failing steps running failed => exact steps.le_potential

/-! ## Runs end -/

/-- A run is a finite number of completed steps.  They lead to a machine that is not running, or to
one whose next step fails. -/
theorem loop_stops (store : Store) (m : Machine) :
    ∃ n last, Steps store n m last ∧
      ((last.isRunning = false ∧ loop store m = (none, last)) ∨
        (last.isRunning = true ∧ ∃ r stopped, step store last = .error r stopped ∧
          loop store m = (some r, stopped))) := by
  induction m using loop.induct store with
  | case1 m running next done ih =>
    obtain ⟨n, last, steps, stops⟩ := ih
    refine ⟨n + 1, last, .head running done steps, ?_⟩
    rwa [loop_of_step running done]
  | case2 m running r stopped failed =>
    exact ⟨0, m, .refl m, .inr ⟨running, r, stopped, failed, loop_of_step_error running failed⟩⟩
  | case3 m stopped =>
    exact ⟨0, m, .refl m, .inl ⟨Bool.eq_false_iff.2 stopped, loop_of_idle stopped⟩⟩

/-- A run ends with a machine that is not running, or with what a failing step leaves behind. -/
inductive Stops (store : Store) (last final : Machine) : Prop
  | idle : last.isRunning = false → final = last → Stops store last final
  | failed {r : Failure} :
    last.isRunning = true → step store last = .error r final → Stops store last final

theorem run_stops (store : Store) (m : Machine) (cycles : Nat) :
    ∃ n last, Steps store n (m.allow cycles) last ∧ Stops store last (m.run cycles store).1 := by
  rcases loop_stops store (m.allow cycles) with
    ⟨n, last, steps, ⟨idle, ended⟩ | ⟨running, r, stopped, failed, ended⟩⟩
  · refine ⟨n, last, steps, .idle idle ?_⟩
    rw [run, ended]
  · refine ⟨n, last, steps, .failed running (r := r) ?_⟩
    rw [run, ended]
    exact failed

/-- A run ends with a machine that it has passed. -/
theorem passes_run (store : Store) (m : Machine) (cycles : Nat) :
    ∃ n, Passes store (m.allow cycles) n (m.run cycles store).1 := by
  rcases run_stops store m cycles with ⟨n, last, steps, stops⟩
  refine ⟨n, ?_⟩
  cases stops with
  | idle _ final =>
    rw [final]
    exact .completed steps
  | failed running final => exact .failing steps running final

theorem tidy_run (store : Store) (cycles : Nat) (tidy : m.input.Tidy) :
    (m.run cycles store).1.input.Tidy := by
  obtain ⟨n, passes⟩ := passes_run store m cycles
  exact passes.descends.tidy tidy

end Machine

namespace Engine

open Machine

variable {e : Engine} {data : Bytes} {t : Transport} {msg : Message} {m : Machine}

/-! ## The machine of a message -/

theorem mapError_ok {α : Type} (a : α) (f : Fault → Error) : (Except.ok a).mapError f = .ok a := rfl

theorem eq_ok_of_mapError {α : Type} {x : Except Fault α} {f : Fault → Error} {a : α}
    (h : x.mapError f = .ok a) : x = .ok a := by
  cases x with
  | error r => cases h
  | ok b =>
    cases h
    rfl

theorem fresh_of_machineFor {length : Nat} (loaded : e.machineFor msg length t = .ok m) :
    ∃ memory, Fresh ⟨memory, e.settings.cyclesPerBit, memory, msg.input⟩ m := by
  simp only [machineFor] at loaded
  cases sized : t.machineMemory e.settings.decompressionMemory length with
  | error r =>
    rw [sized] at loaded
    cases loaded
  | ok memory =>
    rw [sized] at loaded
    refine ⟨memory, ?_⟩
    cases body : msg.body with
    | bytecode code destination =>
      rw [body] at loaded
      exact fresh_of_ofCode (eq_ok_of_mapError loaded)
    | stateId partialId =>
      rw [body] at loaded
      exact fresh_of_ofState (eq_ok_of_mapError loaded)

/-- The header is paid for at once and the input as it is read: together that is the message. -/
theorem potential_of_machineFor (parsed : Message.parse? data = some msg)
    (loaded : e.machineFor msg data.length t = .ok m) :
    (m.allow (msg.cycles e.settings.cyclesPerBit)).potential =
      (8 * data.length + 1000) * e.settings.cyclesPerBit.toNat := by
  rcases fresh_of_machineFor loaded with ⟨memory, fresh⟩
  have whole := Message.headerLength_add_length_input parsed
  simp only [allow, potential, fresh.budget, fresh.input, BitInput.unread, Message.cycles]
  rw [← whole, Nat.mul_comm e.settings.cyclesPerBit.toNat, Nat.zero_add, ← Nat.add_mul]
  congr 1
  omega

/-- Giving up machines whose time is over does not touch what a machine is made from. -/
theorem machineFor_reap (e : Engine) (msg : Message) (length : Nat) (t : Transport) :
    e.reap.machineFor msg length t = e.machineFor msg length t := by
  simp only [machineFor, settings_reap, store_reap]

theorem run_bind_ok {α β : Type} {x : Action α} {a : α} {e' : Engine} (ran : x e = .ok a e')
    (next : α → Action β) : (x >>= next) e = next a e' := by
  simp only [bind, EStateM.bind, ran]

theorem run_bind_error {α β : Type} {x : Action α} {r : Error} {e' : Engine}
    (ran : x e = .error r e') (next : α → Action β) : (x >>= next) e = .error r e' := by
  simp only [bind, EStateM.bind, ran]

theorem run_get {α : Type} (next : Engine → Action α) :
    ((get : Action Engine) >>= next) e = next e e :=
  rfl

theorem run_modify {α : Type} (f : Engine → Engine) (next : PUnit → Action α) :
    ((modify f : Action PUnit) >>= next) e = next () (f e) :=
  rfl

theorem run_ofExcept_ok {α β : Type} (a : α) (next : α → Action β) :
    ((MonadExcept.ofExcept (.ok a : Except Error α) : Action α) >>= next) e = next a e :=
  rfl

theorem run_ofExcept_error {α β : Type} (r : Error) (next : α → Action β) :
    ((MonadExcept.ofExcept (.error r : Except Error α) : Action α) >>= next) e = .error r e :=
  rfl

/-- What `decompress` comes down to for a message whose machine can be loaded. -/
theorem decompress_eq_runMachine (room : e.reap.pending.machines.isFull = false)
    (parsed : Message.parse? data = some msg) (loaded : e.machineFor msg data.length t = .ok m) :
    decompress data t e =
      runMachine m (msg.cycles e.settings.cyclesPerBit) msg.feedback e.reap := by
  have ready : e.reap.machineFor msg data.length t = .ok m := by rw [machineFor_reap, loaded]
  unfold decompress
  rw [run_modify, run_get, if_neg (by simp [room])]
  simp only [parsed, ready]
  rfl

/-- A message pays for its decompression: the budget never exceeds what the bits of the message and
1000 bits more are worth, so the run of its machine ends, and after no more instructions than that.
This rests on what holds of every run of every machine: its potential never rises, and each
completed step spends a cycle. -/
theorem decompression_within_budget (parsed : Message.parse? data = some msg)
    (loaded : e.machineFor msg data.length t = .ok m) :
    let cycles := msg.cycles e.settings.cyclesPerBit
    let limit := (8 * data.length + 1000) * e.settings.cyclesPerBit.toNat
    (e.reap.pending.machines.isFull = false →
      decompress data t e = runMachine m cycles msg.feedback e.reap) ∧
    (∃ n last, Steps e.store n (m.allow cycles) last ∧
      Stops e.store last (m.run cycles e.store).1) ∧
    (∀ n p, Passes e.store (m.allow cycles) n p →
      p.budget.target ≤ limit ∧ p.instructions = n ∧ n ≤ limit) ∧
    (∀ n p, Steps e.store n (m.allow cycles) p → p.isRunning = true → n < limit) ∧
    ∀ (store : Store) (m : Machine) (cycles n k : Nat) (p q : Machine),
      Steps store n (m.allow cycles) p → Passes store p k q →
        q.potential ≤ p.potential ∧ p.budget.total + k ≤ q.budget.total := by
  intro cycles limit
  have worth : (m.allow cycles).potential = limit := potential_of_machineFor parsed loaded
  rcases fresh_of_machineFor loaded with ⟨memory, fresh⟩
  have unspent : (m.allow cycles).budget.total = 0 := by
    simp only [allow, fresh.budget]
  refine ⟨fun room => decompress_eq_runMachine room parsed loaded, run_stops e.store m cycles,
    ?_, ?_, ?_⟩
  · intro n p passes
    have down := passes.descends
    have count : p.instructions = n := by
      rw [down.instructions]
      simp only [allow, fresh.instructions, Nat.zero_add]
    have granted : p.budget.target ≤ p.potential := Nat.le_add_right _ _
    have bound := passes.le_potential
    rw [worth, unspent] at bound
    exact ⟨Nat.le_trans granted (worth ▸ down.potential), count, bound⟩
  · intro n p steps running
    have bound := steps.lt_potential running
    rwa [worth, unspent] at bound
  · intro store m cycles n k p q _ passes
    exact ⟨passes.descends.potential, passes.descends.total⟩

/-- A program that reads one byte over itself, in a message of eight bytes to a new endpoint. -/
theorem within_budget_of_eight_bytes :
    ∃ e m, start {} = .ok e ∧
      Message.parse? [0xf8, 0x00, 0x41, 0x1c, 0x01, 0x87, 0x00, 0x07] =
        some ⟨none, .bytecode [0x1c, 0x01, 0x87, 0x00] 128, [0x07], 7⟩ ∧
      e.machineFor ⟨none, .bytecode [0x1c, 0x01, 0x87, 0x00] 128, [0x07], 7⟩ 8 .message = .ok m ∧
      ∀ n p, Passes e.store (m.allow 16896) n p → p.budget.target ≤ 17024 ∧ n ≤ 17024 := by
  have parsed : Message.parse? [0xf8, 0x00, 0x41, 0x1c, 0x01, 0x87, 0x00, 0x07] =
      some ⟨none, .bytecode [0x1c, 0x01, 0x87, 0x00] 128, [0x07], 7⟩ := by decide
  rcases load_ok ⟨8184, 16, 8184, [0x07]⟩ 0 0 [0x1c, 0x01, 0x87, 0x00] 128 128 (by decide)
    (by decide) with ⟨m, made⟩
  have loaded : machineFor ⟨{}, {}, .ofSettings {}, { capacity := 10 }, .ofSettings {}, {}, {}⟩
      ⟨none, .bytecode [0x1c, 0x01, 0x87, 0x00] 128, [0x07], 7⟩ 8 .message = .ok m := by
    simp [machineFor, Transport.machineMemory, ofCode, Settings.maxMemory, made, bind, Except.bind,
      mapError_ok]
  refine ⟨_, m, rfl, parsed, loaded, fun n p passes => ?_⟩
  have bound := (decompression_within_budget parsed loaded).2.2.1 n p passes
  exact ⟨bound.1, bound.2.2⟩

end Engine

end SigComp
