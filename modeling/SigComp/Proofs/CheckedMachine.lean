import SigComp.Checked.Machine
import SigComp.Proofs.CheckedInstructions
import SigComp.Proofs.InstructionOutcomes

/-!
# Runs are safe

A checked machine is loaded as a machine is, and its run is the run of the machine that
it is a view of: `view_load`, `step_matched`, `run_yields`.

What carries a run is `Machine.Sound`.  Its memory and its input are as they should be,
its output is no longer than there is room for, and what it may ever spend is far below
what a counter can hold, unless there is an excuse.
-/

namespace SigComp.Checked

namespace Machine

variable {excuse : Prop} {store : Store} {m : Machine}

/-! ## Loading -/

theorem writeHeader_mirrors (size cyclesPerBit version partialLength stateLength : UInt16) :
    Mirrors excuse (writeHeader size cyclesPerBit version partialLength stateLength)
      (Memory.writeHeader size cyclesPerBit version partialLength stateLength) :=
  .bind (writeWord_mirrors _ _) fun _ => .bind (writeWord_mirrors _ _) fun _ =>
    .bind (writeWord_mirrors _ _) fun _ => .bind (writeWord_mirrors _ _) fun _ =>
      writeWord_mirrors _ _

theorem size_writeSlice {a n : Nat} {data : Bytes} (m : Memory) (u : Unit) (m' : Memory)
    (h : writeSlice a n data m = .ok u m') : m'.size = m.size := by
  rw [writeSlice] at h
  split at h
  · split at h <;> cases h
    exact Memory.size_put m a data
  · cases h

theorem size_bind {α β : Type} {x : Access α} {k : α → Access β}
    (hx : ∀ m a m', x m = .ok a m' → m'.size = m.size)
    (hk : ∀ a m b m', k a m = .ok b m' → m'.size = m.size) (m : Memory) (b : β) (m' : Memory)
    (h : (x >>= k) m = .ok b m') : m'.size = m.size := by
  simp only [bind, EStateM.bind] at h
  split at h
  · next a m₁ first => exact (hk a m₁ b m' h).trans (hx m a m₁ first)
  · cases h

/-- Loading a program keeps the size of memory. -/
theorem size_writeProgram {s : Setup} {size : Nat} {partialLength stateLength destination : UInt16}
    {data : Bytes} :
    ∀ m u m', writeProgram s size partialLength stateLength data destination m = .ok u m' →
      m'.size = m.size :=
  size_bind (size_bind size_writeSlice fun _ => size_bind size_writeSlice fun _ =>
    size_bind size_writeSlice fun _ => size_bind size_writeSlice fun _ => size_writeSlice)
    fun _ => size_writeSlice

variable {s : Setup} {partialLength stateLength destination entry : UInt16} {data : Bytes}

/-- At its beginning a stream is all that is left of it. -/
theorem view_opened (data : Bytes) : BitStream.view { data } = ⟨data, 0, 0, false⟩ := by
  simp only [BitStream.view, List.drop_zero, Nat.zero_shiftRight]

/-- A machine is loaded without a trap, or is not for the same reason. -/
theorem view_load :
    view <$> load s partialLength stateLength data destination entry =
      (SigComp.Machine.load s partialLength stateLength data destination entry).mapError
      .fault := by
  have written := Mirrors.eq (.bind (writeHeader_mirrors (UInt16.ofNat (min s.memorySize
    Settings.maxMemory)) s.cyclesPerBit Capabilities.sigcompVersion partialLength stateLength)
    fun _ => writeSlice_mirrors destination.toNat (Eq.refl data.length))
    (Memory.zeroed (min s.memorySize Settings.maxMemory))
  simp only [load, writeProgram, SigComp.Machine.load, written]
  cases (Memory.writeHeader _ _ _ _ _ >>= fun _ => Memory.writeSlice _ _ : Memory.Action Unit)
      (Memory.zeroed (min s.memorySize Settings.maxMemory)) with
  | ok u memory => simp only [orderly, Functor.map, Except.map, Except.mapError, view, view_opened]
  | error r memory => rfl

/-- A machine that has just been loaded. -/
structure Fresh (s : Setup) (m : Machine) : Prop where
  memory : m.memory.size ≤ 65536
  input : m.input = { data := s.input }
  budget : m.budget = ⟨0, 0, s.cyclesPerBit.toNat⟩
  output : m.output = #[]
  capacity : m.outputCapacity = s.outputCapacity
  instructions : m.instructions = 0

theorem fresh_of_load (h : load s partialLength stateLength data destination entry = .ok m) :
    Fresh s m := by
  simp only [load] at h
  split at h
  · cases h
  · next memory written =>
    cases h
    refine ⟨?_, rfl, rfl, rfl, rfl, rfl⟩
    have size := size_writeProgram _ _ _ written
    rw [size, Memory.size_zeroed]
    exact Nat.min_le_right _ _

theorem view_ofCode (s : Setup) (code : Bytes) (destination : UInt16) :
    view <$> ofCode s code destination =
      (SigComp.Machine.ofCode s code destination).mapError .fault :=
  view_load

theorem view_ofState (s : Setup) (partialId : Bytes) (store : Store) :
    view <$> ofState s partialId store =
      (SigComp.Machine.ofState s partialId store).mapError .fault := by
  rw [ofState, SigComp.Machine.ofState, ok_bind (find_ok _ _ _)]
  cases store.lookup partialId false with
  | error r => rfl
  | ok state => exact view_load

theorem fresh_of_ofState {partialId : Bytes} {store : Store}
    (h : ofState s partialId store = .ok m) : Fresh s m := by
  rw [ofState, ok_bind (find_ok _ _ _)] at h
  split at h
  · cases h
  · exact fresh_of_load h

/-! ## Sound machines -/

/-- What holds of a machine all along its run. -/
structure Sound (excuse : Prop) (m : Machine) : Prop where
  memory : m.memory.size ≤ 65536
  input : m.input.Sound
  written : m.output.size ≤ m.outputCapacity
  capacity : m.outputCapacity ≤ 65536
  instructions : m.instructions ≤ m.budget.total
  potential : ¬ excuse → m.view.potential < 1 <<< 63
  countable : BitStream.Vast m.input.data → excuse

/-- The outcomes of a checked step and of a step that say the same. -/
inductive Matched (excuse : Prop) :
    EStateM.Result Halt Machine Unit → EStateM.Result Failure SigComp.Machine Unit → Prop where
  | ok {p : Machine} : p.Sound excuse → Matched excuse (.ok () p) (.ok () p.view)
  | fault (r : Failure) (p : Machine) : Matched excuse (.error (.fault r) p) (.error r p.view)
  | overflow (p : Machine) (result : EStateM.Result Failure SigComp.Machine Unit) :
    excuse → Matched excuse (.error (.trap .overflow) p) result

/-- The frame of the next instruction of a running machine. -/
theorem sound_frame (sound : m.Sound excuse) (running : m.view.isRunning = true) :
    Frame.Sound excuse uncharged ⟨m.pc, m.pc.toNat + 1, m.memory, m.input, m.budget⟩ := by
  refine ⟨sound.memory, Nat.succ_pos _, sound.input, fun honest => ?_, sound.potential,
    sound.countable⟩
  exact Nat.lt_trans (SigComp.Machine.total_lt_potential running) (sound.potential honest)

theorem view_complete (m : Machine) (o : Outcome) : (m.complete o).view = m.view.complete o := by
  cases o <;> rfl

/-- An instruction that has left a sound frame is counted, and the machine is sound. -/
theorem sound_complete {f : Frame} {o : Outcome} (sound : m.Sound excuse)
    (left : f.Sound excuse charged) (spent : m.budget.total ≤ f.budget.total)
    (fits : o.Fits (m.view.surroundings store)) :
    ∃ p, Yields excuse (m.absorb f).tick p ∧ (p.complete o).Sound excuse ∧
      p.view = ⟨m.pc, f.memory, f.input.view, SigComp.Machine.Budget.tick f.budget, m.output,
        m.outputCapacity, m.instructions + 1, m.completion, m.requests, m.feedbackAt,
        m.parametersAt⟩ := by
  have room : ¬ excuse → f.budget.total + 1 < 1 <<< 64 := by
    intro honest
    have := left.total honest
    simp only [charged] at this
    omega
  have counted := sound.instructions
  refine ⟨{ m.absorb f with
      budget := { f.budget with total := f.budget.total + 1 }
      instructions := m.instructions + 1 }, ?_, ?_, rfl⟩
  · refine .bind (.add room) <| .bind (.add fun honest => ?_) <| .of_ok rfl
    have := room honest
    show m.instructions + 1 < 1 <<< 64
    omega
  · have later : m.instructions + 1 ≤ f.budget.total + 1 := by omega
    cases o with
    | emit data pc =>
      refine ⟨left.memory, left.input, ?_, sound.capacity, later, left.potential, left.countable⟩
      show (m.output.appendList data).size ≤ m.outputCapacity
      rw [Array.appendList_eq_append, ← Array.length_toList, Array.toList_appendList,
        List.length_append, Array.length_toList]
      exact fits
    | go pc | enqueue requests pc | finish feedbackAt parametersAt requests pc =>
      exact ⟨left.memory, left.input, sound.written, sound.capacity, later, left.potential,
        left.countable⟩

/-- A step of a checked machine is the step of the machine. -/
theorem step_matched (countable : Countable excuse store) (sound : m.Sound excuse)
    (running : m.view.isRunning = true) :
    Matched excuse (step store m) (SigComp.Machine.step store m.view) := by
  have frame : m.frame = .ok ⟨m.pc, m.pc.toNat + 1, m.memory, m.input, m.budget⟩ := by
    have := m.pc.toNat_lt
    rw [Machine.frame, ok_bind (add_ok (by omega))]
    rfl
  simp only [step, SigComp.Machine.step, frame]
  cases m.view.fetch with
  | error r => exact .fault r m
  | ok o =>
    have room : (m.view.surroundings store).written ≤ 65536 :=
      Nat.le_trans sound.written sound.capacity
    have begun := sound_frame sound running
    have tracked :=
      Instruction.tracks_execute (s := m.view.surroundings store) countable room o _ begun
    have paid := SigComp.Instruction.frugal_execute (m.view.surroundings store) o
      ⟨m.pc, m.pc.toNat + 1, m.memory, m.input.view, m.budget⟩
    have fits := SigComp.Instruction.fits_execute (m.view.surroundings store) o
      ⟨m.pc, m.pc.toNat + 1, m.memory, m.input.view, m.budget⟩
    dsimp only [view, Frame.view] at tracked paid fits ⊢
    generalize Instruction.execute _ o _ = outcome, SigComp.Instruction.execute _ o _ = outcome'
      at *
    cases tracked with
    | ok o left =>
      obtain ⟨p, ticked, done, seen⟩ := sound_complete sound left paid.total (fits _ _ rfl)
      obtain ticked | ⟨excess, excused⟩ := ticked
      · have agreed := Matched.ok done
        rw [view_complete, seen] at agreed
        simp only [ticked]
        exact agreed
      · simp only [excess]
        exact .overflow _ _ excused
    | fault r f => exact .fault r (m.absorb f)
    | overflow f _ excused => exact .overflow _ _ excused

/-! ## Runs -/

/-- A checked machine comes to where the machine comes to.  It never wants for rounds, as each step
spends a cycle. -/
theorem loop_yields (countable : Countable excuse store) {rounds : Nat} (sound : m.Sound excuse)
    (enough : m.view.potential - m.view.budget.total ≤ rounds) :
    Yields excuse (loop store rounds m) (SigComp.Machine.loop store m.view) := by
  induction rounds generalizing m with
  | zero =>
    have idle : ¬ m.view.isRunning = true := fun running => by
      have := SigComp.Machine.total_lt_potential running
      omega
    rw [SigComp.Machine.loop_of_idle idle]
    exact .of_ok (if_neg idle)
  | succ rounds ih =>
    by_cases running : m.view.isRunning = true
    · have matched := step_matched countable sound running
      rw [loop, if_pos running]
      generalize step store m = stepped at matched ⊢
      generalize stepped' : SigComp.Machine.step store m.view = outcome at matched
      cases matched with
      | ok sound =>
        have less := SigComp.Machine.remaining_lt_of_step running stepped'
        rw [SigComp.Machine.loop_of_step running stepped']
        exact ih sound (by omega)
      | fault r p =>
        rw [SigComp.Machine.loop_of_step_error running stepped']
        exact .of_ok rfl
      | overflow p _ excused => exact .inr ⟨rfl, excused⟩
    · rw [SigComp.Machine.loop_of_idle running]
      exact .of_ok (if_neg running)

/-- The run of a machine that has just been loaded. -/
theorem run_yields (countable : Countable excuse store) (fresh : Fresh s m) {cycles : Nat}
    (room : s.outputCapacity ≤ 65536)
    (worth : ¬ excuse → (m.view.allow cycles).potential < 1 <<< 63)
    (few : BitStream.Vast s.input → excuse) :
    Yields excuse (run m cycles store) (m.view.run cycles store) := by
  have granted : Yields excuse (add 64 m.budget.total cycles) (m.budget.total + cycles) := by
    refine .add fun honest => ?_
    have : m.budget.total + cycles ≤ (m.view.allow cycles).potential := Nat.le_add_right _ _
    have := worth honest
    omega
  have sound :
      Sound excuse { m with budget := { m.budget with target := m.budget.total + cycles } } := by
    refine ⟨fresh.memory, ?_, ?_, ?_, ?_, worth, ?_⟩
    · show m.input.Sound
      rw [fresh.input]
      exact ⟨Nat.zero_le _, (by decide : 0 < 8), 0, BitStream.holds_zero _ _ _⟩
    · show m.output.size ≤ m.outputCapacity
      rw [fresh.output]
      exact Nat.zero_le _
    · show m.outputCapacity ≤ 65536
      rw [fresh.capacity]
      exact room
    · show m.instructions ≤ m.budget.total
      rw [fresh.instructions]
      exact Nat.zero_le _
    · show BitStream.Vast m.input.data → excuse
      rw [fresh.input]
      exact few
  have ran := loop_yields countable sound (Nat.sub_le _ _)
  exact .bind granted <| .bind ran <| .of_ok rfl

end Machine

end SigComp.Checked
