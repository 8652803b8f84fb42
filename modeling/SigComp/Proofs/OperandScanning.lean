import SigComp.Proofs.RingTraversal
import SigComp.Proofs.SelfOverwriting

/-!
# Where operands end

Reading operands moves the cursor and does nothing else.  Where it ends up depends on the bytes
that are read over, not on the rest of memory, the input or the budget.

* `Exec.Spans`: an action that reads over the same bytes in any frame that has them.  If it is
  steady it answers the same there, otherwise only if all of memory is the same: it may look at a
  word elsewhere.
* `Exec.Scans`: an action that answers the same whatever input and budget are.
* `Exec.Looks`: an action that leaves memory alone, also if it fails.
* `Machine.step_of_ok`, `Machine.step_of_error`: from an instruction to the step of its machine.
-/

namespace SigComp

/-- The frame `f'` belongs to the same instruction as `f`, reads on from the same place, and has the
same bytes from there up to `stop`. -/
structure Frame.Agrees (f f' : Frame) (stop : Nat) : Prop where
  pc : f'.pc = f.pc
  cursor : f'.cursor = f.cursor
  size : f'.memory.size = f.memory.size
  bytes : ∀ b, f.cursor ≤ b → b < stop → f'.memory.get? b = f.memory.get? b

namespace Exec

variable {α β : Type} {steady : Prop}

/-! ## One action after the other -/

theorem bind_of_ok {x : Exec α} {f g : Frame} {a : α} (run : x f = .ok a g) (k : α → Exec β) :
    (x >>= k) f = k a g := by
  simp only [bind, EStateM.bind, run]

theorem bind_of_error {x : Exec α} {f g : Frame} {r : Failure} (run : x f = .error r g)
    (k : α → Exec β) : (x >>= k) f = .error r g := by
  simp only [bind, EStateM.bind, run]

/-- If both complete, so has the first. -/
theorem bind_eq_ok {x : Exec α} {k : α → Exec β} {f h : Frame} {b : β}
    (run : (x >>= k) f = .ok b h) : ∃ a g, x f = .ok a g ∧ k a g = .ok b h := by
  cases first : x f with
  | ok a g => exact ⟨a, g, rfl, by rwa [bind_of_ok first] at run⟩
  | error r g =>
    rw [bind_of_error first] at run
    cases run

theorem exists_of_run' {x : Exec α} {f : Frame} {a : α} (answer : EStateM.run' x f = some a) :
    ∃ g, x f = .ok a g := by
  delta EStateM.run' EStateM.run at answer
  split at answer <;> cases answer
  exact ⟨_, ‹_›⟩

/-! ## The bytes read over -/

/-- An action that only moves the cursor, and moves it as far in any frame with the same bytes to be
read over. -/
def Spans (steady : Prop) (x : Exec α) : Prop :=
  ∀ f a g, x f = .ok a g → f.cursor ≤ g.cursor ∧ g = { f with cursor := g.cursor } ∧
    ∀ f', f.Agrees f' g.cursor → ∃ b, x f' = .ok b { f' with cursor := g.cursor } ∧
      (steady ∨ f'.memory = f.memory → b = a)

namespace Spans

protected theorem pure (a : α) : Spans steady (pure a) := by
  intro f b g run
  cases run
  exact ⟨Nat.le_refl _, rfl, fun f' agrees => ⟨a, agrees.cursor ▸ rfl, fun _ => rfl⟩⟩

protected theorem fail (r : Failure) : Spans steady (fail r : Exec α) := by
  intro f a g run
  cases run

/-- What comes after a steady action is the same action in either frame. -/
protected theorem bind {x : Exec α} {k : α → Exec β} (hx : Spans True x)
    (hk : ∀ a, Spans steady (k a)) : Spans steady (x >>= k) := by
  intro f b h run
  obtain ⟨a, g, ran, run⟩ := bind_eq_ok run
  obtain ⟨first, moved, alike⟩ := hx f a g ran
  obtain ⟨second, movedOn, alikeOn⟩ := hk a g b h run
  have onward : g.pc = f.pc ∧ g.memory = f.memory := by rw [moved]; exact ⟨rfl, rfl⟩
  rw [moved] at movedOn
  refine ⟨Nat.le_trans first second, movedOn, fun f' agrees => ?_⟩
  obtain ⟨a', ran', same⟩ := alike f' ⟨agrees.pc, agrees.cursor, agrees.size,
    fun c left right => agrees.bytes c left (Nat.lt_of_lt_of_le right second)⟩
  cases same (.inl trivial)
  obtain ⟨b', run', sameOn⟩ := alikeOn { f' with cursor := g.cursor }
    ⟨agrees.pc.trans onward.1.symm, rfl, by rw [onward.2]; exact agrees.size,
      fun c left right => by
        rw [onward.2]
        exact agrees.bytes c (Nat.le_trans first left) right⟩
  rw [onward.2] at sameOn
  exact ⟨b', (bind_of_ok ran' k).trans run', sameOn⟩

protected theorem ite {c : Prop} [Decidable c] {x y : Exec α} (hx : Spans steady x)
    (hy : Spans steady y) : Spans steady (if c then x else y) := by
  split
  · exact hx
  · exact hy

protected theorem nextByte : Spans steady nextByte := by
  intro f b g run
  simp only [nextByte] at run ⊢
  cases found : f.memory.get? f.cursor with
  | none =>
    simp only [found] at run
    cases run
  | some v =>
    simp only [found] at run
    cases run
    refine ⟨Nat.le_succ _, rfl, fun f' agrees => ⟨b, ?_, fun _ => rfl⟩⟩
    have byte := agrees.bytes f.cursor (Nat.le_refl _) (Nat.lt_succ_self _)
    rw [agrees.cursor, byte, found]

protected theorem nextWord : Spans steady nextWord :=
  .bind .nextByte fun _ => .bind .nextByte fun _ => .pure _

/-- A word is in a memory if it is in another of the same size, but it need not be the same. -/
protected theorem readWord (a : UInt16) : Spans False (readWord a) := by
  intro f w g run
  simp only [readWord, onMemory, Memory.readWord] at run ⊢
  cases found : f.memory.word? a with
  | none =>
    simp only [found] at run
    cases run
  | some v =>
    simp only [found] at run
    cases run
    refine ⟨Nat.le_refl _, rfl, fun f' agrees => ?_⟩
    cases found' : f'.memory.word? a with
    | none =>
      rw [Memory.word?_eq_none_iff, agrees.size, ← Memory.word?_eq_none_iff, found] at found'
      cases found'
    | some w' =>
      refine ⟨w', by rw [← agrees.cursor], fun same => ?_⟩
      rw [same.resolve_left id, found] at found'
      exact (Option.some.inj found').symm

protected theorem literal : Spans steady literal :=
  .bind .nextByte fun _ => .ite (.pure _) <|
    .ite (.bind .nextByte fun _ => .pure _) <| .ite .nextWord (.fail _)

protected theorem multitype : Spans False multitype :=
  .bind .nextByte fun _ => .ite (.pure _) <| .ite (.readWord _) <| .ite .nextWord <|
    .ite (.bind .nextWord fun _ => .readWord _) <| .ite (.pure _) <| .ite (.pure _) <|
    .ite (.fail _) <| .ite (.pure _) <| .ite (.bind .nextByte fun _ => .pure _) <|
    .ite (.bind .nextByte fun _ => .pure _) <|
    .ite (.bind .nextByte fun _ => .readWord _) (.pure _)

/-- Operands whose values do not matter end in the same place, whatever they are. -/
theorem skip_alike {n : Nat} {f f' g : Frame} (run : skip n f = .ok () g)
    (agrees : f.Agrees f' g.cursor) : skip n f' = .ok () { f' with cursor := g.cursor } := by
  suffices passed : f.cursor ≤ g.cursor ∧ skip n f' = .ok () { f' with cursor := g.cursor } from
    passed.2
  induction n generalizing f f' with
  | zero =>
    cases run
    exact ⟨Nat.le_refl _, agrees.cursor ▸ rfl⟩
  | succ n ih =>
    obtain ⟨a, h, ran, run⟩ := bind_eq_ok run
    obtain ⟨first, moved, alike⟩ := Spans.multitype f a h ran
    have kept : h.pc = f.pc ∧ h.memory = f.memory := by rw [moved]; exact ⟨rfl, rfl⟩
    have second := (ih run ⟨rfl, rfl, rfl, fun _ _ _ => rfl⟩).1
    obtain ⟨b, ran', -⟩ := alike f' ⟨agrees.pc, agrees.cursor, agrees.size,
      fun c left right => agrees.bytes c left (Nat.lt_of_lt_of_le right second)⟩
    refine ⟨Nat.le_trans first second, ?_⟩
    rw [skip, bind_of_ok ran']
    have agreesOn : h.Agrees { f' with cursor := h.cursor } g.cursor := by
      refine ⟨agrees.pc.trans kept.1.symm, rfl, ?_, fun c left right => ?_⟩
      · rw [kept.2]
        exact agrees.size
      · rw [kept.2]
        exact agrees.bytes c (Nat.le_trans first left) right
    exact (ih run agreesOn).2

end Spans

/-! ## Input and budget -/

/-- An action that only moves the cursor, wherever input and budget stand. -/
def Scans (x : Exec α) : Prop :=
  ∀ f a g, x f = .ok a g → f.cursor ≤ g.cursor ∧ g = { f with cursor := g.cursor } ∧
    ∀ input budget, x { f with input, budget } = .ok a { f with cursor := g.cursor, input, budget }

namespace Scans

theorem of_spans {x : Exec α} (h : Spans steady x) : Scans x := by
  intro f a g run
  obtain ⟨forth, moved, alike⟩ := h f a g run
  refine ⟨forth, moved, fun input budget => ?_⟩
  obtain ⟨b, again, same⟩ := alike { f with input, budget } ⟨rfl, rfl, rfl, fun _ _ _ => rfl⟩
  cases same (.inr rfl)
  exact again

protected theorem pure (a : α) : Scans (pure a) := of_spans (show Spans True _ from .pure a)

protected theorem bind {x : Exec α} {k : α → Exec β} (hx : Scans x) (hk : ∀ a, Scans (k a)) :
    Scans (x >>= k) := by
  intro f b h run
  obtain ⟨a, g, ran, run⟩ := bind_eq_ok run
  obtain ⟨first, moved, same⟩ := hx f a g ran
  obtain ⟨second, movedOn, sameOn⟩ := hk a g b h run
  rw [moved] at movedOn sameOn
  refine ⟨Nat.le_trans first second, movedOn, fun input budget => ?_⟩
  rw [bind_of_ok (same input budget)]
  exact sameOn input budget

protected theorem here : Scans here := by
  intro f a g run
  cases run
  exact ⟨Nat.le_refl _, rfl, fun _ _ => rfl⟩

protected theorem literal : Scans literal := of_spans (show Spans True _ from .literal)

protected theorem multitype : Scans multitype := of_spans .multitype

protected theorem address : Scans address :=
  .bind .multitype fun _ => .bind .here fun _ => .pure _

end Scans

/-! ## Failures -/

/-- An action that leaves memory as it is, whether it completes or not. -/
def Looks (x : Exec α) : Prop := ∀ f, (final (x f)).memory = f.memory

namespace Looks

protected theorem pure (a : α) : Looks (pure a) := fun _ => rfl

protected theorem fail (r : Failure) : Looks (fail r : Exec α) := fun _ => rfl

protected theorem bind {x : Exec α} {k : α → Exec β} (hx : Looks x) (hk : ∀ a, Looks (k a)) :
    Looks (x >>= k) := by
  intro f
  have first := hx f
  cases run : x f with
  | ok a g =>
    rw [run] at first
    rw [bind_of_ok run]
    exact (hk a g).trans first
  | error r g =>
    rw [run] at first
    rw [bind_of_error run]
    exact first

protected theorem ite {c : Prop} [Decidable c] {x y : Exec α} (hx : Looks x) (hy : Looks y) :
    Looks (if c then x else y) := by
  split
  · exact hx
  · exact hy

protected theorem readWord (a : UInt16) : Looks (readWord a) := by
  intro f
  simp only [readWord, onMemory, Memory.readWord]
  split
  · next read =>
    split at read <;> cases read
    rfl
  · next read =>
    split at read <;> cases read
    rfl

protected theorem nextByte : Looks nextByte := by
  intro f
  simp only [nextByte]
  split <;> rfl

protected theorem nextWord : Looks nextWord :=
  .bind .nextByte fun _ => .bind .nextByte fun _ => .pure _

protected theorem multitype : Looks multitype :=
  .bind .nextByte fun _ => .ite (.pure _) <| .ite (.readWord _) <| .ite .nextWord <|
    .ite (.bind .nextWord fun _ => .readWord _) <| .ite (.pure _) <| .ite (.pure _) <|
    .ite (.fail _) <| .ite (.pure _) <| .ite (.bind .nextByte fun _ => .pure _) <|
    .ite (.bind .nextByte fun _ => .pure _) <|
    .ite (.bind .nextByte fun _ => .readWord _) (.pure _)

end Looks

end Exec

/-! ## Steps -/

namespace Machine

variable {m : Machine} {o : Opcode}

/-- An instruction that completes is a step that does, with one cycle more. -/
theorem step_of_ok {store : Store} {outcome : Outcome} {f : Frame} (fetched : m.fetch = .ok o)
    (run : Instruction.execute (m.surroundings store) o m.frame = .ok outcome f) :
    step store m = .ok () (complete { m with
      memory := f.memory
      input := f.input
      budget := Budget.tick f.budget
      instructions := m.instructions + 1 } outcome) := by
  simp only [frame] at run
  simp only [step, fetched, run]

/-- An instruction that fails is a step that does. -/
theorem step_of_error {store : Store} {r : Failure} {f : Frame} (fetched : m.fetch = .ok o)
    (run : Instruction.execute (m.surroundings store) o m.frame = .error r f) :
    step store m =
      .error r { m with memory := f.memory, input := f.input, budget := f.budget } := by
  simp only [frame] at run
  simp only [step, fetched, run]

end Machine

end SigComp
