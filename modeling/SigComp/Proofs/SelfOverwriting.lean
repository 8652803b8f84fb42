import SigComp.Machine.Basic

/-!
# Words stored over their own instruction

MULTILOAD stores each word before it reads the next, and compares addresses only
when the last word is stored.  Addresses go around at 65536, but the comparison
takes the words to end at `start + 2 * count`.

* `Memory.storeWords` and `Memory.storedAt`: words stored one behind the other, and
  the addresses of their bytes.
* `Machine.Multiloads`: the operands of one instruction, and the frame after the last.
* `multiload_meets_itself_iff`: an instruction that completes has stored over itself
  exactly when its words went around and came back past its opcode.
* `wrapped_multiload_meets_itself`: in a memory of 65536 bytes there is one.
-/

namespace SigComp

/-! ## Words one behind the other -/

namespace Memory

/-- The memory with words stored one behind the other. -/
def storeWords (m : Memory) (a : UInt16) : List UInt16 → Memory
  | [] => m
  | w :: rest => (m.setWord a w).storeWords (a + 2) rest

/-- The addresses of the bytes of `n` words that are stored one behind the other. -/
def storedAt : Nat → UInt16 → List Nat
  | 0, _ => []
  | n + 1, a => a.toNat :: (a.toNat + 1) :: storedAt n (a + 2)

theorem toNat_add_two (a : UInt16) : (a + 2).toNat = (a.toNat + 2) % 65536 := UInt16.toNat_add a 2

/-- The word with number `i` lies `2 * i` bytes on, modulo 65536. -/
theorem mem_storedAt {n : Nat} {a : UInt16} {b : Nat} :
    b ∈ storedAt n a ↔
      ∃ i < n, b = (a.toNat + 2 * i) % 65536 ∨ b = (a.toNat + 2 * i) % 65536 + 1 := by
  induction n generalizing a with
  | zero => simp [storedAt]
  | succ n ih =>
    have bounded := a.toNat_lt
    rw [storedAt, List.mem_cons, List.mem_cons, ih, toNat_add_two]
    constructor
    · intro h
      rcases h with rfl | rfl | ⟨i, below, place⟩
      · exact ⟨0, by omega, .inl (by omega)⟩
      · exact ⟨0, by omega, .inr (by omega)⟩
      · exact ⟨i + 1, by omega, by omega⟩
    · intro ⟨i, below, place⟩
      cases i with
      | zero => omega
      | succ i => exact .inr (.inr ⟨i, by omega, by omega⟩)

theorem get?_setWord_of_ne (m : Memory) {a w : UInt16} {b : Nat} (first : b ≠ a.toNat)
    (second : b ≠ a.toNat + 1) : (m.setWord a w).get? b = m.get? b := by
  rw [setWord, get?_set, if_neg (by omega), get?_set, if_neg (by omega)]

/-- Only the bytes of the words are stored. -/
theorem get?_storeWords_of_not_mem (m : Memory) {a : UInt16} {values : List UInt16} {b : Nat}
    (apart : b ∉ storedAt values.length a) : (m.storeWords a values).get? b = m.get? b := by
  induction values generalizing m a with
  | nil => rfl
  | cons w rest ih =>
    rw [List.length_cons, storedAt, List.mem_cons, List.mem_cons, not_or, not_or] at apart
    rw [storeWords, ih _ apart.2.2, get?_setWord_of_ne m apart.1 apart.2.1]

end Memory

/-! ## Actions that go forward -/

/-- The frame `g` belongs to the same instruction as `f`, and no fewer operands have been read. -/
structure Frame.Onward (f g : Frame) : Prop where
  pc : g.pc = f.pc
  cursor : f.cursor ≤ g.cursor

namespace Frame.Onward

variable {f g h : Frame}

theorem refl (f : Frame) : f.Onward f := ⟨rfl, Nat.le_refl _⟩

theorem trans (fg : f.Onward g) (gh : g.Onward h) : f.Onward h :=
  ⟨gh.pc.trans fg.pc, Nat.le_trans fg.cursor gh.cursor⟩

end Frame.Onward

namespace Exec

variable {α β : Type}

/-- An action that only reads, if it completes. -/
def Reads (x : Exec α) : Prop := ∀ f a g, x f = .ok a g → f.Onward g ∧ g.memory = f.memory

namespace Reads

protected theorem pure (a : α) : Reads (pure a) := by
  intro f b g run
  cases run
  exact ⟨.refl f, rfl⟩

protected theorem fail (r : Failure) : Reads (fail r : Exec α) := by
  intro f b g run
  cases run

protected theorem bind {x : Exec α} {k : α → Exec β} (hx : Reads x) (hk : ∀ a, Reads (k a)) :
    Reads (x >>= k) := by
  intro f b h run
  simp only [Bind.bind, EStateM.bind] at run
  split at run
  · next a g ran =>
    obtain ⟨first, kept⟩ := hx f a g ran
    obtain ⟨rest, keptOn⟩ := hk a g b h run
    exact ⟨first.trans rest, keptOn.trans kept⟩
  · cases run

protected theorem ite {c : Prop} [Decidable c] {x y : Exec α} (hx : Reads x) (hy : Reads y) :
    Reads (if c then x else y) := by
  split
  · exact hx
  · exact hy

protected theorem readWord (a : UInt16) : Reads (readWord a) := by
  intro f w g run
  simp only [readWord, onMemory, Memory.readWord] at run
  split at run
  · next w' m read =>
    split at read
    · cases read
      cases run
      exact ⟨.refl f, rfl⟩
    · cases read
  · cases run

protected theorem nextByte : Reads nextByte := by
  intro f b g run
  simp only [nextByte] at run
  split at run
  · cases run
    exact ⟨⟨rfl, Nat.le_succ _⟩, rfl⟩
  · cases run

protected theorem nextWord : Reads nextWord :=
  .bind .nextByte fun _ => .bind .nextByte fun _ => .pure _

protected theorem literal : Reads literal :=
  .bind .nextByte fun _ => .ite (.pure _) <|
    .ite (.bind .nextByte fun _ => .pure _) <| .ite .nextWord (.fail _)

protected theorem multitype : Reads multitype :=
  .bind .nextByte fun _ => .ite (.pure _) <| .ite (.readWord _) <| .ite .nextWord <|
    .ite (.bind .nextWord fun _ => .readWord _) <| .ite (.pure _) <| .ite (.pure _) <|
    .ite (.fail _) <| .ite (.pure _) <| .ite (.bind .nextByte fun _ => .pure _) <|
    .ite (.bind .nextByte fun _ => .pure _) <|
    .ite (.bind .nextByte fun _ => .readWord _) (.pure _)

end Reads

/-! ### Operands of one byte -/

variable {f : Frame} {b : UInt8}

theorem literal_of_lt (found : f.memory.get? f.cursor = some b) (small : b < 0x80) :
    literal f = .ok b.toUInt16 { f with cursor := f.cursor + 1 } := by
  simp only [literal, nextByte, bind, EStateM.bind, found, if_pos small]
  rfl

theorem multitype_of_lt (found : f.memory.get? f.cursor = some b) (small : b < 0x40) :
    multitype f = .ok b.toUInt16 { f with cursor := f.cursor + 1 } := by
  simp only [multitype, nextByte, bind, EStateM.bind, found, if_pos small]
  rfl

/-- The last 32 bytes stand for the highest words. -/
theorem multitype_of_ge (found : f.memory.get? f.cursor = some b) (large : 0xe0 ≤ b) :
    multitype f = .ok ((b - 0xe0).toUInt16 + 65504) { f with cursor := f.cursor + 1 } := by
  have above {c : UInt8} (le : c ≤ 0xe0) : ¬ b < c := by
    rw [UInt8.le_iff_toNat_le] at le large
    rw [UInt8.lt_iff_toNat_lt]
    omega
  have other {c : UInt8} (lt : c < 0xe0) : b ≠ c := by
    intro same
    exact above (UInt8.le_refl _) (same ▸ lt)
  simp only [multitype, nextByte, bind, EStateM.bind, found]
  rw [if_neg (above (by decide)), if_neg (above (by decide)), if_neg (other (by decide)),
    if_neg (other (by decide)), if_neg (other (by decide)), if_neg (other (by decide)),
    if_neg (above (by decide)), if_neg (above (by decide)), if_neg (above (by decide)),
    if_neg (above (by decide)), if_neg (above (by decide))]
  rfl
end Exec

namespace Instruction

open Exec

/-! ## Storing the words -/

theorem writeWord_eq_ok {a w : UInt16} {f g : Frame} (run : writeWord a w f = .ok () g) :
    a.toNat + 2 ≤ f.memory.size ∧ g = { f with memory := f.memory.setWord a w } := by
  simp only [writeWord, onMemory, Memory.writeWord] at run
  split at run
  · next m stored =>
    split at stored
    · next inside =>
      cases stored
      cases run
      exact ⟨inside, rfl⟩
    · cases stored
  · cases run

/-- What has been stored after the last operand: as many words as were asked for, one behind the
other, all of them in memory. -/
theorem loadWords_eq_ok {n : Nat} {a : UInt16} {f g : Frame} (run : loadWords n a f = .ok () g) :
    f.Onward g ∧ (∃ values, values.length = n ∧ g.memory = f.memory.storeWords a values) ∧
      ∀ b ∈ Memory.storedAt n a, b < f.memory.size := by
  induction n generalizing a f with
  | zero =>
    cases run
    exact ⟨.refl _, ⟨[], rfl, rfl⟩, by simp [Memory.storedAt]⟩
  | succ n ih =>
    simp only [loadWords, bind, EStateM.bind] at run
    split at run
    · next w g₁ operand =>
      obtain ⟨read, kept⟩ := Reads.multitype f w g₁ operand
      split at run
      · next g₂ stored =>
        obtain ⟨inside, rfl⟩ := writeWord_eq_ok stored
        obtain ⟨onward, ⟨values, length, stores⟩, within⟩ := ih run
        simp only [kept, Memory.size_setWord] at inside stores within
        refine ⟨read.trans ⟨onward.pc, onward.cursor⟩, ⟨w :: values, ?_, stores⟩, ?_⟩
        · rw [List.length_cons, length]
        · intro b stored
          rw [Memory.storedAt, List.mem_cons, List.mem_cons] at stored
          rcases stored with rfl | rfl | later
          · omega
          · omega
          · exact within b later
      · cases run
    · cases run

end Instruction

/-! ## The instruction and its words -/

namespace Machine

open Exec

variable {m m' : Machine} {store : Store} {start count : UInt16} {last : Frame}

/-- What the next instruction works on: its operands begin behind its opcode. -/
def frame (m : Machine) : Frame := ⟨m.pc, m.pc.toNat + 1, m.memory, m.input, m.budget⟩

/-- The next instruction, as a MULTILOAD, is to store `count` words from `start` on; `last` is its
frame when all its operands are read and all its words are stored. -/
def Multiloads (m : Machine) (start count : UInt16) (last : Frame) : Prop :=
  ∃ f g, multitype m.frame = .ok start f ∧ literal f = .ok count g ∧
    Instruction.loadWords count.toNat start g = .ok () last

/-- A completed step is an instruction that completed, and its outcome. -/
theorem executed_of_step {o : Opcode} (fetched : m.fetch = .ok o)
    (done : step store m = .ok () m') :
    ∃ outcome f, Instruction.execute (m.surroundings store) o m.frame = .ok outcome f ∧
      m' = complete { m with
        memory := f.memory
        input := f.input
        budget := Budget.tick f.budget
        instructions := m.instructions + 1 } outcome := by
  simp only [step, fetched] at done
  split at done
  · cases done
  · next outcome f run =>
    cases done
    exact ⟨outcome, f, run, rfl⟩

/-- A MULTILOAD completes if it can store its words and the comparison finds nothing; it goes on
behind its last operand. -/
theorem multiloads_of_step (fetched : m.fetch = .ok .multiload) (done : step store m = .ok () m') :
    ∃ start count last, m.Multiloads start count last ∧
      Instruction.overwrites start count last.pc last.cursor = false ∧
      m'.memory = last.memory ∧ m'.pc = UInt16.ofNat last.cursor := by
  obtain ⟨outcome, f, run, rfl⟩ := executed_of_step fetched done
  simp only [Instruction.execute, Instruction.multiload, bind, EStateM.bind] at run
  split at run
  · next start f₁ first =>
    split at run
    · next count f₂ second =>
      split at run
      · next last stored =>
        simp only [here, position] at run
        split at run
        · cases run
        · next clear =>
          cases run
          exact ⟨start, count, last, ⟨f₁, f₂, first, second, stored⟩,
            Bool.eq_false_iff.2 clear, rfl, rfl⟩
      · cases run
    · cases run
  · cases run

theorem Multiloads.unique {start' count' : UInt16} {last' : Frame}
    (run : m.Multiloads start count last) (run' : m.Multiloads start' count' last') :
    start = start' ∧ count = count' ∧ last = last' := by
  obtain ⟨f, g, first, second, stored⟩ := run
  obtain ⟨f', g', first', second', stored'⟩ := run'
  cases first.symm.trans first'
  cases second.symm.trans second'
  cases stored.symm.trans stored'
  exact ⟨rfl, rfl, rfl⟩

/-- If the comparison finds nothing, the instruction completes. -/
theorem step_of_multiloads (store : Store) (fetched : m.fetch = .ok .multiload)
    (run : m.Multiloads start count last)
    (clear : Instruction.overwrites start count last.pc last.cursor = false) :
    ∃ m', step store m = .ok () m' ∧ m'.memory = last.memory := by
  obtain ⟨f, g, first, second, stored⟩ := run
  have executed : Instruction.execute (m.surroundings store) .multiload m.frame =
      .ok (.go (UInt16.ofNat last.cursor))
        { last with budget := { last.budget with total := last.budget.total + count.toNat } } := by
    simp only [Instruction.execute, Instruction.multiload, bind, EStateM.bind, first, second,
      stored, here, position, clear, Bool.false_eq_true, if_false]
    rfl
  simp only [frame] at executed
  simp only [step, fetched, executed]
  exact ⟨_, rfl, rfl⟩

/-- How the frame after the last operand came from the machine. -/
theorem Multiloads.spec (run : m.Multiloads start count last) :
    last.pc = m.pc ∧ m.pc.toNat + 1 ≤ last.cursor ∧
      (∃ values, values.length = count.toNat ∧ last.memory = m.memory.storeWords start values) ∧
      ∀ b ∈ Memory.storedAt count.toNat start, b < m.memory.size := by
  obtain ⟨f, g, first, second, stored⟩ := run
  obtain ⟨toFirst, keptFirst⟩ := Reads.multitype _ _ _ first
  obtain ⟨toSecond, keptSecond⟩ := Reads.literal _ _ _ second
  obtain ⟨toLast, stores, inside⟩ := Instruction.loadWords_eq_ok stored
  have onward := (toFirst.trans toSecond).trans toLast
  have kept : g.memory = m.memory := keptSecond.trans keptFirst
  rw [kept] at stores inside
  exact ⟨onward.pc, onward.cursor, stores, inside⟩

end Machine

namespace Memory

/-- Words that all lie in a memory of at most 65536 bytes, and of which the comparison finds none
between the addresses `pc` and `stop`, reach in there only by going around. -/
theorem storedAt_meets_iff {start count pc : UInt16} {size stop : Nat} (fits : size ≤ 65536)
    (inside : ∀ b ∈ storedAt count.toNat start, b < size) (begun : pc.toNat < stop)
    (clear : Instruction.overwrites start count pc stop = false) :
    (∃ b ∈ storedAt count.toNat start, pc.toNat ≤ b ∧ b < stop) ↔
      65536 + pc.toNat < start.toNat + 2 * count.toNat := by
  have bounded := start.toNat_lt
  have apart : count.toNat ≠ 0 → start.toNat < stop →
      start.toNat + 2 * count.toNat ≤ pc.toNat := by
    intro some before
    simp only [Instruction.overwrites, Bool.and_eq_false_iff, bne_eq_false_iff_eq,
      decide_eq_false_iff_not] at clear
    rcases clear with (none | behind) | ahead
    · exact absurd (congrArg UInt16.toNat none) some
    · exact absurd before behind
    · omega
  constructor
  · intro ⟨b, stored, after, before⟩
    obtain ⟨i, below, place⟩ := mem_storedAt.1 stored
    by_cases around : start.toNat + 2 * i < 65536
    · -- a word that has not gone around lies where the comparison looks
      have := apart (by omega) (by omega)
      omega
    · omega
  · intro around
    have far : stop ≤ start.toNat := by
      refine Nat.le_of_not_lt fun near => ?_
      have := apart (by omega) near
      omega
    -- a word at 65535 would stick out of memory, so what goes around starts at an even address
    have even : start.toNat % 2 = 0 := by
      refine Decidable.byContradiction fun odd => ?_
      have edge : 65536 ∈ storedAt count.toNat start :=
        mem_storedAt.2 ⟨(65535 - start.toNat) / 2, by omega, by omega⟩
      have := inside 65536 edge
      omega
    refine ⟨pc.toNat, mem_storedAt.2 ⟨(65536 + pc.toNat - start.toNat) / 2, ?_, ?_⟩, ?_, ?_⟩
    all_goals omega

end Memory

namespace Machine

/-- An instruction that completes stores its words and goes on behind its last operand, and it has
stored over its own bytes exactly when its words went around and came back past its opcode. -/
theorem multiload_meets_itself_iff {store : Store} {m m' : Machine} (fits : m.memory.size ≤ 65536)
    (fetched : m.fetch = .ok .multiload) (done : step store m = .ok () m') :
    ∃ start count last, m.Multiloads start count last ∧ m'.pc = UInt16.ofNat last.cursor ∧
      (∃ values, values.length = count.toNat ∧ m'.memory = m.memory.storeWords start values) ∧
      (∀ b ∉ Memory.storedAt count.toNat start, m'.memory.get? b = m.memory.get? b) ∧
      ((∃ b ∈ Memory.storedAt count.toNat start, m.pc.toNat ≤ b ∧ b < last.cursor) ↔
        65536 + m.pc.toNat < start.toNat + 2 * count.toNat) := by
  obtain ⟨start, count, last, run, clear, memory, onward⟩ := multiloads_of_step fetched done
  obtain ⟨pc, begun, ⟨values, length, stores⟩, inside⟩ := run.spec
  rw [pc] at clear
  rw [stores] at memory
  refine ⟨start, count, last, run, onward, ⟨values, length, memory⟩, fun b apart => ?_,
    Memory.storedAt_meets_iff fits inside begun clear⟩
  rw [memory, Memory.get?_storeWords_of_not_mem m.memory (length ▸ apart)]

end Machine

/-! ## One that meets itself -/

namespace Memory

theorem lt_size_of_get? {m : Memory} {b : Nat} {v : UInt8} (found : m.get? b = some v) :
    b < m.size :=
  (Array.getElem?_eq_some_iff.1 found).1

/-- A zero word makes its bytes zero, and leaves those that are zero as they are. -/
theorem get?_setWord_zero {m : Memory} {a : UInt16} {b : Nat} (inside : b < m.size)
    (zero : m.get? b = some 0 ∨ b = a.toNat ∨ b = a.toNat + 1) :
    (m.setWord a 0).get? b = some 0 := by
  rcases zero with zero | rfl | rfl
  · rw [setWord, get?_set, get?_set]
    split
    · rfl
    · split
      · rfl
      · exact zero
  · rw [setWord, get?_set, if_neg (by omega), get?_set, if_pos ⟨rfl, inside⟩]
    rfl
  · rw [setWord, get?_set, size_set, if_pos ⟨rfl, inside⟩]
    rfl

/-- The same of zero words stored one behind the other. -/
theorem get?_storeWords_zeros {m : Memory} {a : UInt16} {n b : Nat} (inside : b < m.size)
    (zero : m.get? b = some 0 ∨ b ∈ storedAt n a) :
    (m.storeWords a (List.replicate n 0)).get? b = some 0 := by
  induction n generalizing m a with
  | zero => exact zero.resolve_right List.not_mem_nil
  | succ n ih =>
    have now : (m.get? b = some 0 ∨ b = a.toNat ∨ b = a.toNat + 1) ∨ b ∈ storedAt n (a + 2) := by
      simpa only [storedAt, List.mem_cons, or_assoc] using zero
    exact ih (by rwa [size_setWord]) (now.imp_left (get?_setWord_zero inside))

end Memory

open Exec in
/-- Operands that are zero bytes, all of which stay zero while they are read. -/
theorem Instruction.loadWords_zeros {n : Nat} {a : UInt16} {f : Frame}
    (zeros : ∀ i < n, f.memory.get? (f.cursor + i) = some 0)
    (inside : ∀ b ∈ Memory.storedAt n a, b < f.memory.size) :
    loadWords n a f = .ok () { f with
      cursor := f.cursor + n
      memory := f.memory.storeWords a (List.replicate n 0) } := by
  induction n generalizing a f with
  | zero => rfl
  | succ n ih =>
    have operand : multitype f = .ok 0 { f with cursor := f.cursor + 1 } :=
      multitype_of_lt (zeros 0 (by omega)) (by decide)
    have room : a.toNat + 2 ≤ f.memory.size :=
      inside (a.toNat + 1) (List.mem_cons_of_mem _ (List.mem_cons_self ..))
    have stored : writeWord a 0 { f with cursor := f.cursor + 1 } =
        .ok () { f with cursor := f.cursor + 1, memory := f.memory.setWord a 0 } := by
      simp only [writeWord, onMemory, Memory.writeWord_ok room]
    have rest := ih (a := a + 2)
      (f := { f with cursor := f.cursor + 1, memory := f.memory.setWord a 0 }) ?_ ?_
    · simp only [loadWords, bind, EStateM.bind, operand, stored, rest, Nat.add_assoc,
        Nat.add_comm 1 n, List.replicate_succ, Memory.storeWords]
    · intro i below
      have zero : f.memory.get? (f.cursor + 1 + i) = some 0 := by
        rw [Nat.add_right_comm]
        exact zeros (i + 1) (by omega)
      exact Memory.get?_setWord_zero (Memory.lt_size_of_get? zero) (.inl zero)
    · intro b later
      rw [Memory.size_setWord]
      exact inside b (List.mem_cons_of_mem _ (List.mem_cons_of_mem _ later))

namespace Machine

/-- A machine with 65536 bytes of memory, zero but for the first bytes of a MULTILOAD at 128, which
is to store 66 words from 65534 on. -/
def wrapping : Machine where
  pc := 128
  memory := (((Memory.zeroed 65536).set 128 0x0f).set 129 0xfe).set 130 0x42
  input := ⟨[], 0, 0, false⟩
  budget := ⟨0, 0, 0⟩
  output := #[]
  outputCapacity := 0
  instructions := 0
  completion := none
  requests := []
  feedbackAt := 0
  parametersAt := 0

/-- Its frame when the operands before the cursor have been read. -/
def wrappingFrame (cursor : Nat) : Frame :=
  ⟨128, cursor, wrapping.memory, ⟨[], 0, 0, false⟩, ⟨0, 0, 0⟩⟩

theorem size_wrapping : wrapping.memory.size = 65536 := by simp [wrapping]

theorem get?_wrapping {b : Nat} (inside : b < 65536) :
    wrapping.memory.get? b = some
      (if 130 = b then 0x42 else if 129 = b then 0xfe else if 128 = b then 0x0f else 0) := by
  have blank : (Memory.zeroed 65536).get? b = some 0 := by
    simp only [Memory.get?, Memory.zeroed, Array.getElem?_replicate, if_pos inside]
  simp only [wrapping, Memory.get?_set, Memory.size_set, Memory.size_zeroed, inside, and_true,
    blank]
  split
  · rfl
  · split
    · rfl
    · split <;> rfl

theorem fetch_wrapping : wrapping.fetch = .ok .multiload := by
  rw [fetch, get?_wrapping (by decide)]
  rfl

open Exec in
/-- Its words go around and over the first two bytes of the instruction. -/
theorem multiloads_wrapping : ∃ last, wrapping.Multiloads 65534 66 last ∧ last.pc = 128 ∧
    last.cursor = 197 ∧ last.memory.get? 128 = some 0 := by
  have first : multitype (wrappingFrame 129) = .ok 65534 (wrappingFrame 130) := by
    have byte : (wrappingFrame 129).memory.get? 129 = some 0xfe := get?_wrapping (by decide)
    have value : ((0xfe : UInt8) - 0xe0).toUInt16 + 65504 = 65534 := by decide
    rw [multitype_of_ge byte (by decide), value]
    rfl
  have second : literal (wrappingFrame 130) = .ok 66 (wrappingFrame 131) := by
    have byte : (wrappingFrame 130).memory.get? 130 = some 0x42 := get?_wrapping (by decide)
    have value : (0x42 : UInt8).toUInt16 = 66 := by decide
    rw [literal_of_lt byte (by decide), value]
    rfl
  have stored := Instruction.loadWords_zeros (n := 66) (a := 65534) (f := wrappingFrame 131) ?_ ?_
  · refine ⟨_, ⟨_, _, first, second, stored⟩, rfl, rfl, ?_⟩
    exact Memory.get?_storeWords_zeros (size_wrapping ▸ by decide) (.inr (by decide))
  · intro i below
    show wrapping.memory.get? (131 + i) = some 0
    rw [get?_wrapping (by omega), if_neg (by omega), if_neg (by omega), if_neg (by omega)]
  · intro b stored
    obtain ⟨i, below, place⟩ := Memory.mem_storedAt.1 stored
    have start : (65534 : UInt16).toNat = 65534 := rfl
    show b < wrapping.memory.size
    rw [size_wrapping]
    omega

theorem wrapped_multiload_meets_itself :
    wrapping.memory.size ≤ 65536 ∧ wrapping.fetch = .ok .multiload ∧
    ∃ m', step (.ofSettings {}) wrapping = .ok () m' ∧
      wrapping.memory.get? 128 = some 0x0f ∧ m'.memory.get? 128 = some 0 ∧
      ∃ start count last, wrapping.Multiloads start count last ∧
        ∃ b ∈ Memory.storedAt count.toNat start, wrapping.pc.toNat ≤ b ∧ b < last.cursor := by
  have fits : wrapping.memory.size ≤ 65536 := Nat.le_of_eq size_wrapping
  obtain ⟨last, run, pc, cursor, zero⟩ := multiloads_wrapping
  obtain ⟨m', done, memory⟩ := step_of_multiloads (.ofSettings {}) fetch_wrapping run
    (by rw [pc, cursor]; decide)
  refine ⟨fits, fetch_wrapping, m', done, get?_wrapping (by decide), memory ▸ zero, ?_⟩
  obtain ⟨start, count, found, again, -, -, -, meets⟩ :=
    multiload_meets_itself_iff fits fetch_wrapping done
  obtain ⟨rfl, rfl, rfl⟩ := again.unique run
  exact ⟨65534, 66, found, run, meets.2 (by decide)⟩

end Machine

end SigComp
