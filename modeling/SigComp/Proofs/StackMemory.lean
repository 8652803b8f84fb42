import SigComp.Proofs.OperandScanning

/-!
# The stack in memory

A program keeps its stack in its own memory: a word that counts the entries, at the place that a
register names, and the entries behind it.  Every access computes its address from these two words
anew, with 16 bits.

* `Memory.stack?`: the words on the stack, as they can be read from memory.
* `Memory.StackRoom`: the place of a stack that has room for so many words and keeps clear of the
  register, so that no address goes around.
* `Memory.SameStack`: memories that agree on all of this.
* `Instruction.pushWord_eq`, `popWord_eq` and `popWord_empty`: on such a stack, the two ways to use
  it add a word to the front of the list or take the first one away.
-/

namespace SigComp

namespace Memory

open Instruction (stackSlot)

/-! ## Words that are stored -/

section

variable {m m' : Memory} {a b w : UInt16}

theorem word?_congr (high : m'.get? a.toNat = m.get? a.toNat)
    (low : m'.get? (a.toNat + 1) = m.get? (a.toNat + 1)) : m'.word? a = m.word? a := by
  simp only [word?, high, low]

theorem exists_word? (inside : a.toNat + 2 ≤ m.size) : ∃ w, m.word? a = some w := by
  cases found : m.word? a with
  | some w => exact ⟨w, rfl⟩
  | none =>
    rw [word?_eq_none_iff] at found
    omega

theorem word?_setWord (inside : a.toNat + 2 ≤ m.size) : (m.setWord a w).word? a = some w := by
  have high : (m.setWord a w).get? a.toNat = some (highByte w) := by
    rw [setWord, get?_set, if_neg (by omega), get?_set, if_pos (by omega)]
  have low : (m.setWord a w).get? (a.toNat + 1) = some (lowByte w) := by
    rw [setWord, get?_set, if_pos (by rw [size_set]; omega)]
  simp only [word?, high, low, word_ofWord]

theorem word?_setWord_of_apart (apart : a.toNat + 2 ≤ b.toNat ∨ b.toNat + 2 ≤ a.toNat) :
    (m.setWord b w).word? a = m.word? a :=
  word?_congr (get?_setWord_of_ne m (by omega) (by omega))
    (get?_setWord_of_ne m (by omega) (by omega))

end

/-! ## What is on the stack -/

/-- The number of words on the stack. -/
def fill? (m : Memory) : Option UInt16 := (m.word? stackLocation).bind m.word?

/-- The first `n` words that were put on a stack, the last one in front. -/
def entries? (m : Memory) (location : UInt16) : Nat → Option (List UInt16)
  | 0 => some []
  | n + 1 => do
    let v ← m.word? (stackSlot location (UInt16.ofNat n))
    let below ← m.entries? location n
    return v :: below

/-- The words on the stack, the last one in front. -/
def stack? (m : Memory) : Option (List UInt16) := do
  let location ← m.word? stackLocation
  let fill ← m.word? location
  m.entries? location fill.toNat

/-- The register names a place where there is room for a stack of `top` words, apart from the
register itself. -/
structure StackRoom (m : Memory) (location : UInt16) (top : Nat) : Prop where
  register : m.word? stackLocation = some location
  inside : location.toNat + 2 + 2 * top ≤ m.size
  bounded : m.size ≤ 65536
  apart : location.toNat + 2 + 2 * top ≤ 70 ∨ 72 ≤ location.toNat

/-- The register, and all that may become part of the stack, are the same in both memories. -/
structure SameStack (m m' : Memory) (location : UInt16) (top : Nat) : Prop where
  size : m'.size = m.size
  register : ∀ b, 70 ≤ b → b < 72 → m'.get? b = m.get? b
  area : ∀ b, location.toNat ≤ b → b < location.toNat + 2 + 2 * top → m'.get? b = m.get? b

variable {m m' : Memory} {location : UInt16} {top n : Nat} {stack : List UInt16} {v : UInt16}

theorem entries?_succ_eq_some :
    m.entries? location (n + 1) = some stack ↔
      ∃ v below, m.word? (stackSlot location (UInt16.ofNat n)) = some v ∧
        m.entries? location n = some below ∧ stack = v :: below := by
  simp only [entries?, bind, Option.bind_eq_some_iff, pure, Option.some.injEq]
  constructor
  · rintro ⟨v, word, below, rest, rfl⟩
    exact ⟨v, below, word, rest, rfl⟩
  · rintro ⟨v, below, word, rest, rfl⟩
    exact ⟨v, word, below, rest, rfl⟩

theorem length_of_entries? (held : m.entries? location n = some stack) : stack.length = n := by
  induction n generalizing stack with
  | zero =>
    cases held
    rfl
  | succ n ih =>
    obtain ⟨v, below, _, rest, rfl⟩ := entries?_succ_eq_some.1 held
    rw [List.length_cons, ih rest]

/-- The word with `rest` below it is stored in the slot of this number. -/
theorem word?_of_entries? {front rest : List UInt16}
    (held : m.entries? location n = some (front ++ v :: rest)) :
    m.word? (stackSlot location (UInt16.ofNat rest.length)) = some v := by
  induction n generalizing front with
  | zero =>
    cases front <;> cases held
  | succ n ih =>
    obtain ⟨u, below, word, held', same⟩ := entries?_succ_eq_some.1 held
    cases front with
    | nil =>
      cases same
      rw [length_of_entries? held', word]
    | cons w front =>
      cases same
      exact ih held'

namespace StackRoom

/-- No address of an entry goes around. -/
theorem toNat_slot (room : m.StackRoom location top) (below : n < top) :
    (stackSlot location (UInt16.ofNat n)).toNat = location.toNat + 2 + 2 * n := by
  have inside := room.inside
  have bounded := room.bounded
  have two : (2 : UInt16).toNat = 2 := rfl
  simp only [stackSlot, UInt16.toNat_add, UInt16.toNat_mul, UInt16.toNat_ofNat', two]
  omega

theorem toNat_fill (room : m.StackRoom location top) (fits : n ≤ top) :
    (UInt16.ofNat n).toNat = n := by
  have inside := room.inside
  have bounded := room.bounded
  rw [UInt16.toNat_ofNat']
  omega

theorem fill?_eq (room : m.StackRoom location top) : m.fill? = m.word? location := by
  rw [fill?, room.register, Option.bind_some]

theorem stack?_eq_some_iff (room : m.StackRoom location top) (fits : stack.length ≤ top) :
    m.stack? = some stack ↔ m.word? location = some (UInt16.ofNat stack.length) ∧
      m.entries? location stack.length = some stack := by
  simp only [stack?, room.register, bind, Option.bind_some, Option.bind_eq_some_iff]
  constructor
  · rintro ⟨fill, counted, held⟩
    rw [length_of_entries? held, UInt16.ofNat_toNat]
    exact ⟨counted, held⟩
  · rintro ⟨counted, held⟩
    exact ⟨_, counted, by rwa [room.toNat_fill fits]⟩

/-- What is counted is there. -/
theorem exists_stack? {fill : UInt16} (room : m.StackRoom location top)
    (counted : m.fill? = some fill)
    (fits : fill.toNat ≤ top) : ∃ stack, m.stack? = some stack ∧ stack.length = fill.toNat := by
  suffices entries : ∀ n ≤ top, ∃ stack, m.entries? location n = some stack by
    obtain ⟨stack, held⟩ := entries fill.toNat fits
    have length := length_of_entries? held
    rw [room.fill?_eq] at counted
    refine ⟨stack, (room.stack?_eq_some_iff (length ▸ fits)).2 ⟨?_, ?_⟩, length⟩
    · rw [length, UInt16.ofNat_toNat, counted]
    · rw [length, held]
  intro n
  induction n with
  | zero => exact fun _ => ⟨[], rfl⟩
  | succ n ih =>
    intro below
    obtain ⟨stack, held⟩ := ih (by omega)
    have slot := room.toNat_slot (n := n) (by omega)
    have inside := room.inside
    obtain ⟨v, word⟩ := exists_word? (m := m) (a := stackSlot location (UInt16.ofNat n)) (by omega)
    exact ⟨v :: stack, entries?_succ_eq_some.2 ⟨v, stack, word, held, rfl⟩⟩

end StackRoom

/-- Entries are the same where their bytes are. -/
theorem StackRoom.entries?_congr (room : m.StackRoom location top) (fits : n ≤ top)
    (same : ∀ b, location.toNat + 2 ≤ b → b < location.toNat + 2 + 2 * n → m'.get? b = m.get? b) :
    m'.entries? location n = m.entries? location n := by
  induction n with
  | zero => rfl
  | succ n ih =>
    have slot := room.toNat_slot fits
    rw [entries?, entries?, ih (by omega) fun b left right => same b left (by omega),
      word?_congr (same _ (by omega) (by omega)) (same _ (by omega) (by omega))]

namespace SameStack

theorem room (same : m.SameStack m' location top) (room : m.StackRoom location top) :
    m'.StackRoom location top where
  register := by
    rw [← room.register]
    exact word?_congr (same.register 70 (by omega) (by omega))
      (same.register 71 (by omega) (by omega))
  inside := by rw [same.size]; exact room.inside
  bounded := by rw [same.size]; exact room.bounded
  apart := room.apart

theorem stack? (same : m.SameStack m' location top) (room : m.StackRoom location top)
    (fits : stack.length ≤ top) (held : m.stack? = some stack) : m'.stack? = some stack := by
  rw [room.stack?_eq_some_iff fits] at held
  rw [(same.room room).stack?_eq_some_iff fits,
    word?_congr (same.area _ (by omega) (by omega)) (same.area _ (by omega) (by omega)),
    room.entries?_congr fits fun b left right => same.area b (by omega) (by omega)]
  exact held

end SameStack

/-- A word that is stored elsewhere leaves the stack as it is. -/
theorem sameStack_setWord {a w : UInt16} (fromRegister : a.toNat + 2 ≤ 70 ∨ 72 ≤ a.toNat)
    (fromArea : a.toNat + 2 ≤ location.toNat ∨ location.toNat + 2 + 2 * top ≤ a.toNat) :
    m.SameStack (m.setWord a w) location top where
  size := size_setWord m a w
  register b _ _ := get?_setWord_of_ne m (by omega) (by omega)
  area b _ _ := get?_setWord_of_ne m (by omega) (by omega)

/-! ## Changes -/

namespace StackRoom

/-- A word that is stored apart from the register leaves the room as it is. -/
theorem setWord {a w : UInt16} (room : m.StackRoom location top)
    (fromRegister : a.toNat + 2 ≤ 70 ∨ 72 ≤ a.toNat) : (m.setWord a w).StackRoom location top where
  register := by
    have seventy : stackLocation.toNat = 70 := rfl
    rw [word?_setWord_of_apart (by omega), room.register]
  inside := by rw [size_setWord]; exact room.inside
  bounded := by rw [size_setWord]; exact room.bounded
  apart := room.apart

/-- The count decides how many of the entries are on the stack. -/
theorem stack?_setWord (room : m.StackRoom location top) (fits : stack.length ≤ top)
    (held : m.entries? location stack.length = some stack) :
    (m.setWord location (UInt16.ofNat stack.length)).StackRoom location top ∧
      (m.setWord location (UInt16.ofNat stack.length)).stack? = some stack := by
  have inside := room.inside
  have apart := room.apart
  have after := room.setWord (a := location) (w := UInt16.ofNat stack.length) (by omega)
  refine ⟨after, (after.stack?_eq_some_iff fits).2 ⟨word?_setWord (by omega), ?_⟩⟩
  rw [room.entries?_congr fits fun b left right => get?_setWord_of_ne m (by omega) (by omega), held]

/-- The word in the next slot is on the stack as soon as it is counted. -/
theorem stack?_push (room : m.StackRoom location top) (free : stack.length < top)
    (held : m.entries? location stack.length = some stack) (v : UInt16) :
    let pushed := (m.setWord (stackSlot location (UInt16.ofNat stack.length)) v).setWord location
      (UInt16.ofNat (stack.length + 1))
    pushed.StackRoom location top ∧ pushed.stack? = some (v :: stack) := by
  have inside := room.inside
  have apart := room.apart
  have slot := room.toNat_slot free
  have fits : (v :: stack).length ≤ top := free
  have written := room.setWord (a := stackSlot location (UInt16.ofNat stack.length)) (w := v)
    (by omega)
  have below : (m.setWord (stackSlot location (UInt16.ofNat stack.length)) v).entries? location
      stack.length = some stack := by
    rw [room.entries?_congr (Nat.le_of_lt free) fun b left right =>
      get?_setWord_of_ne m (by omega) (by omega), held]
  have all := entries?_succ_eq_some.2 ⟨v, stack, word?_setWord (by omega), below, rfl⟩
  rw [← List.length_cons] at all ⊢
  exact written.stack?_setWord fits all

end StackRoom

end Memory

/-! ## The two ways to use a stack -/

namespace Instruction

open Exec

variable {f : Frame} {location a w : UInt16} {top : Nat} {stack : List UInt16} {v : UInt16}

theorem readWord_of_word? (found : f.memory.word? a = some w) : readWord a f = .ok w f := by
  simp only [readWord, onMemory, Memory.readWord, found]

theorem writeWord_of_inside (inside : a.toNat + 2 ≤ f.memory.size) :
    writeWord a w f = .ok () { f with memory := f.memory.setWord a w } := by
  simp only [writeWord, onMemory, Memory.writeWord_ok inside]

/-- A word is put on a stack that has room for it. -/
theorem pushWord_eq (room : f.memory.StackRoom location top) (held : f.memory.stack? = some stack)
    (free : stack.length < top) (v : UInt16) :
    ∃ memory, pushWord v f = .ok () { f with memory } ∧ memory.StackRoom location top ∧
      memory.stack? = some (v :: stack) := by
  obtain ⟨counted, entries⟩ := (room.stack?_eq_some_iff (Nat.le_of_lt free)).1 held
  have inside := room.inside
  have slot := room.toNat_slot free
  have next : UInt16.ofNat stack.length + 1 = UInt16.ofNat (stack.length + 1) :=
    (UInt16.ofNat_add stack.length 1).symm
  obtain ⟨after, pushed⟩ := room.stack?_push free entries v
  refine ⟨_, ?_, after, pushed⟩
  rw [pushWord, bind_of_ok (readWord_of_word? room.register),
    bind_of_ok (readWord_of_word? counted),
    bind_of_ok (writeWord_of_inside (by omega)), next, writeWord_of_inside]
  rw [Memory.size_setWord]
  omega

/-- The word in front is taken off. -/
theorem popWord_eq (room : f.memory.StackRoom location top)
    (held : f.memory.stack? = some (v :: stack)) (fits : stack.length < top) :
    ∃ memory, popWord f = .ok v { f with memory } ∧ memory.StackRoom location top ∧
      memory.stack? = some stack := by
  have all : (v :: stack).length ≤ top := fits
  obtain ⟨counted, entries⟩ := (room.stack?_eq_some_iff all).1 held
  obtain ⟨u, below, word, rest, same⟩ := Memory.entries?_succ_eq_some.1 entries
  cases same
  have inside := room.inside
  have fill : (UInt16.ofNat (stack.length + 1)).toNat = stack.length + 1 := room.toNat_fill fits
  have before : UInt16.ofNat (stack.length + 1) - 1 = UInt16.ofNat stack.length := by
    rw [UInt16.ofNat_add stack.length 1]
    exact UInt16.add_sub_cancel _ _
  have filled : UInt16.ofNat (stack.length + 1) ≠ 0 := by
    intro zero
    rw [zero] at fill
    cases fill
  obtain ⟨after, popped⟩ := room.stack?_setWord (Nat.le_of_lt fits) rest
  refine ⟨_, ?_, after, popped⟩
  rw [popWord, bind_of_ok (readWord_of_word? room.register), bind_of_ok (readWord_of_word? counted),
    List.length_cons, if_neg filled, before, bind_of_ok (readWord_of_word? word),
    bind_of_ok (writeWord_of_inside (by omega))]
  rfl

/-- Nothing can be taken off a stack that is empty. -/
theorem popWord_empty (room : f.memory.StackRoom location top) (held : f.memory.stack? = some []) :
    popWord f = .error .stackUnderflow f := by
  have fits : ([] : List UInt16).length ≤ top := Nat.zero_le top
  obtain ⟨counted, -⟩ := (room.stack?_eq_some_iff fits).1 held
  rw [popWord, bind_of_ok (readWord_of_word? room.register), bind_of_ok (readWord_of_word? counted)]
  rfl

end Instruction

end SigComp
