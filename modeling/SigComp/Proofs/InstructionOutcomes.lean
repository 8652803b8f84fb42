import SigComp.Machine.Inheritance

/-!
# What instructions leave behind

Most instructions do nothing outside their frame but say where to go on.  The others
write output, collect requests or end the program.

* `Exec.Answers`: what an action answers, if it does, whatever the frame.
* `moves_execute`: the instructions that only say where to go on.
* `fits_execute`: no instruction writes more output than there is room for.
* `stays_execute`: no instruction changes its own address or the size of memory.
-/

namespace SigComp

/-! ## Bytes along the ring -/

theorem Memory.length_bytes {m : Memory} {a n : Nat} (inside : a + n ≤ m.size) :
    (m.bytes a n).length = n := by
  simp only [Memory.size] at inside
  simp only [Memory.bytes, Array.length_toList, Array.size_extract]
  omega

/-- The pieces of a walk have the length of the walk. -/
theorem Window.length_pieces? {w : Window} {m : Memory} {a : UInt16} {n : Nat} {pieces : List Bytes}
    (found : w.pieces? m a n = some pieces) : pieces.flatten.length = n := by
  obtain ⟨segments, walked, rfl⟩ := Option.map_eq_some_iff.1 found
  clear found
  induction a, n using segments?.induct w m.size generalizing segments with
  | case1 a =>
    rw [segments?, if_pos rfl] at walked
    cases walked
    rfl
  | case2 a n some run inside ih =>
    rw [segments?, if_neg some, if_pos inside] at walked
    obtain ⟨rest, onward, rfl⟩ := Option.map_eq_some_iff.1 walked
    have within : w.reach a n ≤ n := Nat.min_le_left _ _
    rw [List.map_cons, List.flatten_cons, List.length_append, Memory.length_bytes inside,
      ih rest onward]
    omega
  | case3 a n some run outside =>
    rw [segments?, if_neg some, if_neg outside] at walked
    cases walked

theorem Window.length_read {w : Window} {a : UInt16} {n : Nat} {m m' : Memory} {data : Bytes}
    (h : w.read a n m = .ok data m') : data.length = n := by
  rw [read] at h
  split at h
  · next pieces found =>
    cases h
    exact length_pieces? found
  · cases h

/-! ## Answers -/

namespace Exec

variable {α β : Type} {P : β → Prop} {Q : α → Prop}

/-- Whatever frame an action is run on, its answer has a property, if it does answer. -/
def Answers (Q : α → Prop) (x : Exec α) : Prop := ∀ f a g, x f = .ok a g → Q a

namespace Answers

protected theorem pure {a : α} (holds : Q a) : Answers Q (pure a) := by
  intro f b g run
  cases run
  exact holds

protected theorem fail (r : Failure) : Answers Q (fail r) := by
  intro f b g run
  cases run

theorem bind {x : Exec α} {k : α → Exec β} (first : Answers Q x)
    (rest : ∀ a, Q a → Answers P (k a)) :
    Answers P (x >>= k) := by
  intro f b g run
  simp only [Bind.bind, EStateM.bind] at run
  split at run
  · next a h ran => exact rest a (first f a h ran) h b g run
  · cases run

/-- Of most actions nothing need be known. -/
theorem after {x : Exec α} {k : α → Exec β} (rest : ∀ a, Answers P (k a)) : Answers P (x >>= k) :=
  bind (Q := fun _ => True) (fun _ _ _ _ => trivial) fun a _ => rest a

protected theorem ite {c : Prop} [Decidable c] {x y : Exec α} (hx : c → Answers Q x)
    (hy : ¬ c → Answers Q y) : Answers Q (if c then x else y) := by
  split
  · next holds => exact hx holds
  · next fails => exact hy fails

protected theorem mono {x : Exec α} {Q' : α → Prop} (h : Answers Q x) (weaker : ∀ a, Q a → Q' a) :
    Answers Q' x :=
  fun f a g run => weaker a (h f a g run)

theorem require (r : Failure) :
    ∀ o : Option α, Answers (fun a => o = some a) (Instruction.require r o)
  | some _ => .pure rfl
  | none => .fail r

end Answers

end Exec

/-! ## Outcomes -/

/-- Nothing is done outside the frame. -/
def Outcome.Moves : Outcome → Prop
  | go _ => True
  | _ => False

/-- What is written is no more than there is room for. -/
def Outcome.Fits (s : Surroundings) : Outcome → Prop
  | emit data _ => s.written + data.length ≤ s.capacity
  | _ => True

/-- The instructions that do nothing outside their frame. -/
def Opcode.isPlain : Opcode → Bool
  | stateCreate | stateFree | output | endMessage => false
  | _ => true

namespace Instruction

open Exec

/-! ## Moving on -/

theorem moves_proceed : Answers Outcome.Moves proceed := .after fun _ => .pure trivial

theorem moves_arithmetic (combine : UInt16 → UInt16 → Option UInt16) :
    Answers Outcome.Moves (arithmetic combine) :=
  .after fun _ => .after fun _ => .after fun _ => .after fun _ => .after fun _ => moves_proceed

theorem moves_invert : Answers Outcome.Moves invert :=
  .after fun _ => .after fun _ => .after fun _ => moves_proceed

theorem moves_sort (descending : Bool) : Answers Outcome.Moves (sort descending) :=
  .after fun _ => .after fun _ => .after fun _ => .after fun _ => .after fun _ => .after fun _ =>
    moves_proceed

theorem moves_sha1 : Answers Outcome.Moves sha1 :=
  .after fun _ => .after fun _ => .after fun _ => .after fun _ => .after fun _ => .after fun _ =>
    .after fun _ => moves_proceed

theorem moves_load : Answers Outcome.Moves load :=
  .after fun _ => .after fun _ => .after fun _ => moves_proceed

theorem moves_multiload : Answers Outcome.Moves multiload :=
  .after fun _ => .after fun _ => .after fun _ => .after fun _ => .after fun _ =>
    .ite (fun _ => .fail _) fun _ => .after fun _ => moves_proceed

theorem moves_copy : Answers Outcome.Moves copy :=
  .after fun _ => .after fun _ => .after fun _ => .after fun _ => .after fun _ => .after fun _ =>
    moves_proceed

theorem moves_copyTo (source : Window → UInt16 → UInt16) (length target : UInt16) :
    Answers Outcome.Moves (copyTo source length target) :=
  .after fun _ => .after fun _ => .after fun _ => .after fun _ => .after fun _ => moves_proceed

theorem moves_memset : Answers Outcome.Moves memset :=
  .after fun _ => .after fun _ => .after fun _ => .after fun _ => .after fun _ => .after fun _ =>
    .after fun _ => moves_proceed

theorem moves_storeInput (target : UInt16) (data : Bytes) :
    Answers Outcome.Moves (storeInput target data) :=
  .ite (fun _ => moves_proceed) fun _ => .after fun _ => .after fun _ => .after fun _ =>
    moves_proceed

theorem moves_inputBytes : Answers Outcome.Moves inputBytes := by
  refine .after fun _ => .after fun _ => .after fun _ => .after fun drawn => ?_
  cases drawn with
  | some data => exact moves_storeInput _ data
  | none => exact .after fun _ => .pure trivial

theorem moves_inputBits : Answers Outcome.Moves inputBits := by
  refine .after fun _ => .after fun _ => .after fun _ => .ite (fun _ => moves_proceed) fun _ =>
    .ite (fun _ => .fail _) fun _ => .after fun _ => .after fun drawn => ?_
  cases drawn with
  | some v => exact .after fun _ => moves_proceed
  | none => exact .pure trivial

theorem moves_decode (target underflow order : UInt16) (n spent code : Nat) :
    Answers Outcome.Moves (decode target underflow order n spent code) := by
  induction n generalizing spent code with
  | zero => exact .fail _
  | succ n ih =>
    refine .after fun _ => .after fun _ => .after fun _ => .after fun _ => .after fun extended => ?_
    cases extended with
    | none => exact .pure trivial
    | some code =>
      exact .ite (fun _ => .after fun _ => .after fun _ => moves_proceed) fun _ => ih _ _

theorem moves_storeState (state : State) (first length : Nat) (target entry : UInt16) :
    Answers Outcome.Moves (storeState state first length target entry) :=
  .ite (fun _ => .fail _) fun _ => .after fun _ => .after fun _ => .after fun _ => .after fun _ =>
    .pure trivial

theorem moves_stateAccess (s : Surroundings) : Answers Outcome.Moves (stateAccess s) :=
  .after fun _ => .after fun _ => .after fun _ => .after fun _ => .after fun _ => .after fun _ =>
    .ite (fun _ => .after fun _ => .after fun _ => moves_storeState _ _ _ _ _) fun _ => .fail _

/-- Only four instructions can do more than move on. -/
theorem moves_execute (s : Surroundings) {o : Opcode} (plain : o.isPlain = true) :
    Answers Outcome.Moves (execute s o) := by
  cases o with
  | decompressionFailure => exact .fail _
  | and | or | shiftLeft | shiftRight | add | subtract | multiply | divide | remainder =>
    exact moves_arithmetic _
  | not => exact moves_invert
  | sortAscending | sortDescending => exact moves_sort _
  | sha1 => exact moves_sha1
  | load => exact moves_load
  | multiload => exact moves_multiload
  | push => exact .after fun _ => .after fun _ => moves_proceed
  | pop => exact .after fun _ => .after fun _ => .after fun _ => moves_proceed
  | copy => exact moves_copy
  | copyLiteral | copyOffset =>
    exact .after fun _ => .after fun _ => .after fun _ => moves_copyTo _ _ _
  | memset => exact moves_memset
  | jump | ret => exact .after fun _ => .pure trivial
  | compare =>
    exact .after fun _ => .after fun _ => .after fun _ => .after fun _ => .after fun _ =>
      .pure trivial
  | call => exact .after fun _ => .after fun _ => .after fun _ => .pure trivial
  | switch =>
    exact .after fun _ => .after fun _ => .after fun _ => .after fun _ => .after fun _ =>
      .pure trivial
  | crc =>
    exact .after fun _ => .after fun _ => .after fun _ => .after fun _ => .after fun _ =>
      .after fun _ => .after fun _ => .after fun _ => .pure trivial
  | inputBytes => exact moves_inputBytes
  | inputBits => exact moves_inputBits
  | inputHuffman =>
    exact .after fun _ => .after fun _ => .after fun _ => .after fun _ => .after fun _ =>
      moves_decode _ _ _ _ _ _
  | stateAccess => exact moves_stateAccess s
  | stateCreate | stateFree | output | endMessage => cases plain

/-! ## Output -/

/-- As many bytes are read as were asked for. -/
theorem answers_readRing (w : Window) (a : UInt16) (n : Nat) :
    Answers (fun data => data.length = n) (readRing w a n) := by
  intro f data g run
  simp only [readRing, onMemory] at run
  split at run
  · next read =>
    cases run
    exact Window.length_read read
  · cases run

theorem fits_output (s : Surroundings) : Answers (Outcome.Fits s) (output s) := by
  refine .after fun _ => .after fun length => .ite (fun _ => .fail _) fun room => .after fun w =>
    .bind (answers_readRing w _ length.toNat) fun data all => .after fun _ => .after fun _ =>
      .pure ?_
  show s.written + data.length ≤ s.capacity
  omega

/-- No instruction writes more output than there is room for. -/
theorem fits_execute (s : Surroundings) (o : Opcode) : Answers (Outcome.Fits s) (execute s o) := by
  by_cases plain : o.isPlain = true
  · refine (moves_execute s plain).mono fun outcome moves => ?_
    cases outcome with
    | go pc => exact trivial
    | emit data pc => exact moves.elim
    | enqueue requests pc => exact trivial
    | finish feedbackAt parametersAt requests pc => exact trivial
  · cases o with
    | output => exact fits_output s
    | stateCreate | stateFree =>
      exact .after fun _ => .after fun _ => .after fun _ => .after fun _ => .pure trivial
    | endMessage =>
      exact .after fun _ => .after fun _ => .after fun _ => .after fun _ => .after fun _ =>
        .after fun _ => .pure trivial
    | _ => exact absurd rfl plain

end Instruction

/-! ## Address and size -/

/-- The frame `g` belongs to the instruction of `f` and has as much memory. -/
structure Frame.Keeps (f g : Frame) : Prop where
  pc : g.pc = f.pc
  size : g.memory.size = f.memory.size

theorem Frame.Keeps.refl (f : Frame) : f.Keeps f := ⟨rfl, rfl⟩

theorem Frame.Keeps.trans {f g h : Frame} (fg : f.Keeps g) (gh : g.Keeps h) : f.Keeps h :=
  ⟨gh.pc.trans fg.pc, gh.size.trans fg.size⟩

namespace Exec

/-- An action that keeps the address and the size of memory, whether it fails or not. -/
def Stays {α : Type} (x : Exec α) : Prop := ∀ f : Frame, f.Keeps (final (x f))

namespace Stays

variable {α β : Type}

protected theorem bind {x : Exec α} {k : α → Exec β} (hx : Stays x) (hk : ∀ a, Stays (k a)) :
    Stays (x >>= k) := by
  intro f
  have first := hx f
  simp only [Bind.bind, EStateM.bind]
  split
  · next a g run =>
    rw [run] at first
    exact first.trans (hk a g)
  · next r g run =>
    rw [run] at first
    exact first

protected theorem onMemory {x : Memory.Action α} (h : Memory.KeepsSize x) : Stays (onMemory x) := by
  intro f
  have kept := h f.memory
  simp only [onMemory]
  split
  · next a m run =>
    rw [run] at kept
    exact ⟨rfl, kept⟩
  · next r m run =>
    rw [run] at kept
    exact ⟨rfl, kept⟩

protected theorem nextByte : Stays nextByte := by
  intro f
  simp only [nextByte]
  split <;> exact ⟨rfl, rfl⟩

protected theorem drawBytes (n : Nat) : Stays (drawBytes n) := by
  intro f
  simp only [drawBytes]
  split <;> exact ⟨rfl, rfl⟩

protected theorem drawBits (n : Nat) (lsbFirst : Bool) : Stays (drawBits n lsbFirst) := by
  intro f
  simp only [drawBits]
  split <;> exact ⟨rfl, rfl⟩

end Stays

theorem heritable_stays : Heritable Stays where
  pure _ f := .refl f
  fail _ f := .refl f
  bind := .bind
  nextByte := .nextByte
  here f := .refl f
  position f := .refl f
  following f := .refl f
  charge _ _ := ⟨rfl, rfl⟩
  drawBytes := .drawBytes
  drawBits := .drawBits
  readWord _ := .onMemory (.readWord _)
  writeWord _ _ := .onMemory (.writeWord _ _)
  readSlice _ _ := .onMemory (.readSlice _ _)
  writeSlice _ _ := .onMemory (.writeSlice _ _)
  window := .onMemory Window.keepsSize_current
  readAlong _ _ _ := .onMemory (Window.keepsSize_read _ _ _)
  writeAlong _ _ _ := .onMemory (Window.keepsSize_write _ _ _)
  copyAlong _ _ _ _ := .onMemory (Window.keepsSize_copy _ _ _ _)

end Exec

/-- No instruction changes its own address or the size of memory. -/
theorem Instruction.stays_execute (s : Surroundings) (o : Opcode) : Exec.Stays (execute s o) :=
  Exec.heritable_stays.execute s o

end SigComp
