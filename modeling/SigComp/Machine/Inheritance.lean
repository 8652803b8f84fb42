import SigComp.Machine.Instruction

/-!
# What instructions inherit

Every instruction is put together from the same few actions.  A property that these
have, and that two actions one after the other have if each has it, is a property of
every instruction: `Exec.Heritable.execute`.  So what is true of all instructions for
the same reason is shown of a few actions only.
-/

namespace SigComp.Exec

/-- A property of the actions that instructions consist of, which one action after another inherits
from both. -/
structure Heritable (P : {α : Type} → Exec α → Prop) : Prop where
  pure {α : Type} (a : α) : P (Pure.pure a : Exec α)
  fail {α : Type} (r : Failure) : P (Exec.fail r : Exec α)
  bind {α β : Type} {x : Exec α} {k : α → Exec β} : P x → (∀ a, P (k a)) → P (x >>= k)
  nextByte : P Exec.nextByte
  here : P Exec.here
  position : P Exec.position
  following : P Exec.following
  charge (n : Nat) : P (Exec.charge n)
  drawBytes (n : Nat) : P (Exec.drawBytes n)
  drawBits (n : Nat) (lsbFirst : Bool) : P (Exec.drawBits n lsbFirst)
  readWord (a : UInt16) : P (Exec.readWord a)
  writeWord (a w : UInt16) : P (Exec.writeWord a w)
  readSlice (a n : Nat) : P (onMemory (Memory.readSlice a n))
  writeSlice (a : Nat) (data : Bytes) : P (onMemory (Memory.writeSlice a data))
  window : P Exec.window
  readAlong (w : Window) (a : UInt16) (n : Nat) : P (onMemory (w.read a n))
  writeAlong (w : Window) (a : UInt16) (data : Bytes) : P (onMemory (w.write a data))
  copyAlong (w : Window) (n : Nat) (source destination : UInt16) :
    P (onMemory (w.copy n source destination))

namespace Heritable

variable {P : {α : Type} → Exec α → Prop} {α : Type}

protected theorem ite (_ : Heritable P) {c : Prop} [Decidable c] {x y : Exec α} (hx : P x)
    (hy : P y) : P (if c then x else y) := by
  split
  · exact hx
  · exact hy

variable (h : Heritable P)

include h

/-! ## Operands -/

protected theorem nextWord : P nextWord :=
  h.bind h.nextByte fun _ => h.bind h.nextByte fun _ => h.pure _

protected theorem literal : P literal :=
  h.bind h.nextByte fun _ => h.ite (h.pure _) <|
    h.ite (h.bind h.nextByte fun _ => h.pure _) <| h.ite h.nextWord (h.fail _)

protected theorem reference : P reference :=
  h.bind h.nextByte fun _ => h.ite (h.pure _) <|
    h.ite (h.bind h.nextByte fun _ => h.pure _) <|
    h.ite h.nextWord (h.fail _)

protected theorem multitype : P multitype :=
  h.bind h.nextByte fun _ => h.ite (h.pure _) <| h.ite (h.readWord _) <| h.ite h.nextWord <|
    h.ite (h.bind h.nextWord fun _ => h.readWord _) <| h.ite (h.pure _) <| h.ite (h.pure _) <|
    h.ite (h.fail _) <| h.ite (h.pure _) <| h.ite (h.bind h.nextByte fun _ => h.pure _) <|
    h.ite (h.bind h.nextByte fun _ => h.pure _) <|
    h.ite (h.bind h.nextByte fun _ => h.readWord _) (h.pure _)

protected theorem address : P address :=
  h.bind h.multitype fun _ => h.bind h.here fun _ => h.pure _

protected theorem skip : ∀ n, P (skip n)
  | 0 => h.pure _
  | n + 1 => h.bind h.multitype fun _ => Heritable.skip n

/-! ## Shared steps -/

protected theorem proceed : P Instruction.proceed := h.bind h.following fun _ => h.pure _

protected theorem require (r : Failure) : ∀ x : Option α, P (Instruction.require r x)
  | some _ => h.pure _
  | none => h.fail _

protected theorem writeRing (w : Window) (a : UInt16) (data : Bytes) :
    P (Instruction.writeRing w a data) :=
  h.bind (h.writeAlong _ _ _) fun _ => h.pure _

theorem chargeAndProceed (n : Nat) : P (do Exec.charge n; Instruction.proceed) :=
  h.bind (h.charge n) fun _ => h.proceed

/-! ## Arithmetic and memory -/

protected theorem arithmetic (f : UInt16 → UInt16 → Option UInt16) : P (Instruction.arithmetic f) :=
  h.bind h.reference fun _ => h.bind h.multitype fun _ => h.bind (h.readWord _) fun _ =>
    h.bind (h.require _ _) fun _ => h.bind (h.writeWord _ _) fun _ => h.proceed

protected theorem invert : P Instruction.invert :=
  h.bind h.reference fun _ => h.bind (h.readWord _) fun _ => h.bind (h.writeWord _ _) fun _ =>
    h.proceed

protected theorem sort (d : Bool) : P (Instruction.sort d) :=
  h.bind h.multitype fun _ => h.bind h.multitype fun _ => h.bind h.multitype fun _ =>
    h.bind (h.readSlice _ _) fun _ => h.bind (h.writeSlice _ _) fun _ => h.chargeAndProceed _

protected theorem sha1 : P Instruction.sha1 :=
  h.bind h.multitype fun _ => h.bind h.multitype fun _ => h.bind h.multitype fun _ =>
    h.bind h.window fun _ => h.bind (h.readAlong _ _ _) fun _ => h.bind (h.writeRing _ _ _) fun _ =>
      h.chargeAndProceed _

protected theorem load : P Instruction.load :=
  h.bind h.multitype fun _ => h.bind h.multitype fun _ => h.bind (h.writeWord _ _) fun _ =>
    h.proceed

protected theorem loadWords : ∀ n a, P (Instruction.loadWords n a)
  | 0, _ => h.pure _
  | n + 1, a => h.bind h.multitype fun _ => h.bind (h.writeWord _ _) fun _ =>
      Heritable.loadWords n (a + 2)

protected theorem multiload : P Instruction.multiload :=
  h.bind h.multitype fun _ => h.bind h.literal fun _ => h.bind (h.loadWords _ _) fun _ =>
    h.bind h.here fun _ => h.bind h.position fun _ => h.ite (h.fail _) (h.chargeAndProceed _)

protected theorem copy : P Instruction.copy :=
  h.bind h.multitype fun _ => h.bind h.multitype fun _ => h.bind h.multitype fun _ =>
    h.bind h.window fun _ => h.bind (h.copyAlong _ _ _ _) fun _ => h.chargeAndProceed _

protected theorem copyTo (source : Window → UInt16 → UInt16) (n a : UInt16) :
    P (Instruction.copyTo source n a) :=
  h.bind (h.readWord _) fun _ => h.bind h.window fun _ => h.bind (h.copyAlong _ _ _ _) fun _ =>
    h.bind (h.writeWord _ _) fun _ => h.chargeAndProceed _

protected theorem copyLiteral : P Instruction.copyLiteral :=
  h.bind h.multitype fun _ => h.bind h.multitype fun _ => h.bind h.reference fun _ =>
    h.copyTo _ _ _

protected theorem copyOffset : P Instruction.copyOffset :=
  h.bind h.multitype fun _ => h.bind h.multitype fun _ => h.bind h.reference fun _ =>
    h.copyTo _ _ _

protected theorem memset : P Instruction.memset :=
  h.bind h.multitype fun _ => h.bind h.multitype fun _ => h.bind h.multitype fun _ =>
    h.bind h.multitype fun _ => h.bind h.window fun _ => h.bind (h.writeRing _ _ _) fun _ =>
      h.chargeAndProceed _

/-! ## Stack and control -/

protected theorem pushWord (v : UInt16) : P (Instruction.pushWord v) :=
  h.bind (h.readWord _) fun _ => h.bind (h.readWord _) fun _ => h.bind (h.writeWord _ _) fun _ =>
    h.writeWord _ _

protected theorem popWord : P Instruction.popWord :=
  h.bind (h.readWord _) fun _ => h.bind (h.readWord _) fun _ => h.ite (h.fail _) <|
    h.bind (h.readWord _) fun _ => h.bind (h.writeWord _ _) fun _ => h.pure _

protected theorem push : P Instruction.push :=
  h.bind h.multitype fun _ => h.bind (h.pushWord _) fun _ => h.proceed

protected theorem pop : P Instruction.pop :=
  h.bind h.multitype fun _ => h.bind h.popWord fun _ => h.bind (h.writeWord _ _) fun _ =>
    h.proceed

protected theorem jump : P Instruction.jump := h.bind h.address fun _ => h.pure _

protected theorem compare : P Instruction.compare :=
  h.bind h.multitype fun _ => h.bind h.multitype fun _ => h.bind h.address fun _ =>
    h.bind h.address fun _ => h.bind h.address fun _ => h.pure _

protected theorem call : P Instruction.call :=
  h.bind h.address fun _ => h.bind h.following fun _ => h.bind (h.pushWord _) fun _ => h.pure _

protected theorem ret : P Instruction.ret := h.bind h.popWord fun _ => h.pure _

protected theorem select (x : UInt16) : ∀ n i chosen, P (Instruction.select x n i chosen)
  | 0, _, _ => h.pure _
  | n + 1, _, _ => h.bind h.address fun _ => Heritable.select x n _ _

protected theorem switch : P Instruction.switch :=
  h.bind h.literal fun _ => h.bind h.multitype fun _ => h.bind (h.select _ _ _ _) fun _ =>
    h.bind (h.charge _) fun _ => h.bind (h.require _ _) fun _ => h.pure _

protected theorem crc : P Instruction.crc :=
  h.bind h.multitype fun _ => h.bind h.multitype fun _ => h.bind h.multitype fun _ =>
    h.bind h.address fun _ => h.bind h.window fun _ => h.bind (h.readAlong _ _ _) fun _ =>
      h.bind (h.charge _) fun _ => h.bind h.following fun _ => h.pure _

/-! ## Input -/

protected theorem storeInput (a : UInt16) (data : Bytes) : P (Instruction.storeInput a data) :=
  h.ite h.proceed <| h.bind h.window fun _ => h.bind (h.writeRing _ _ _) fun _ =>
    h.chargeAndProceed _

protected theorem inputBytes : P Instruction.inputBytes := by
  refine h.bind h.multitype fun _ => h.bind h.multitype fun _ => h.bind h.address fun _ =>
    h.bind (h.drawBytes _) fun drawn => ?_
  cases drawn with
  | some data => exact h.storeInput _ _
  | none => exact h.bind (h.charge _) fun _ => h.pure _

protected theorem inputBits : P Instruction.inputBits := by
  refine h.bind h.multitype fun _ => h.bind h.multitype fun _ => h.bind h.address fun _ =>
    h.ite h.proceed <| h.ite (h.fail _) <| h.bind (h.readWord _) fun _ =>
      h.bind (h.drawBits _ _) fun drawn => ?_
  cases drawn with
  | some v => exact h.bind (h.writeWord _ _) fun _ => h.proceed
  | none => exact h.pure _

protected theorem extendCode (order : UInt16) (bits spent code : Nat) :
    P (Instruction.extendCode order bits spent code) := by
  refine h.ite (h.pure _) <| h.ite (h.fail _) <| h.bind (h.drawBits _ _) fun drawn => ?_
  cases drawn <;> exact h.pure _

protected theorem decode (target underflow order : UInt16) (n spent code : Nat) :
    P (Instruction.decode target underflow order n spent code) := by
  induction n generalizing spent code with
  | zero => exact h.fail _
  | succ n ih =>
    refine h.bind h.multitype fun _ => h.bind h.multitype fun _ => h.bind h.multitype fun _ =>
      h.bind h.multitype fun _ => h.bind (h.extendCode _ _ _ _) fun extended => ?_
    cases extended with
    | none => exact h.pure _
    | some code =>
      exact h.ite (h.bind (h.writeWord _ _) fun _ => h.bind (h.skip _) fun _ => h.proceed) (ih _ _)

protected theorem inputHuffman : P Instruction.inputHuffman :=
  h.bind h.multitype fun _ => h.bind h.address fun _ => h.bind h.literal fun _ =>
    h.bind (h.charge _) fun _ => h.bind (h.readWord _) fun _ => h.decode _ _ _ _ _ _

/-! ## States and results -/

protected theorem storeState (s : State) (first length : Nat) (a entry : UInt16) :
    P (Instruction.storeState s first length a entry) :=
  h.ite (h.fail _) <| h.bind h.window fun _ => h.bind (h.writeRing _ _ _) fun _ =>
    h.bind (h.charge _) fun _ => h.bind h.following fun _ => h.pure _

protected theorem stateAccess (s : Surroundings) : P (Instruction.stateAccess s) :=
  h.bind h.multitype fun _ => h.bind h.multitype fun _ => h.bind h.multitype fun _ =>
    h.bind h.multitype fun _ => h.bind h.multitype fun _ => h.bind h.multitype fun _ =>
      h.ite (h.bind (h.readSlice _ _) fun _ => h.bind (h.require _ _) fun _ =>
        h.storeState _ _ _ _ _) (h.fail _)

protected theorem saveOperands : P Instruction.saveOperands :=
  h.bind h.multitype fun _ => h.bind h.multitype fun _ => h.bind h.multitype fun _ =>
    h.bind h.multitype fun _ => h.bind h.multitype fun _ => h.pure _

protected theorem stateCreate (s : Surroundings) : P (Instruction.stateCreate s) :=
  h.bind h.saveOperands fun _ => h.bind (h.require _ _) fun _ => h.bind (h.charge _) fun _ =>
    h.bind h.following fun _ => h.pure _

protected theorem stateFree (s : Surroundings) : P (Instruction.stateFree s) :=
  h.bind h.multitype fun _ => h.bind h.multitype fun _ => h.bind (h.require _ _) fun _ =>
    h.bind h.following fun _ => h.pure _

protected theorem output (s : Surroundings) : P (Instruction.output s) :=
  h.bind h.multitype fun _ => h.bind h.multitype fun _ => h.ite (h.fail _) <|
    h.bind h.window fun _ => h.bind (h.readAlong _ _ _) fun _ => h.bind (h.charge _) fun _ =>
      h.bind h.following fun _ => h.pure _

protected theorem endMessage (s : Surroundings) : P (Instruction.endMessage s) :=
  h.bind h.multitype fun _ => h.bind h.multitype fun _ => h.bind h.saveOperands fun _ =>
    h.bind (h.require _ _) fun _ => h.bind (h.charge _) fun _ => h.bind h.following fun _ =>
      h.pure _

/-- What actions inherit from the ones that they consist of, every instruction has. -/
protected theorem execute (s : Surroundings) (o : Opcode) : P (Instruction.execute s o) := by
  cases o with
  | decompressionFailure => exact h.fail _
  | and | or | shiftLeft | shiftRight | add | subtract | multiply | divide | remainder =>
    exact h.arithmetic _
  | not => exact h.invert
  | sortAscending | sortDescending => exact h.sort _
  | sha1 => exact h.sha1
  | load => exact h.load
  | multiload => exact h.multiload
  | push => exact h.push
  | pop => exact h.pop
  | copy => exact h.copy
  | copyLiteral => exact h.copyLiteral
  | copyOffset => exact h.copyOffset
  | memset => exact h.memset
  | jump => exact h.jump
  | compare => exact h.compare
  | call => exact h.call
  | ret => exact h.ret
  | switch => exact h.switch
  | crc => exact h.crc
  | inputBytes => exact h.inputBytes
  | inputBits => exact h.inputBits
  | inputHuffman => exact h.inputHuffman
  | stateAccess => exact h.stateAccess s
  | stateCreate => exact h.stateCreate s
  | stateFree => exact h.stateFree s
  | output => exact h.output s
  | endMessage => exact h.endMessage s

end Heritable

end SigComp.Exec
