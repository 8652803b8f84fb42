import SigComp.FrameCheck
import SigComp.Machine.Frame
import SigComp.Machine.Opcode
import SigComp.Machine.Request
import SigComp.Machine.Sort
import SigComp.Store.Basic

/-!
# Instructions

What each instruction does to its frame, and what becomes of the machine when it
completes.  All that lies outside the frame — output, requests, completion and the
next instruction — is part of an `Outcome`, which a failing instruction does not
have, so a failure can never be seen from there.

* `Instruction.execute` is the instruction of an opcode.
-/

namespace SigComp

/-- What an instruction can see but not change. -/
structure Surroundings where
  store : Store
  written : Nat
  capacity : Nat
  requests : Requests

/-- What a completed instruction does outside its frame.  Each outcome names the next
instruction. -/
inductive Outcome where
  | go (pc : UInt16)
  | emit (data : Bytes) (pc : UInt16)
  | enqueue (requests : Requests) (pc : UInt16)
  | finish (feedbackAt parametersAt : UInt16) (requests : Requests) (pc : UInt16)
  deriving DecidableEq, Repr

namespace Instruction

open Exec

/-! ## Order of input bits -/

/-- Input bytes are read from the least significant bit. -/
def bitP : UInt16 := 1

/-- The parts of a Huffman code are read from the least significant bit. -/
def bitH : UInt16 := 2

/-- The result of INPUT-BITS is read from the least significant bit. -/
def bitF : UInt16 := 4

/-- A flag is set. -/
def isSet (order flag : UInt16) : Bool := order &&& flag != 0

/-- The lowest `n` bits of a number, in the opposite order if so asked. -/
def arranged (reversed : Bool) (n v : Nat) : Nat := if reversed then reverseBits n v else v

/-! ## Steps that instructions share -/

/-- The instruction behind this one is next. -/
def proceed : Exec Outcome := do
  return .go (← following)

/-- A value, or failure in its absence. -/
def require {α : Type} (r : Failure) : Option α → Exec α
  | some a => pure a
  | none => fail r

/-- The bytes along the ring from an address on. -/
def readRing (w : Window) (a : UInt16) (n : Nat) : Exec Bytes := onMemory (w.read a n)

/-- Bytes are stored along the ring from an address on. -/
def writeRing (w : Window) (a : UInt16) (data : Bytes) : Exec Unit := do
  let _ ← onMemory (w.write a data)
  return ()

/-! ## Arithmetic -/

/-- The word at a reference is combined with a second operand. -/
def arithmetic (combine : UInt16 → UInt16 → Option UInt16) : Exec Outcome := do
  let target ← reference
  let operand ← multitype
  let value ← readWord target
  let result ← require .zeroDivision (combine value operand)
  writeWord target result
  proceed

/-- The word at a reference is inverted. -/
def invert : Exec Outcome := do
  let target ← reference
  let value ← readWord target
  writeWord target (~~~value)
  proceed

/-- A word shifted to the left; all its bits are gone after sixteen places. -/
def shiftedLeft (v n : UInt16) : UInt16 := if 16 ≤ n then 0 else v <<< n

/-- A word shifted to the right; all its bits are gone after sixteen places. -/
def shiftedRight (v n : UInt16) : UInt16 := if 16 ≤ n then 0 else v >>> n

/-- Lists of words are sorted in place. -/
def sort (descending : Bool) : Exec Outcome := do
  let start ← multitype
  let lists ← multitype
  let length ← multitype
  let region ← onMemory (Memory.readSlice start.toNat (2 * lists.toNat * length.toNat))
  let sorted := if length ≤ 1 then region else Sort.rows descending lists.toNat length.toNat region
  onMemory (Memory.writeSlice start.toNat sorted)
  charge (length.toNat * (Sort.log2Ceil length.toNat + lists.toNat))
  proceed

/-- The digest of a stretch of the ring is stored on the ring. -/
def sha1 : Exec Outcome := do
  let position ← multitype
  let length ← multitype
  let destination ← multitype
  let w ← window
  let data ← readRing w position length.toNat
  writeRing w destination (Sha1.digest data).toList
  charge length.toNat
  proceed

/-! ## Memory -/

/-- A word is stored. -/
def load : Exec Outcome := do
  let target ← multitype
  let value ← multitype
  writeWord target value
  proceed

/-- The next `n` operands are stored one behind the other, each before the next is read. -/
def loadWords : Nat → UInt16 → Exec Unit
  | 0, _ => pure ()
  | n + 1, target => do
    let value ← multitype
    writeWord target value
    loadWords n (target + 2)

/-- The bytes from `start` on that `count` words take up meet the instruction from `pc` up to the
cursor. -/
def overwrites (start count pc : UInt16) (cursor : Nat) : Bool :=
  count != 0 && start.toNat < cursor && pc.toNat < start.toNat + 2 * count.toNat

/-- Words are stored one behind the other, but not over the instruction itself. -/
def multiload : Exec Outcome := do
  let start ← multitype
  let count ← literal
  loadWords count.toNat start
  let pc ← here
  let cursor ← position
  if overwrites start count pc cursor then fail .memoryAccess
  else do
    charge count.toNat
    proceed

/-- Bytes are copied along the ring. -/
def copy : Exec Outcome := do
  let source ← multitype
  let length ← multitype
  let destination ← multitype
  let w ← window
  let _ ← onMemory (w.copy length.toNat source destination)
  charge length.toNat
  proceed

/-- Bytes are copied to where the word at a reference points, and the word moves on. -/
def copyTo (source : Window → UInt16 → UInt16) (length target : UInt16) : Exec Outcome := do
  let destination ← readWord target
  let w ← window
  let stop ← onMemory (w.copy length.toNat (source w destination) destination)
  writeWord target stop
  charge length.toNat
  proceed

/-- A copy from an address to where the word at a reference points. -/
def copyLiteral : Exec Outcome := do
  let source ← multitype
  let length ← multitype
  let target ← reference
  copyTo (fun _ _ => source) length target

/-- A copy from some steps back to where the word at a reference points. -/
def copyOffset : Exec Outcome := do
  let offset ← multitype
  let length ← multitype
  let target ← reference
  copyTo (fun w destination => w.behind destination offset) length target

/-- `n` bytes that begin with `v` and grow by `step`, modulo 256. -/
def progression (step : UInt8) : Nat → UInt8 → Bytes → Bytes
  | 0, _, acc => acc.reverse
  | n + 1, v, acc => progression step n (v + step) (v :: acc)

/-- A progression of bytes is stored on the ring. -/
def memset : Exec Outcome := do
  let target ← multitype
  let length ← multitype
  let first ← multitype
  let step ← multitype
  let w ← window
  writeRing w target (progression step.toUInt8 length.toNat first.toUInt8 [])
  charge length.toNat
  proceed

/-! ## Stack -/

/-- The place of entry `n` of the stack, behind the word that counts the entries. -/
def stackSlot (location n : UInt16) : UInt16 := location + n * 2 + 2

/-- A word is put on the stack. -/
def pushWord (v : UInt16) : Exec Unit := do
  let location ← readWord Memory.stackLocation
  let fill ← readWord location
  writeWord (stackSlot location fill) v
  writeWord location (fill + 1)

/-- A word is taken off the stack. -/
def popWord : Exec UInt16 := do
  let location ← readWord Memory.stackLocation
  let fill ← readWord location
  if fill = 0 then fail .stackUnderflow
  else do
    let v ← readWord (stackSlot location (fill - 1))
    writeWord location (fill - 1)
    return v

/-- An operand is put on the stack. -/
def push : Exec Outcome := do
  let v ← multitype
  pushWord v
  proceed

/-- The word on the stack is stored. -/
def pop : Exec Outcome := do
  let target ← multitype
  let v ← popWord
  writeWord target v
  proceed

/-! ## Control -/

/-- The instruction at an address is next. -/
def jump : Exec Outcome := do
  return .go (← address)

/-- The order of two words decides which instruction is next. -/
def compare : Exec Outcome := do
  let left ← multitype
  let right ← multitype
  let less ← address
  let equal ← address
  let greater ← address
  return .go (if left < right then less else if left = right then equal else greater)

/-- A jump that leaves the address of the following instruction on the stack. -/
def call : Exec Outcome := do
  let target ← address
  let back ← following
  pushWord back
  return .go target

/-- A jump to the address on the stack. -/
def ret : Exec Outcome := do
  return .go (← popWord)

/-- All of the next `n` addresses are read; the answer is the one with the number `selector`, where
the first of them has the number `i`. -/
def select (selector : UInt16) : Nat → UInt16 → Option UInt16 → Exec (Option UInt16)
  | 0, _, chosen => pure chosen
  | n + 1, i, chosen => do
    let a ← address
    select selector n (i + 1) (if i = selector then some a else chosen)

/-- A jump to one of several addresses. -/
def switch : Exec Outcome := do
  let count ← literal
  let selector ← multitype
  let chosen ← select selector count.toNat 0 none
  charge count.toNat
  let target ← require .illegalOperand chosen
  return .go target

/-- A jump unless a stretch of the ring has the given check. -/
def crc : Exec Outcome := do
  let value ← multitype
  let start ← multitype
  let length ← multitype
  let mismatch ← address
  let w ← window
  let data ← readRing w start length.toNat
  charge length.toNat
  let next ← following
  return .go (if FrameCheck.accumulate FrameCheck.start data = value then next else mismatch)

/-! ## Input -/

/-- Bytes that have been read are stored on the ring. -/
def storeInput (target : UInt16) (data : Bytes) : Exec Outcome :=
  if data.isEmpty then proceed
  else do
    let w ← window
    writeRing w target data
    charge data.length
    proceed

/-- Bytes of input are stored on the ring; a jump if there are too few. -/
def inputBytes : Exec Outcome := do
  let length ← multitype
  let target ← multitype
  let underflow ← address
  match ← drawBytes length.toNat with
  | some data => storeInput target data
  | none => do
    charge length.toNat
    return .go underflow

/-- A number made of input bits is stored; a jump if there are too few. -/
def inputBits : Exec Outcome := do
  let length ← multitype
  let target ← multitype
  let underflow ← address
  if length = 0 then proceed
  else if 16 < length then fail .illegalOperand
  else do
    let order ← readWord Memory.inputBitOrder
    match ← drawBits length.toNat (isSet order bitP) with
    | some v => do
      writeWord target (UInt16.ofNat (arranged (isSet order bitF) length.toNat v))
      proceed
    | none => return .go underflow

/-- The code with the next `bits` bits of input behind it; nothing if there are too few.  A code has
at most sixteen bits, `spent` of which have been read. -/
def extendCode (order : UInt16) (bits spent code : Nat) : Exec (Option Nat) :=
  if bits = 0 then return some code
  else if 16 < spent + bits then fail .huffmanBits
  else do
    match ← drawBits bits (isSet order bitP) with
    | some v => return some (code <<< bits + arranged (isSet order bitH) bits v)
    | none => return none

/-- The groups of a Huffman code, of which `n` are left: each extends the code by some bits and
holds a range of codes, and the first range that has the code decides what is stored.  The groups
behind it are read over. -/
def decode (target underflow order : UInt16) : Nat → (spent code : Nat) → Exec Outcome
  | 0, _, _ => fail .huffmanMatch
  | n + 1, spent, code => do
    let bits ← multitype
    let lower ← multitype
    let upper ← multitype
    let uncompressed ← multitype
    match ← extendCode order bits.toNat spent code with
    | none => return .go underflow
    | some code =>
      if lower.toNat ≤ code ∧ code ≤ upper.toNat then do
        writeWord target (UInt16.ofNat code + uncompressed - lower)
        skip (4 * n)
        proceed
      else decode target underflow order n (spent + bits.toNat) code

/-- A Huffman code is read from the input and stored; a jump if the input ends first. -/
def inputHuffman : Exec Outcome := do
  let target ← multitype
  let underflow ← address
  let count ← literal
  charge count.toNat
  let order ← readWord Memory.inputBitOrder
  decode target underflow order count.toNat 0 0

/-! ## States -/

/-- An operand, or the value that stands for it if it is zero. -/
def orElse (operand standard : UInt16) : UInt16 := if operand = 0 then standard else operand

/-- A stretch of a state is stored on the ring. -/
def storeState (state : State) (first length : Nat) (target entry : UInt16) : Exec Outcome :=
  if state.data.length < first + length ∨ (first ≠ 0 ∧ length = 0) then fail .illegalOperand
  else do
    let w ← window
    writeRing w target ((state.data.drop first).take length)
    charge length
    let next ← following
    return .go (orElse entry next)

/-- A state is found by a prefix of its identifier and brought into memory. -/
def stateAccess (s : Surroundings) : Exec Outcome := do
  let idStart ← multitype
  let idLength ← multitype
  let first ← multitype
  let length ← multitype
  let target ← multitype
  let entry ← multitype
  if StateId.isPartialLength idLength.toNat then do
    let partialId ← onMemory (Memory.readSlice idStart.toNat idLength.toNat)
    let state ← require .stateAccess (s.store.lookup partialId false).toOption
    storeState state first.toNat (if length = 0 then state.data.length else length.toNat)
      (orElse target state.address) (orElse entry state.instruction)
  else fail .illegalOperand

/-- The five operands that describe a state to be saved. -/
def saveOperands : Exec SaveRequest := do
  let length ← multitype
  let start ← multitype
  let instruction ← multitype
  let access ← multitype
  let priority ← multitype
  return ⟨length, start, instruction, access, priority⟩

/-- A state is to be saved. -/
def stateCreate (s : Surroundings) : Exec Outcome := do
  let r ← saveOperands
  let requests ← require .state (Requests.addSave? s.requests r)
  charge r.length.toNat
  return .enqueue requests (← following)

/-- A state is to be given up. -/
def stateFree (s : Surroundings) : Exec Outcome := do
  let start ← multitype
  let length ← multitype
  let requests ← require .state (Requests.addFree? s.requests ⟨start, length⟩)
  return .enqueue requests (← following)

/-! ## Results -/

/-- A stretch of the ring becomes output. -/
def output (s : Surroundings) : Exec Outcome := do
  let start ← multitype
  let length ← multitype
  if s.capacity < s.written + length.toNat then fail .resources
  else do
    let w ← window
    let data ← readRing w start length.toNat
    charge length.toNat
    return .emit data (← following)

/-- The program ends.  A state to be saved that has no length or is inadmissible is passed over. -/
def endMessage (s : Surroundings) : Exec Outcome := do
  let feedbackAt ← multitype
  let parametersAt ← multitype
  let r ← saveOperands
  let requests ← require .state <|
    if r.length ≠ 0 ∧ r.admissible then Requests.addSave? s.requests r else some s.requests
  charge r.length.toNat
  return .finish feedbackAt parametersAt requests (← following)

/-! ## All instructions -/

/-- The instruction of an opcode. -/
def execute (s : Surroundings) : Opcode → Exec Outcome
  | .decompressionFailure => fail .unknown
  | .and => arithmetic fun v x => some (v &&& x)
  | .or => arithmetic fun v x => some (v ||| x)
  | .not => invert
  | .shiftLeft => arithmetic fun v x => some (shiftedLeft v x)
  | .shiftRight => arithmetic fun v x => some (shiftedRight v x)
  | .add => arithmetic fun v x => some (v + x)
  | .subtract => arithmetic fun v x => some (v - x)
  | .multiply => arithmetic fun v x => some (v * x)
  | .divide => arithmetic fun v x => if x = 0 then none else some (v / x)
  | .remainder => arithmetic fun v x => if x = 0 then none else some (v % x)
  | .sortAscending => sort false
  | .sortDescending => sort true
  | .sha1 => sha1
  | .load => load
  | .multiload => multiload
  | .push => push
  | .pop => pop
  | .copy => copy
  | .copyLiteral => copyLiteral
  | .copyOffset => copyOffset
  | .memset => memset
  | .jump => jump
  | .compare => compare
  | .call => call
  | .ret => ret
  | .switch => switch
  | .crc => crc
  | .inputBytes => inputBytes
  | .inputBits => inputBits
  | .inputHuffman => inputHuffman
  | .stateAccess => stateAccess s
  | .stateCreate => stateCreate s
  | .stateFree => stateFree s
  | .output => output s
  | .endMessage => endMessage s

end Instruction

end SigComp
