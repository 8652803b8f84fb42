import SigComp.Checked.Frame
import SigComp.Machine.Instruction

/-!
# Instructions, checked

Each instruction once more, with the arithmetic and the places in byte strings that it
needs beyond those of the frame.  What lies outside the frame is an `Outcome`, as it is
for the machine.

* `Instruction.execute` is the instruction of an opcode;
* `find` looks a state up by a prefix of its identifier.
-/

namespace SigComp.Checked

/-! ## Looking up -/

/-- The state named by a prefix. -/
def find (s : Store) (partialId : Bytes) (ignoreAccess : Bool) : Calc (Except Error State) :=
  if StateId.isPartialLength partialId.length then do
    let key ← slice partialId 0 StateId.minPartial
    match (s.index.get? key).bind s.states.get? with
    | none => return .error .notFound
    | some e =>
      let front ← slice e.state.id.toBytes 0 partialId.length
      if front == partialId && (ignoreAccess || e.state.access.toNat ≤ partialId.length) then
        return .ok e.state
      else return .error .notFound
  else return .error (.badParam .partialIdLength)

namespace Instruction

open SigComp.Instruction
  (bitF bitH bitP isSet orElse progression shiftedLeft shiftedRight stackSlot)

/-! ## Steps that instructions share -/

/-- The instruction behind this one is next. -/
def proceed : Exec Outcome := do
  return .go (← following)

/-- A value, or failure in its absence. -/
def require {α : Type} (r : Failure) : Option α → Exec α
  | some a => pure a
  | none => fail r

/-- The bytes along the ring from an address on. -/
def readAlong (w : Window) (a : UInt16) (n : Nat) : Exec Bytes := onMemory (readRing w a n)

/-- Bytes are stored along the ring from an address on. -/
def writeAlong (w : Window) (a : UInt16) (data : Bytes) : Exec Unit := do
  let _ ← onMemory (writeRing w a data)
  return ()

/-- The borders of the copy window. -/
def borders : Exec Window := onMemory window

/-- Bytes are copied along the ring one at a time; every place is looked up as it is reached. -/
def copyAlong (w : Window) (n : Nat) (source destination : UInt16) : Exec UInt16 :=
  onMemory (plainly (w.copy n source destination))

/-! ## Arithmetic -/

/-- The word at a reference is combined with a second operand. -/
def arithmetic (combine : UInt16 → UInt16 → Option UInt16) : Exec Outcome := do
  let target ← reference
  let operand ← multitype
  let value ← wordAt target
  let result ← require .zeroDivision (combine value operand)
  putWord target result
  proceed

/-- The word at a reference is inverted. -/
def invert : Exec Outcome := do
  let target ← reference
  let value ← wordAt target
  putWord target (~~~value)
  proceed

/-! ## Sorting -/

/-- Where word `i` of a list begins in a region of lists of `length` words. -/
def spot (length list i : Nat) : Calc Nat := do
  let before ← mul 64 list length
  let place ← add 64 before i
  mul 64 2 place

/-- Word `i` of a list. -/
def wordIn (region : Bytes) (length list i : Nat) : Calc UInt16 := do
  let start ← spot length list i
  let high ← index region start
  let second ← add 64 start 1
  let low ← index region second
  return word high low

/-- The `n` words of a list from word `i` on. -/
def wordsIn (region : Bytes) (length list : Nat) : (n i : Nat) → Calc (List UInt16)
  | 0, _ => return []
  | n + 1, i => do
    let first ← wordIn region length list i
    let rest ← wordsIn region length list n (i + 1)
    return first :: rest

/-- Words of a list are stored one behind the other in another region, from word `i` of it on. -/
def arrange (region : Bytes) (length list : Nat) : List Nat → (i : Nat) → Bytes → Calc Bytes
  | [], _, target => return target
  | source :: sources, i, target => do
    let start ← spot length list i
    let stop ← add 64 start 2
    let w ← wordIn region length list source
    let target ← overwrite target start stop (Bytes.ofWord w)
    arrange region length list sources (i + 1) target

/-- The `n` lists from `list` on are put into the order of the given positions. -/
def arrangeAll (region : Bytes) (length : Nat) (positions : List Nat) :
    (n list : Nat) → Bytes → Calc Bytes
  | 0, _, target => return target
  | n + 1, list, target => do
    let target ← arrange region length list positions 0 target
    arrangeAll region length positions n (list + 1) target

/-- The region with every list in the order of the first. -/
def rows (descending : Bool) (lists length : Nat) (region : Bytes) : Calc Bytes := do
  let first ← wordsIn region length 0 length 0
  arrangeAll region length (Sort.order descending first.toArray) lists 0 region

/-- The number of zeros in front of the highest bit of a word of 64 bits. -/
def leadingZeros (v : Nat) : Nat := if v = 0 then 64 else 63 - v.log2

/-- The logarithm of a length to base 2, rounded up; zero for lengths up to one. -/
def log2Ceil (length : Nat) : Calc Nat :=
  if length ≤ 1 then return 0
  else do
    let last ← sub length 1
    sub 64 (leadingZeros last)

/-- The lists in a region of memory are sorted, if there is something to sort. -/
def sortRegion (descending : Bool) (start lists length size : Nat) : Exec Unit := do
  let region ← onMemory (plainly (Memory.readSlice start size))
  if 0 < lists ∧ 1 < length then do
    let sorted ← rows descending lists length region
    onMemory (writeSlice start size sorted)
  else return ()

/-- Lists of words are sorted in place. -/
def sort (descending : Bool) : Exec Outcome := do
  let start ← multitype
  let lists ← multitype
  let length ← multitype
  let pairs ← mul 64 2 lists.toNat
  let size ← mul 64 pairs length.toNat
  sortRegion descending start.toNat lists.toNat length.toNat size
  let log2 ← log2Ceil length.toNat
  let passes ← add 64 log2 lists.toNat
  let cycles ← mul 64 length.toNat passes
  charge cycles
  proceed

/-- The digest of a stretch of the ring is stored on the ring. -/
def sha1 : Exec Outcome := do
  let position ← multitype
  let length ← multitype
  let destination ← multitype
  let w ← borders
  let data ← readAlong w position length.toNat
  writeAlong w destination (Sha1.digest data).toList
  charge length.toNat
  proceed

/-! ## Memory -/

/-- A word is stored. -/
def load : Exec Outcome := do
  let target ← multitype
  let value ← multitype
  putWord target value
  proceed

/-- The next `n` operands are stored one behind the other, each before the next is read. -/
def loadWords : Nat → UInt16 → Exec Unit
  | 0, _ => pure ()
  | n + 1, target => do
    let value ← multitype
    putWord target value
    loadWords n (target + 2)

/-- The bytes from `start` on that `count` words take up meet the instruction from `pc` up to the
cursor. -/
def overwrites (start count pc : UInt16) (cursor : Nat) : Calc Bool :=
  if count = 0 then return false
  else do
    let bytes ← mul 64 2 count.toNat
    let stop ← add 64 start.toNat bytes
    let last ← sub stop 1
    let instructionEnd ← sub cursor 1
    return start.toNat ≤ instructionEnd && pc.toNat ≤ last

/-- Words are stored one behind the other, but not over the instruction itself. -/
def multiload : Exec Outcome := do
  let start ← multitype
  let count ← literal
  loadWords count.toNat start
  let pc ← here
  let cursor ← position
  let met ← overwrites start count pc cursor
  if met then fail .memoryAccess
  else do
    charge count.toNat
    proceed

/-- Bytes are copied along the ring. -/
def copy : Exec Outcome := do
  let source ← multitype
  let length ← multitype
  let destination ← multitype
  let w ← borders
  let _ ← copyAlong w length.toNat source destination
  charge length.toNat
  proceed

/-- Bytes are copied to where the word at a reference points, and the word moves on. -/
def copyTo (source : Window → UInt16 → Calc UInt16) (length target : UInt16) : Exec Outcome := do
  let destination ← wordAt target
  let w ← borders
  let start ← source w destination
  let stop ← copyAlong w length.toNat start destination
  putWord target stop
  charge length.toNat
  proceed

/-- A copy from an address to where the word at a reference points. -/
def copyLiteral : Exec Outcome := do
  let source ← multitype
  let length ← multitype
  let target ← reference
  copyTo (fun _ _ => .ok source) length target

/-- A copy from some steps back to where the word at a reference points. -/
def copyOffset : Exec Outcome := do
  let offset ← multitype
  let length ← multitype
  let target ← reference
  copyTo (fun w destination => behind w destination offset) length target

/-- A progression of bytes is stored on the ring. -/
def memset : Exec Outcome := do
  let target ← multitype
  let length ← multitype
  let first ← multitype
  let step ← multitype
  let w ← borders
  writeAlong w target (progression step.toUInt8 length.toNat first.toUInt8 [])
  charge length.toNat
  proceed

/-! ## Stack -/

/-- A word is put on the stack. -/
def pushWord (v : UInt16) : Exec Unit := do
  let location ← wordAt Memory.stackLocation
  let fill ← wordAt location
  putWord (stackSlot location fill) v
  putWord location (fill + 1)

/-- A word is taken off the stack. -/
def popWord : Exec UInt16 := do
  let location ← wordAt Memory.stackLocation
  let fill ← wordAt location
  if fill = 0 then fail .stackUnderflow
  else do
    let left ← sub16 fill 1
    let v ← wordAt (stackSlot location left)
    putWord location left
    return v

/-- An operand is put on the stack. -/
def push : Exec Outcome := do
  let v ← multitype
  pushWord v
  proceed

/-- The word on the stack is stored. -/
def pop : Exec Outcome := do
  let target ← multitype
  let v ← popWord
  putWord target v
  proceed

/-! ## Control -/

/-- The instruction at an address is next. -/
def jump : Exec Outcome := do
  return .go (← address)

/-- The order of two words decides which instruction is next. -/
def compare : Exec Outcome := do
  let left ← multitype
  let right ← multitype
  let less ← address
  let equal ← address
  let greater ← address
  return .go (if left < right then less else if left = right then equal else greater)

/-- A jump that leaves the address of the following instruction on the stack. -/
def call : Exec Outcome := do
  let target ← address
  let back ← following
  pushWord back
  return .go target

/-- A jump to the address on the stack. -/
def ret : Exec Outcome := do
  return .go (← popWord)

/-- All of the next `n` addresses are read; the answer is the one with the number `selector`, where
the first of them has the number `i`. -/
def select (selector : UInt16) : Nat → UInt16 → Option UInt16 → Exec (Option UInt16)
  | 0, _, chosen => pure chosen
  | n + 1, i, chosen => do
    let a ← address
    select selector n (i + 1) (if i = selector then some a else chosen)

/-- A jump to one of several addresses. -/
def switch : Exec Outcome := do
  let count ← literal
  let selector ← multitype
  let chosen ← select selector count.toNat 0 none
  charge count.toNat
  let target ← require .illegalOperand chosen
  return .go target

/-- A jump unless a stretch of the ring has the given check. -/
def crc : Exec Outcome := do
  let value ← multitype
  let start ← multitype
  let length ← multitype
  let mismatch ← address
  let w ← borders
  let data ← readAlong w start length.toNat
  charge length.toNat
  let next ← following
  return .go (if FrameCheck.accumulate FrameCheck.start data = value then next else mismatch)

/-! ## Input -/

/-- The lowest `n` bits of a number, in the opposite order if so asked. -/
def arranged (reversed : Bool) (n v : Nat) : Calc Nat :=
  if reversed then reverseBits n v else return v

/-- Bytes that have been read are stored on the ring. -/
def storeInput (target : UInt16) (data : Bytes) : Exec Outcome :=
  if data.isEmpty then proceed
  else do
    let w ← borders
    writeAlong w target data
    charge data.length
    proceed

/-- Bytes of input are stored on the ring; a jump if there are too few. -/
def inputBytes : Exec Outcome := do
  let length ← multitype
  let target ← multitype
  let underflow ← address
  match ← drawBytes length.toNat with
  | some data => storeInput target data
  | none => do
    charge length.toNat
    return .go underflow

/-- A number made of input bits is stored; a jump if there are too few. -/
def inputBits : Exec Outcome := do
  let length ← multitype
  let target ← multitype
  let underflow ← address
  if length = 0 then proceed
  else if 16 < length then fail .illegalOperand
  else do
    let order ← wordAt Memory.inputBitOrder
    match ← drawBits length.toNat (isSet order bitP) with
    | some v => do
      let value ← arranged (isSet order bitF) length.toNat v
      putWord target (UInt16.ofNat value)
      proceed
    | none => return .go underflow

/-- The code with the next `bits` bits of input behind it; nothing if there are too few.  A code has
at most sixteen bits, `spent` of which have been read. -/
def extendCode (order : UInt16) (bits spent code : Nat) : Exec (Option Nat) :=
  if bits = 0 then return some code
  else do
    let total ← add 32 spent bits
    if 16 < total then fail .huffmanBits
    else
      match ← drawBits bits (isSet order bitP) with
      | some v => do
        let value ← arranged (isSet order bitH) bits v
        let high ← shiftLeft 32 code bits
        let code ← add 32 high value
        return some code
      | none => return none

/-- The groups of a Huffman code from number `group` on, of which `n` are left.  Each extends the
code by some bits and holds a range of codes; the first range that has the code decides what is
stored, and the groups behind it are read over. -/
def decode (target underflow order : UInt16) (count : Nat) :
    (n group spent code : Nat) → Exec Outcome
  | 0, _, _, _ => fail .huffmanMatch
  | n + 1, group, spent, code => do
    let bits ← multitype
    let lower ← multitype
    let upper ← multitype
    let uncompressed ← multitype
    match ← extendCode order bits.toNat spent code with
    | none => return .go underflow
    | some code =>
      if lower.toNat ≤ code ∧ code ≤ upper.toNat then do
        putWord target (UInt16.ofNat code + uncompressed - lower)
        let next ← add 16 group 1
        skip (4 * (count - next))
        proceed
      else decode target underflow order count n (group + 1) (spent + bits.toNat) code

/-- A Huffman code is read from the input and stored; a jump if the input ends first. -/
def inputHuffman : Exec Outcome := do
  let target ← multitype
  let underflow ← address
  let count ← literal
  charge count.toNat
  let order ← wordAt Memory.inputBitOrder
  decode target underflow order count.toNat count.toNat 0 0 0

/-! ## States -/

/-- A stretch of a state is stored on the ring. -/
def storeState (state : State) (first length : Nat) (target entry : UInt16) : Exec Outcome := do
  let stop ← add 64 first length
  if state.data.length < stop ∨ (first ≠ 0 ∧ length = 0) then fail .illegalOperand
  else do
    let w ← borders
    let data ← slice state.data first stop
    writeAlong w target data
    charge length
    let next ← following
    return .go (orElse entry next)

/-- A state is found by a prefix of its identifier and brought into memory. -/
def stateAccess (s : Surroundings) : Exec Outcome := do
  let idStart ← multitype
  let idLength ← multitype
  let first ← multitype
  let length ← multitype
  let target ← multitype
  let entry ← multitype
  if StateId.isPartialLength idLength.toNat then do
    let partialId ← onMemory (plainly (Memory.readSlice idStart.toNat idLength.toNat))
    let found ← find s.store partialId false
    let state ← require .stateAccess found.toOption
    storeState state first.toNat (if length = 0 then state.data.length else length.toNat)
      (orElse target state.address) (orElse entry state.instruction)
  else fail .illegalOperand

/-- The five operands that describe a state to be saved. -/
def saveOperands : Exec SaveRequest := do
  let length ← multitype
  let start ← multitype
  let instruction ← multitype
  let access ← multitype
  let priority ← multitype
  return ⟨length, start, instruction, access, priority⟩

/-- A state is to be saved. -/
def stateCreate (s : Surroundings) : Exec Outcome := do
  let r ← saveOperands
  let requests ← require .state (Requests.addSave? s.requests r)
  charge r.length.toNat
  return .enqueue requests (← following)

/-- A state is to be given up. -/
def stateFree (s : Surroundings) : Exec Outcome := do
  let start ← multitype
  let length ← multitype
  let requests ← require .state (Requests.addFree? s.requests ⟨start, length⟩)
  return .enqueue requests (← following)

/-! ## Results -/

/-- A stretch of the ring becomes output. -/
def output (s : Surroundings) : Exec Outcome := do
  let start ← multitype
  let length ← multitype
  let total ← add 64 s.written length.toNat
  if s.capacity < total then fail .resources
  else do
    let w ← borders
    let data ← readAlong w start length.toNat
    charge length.toNat
    return .emit data (← following)

/-- The program ends.  A state to be saved that has no length or is inadmissible is passed over. -/
def endMessage (s : Surroundings) : Exec Outcome := do
  let feedbackAt ← multitype
  let parametersAt ← multitype
  let r ← saveOperands
  let requests ← require .state <|
    if r.length ≠ 0 ∧ r.admissible then Requests.addSave? s.requests r else some s.requests
  charge r.length.toNat
  return .finish feedbackAt parametersAt requests (← following)

/-! ## All instructions -/

/-- The instruction of an opcode. -/
def execute (s : Surroundings) : Opcode → Exec Outcome
  | .decompressionFailure => fail .unknown
  | .and => arithmetic fun v x => some (v &&& x)
  | .or => arithmetic fun v x => some (v ||| x)
  | .not => invert
  | .shiftLeft => arithmetic fun v x => some (shiftedLeft v x)
  | .shiftRight => arithmetic fun v x => some (shiftedRight v x)
  | .add => arithmetic fun v x => some (v + x)
  | .subtract => arithmetic fun v x => some (v - x)
  | .multiply => arithmetic fun v x => some (v * x)
  | .divide => arithmetic fun v x => if x = 0 then none else some (v / x)
  | .remainder => arithmetic fun v x => if x = 0 then none else some (v % x)
  | .sortAscending => sort false
  | .sortDescending => sort true
  | .sha1 => sha1
  | .load => load
  | .multiload => multiload
  | .push => push
  | .pop => pop
  | .copy => copy
  | .copyLiteral => copyLiteral
  | .copyOffset => copyOffset
  | .memset => memset
  | .jump => jump
  | .compare => compare
  | .call => call
  | .ret => ret
  | .switch => switch
  | .crc => crc
  | .inputBytes => inputBytes
  | .inputBits => inputBits
  | .inputHuffman => inputHuffman
  | .stateAccess => stateAccess s
  | .stateCreate => stateCreate s
  | .stateFree => stateFree s
  | .output => output s
  | .endMessage => endMessage s

end Instruction

end SigComp.Checked
