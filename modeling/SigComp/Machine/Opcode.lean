import SigComp.Bytes

/-!
# Instructions by name

The 36 instructions of a machine, in the order of their numbers, and their names.
-/

namespace SigComp

/-- What an instruction does. -/
inductive Opcode where
  | decompressionFailure
  | and
  | or
  | not
  | shiftLeft
  | shiftRight
  | add
  | subtract
  | multiply
  | divide
  | remainder
  | sortAscending
  | sortDescending
  | sha1
  | load
  | multiload
  | push
  | pop
  | copy
  | copyLiteral
  | copyOffset
  | memset
  | jump
  | compare
  | call
  | ret
  | switch
  | crc
  | inputBytes
  | inputBits
  | inputHuffman
  | stateAccess
  | stateCreate
  | stateFree
  | output
  | endMessage
  deriving DecidableEq, Repr

namespace Opcode

/-- All instructions, in the order of their numbers. -/
def all : List Opcode :=
  [.decompressionFailure, .and, .or, .not, .shiftLeft, .shiftRight, .add, .subtract, .multiply,
    .divide, .remainder, .sortAscending, .sortDescending, .sha1, .load, .multiload, .push, .pop,
    .copy, .copyLiteral, .copyOffset, .memset, .jump, .compare, .call, .ret, .switch, .crc,
    .inputBytes, .inputBits, .inputHuffman, .stateAccess, .stateCreate, .stateFree, .output,
    .endMessage]

/-- The instruction with the given number; numbers from 36 on name none. -/
def ofByte? (b : UInt8) : Option Opcode := all[b.toNat]?

/-- The name of an instruction. -/
def mnemonic : Opcode → String
  | decompressionFailure => "DECOMPRESSION-FAILURE"
  | and => "AND"
  | or => "OR"
  | not => "NOT"
  | shiftLeft => "LSHIFT"
  | shiftRight => "RSHIFT"
  | add => "ADD"
  | subtract => "SUBTRACT"
  | multiply => "MULTIPLY"
  | divide => "DIVIDE"
  | remainder => "REMAINDER"
  | sortAscending => "SORT-ASCENDING"
  | sortDescending => "SORT-DESCENDING"
  | sha1 => "SHA-1"
  | load => "LOAD"
  | multiload => "MULTILOAD"
  | push => "PUSH"
  | pop => "POP"
  | copy => "COPY"
  | copyLiteral => "COPY-LITERAL"
  | copyOffset => "COPY-OFFSET"
  | memset => "MEMSET"
  | jump => "JUMP"
  | compare => "COMPARE"
  | call => "CALL"
  | ret => "RETURN"
  | switch => "SWITCH"
  | crc => "CRC"
  | inputBytes => "INPUT-BYTES"
  | inputBits => "INPUT-BITS"
  | inputHuffman => "INPUT-HUFFMAN"
  | stateAccess => "STATE-ACCESS"
  | stateCreate => "STATE-CREATE"
  | stateFree => "STATE-FREE"
  | output => "OUTPUT"
  | endMessage => "END-MESSAGE"

end Opcode

end SigComp
