import Determinant.Foundations.LittleEndian

/-!
# Words, errors, and the base instruction set

The machine integers of the virtual machine, the errors a step can end with, and the
opcodes of RV32I (with FENCE.I) and of its compressed forms, with the functions that find
an RV32I opcode from the `funct3` and `funct7` fields.

A signed integer of the source (`i32`) is the bit vector of its two's complement; what makes
it signed is the operation applied to it.
-/

set_option autoImplicit false

namespace Determinant

open Foundations

/-! ## Words and errors -/

/-- A halfword, `u16`. -/
abbrev Half := BitVec 16

/-- A word, `u32` or `i32`. -/
abbrev Word := BitVec 32

/-- A 64-bit counter, `u64`. -/
abbrev Count := BitVec 64

/-- A register number, `u5`. -/
abbrev Reg := BitVec 5

/-- The one error of the decoder and of the CSR file, `error{IllegalInstruction}`. -/
inductive DecodeError where
  | illegalInstruction
deriving DecidableEq, Repr

/-- Everything a step can fail with. -/
inductive StepError where
  /-- The instruction does not decode, or it accesses a CSR it may not. -/
  | illegalInstruction
  /-- `pc` is odd. -/
  | misalignedPC
  /-- The instruction at `pc` does not lie entirely inside memory. -/
  | pcOutOfBounds
  /-- A halfword or word access is not naturally aligned. -/
  | misalignedAccess
  /-- A data access touches a byte outside memory. -/
  | addressOutOfBounds
deriving DecidableEq, Repr

/-- Error sets of the source are subsets of one set of names. -/
def DecodeError.toStepError : DecodeError → StepError
  | .illegalInstruction => .illegalInstruction

/-- A call that can only fail with `IllegalInstruction`, inside one that can fail otherwise. -/
def liftDecode {α : Type} : Except DecodeError α → Except StepError α
  | .ok a => .ok a
  | .error e => .error e.toStepError

/-- The formats of 32-bit instructions. -/
inductive Format where
  | R | I | S | B | U | J
deriving DecidableEq, Repr

/-! ## RV32I -/

namespace Rv32i

/-- The opcodes of RV32I, and FENCE.I. -/
inductive Opcode where
  | add | sub | sll | slt | sltu | xor | srl | sra | or | and
  | addi | slti | sltiu | xori | ori | andi | slli | srli | srai
  | lb | lh | lw | lbu | lhu
  | sb | sh | sw
  | beq | bne | blt | bge | bltu | bgeu
  | lui | auipc
  | jal | jalr
  | fence | fenceI
  | ecall | ebreak
deriving DecidableEq, Repr

def Opcode.format : Opcode → Format
  | .add | .sub | .sll | .slt | .sltu | .xor | .srl | .sra | .or | .and => .R
  | .addi | .slti | .sltiu | .xori | .ori | .andi | .slli | .srli | .srai => .I
  | .lb | .lh | .lw | .lbu | .lhu => .I
  | .jalr => .I
  | .fence | .fenceI => .I
  | .ecall | .ebreak => .I
  | .sb | .sh | .sw => .S
  | .beq | .bne | .blt | .bge | .bltu | .bgeu => .B
  | .lui | .auipc => .U
  | .jal => .J

/-- An R-type base instruction from `funct3` and `funct7`. -/
def decodeR (f3 : BitVec 3) (f7 : BitVec 7) : Option Opcode :=
  match f3 with
  | 0b000#3 =>
      if f7 = 0b0000000#7 then some .add else if f7 = 0b0100000#7 then some .sub else none
  | 0b001#3 => if f7 = 0b0000000#7 then some .sll else none
  | 0b010#3 => if f7 = 0b0000000#7 then some .slt else none
  | 0b011#3 => if f7 = 0b0000000#7 then some .sltu else none
  | 0b100#3 => if f7 = 0b0000000#7 then some .xor else none
  | 0b101#3 =>
      if f7 = 0b0000000#7 then some .srl else if f7 = 0b0100000#7 then some .sra else none
  | 0b110#3 => if f7 = 0b0000000#7 then some .or else none
  | 0b111#3 => if f7 = 0b0000000#7 then some .and else none

/-- An I-type ALU instruction from `funct3` and, for shifts, `funct7`. -/
def decodeIAlu (f3 : BitVec 3) (f7 : BitVec 7) : Option Opcode :=
  match f3 with
  | 0b000#3 => some .addi
  | 0b010#3 => some .slti
  | 0b011#3 => some .sltiu
  | 0b100#3 => some .xori
  | 0b110#3 => some .ori
  | 0b111#3 => some .andi
  | 0b001#3 => if f7 = 0b0000000#7 then some .slli else none
  | 0b101#3 =>
      if f7 = 0b0000000#7 then some .srli else if f7 = 0b0100000#7 then some .srai else none

def decodeLoad (f3 : BitVec 3) : Option Opcode :=
  match f3 with
  | 0b000#3 => some .lb
  | 0b001#3 => some .lh
  | 0b010#3 => some .lw
  | 0b100#3 => some .lbu
  | 0b101#3 => some .lhu
  | _ => none

def decodeStore (f3 : BitVec 3) : Option Opcode :=
  match f3 with
  | 0b000#3 => some .sb
  | 0b001#3 => some .sh
  | 0b010#3 => some .sw
  | _ => none

def decodeBranch (f3 : BitVec 3) : Option Opcode :=
  match f3 with
  | 0b000#3 => some .beq
  | 0b001#3 => some .bne
  | 0b100#3 => some .blt
  | 0b101#3 => some .bge
  | 0b110#3 => some .bltu
  | 0b111#3 => some .bgeu
  | _ => none

end Rv32i

/-! ## RV32C -/

namespace Rv32c

/-- The compressed opcodes. They are used to decode and to display, never to execute. -/
inductive Opcode where
  | cAddi4spn | cLw | cSw
  | cAddi | cJal | cLi | cAddi16sp | cLui | cSrli | cSrai | cAndi
  | cSub | cXor | cOr | cAnd | cJ | cBeqz | cBnez
  | cSlli | cLwsp | cJr | cMv | cEbreak | cJalr | cAdd | cSwsp
deriving DecidableEq, Repr

end Rv32c

end Determinant
