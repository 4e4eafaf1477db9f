import Determinant.Instructions.Extensions
import Determinant.Foundations.BitPatterns

/-!
# Decoded instructions

The opcode of an instruction is tagged with its extension. A decoded instruction holds the
opcode, the register fields, the immediate sign-extended to a word, and the bits it was
decoded from; for a 16-bit instruction it also names the compressed opcode.
-/

set_option autoImplicit false

namespace Determinant

open Foundations

/-- An opcode of any extension. -/
inductive Opcode where
  | i (op : Rv32i.Opcode)
  | m (op : Rv32m.Opcode)
  | a (op : Rv32a.Opcode)
  | csr (op : Zicsr.Opcode)
  | zba (op : Zba.Opcode)
  | zbb (op : Zbb.Opcode)
  | zbs (op : Zbs.Opcode)
deriving DecidableEq, Repr

def Opcode.format : Opcode → Format
  | .i op => op.format
  | .m op => op.format
  | .a op => op.format
  | .csr op => op.format
  | .zba op => op.format
  | .zbb op => op.format
  | .zbs op => op.format

/-- Whether instruction bits are a 16-bit instruction: the low two bits are not `0b11`. -/
def isCompressed (raw : Word) : Bool := raw &&& 0b11#32 ≠ 0b11#32

/-- Whether bits are a 16-bit instruction depends on the low two of them. -/
theorem isCompressed_iff (raw : Word) : isCompressed raw = true ↔ raw.setWidth 2 ≠ 0b11#2 := by
  have low := (PatternOf.low (w := 32) (by decide) 0b11#2).iff raw
  rw [isCompressed, decide_eq_true_iff]
  exact low.not

theorem isCompressed_setWidth (raw : Word) :
    isCompressed ((raw.setWidth 16).setWidth 32) = isCompressed raw := by
  rw [Bool.eq_iff_iff, isCompressed_iff, isCompressed_iff]
  simp

/-- A decoded instruction. -/
structure Instruction where
  op : Opcode
  rd : Reg := 0#5
  rs1 : Reg := 0#5
  rs2 : Reg := 0#5
  /-- The immediate, sign-extended. For the shifts it is the shift amount, and for the unary
  Zbb instructions only a selector. -/
  imm : Word := 0#32
  raw : Word
  compressedOp : Option Rv32c.Opcode := none
deriving DecidableEq, Repr

namespace Instruction

/-- The immediate as an unsigned word: the same bits. -/
def immUnsigned (inst : Instruction) : Word := inst.imm

/-- The CSR number, the low 12 bits of the immediate. -/
def csrAddr (inst : Instruction) : BitVec 12 := inst.immUnsigned.setWidth 12

end Instruction

end Determinant
