import Determinant.Foundations.Text
import Determinant.Instructions.Instruction

/-!
# The names of the opcodes

The name of an opcode is the word that stands for it in assembly code.
-/

set_option autoImplicit false

namespace Determinant

open Foundations

def Rv32i.Opcode.name : Rv32i.Opcode → String
  | .add => "ADD" | .sub => "SUB" | .sll => "SLL" | .slt => "SLT" | .sltu => "SLTU"
  | .xor => "XOR" | .srl => "SRL" | .sra => "SRA" | .or => "OR" | .and => "AND"
  | .addi => "ADDI" | .slti => "SLTI" | .sltiu => "SLTIU" | .xori => "XORI" | .ori => "ORI"
  | .andi => "ANDI" | .slli => "SLLI" | .srli => "SRLI" | .srai => "SRAI"
  | .lb => "LB" | .lh => "LH" | .lw => "LW" | .lbu => "LBU" | .lhu => "LHU"
  | .sb => "SB" | .sh => "SH" | .sw => "SW"
  | .beq => "BEQ" | .bne => "BNE" | .blt => "BLT" | .bge => "BGE" | .bltu => "BLTU"
  | .bgeu => "BGEU"
  | .lui => "LUI" | .auipc => "AUIPC" | .jal => "JAL" | .jalr => "JALR"
  | .fence => "FENCE" | .fenceI => "FENCE.I" | .ecall => "ECALL" | .ebreak => "EBREAK"

def Rv32m.Opcode.name : Rv32m.Opcode → String
  | .mul => "MUL" | .mulh => "MULH" | .mulhsu => "MULHSU" | .mulhu => "MULHU"
  | .div => "DIV" | .divu => "DIVU" | .rem => "REM" | .remu => "REMU"

def Rv32a.Opcode.name : Rv32a.Opcode → String
  | .lrW => "LR.W" | .scW => "SC.W" | .amoswapW => "AMOSWAP.W" | .amoaddW => "AMOADD.W"
  | .amoxorW => "AMOXOR.W" | .amoandW => "AMOAND.W" | .amoorW => "AMOOR.W"
  | .amominW => "AMOMIN.W" | .amomaxW => "AMOMAX.W" | .amominuW => "AMOMINU.W"
  | .amomaxuW => "AMOMAXU.W"

def Zicsr.Opcode.name : Zicsr.Opcode → String
  | .csrrw => "CSRRW" | .csrrs => "CSRRS" | .csrrc => "CSRRC"
  | .csrrwi => "CSRRWI" | .csrrsi => "CSRRSI" | .csrrci => "CSRRCI"

def Zba.Opcode.name : Zba.Opcode → String
  | .sh1add => "SH1ADD" | .sh2add => "SH2ADD" | .sh3add => "SH3ADD"

def Zbb.Opcode.name : Zbb.Opcode → String
  | .andn => "ANDN" | .orn => "ORN" | .xnor => "XNOR" | .max => "MAX" | .maxu => "MAXU"
  | .min => "MIN" | .minu => "MINU" | .rol => "ROL" | .ror => "ROR" | .zextH => "ZEXT.H"
  | .clz => "CLZ" | .ctz => "CTZ" | .cpop => "CPOP" | .sextB => "SEXT.B" | .sextH => "SEXT.H"
  | .rori => "RORI" | .orcB => "ORC.B" | .rev8 => "REV8"

def Zbs.Opcode.name : Zbs.Opcode → String
  | .bclr => "BCLR" | .bext => "BEXT" | .binv => "BINV" | .bset => "BSET"
  | .bclri => "BCLRI" | .bexti => "BEXTI" | .binvi => "BINVI" | .bseti => "BSETI"

/-- The tag of the opcode with a dot for its underscore. -/
def Rv32c.Opcode.name : Rv32c.Opcode → String
  | .cAddi4spn => "C.ADDI4SPN" | .cLw => "C.LW" | .cSw => "C.SW"
  | .cAddi => "C.ADDI" | .cJal => "C.JAL" | .cLi => "C.LI" | .cAddi16sp => "C.ADDI16SP"
  | .cLui => "C.LUI" | .cSrli => "C.SRLI" | .cSrai => "C.SRAI" | .cAndi => "C.ANDI"
  | .cSub => "C.SUB" | .cXor => "C.XOR" | .cOr => "C.OR" | .cAnd => "C.AND" | .cJ => "C.J"
  | .cBeqz => "C.BEQZ" | .cBnez => "C.BNEZ"
  | .cSlli => "C.SLLI" | .cLwsp => "C.LWSP" | .cJr => "C.JR" | .cMv => "C.MV"
  | .cEbreak => "C.EBREAK" | .cJalr => "C.JALR" | .cAdd => "C.ADD" | .cSwsp => "C.SWSP"

def Opcode.name : Opcode → String
  | .i op => op.name
  | .m op => op.name
  | .a op => op.name
  | .csr op => op.name
  | .zba op => op.name
  | .zbb op => op.name
  | .zbs op => op.name

/-- Every name is at most ten bytes, and has no separator in it. -/
theorem Opcode.name_clear {c : Byte} (separator : Separator c) (op : Opcode) :
    Clear c 10 (ascii op.name) := by
  refine .const separator ?_
  cases op with
  | _ op => cases op <;> decide

theorem Rv32c.Opcode.name_clear {c : Byte} (separator : Separator c) (op : Rv32c.Opcode) :
    Clear c 10 (ascii op.name) := by
  refine .const separator ?_
  cases op <;> decide

end Determinant
