import Determinant.Instructions.Instruction

/-!
# The compressed instructions

A halfword is decoded in two steps. `Rv32c.decode` finds the compressed opcode from the
quadrant and the function fields; `Rv32c.expand` reads the operands, rejects the reserved
combinations, and gives the RV32I instruction that the halfword stands for. Every immediate
has its own scattered layout, read by one function each.
-/

set_option autoImplicit false

namespace Determinant
namespace Rv32c

/-! ## Fields and immediates -/

namespace Imm

/-- The three-bit register fields name x8 to x15. -/
def cReg (r : BitVec 3) : Reg := r.setWidth 5 + 8#5

def funct3 (half : Half) : BitVec 3 := (half >>> 13).setWidth 3

/-- C.ADDI4SPN: bits [12:11] to [5:4], [10:7] to [9:6], [6] to [2], [5] to [3]. -/
def ciwNzuimm (half : Half) : Word :=
  let b : Word := half.setWidth 32
  ((b >>> 7) &&& 0x30#32) ||| ((b >>> 1) &&& 0x3C0#32) ||| ((b >>> 4) &&& 0x4#32) |||
    ((b >>> 2) &&& 0x8#32)

/-- C.LW and C.SW: bits [12:10] to [5:3], [6] to [2], [5] to [6]. -/
def clswOffset (half : Half) : Word :=
  let b : Word := half.setWidth 32
  ((b >>> 7) &&& 0x38#32) ||| ((b >>> 4) &&& 0x4#32) ||| ((b <<< 1) &&& 0x40#32)

/-- The signed six-bit immediate: bit 12 to [5], [6:2] to [4:0]. -/
def ciImm (half : Half) : Word :=
  let lo : Word := ((half >>> 2) &&& 0x1F#16).setWidth 32
  let hi : Word := ((half >>> 12) &&& 1#16).setWidth 32
  let raw : BitVec 6 := ((hi <<< 5) ||| lo).setWidth 6
  raw.signExtend 32

/-- The unsigned six-bit shift amount, in the same bits. -/
def ciShamt (half : Half) : Word :=
  let lo : Word := ((half >>> 2) &&& 0x1F#16).setWidth 32
  let hi : Word := ((half >>> 12) &&& 1#16).setWidth 32
  (hi <<< 5) ||| lo

/-- C.ADDI16SP: bit 12 to [9], [6:2] to [4|6|8:7|5], signed. -/
def ciAddi16spImm (half : Half) : Word :=
  let b : Word := half.setWidth 32
  let raw : Word := ((b >>> 3) &&& 0x200#32) ||| ((b >>> 2) &&& 0x10#32) |||
    ((b <<< 1) &&& 0x40#32) ||| ((b <<< 4) &&& 0x180#32) ||| ((b <<< 3) &&& 0x20#32)
  let raw10 : BitVec 10 := raw.setWidth 10
  raw10.signExtend 32

/-- C.LUI: the signed six-bit immediate, in the upper twenty bits. -/
def ciLuiImm (half : Half) : Word :=
  let lo : Word := ((half >>> 2) &&& 0x1F#16).setWidth 32
  let hi : Word := ((half >>> 12) &&& 1#16).setWidth 32
  let raw : BitVec 6 := ((hi <<< 5) ||| lo).setWidth 6
  let signExt : Word := raw.signExtend 32
  signExt <<< 12

/-- C.J and C.JAL: [12] to [11], [11] to [4], [10:9] to [9:8], [8] to [10], [7] to [6],
[6] to [7], [5:3] to [3:1], [2] to [5], signed. -/
def cjOffset (half : Half) : Word :=
  let b : Word := half.setWidth 32
  let raw : Word := ((b >>> 1) &&& 0x800#32) ||| ((b <<< 2) &&& 0x400#32) |||
    ((b >>> 1) &&& 0x300#32) ||| ((b <<< 1) &&& 0x80#32) ||| ((b >>> 1) &&& 0x40#32) |||
    ((b >>> 7) &&& 0x10#32) ||| ((b >>> 2) &&& 0xE#32) ||| ((b <<< 3) &&& 0x20#32)
  let raw12 : BitVec 12 := raw.setWidth 12
  raw12.signExtend 32

/-- C.BEQZ and C.BNEZ: [12] to [8], [11:10] to [4:3], [6] to [7], [5] to [6], [4:3] to
[2:1], [2] to [5], signed. -/
def cbOffset (half : Half) : Word :=
  let b : Word := half.setWidth 32
  let raw : Word := ((b >>> 4) &&& 0x100#32) ||| ((b <<< 1) &&& 0xC0#32) |||
    ((b <<< 3) &&& 0x20#32) ||| ((b >>> 7) &&& 0x18#32) ||| ((b >>> 2) &&& 0x6#32)
  let raw9 : BitVec 9 := raw.setWidth 9
  raw9.signExtend 32

/-- C.LWSP: bit 12 to [5], [6:4] to [4:2], [3:2] to [7:6]. -/
def ciLwspOffset (half : Half) : Word :=
  let b : Word := half.setWidth 32
  ((b >>> 7) &&& 0x20#32) ||| ((b >>> 2) &&& 0x1C#32) ||| ((b <<< 4) &&& 0xC0#32)

/-- C.SWSP: bits [12:9] to [5:2], [8:7] to [7:6]. -/
def cssSwspOffset (half : Half) : Word :=
  let b : Word := half.setWidth 32
  ((b >>> 7) &&& 0x3C#32) ||| ((b >>> 1) &&& 0xC0#32)

end Imm

open Imm

/-! ## The compressed opcode -/

def decodeQ0 (half : Half) : Except DecodeError Opcode :=
  match funct3 half with
  | 0b000#3 => .ok .cAddi4spn
  | 0b010#3 => .ok .cLw
  | 0b110#3 => .ok .cSw
  | _ => .error .illegalInstruction

def decodeQ1Alu (half : Half) : Except DecodeError Opcode :=
  let funct2 : BitVec 2 := (half >>> 10).setWidth 2
  match funct2 with
  | 0b00#2 => .ok .cSrli
  | 0b01#2 => .ok .cSrai
  | 0b10#2 => .ok .cAndi
  | 0b11#2 =>
      let funct1 : BitVec 1 := (half >>> 12).setWidth 1
      -- Bit 12 set is the encoding space of C.SUBW and C.ADDW, which RV32 does not have.
      if funct1 ≠ 0#1 then .error .illegalInstruction
      else
        let funct2b : BitVec 2 := (half >>> 5).setWidth 2
        match funct2b with
        | 0b00#2 => .ok .cSub
        | 0b01#2 => .ok .cXor
        | 0b10#2 => .ok .cOr
        | 0b11#2 => .ok .cAnd

def decodeQ1 (half : Half) : Except DecodeError Opcode :=
  match funct3 half with
  | 0b000#3 => .ok .cAddi
  | 0b001#3 => .ok .cJal
  | 0b010#3 => .ok .cLi
  | 0b011#3 =>
      let rdVal : Reg := (half >>> 7).setWidth 5
      if rdVal = 2#5 then .ok .cAddi16sp else .ok .cLui
  | 0b100#3 => decodeQ1Alu half
  | 0b101#3 => .ok .cJ
  | 0b110#3 => .ok .cBeqz
  | 0b111#3 => .ok .cBnez

def decodeQ2 (half : Half) : Except DecodeError Opcode :=
  match funct3 half with
  | 0b000#3 => .ok .cSlli
  | 0b010#3 => .ok .cLwsp
  | 0b100#3 =>
      let bit12 : BitVec 1 := (half >>> 12).setWidth 1
      let rdRs1 : Reg := (half >>> 7).setWidth 5
      let rs2Val : Reg := (half >>> 2).setWidth 5
      if bit12 = 0#1 then
        if rs2Val = 0#5 then .ok .cJr else .ok .cMv
      else if rs2Val = 0#5 then
        if rdRs1 = 0#5 then .ok .cEbreak else .ok .cJalr
      else .ok .cAdd
  | 0b110#3 => .ok .cSwsp
  | _ => .error .illegalInstruction

/-- The compressed opcode of a halfword. Reserved operands are not looked at here. -/
def decode (half : Half) : Except DecodeError Opcode :=
  match (half.setWidth 2 : BitVec 2) with
  | 0b00#2 => decodeQ0 half
  | 0b01#2 => decodeQ1 half
  | 0b10#2 => decodeQ2 half
  | 0b11#2 => .error .illegalInstruction

/-! ## Expansion -/

/-- The RV32I instruction a halfword stands for. -/
structure Expanded where
  op : Rv32i.Opcode
  rd : Reg := 0#5
  rs1 : Reg := 0#5
  rs2 : Reg := 0#5
  imm : Word := 0#32
  compressedOp : Opcode
deriving DecidableEq, Repr

/-- The full five-bit register field at bits [11:7]. -/
def rdField (half : Half) : Reg := (half >>> 7).setWidth 5

/-- The full five-bit register field at bits [6:2]. -/
def rs2Field (half : Half) : Reg := (half >>> 2).setWidth 5

/-- The three-bit register field at bits [9:7]. -/
def rdPrime (half : Half) : Reg := cReg ((half >>> 7).setWidth 3)

/-- The three-bit register field at bits [4:2]. -/
def rs2Prime (half : Half) : Reg := cReg ((half >>> 2).setWidth 3)

/-- The operands of a compressed opcode. C.SRLI, C.SRAI and C.ANDI and the four register
operations share their register fields; a shift amount of 32 or more is reserved. -/
def expandOp (op : Opcode) (half : Half) : Except DecodeError Expanded :=
  match op with
  | .cAddi4spn =>
      let nzu := ciwNzuimm half
      if nzu = 0#32 then .error .illegalInstruction
      else .ok { op := .addi, rd := rs2Prime half, rs1 := 2#5, imm := nzu, compressedOp := op }
  | .cLw =>
      .ok { op := .lw, rd := rs2Prime half, rs1 := rdPrime half, imm := clswOffset half,
            compressedOp := op }
  | .cSw =>
      .ok { op := .sw, rs1 := rdPrime half, rs2 := rs2Prime half, imm := clswOffset half,
            compressedOp := op }
  | .cAddi =>
      let rdVal := rdField half
      .ok { op := .addi, rd := rdVal, rs1 := rdVal, imm := ciImm half, compressedOp := op }
  | .cJal => .ok { op := .jal, rd := 1#5, imm := cjOffset half, compressedOp := op }
  | .cLi =>
      .ok { op := .addi, rd := rdField half, rs1 := 0#5, imm := ciImm half, compressedOp := op }
  | .cAddi16sp =>
      let imm := ciAddi16spImm half
      if imm = 0#32 then .error .illegalInstruction
      else .ok { op := .addi, rd := 2#5, rs1 := 2#5, imm := imm, compressedOp := op }
  | .cLui =>
      let imm := ciLuiImm half
      if imm = 0#32 then .error .illegalInstruction
      else .ok { op := .lui, rd := rdField half, imm := imm, compressedOp := op }
  | .cSrli =>
      let shamt := ciShamt half
      if shamt &&& 0x20#32 ≠ 0#32 then .error .illegalInstruction
      else
        let rdRs1 := rdPrime half
        .ok { op := .srli, rd := rdRs1, rs1 := rdRs1, imm := shamt &&& 0x1F#32,
              compressedOp := op }
  | .cSrai =>
      let shamt := ciShamt half
      if shamt &&& 0x20#32 ≠ 0#32 then .error .illegalInstruction
      else
        let rdRs1 := rdPrime half
        .ok { op := .srai, rd := rdRs1, rs1 := rdRs1, imm := shamt &&& 0x1F#32,
              compressedOp := op }
  | .cAndi =>
      let rdRs1 := rdPrime half
      .ok { op := .andi, rd := rdRs1, rs1 := rdRs1, imm := ciImm half, compressedOp := op }
  | .cSub =>
      let rdRs1 := rdPrime half
      .ok { op := .sub, rd := rdRs1, rs1 := rdRs1, rs2 := rs2Prime half, compressedOp := op }
  | .cXor =>
      let rdRs1 := rdPrime half
      .ok { op := .xor, rd := rdRs1, rs1 := rdRs1, rs2 := rs2Prime half, compressedOp := op }
  | .cOr =>
      let rdRs1 := rdPrime half
      .ok { op := .or, rd := rdRs1, rs1 := rdRs1, rs2 := rs2Prime half, compressedOp := op }
  | .cAnd =>
      let rdRs1 := rdPrime half
      .ok { op := .and, rd := rdRs1, rs1 := rdRs1, rs2 := rs2Prime half, compressedOp := op }
  | .cJ => .ok { op := .jal, rd := 0#5, imm := cjOffset half, compressedOp := op }
  | .cBeqz =>
      .ok { op := .beq, rs1 := rdPrime half, rs2 := 0#5, imm := cbOffset half, compressedOp := op }
  | .cBnez =>
      .ok { op := .bne, rs1 := rdPrime half, rs2 := 0#5, imm := cbOffset half, compressedOp := op }
  | .cSlli =>
      let rdVal := rdField half
      let shamt := ciShamt half
      if shamt &&& 0x20#32 ≠ 0#32 then .error .illegalInstruction
      else
        .ok { op := .slli, rd := rdVal, rs1 := rdVal, imm := shamt &&& 0x1F#32,
              compressedOp := op }
  | .cLwsp =>
      let rdVal := rdField half
      if rdVal = 0#5 then .error .illegalInstruction
      else .ok { op := .lw, rd := rdVal, rs1 := 2#5, imm := ciLwspOffset half, compressedOp := op }
  | .cJr =>
      let rdRs1 := rdField half
      if rdRs1 = 0#5 then .error .illegalInstruction
      else .ok { op := .jalr, rd := 0#5, rs1 := rdRs1, imm := 0#32, compressedOp := op }
  | .cMv =>
      .ok { op := .add, rd := rdField half, rs1 := 0#5, rs2 := rs2Field half, compressedOp := op }
  | .cEbreak => .ok { op := .ebreak, compressedOp := op }
  | .cJalr =>
      .ok { op := .jalr, rd := 1#5, rs1 := rdField half, imm := 0#32, compressedOp := op }
  | .cAdd =>
      let rdRs1 := rdField half
      .ok { op := .add, rd := rdRs1, rs1 := rdRs1, rs2 := rs2Field half, compressedOp := op }
  | .cSwsp =>
      .ok { op := .sw, rs1 := 2#5, rs2 := rs2Field half, imm := cssSwspOffset half,
            compressedOp := op }

/-- The instruction a halfword stands for. -/
def expand (half : Half) : Except DecodeError Expanded := do
  let op ← decode half
  expandOp op half

end Rv32c

/-- The expansion of a halfword (zero-extended to a word) as a decoded instruction. -/
def expandCompressed (raw : Word) : Except DecodeError Instruction := do
  let exp ← Rv32c.expand (raw.setWidth 16)
  .ok { op := .i exp.op, rd := exp.rd, rs1 := exp.rs1, rs2 := exp.rs2, imm := exp.imm, raw := raw,
        compressedOp := some exp.compressedOp }

end Determinant
