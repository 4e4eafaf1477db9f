import Determinant.Decoders.Compressed

/-!
# The decoder

`decode` switches on the low seven bits of the instruction and then tries the decoders of
the extensions in turn on `funct3`, `funct7` and the `rs2` field. The register fields and
the five immediates are read by the functions of `Bitfields`.
-/

set_option autoImplicit false

namespace Determinant

/-! ## Fields of an instruction word -/

namespace Bitfields

def rd (raw : Word) : Reg := (raw >>> 7).setWidth 5
def funct3 (raw : Word) : BitVec 3 := (raw >>> 12).setWidth 3
def rs1 (raw : Word) : Reg := (raw >>> 15).setWidth 5
def rs2 (raw : Word) : Reg := (raw >>> 20).setWidth 5
def funct7 (raw : Word) : BitVec 7 := (raw >>> 25).setWidth 7
def funct5 (raw : Word) : BitVec 5 := (raw >>> 27).setWidth 5
def funct12 (raw : Word) : BitVec 12 := (raw >>> 20).setWidth 12
def opcode7 (raw : Word) : BitVec 7 := raw.setWidth 7

/-- The arithmetic shift sign-extends. -/
def immI (raw : Word) : Word := raw.sshiftRight 20

def immS (raw : Word) : Word :=
  let imm_11_5 : Word := (raw >>> 25) &&& 0x7F#32
  let imm_4_0 : Word := (raw >>> 7) &&& 0x1F#32
  let immRaw : Word := (imm_11_5 <<< 5) ||| imm_4_0
  (immRaw <<< 20).sshiftRight 20

def immB (raw : Word) : Word :=
  let imm_12 : Word := (raw >>> 31) &&& 1#32
  let imm_11 : Word := (raw >>> 7) &&& 1#32
  let imm_10_5 : Word := (raw >>> 25) &&& 0x3F#32
  let imm_4_1 : Word := (raw >>> 8) &&& 0xF#32
  let immRaw : Word := (imm_12 <<< 12) ||| (imm_11 <<< 11) ||| (imm_10_5 <<< 5) ||| (imm_4_1 <<< 1)
  (immRaw <<< 19).sshiftRight 19

def immU (raw : Word) : Word := raw &&& 0xFFFFF000#32

def immJ (raw : Word) : Word :=
  let imm_20 : Word := (raw >>> 31) &&& 1#32
  let imm_19_12 : Word := (raw >>> 12) &&& 0xFF#32
  let imm_11 : Word := (raw >>> 20) &&& 1#32
  let imm_10_1 : Word := (raw >>> 21) &&& 0x3FF#32
  let immRaw : Word :=
    (imm_20 <<< 20) ||| (imm_19_12 <<< 12) ||| (imm_11 <<< 11) ||| (imm_10_1 <<< 1)
  (immRaw <<< 11).sshiftRight 11

end Bitfields

open Bitfields

/-! ## The decoders of the major opcodes -/

/-- An instruction with the three register fields. -/
def regInstruction (op : Opcode) (raw : Word) : Instruction :=
  { op := op, rd := rd raw, rs1 := rs1 raw, rs2 := rs2 raw, raw := raw }

/-- An instruction with the fields `rd` and `rs1` and an immediate. -/
def immInstruction (op : Opcode) (raw imm : Word) : Instruction :=
  { op := op, rd := rd raw, rs1 := rs1 raw, imm := imm, raw := raw }

/-- M is tried first, then RV32I, Zba, Zbb and Zbs. -/
def decodeR (raw : Word) : Except DecodeError Instruction :=
  let f3 := funct3 raw
  let f7 := funct7 raw
  if f7 = 0b0000001#7 then .ok (regInstruction (.m (Rv32m.decodeR f3)) raw)
  else
    match Rv32i.decodeR f3 f7 with
    | some iOp => .ok (regInstruction (.i iOp) raw)
    | none =>
      match Zba.decodeR f3 f7 with
      | some op => .ok (regInstruction (.zba op) raw)
      | none =>
        match Zbb.decodeR f3 f7 (rs2 raw) with
        | some op => .ok (regInstruction (.zbb op) raw)
        | none =>
          match Zbs.decodeR f3 f7 with
          | some op => .ok (regInstruction (.zbs op) raw)
          | none => .error .illegalInstruction

/-- The immediate of the I-type ALU instructions: the shift amount when `funct3` is 001
or 101. -/
def iAluImm (raw : Word) : Word :=
  if funct3 raw = 0b001#3 ∨ funct3 raw = 0b101#3 then (rs2 raw).setWidth 32 else immI raw

/-- RV32I is tried first, then Zbb and Zbs. -/
def decodeIAlu (raw : Word) : Except DecodeError Instruction :=
  let f3 := funct3 raw
  let f7 := funct7 raw
  let immVal := iAluImm raw
  match Rv32i.decodeIAlu f3 f7 with
  | some iOp => .ok (immInstruction (.i iOp) raw immVal)
  | none =>
    match Zbb.decodeIAlu f3 f7 (rs2 raw) with
    | some op => .ok (immInstruction (.zbb op) raw immVal)
    | none =>
      match Zbs.decodeIAlu f3 f7 with
      | some op => .ok (immInstruction (.zbs op) raw immVal)
      | none => .error .illegalInstruction

def decodeLoad (raw : Word) : Except DecodeError Instruction :=
  match Rv32i.decodeLoad (funct3 raw) with
  | none => .error .illegalInstruction
  | some iOp => .ok { op := .i iOp, rd := rd raw, rs1 := rs1 raw, imm := immI raw, raw := raw }

def decodeStore (raw : Word) : Except DecodeError Instruction :=
  match Rv32i.decodeStore (funct3 raw) with
  | none => .error .illegalInstruction
  | some iOp => .ok { op := .i iOp, rs1 := rs1 raw, rs2 := rs2 raw, imm := immS raw, raw := raw }

def decodeBranch (raw : Word) : Except DecodeError Instruction :=
  match Rv32i.decodeBranch (funct3 raw) with
  | none => .error .illegalInstruction
  | some iOp => .ok { op := .i iOp, rs1 := rs1 raw, rs2 := rs2 raw, imm := immB raw, raw := raw }

def decodeU (raw : Word) (op : Opcode) : Except DecodeError Instruction :=
  .ok { op := op, rd := rd raw, imm := immU raw, raw := raw }

def decodeJ (raw : Word) : Except DecodeError Instruction :=
  .ok { op := .i .jal, rd := rd raw, imm := immJ raw, raw := raw }

def decodeJalr (raw : Word) : Except DecodeError Instruction :=
  if funct3 raw ≠ 0b000#3 then .error .illegalInstruction
  else .ok { op := .i .jalr, rd := rd raw, rs1 := rs1 raw, imm := immI raw, raw := raw }

def decodeFence (raw : Word) : Except DecodeError Instruction :=
  match funct3 raw with
  | 0b000#3 => .ok { op := .i .fence, raw := raw }
  | 0b001#3 => .ok { op := .i .fenceI, raw := raw }
  | _ => .error .illegalInstruction

def decodeAtomic (raw : Word) : Except DecodeError Instruction :=
  if funct3 raw ≠ 0b010#3 then .error .illegalInstruction
  else
    match Rv32a.decodeR (funct5 raw) with
    | none => .error .illegalInstruction
    | some aOp =>
      -- LR.W with a nonzero `rs2` field is a reserved encoding.
      if aOp = .lrW ∧ rs2 raw ≠ 0#5 then .error .illegalInstruction
      else .ok { op := .a aOp, rd := rd raw, rs1 := rs1 raw, rs2 := rs2 raw, raw := raw }

def decodeSystem (raw : Word) : Except DecodeError Instruction :=
  let f3 := funct3 raw
  if f3 = 0b000#3 then
    -- ECALL and EBREAK; nonzero register fields are reserved encodings.
    if rd raw ≠ 0#5 ∨ rs1 raw ≠ 0#5 then .error .illegalInstruction
    else
      match funct12 raw with
      | 0x000#12 => .ok { op := .i .ecall, raw := raw }
      | 0x001#12 => .ok { op := .i .ebreak, raw := raw }
      | _ => .error .illegalInstruction
  else
    match Zicsr.decodeSystem f3 with
    | none => .error .illegalInstruction
    | some csrOp => .ok
        { op := .csr csrOp, rd := rd raw, rs1 := rs1 raw, imm := immI raw, raw := raw }

/-! ## The decoder -/

/-- Decode an instruction word, or a 16-bit instruction zero-extended to a word. -/
def decode (raw : Word) : Except DecodeError Instruction :=
  if isCompressed raw then expandCompressed raw
  else
    let opcodeBits : BitVec 7 := raw.setWidth 7
    match opcodeBits with
    | 0b0110011#7 => decodeR raw
    | 0b0010011#7 => decodeIAlu raw
    | 0b0000011#7 => decodeLoad raw
    | 0b0100011#7 => decodeStore raw
    | 0b1100011#7 => decodeBranch raw
    | 0b0110111#7 => decodeU raw (.i .lui)
    | 0b0010111#7 => decodeU raw (.i .auipc)
    | 0b1101111#7 => decodeJ raw
    | 0b1100111#7 => decodeJalr raw
    | 0b0001111#7 => decodeFence raw
    | 0b0101111#7 => decodeAtomic raw
    | 0b1110011#7 => decodeSystem raw
    | _ => .error .illegalInstruction

end Determinant
