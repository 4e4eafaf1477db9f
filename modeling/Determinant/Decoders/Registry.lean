import Determinant.Decoders.Branch
import Determinant.Foundations.BitPatterns

/-!
# The registry of 32-bit encodings

The registry lists, for every instruction that is not compressed, the fields that identify
it; every other bit is an operand. A word encodes an entry when the bits under the entry's
mask have the entry's values. `lookup` finds the entry of a word, and `instruction` is the
decoded instruction that a word of an entry stands for: the specification of the decoder.
-/

set_option autoImplicit false

namespace Determinant
namespace Registry

open Foundations Bitfields

/-- One encoding. A field that is `none` does not identify the instruction. -/
structure Entry where
  op : Opcode
  /-- Bits [6:0]. -/
  opcode7 : BitVec 7
  /-- Bits [14:12]. -/
  f3 : Option (BitVec 3) := none
  /-- Bits [31:25]. -/
  f7 : Option (BitVec 7) := none
  /-- Bits [24:20], for unary Zbb operations, ZEXT.H and LR.W. -/
  rs2Eq : Option (BitVec 5) := none
  /-- Bits [31:27], for atomics; bits [26:25] are the free `aq` and `rl` flags. -/
  f5 : Option (BitVec 5) := none
  /-- Bits [31:20], for ECALL and EBREAK. -/
  f12 : Option (BitVec 12) := none
  /-- Bits [11:7], for ECALL and EBREAK. -/
  rdEq : Option (BitVec 5) := none
  /-- Bits [19:15], for ECALL and EBREAK. -/
  rs1Eq : Option (BitVec 5) := none
deriving DecidableEq, Repr

namespace Entry

/-- The bits an entry constrains. -/
def mask (e : Entry) : Word :=
  0x7F#32 ||| optMask 0x7#32 12 e.f3 ||| optMask 0x7F#32 25 e.f7 ||| optMask 0x1F#32 20 e.rs2Eq |||
    optMask 0x1F#32 27 e.f5 ||| optMask 0xFFF#32 20 e.f12 ||| optMask 0x1F#32 7 e.rdEq |||
    optMask 0x1F#32 15 e.rs1Eq

/-- The values of the constrained bits. -/
def «match» (e : Entry) : Word :=
  e.opcode7.setWidth 32 ||| optValue 12 e.f3 ||| optValue 25 e.f7 ||| optValue 20 e.rs2Eq |||
    optValue 27 e.f5 ||| optValue 20 e.f12 ||| optValue 7 e.rdEq ||| optValue 15 e.rs1Eq

/-- Whether a word encodes an entry. -/
def isMatch (e : Entry) (raw : Word) : Bool := raw &&& e.mask = e.match

end Entry

/-- The instruction that a word of an entry stands for. Its operands come from the format of
the opcode, except that ECALL, EBREAK and the fences have none and that a shift takes its
immediate from the `rs2` field. -/
def instruction (e : Entry) (raw : Word) : Instruction :=
  match e.op with
  | .i .ecall | .i .ebreak | .i .fence | .i .fenceI => { op := e.op, raw := raw }
  | op =>
    match op.format with
    | .R => { op := op, rd := rd raw, rs1 := rs1 raw, rs2 := rs2 raw, raw := raw }
    | .I =>
        { op := op, rd := rd raw, rs1 := rs1 raw,
          imm :=
            if e.opcode7 = 0b0010011#7 ∧ (funct3 raw = 0b001#3 ∨ funct3 raw = 0b101#3) then
              (rs2 raw).setWidth 32
            else immI raw,
          raw := raw }
    | .S => { op := op, rs1 := rs1 raw, rs2 := rs2 raw, imm := immS raw, raw := raw }
    | .B => { op := op, rs1 := rs1 raw, rs2 := rs2 raw, imm := immB raw, raw := raw }
    | .U => { op := op, rd := rd raw, imm := immU raw, raw := raw }
    | .J => { op := op, rd := rd raw, imm := immJ raw, raw := raw }

/-! ## The encodings, in the order of the source -/

def rv32iR : List Entry := [
  { op := .i .add, opcode7 := 0b0110011#7, f3 := some 0b000#3, f7 := some 0b0000000#7 },
  { op := .i .sub, opcode7 := 0b0110011#7, f3 := some 0b000#3, f7 := some 0b0100000#7 },
  { op := .i .sll, opcode7 := 0b0110011#7, f3 := some 0b001#3, f7 := some 0b0000000#7 },
  { op := .i .slt, opcode7 := 0b0110011#7, f3 := some 0b010#3, f7 := some 0b0000000#7 },
  { op := .i .sltu, opcode7 := 0b0110011#7, f3 := some 0b011#3, f7 := some 0b0000000#7 },
  { op := .i .xor, opcode7 := 0b0110011#7, f3 := some 0b100#3, f7 := some 0b0000000#7 },
  { op := .i .srl, opcode7 := 0b0110011#7, f3 := some 0b101#3, f7 := some 0b0000000#7 },
  { op := .i .sra, opcode7 := 0b0110011#7, f3 := some 0b101#3, f7 := some 0b0100000#7 },
  { op := .i .or, opcode7 := 0b0110011#7, f3 := some 0b110#3, f7 := some 0b0000000#7 },
  { op := .i .and, opcode7 := 0b0110011#7, f3 := some 0b111#3, f7 := some 0b0000000#7 } ]

def rv32mR : List Entry := [
  { op := .m .mul, opcode7 := 0b0110011#7, f3 := some 0b000#3, f7 := some 0b0000001#7 },
  { op := .m .mulh, opcode7 := 0b0110011#7, f3 := some 0b001#3, f7 := some 0b0000001#7 },
  { op := .m .mulhsu, opcode7 := 0b0110011#7, f3 := some 0b010#3, f7 := some 0b0000001#7 },
  { op := .m .mulhu, opcode7 := 0b0110011#7, f3 := some 0b011#3, f7 := some 0b0000001#7 },
  { op := .m .div, opcode7 := 0b0110011#7, f3 := some 0b100#3, f7 := some 0b0000001#7 },
  { op := .m .divu, opcode7 := 0b0110011#7, f3 := some 0b101#3, f7 := some 0b0000001#7 },
  { op := .m .rem, opcode7 := 0b0110011#7, f3 := some 0b110#3, f7 := some 0b0000001#7 },
  { op := .m .remu, opcode7 := 0b0110011#7, f3 := some 0b111#3, f7 := some 0b0000001#7 } ]

def zbaR : List Entry := [
  { op := .zba .sh1add, opcode7 := 0b0110011#7, f3 := some 0b010#3, f7 := some 0b0010000#7 },
  { op := .zba .sh2add, opcode7 := 0b0110011#7, f3 := some 0b100#3, f7 := some 0b0010000#7 },
  { op := .zba .sh3add, opcode7 := 0b0110011#7, f3 := some 0b110#3, f7 := some 0b0010000#7 } ]

def zbbR : List Entry := [
  { op := .zbb .andn, opcode7 := 0b0110011#7, f3 := some 0b111#3, f7 := some 0b0100000#7 },
  { op := .zbb .orn, opcode7 := 0b0110011#7, f3 := some 0b110#3, f7 := some 0b0100000#7 },
  { op := .zbb .xnor, opcode7 := 0b0110011#7, f3 := some 0b100#3, f7 := some 0b0100000#7 },
  { op := .zbb .min, opcode7 := 0b0110011#7, f3 := some 0b100#3, f7 := some 0b0000101#7 },
  { op := .zbb .minu, opcode7 := 0b0110011#7, f3 := some 0b101#3, f7 := some 0b0000101#7 },
  { op := .zbb .max, opcode7 := 0b0110011#7, f3 := some 0b110#3, f7 := some 0b0000101#7 },
  { op := .zbb .maxu, opcode7 := 0b0110011#7, f3 := some 0b111#3, f7 := some 0b0000101#7 },
  { op := .zbb .rol, opcode7 := 0b0110011#7, f3 := some 0b001#3, f7 := some 0b0110000#7 },
  { op := .zbb .ror, opcode7 := 0b0110011#7, f3 := some 0b101#3, f7 := some 0b0110000#7 },
  { op := .zbb .zextH, opcode7 := 0b0110011#7, f3 := some 0b100#3, f7 := some 0b0000100#7,
    rs2Eq := some 0#5 } ]

def zbsR : List Entry := [
  { op := .zbs .bclr, opcode7 := 0b0110011#7, f3 := some 0b001#3, f7 := some 0b0100100#7 },
  { op := .zbs .bext, opcode7 := 0b0110011#7, f3 := some 0b101#3, f7 := some 0b0100100#7 },
  { op := .zbs .binv, opcode7 := 0b0110011#7, f3 := some 0b001#3, f7 := some 0b0110100#7 },
  { op := .zbs .bset, opcode7 := 0b0110011#7, f3 := some 0b001#3, f7 := some 0b0010100#7 } ]

def iAlu : List Entry := [
  { op := .i .addi, opcode7 := 0b0010011#7, f3 := some 0b000#3 },
  { op := .i .slti, opcode7 := 0b0010011#7, f3 := some 0b010#3 },
  { op := .i .sltiu, opcode7 := 0b0010011#7, f3 := some 0b011#3 },
  { op := .i .xori, opcode7 := 0b0010011#7, f3 := some 0b100#3 },
  { op := .i .ori, opcode7 := 0b0010011#7, f3 := some 0b110#3 },
  { op := .i .andi, opcode7 := 0b0010011#7, f3 := some 0b111#3 } ]

def iAluShift : List Entry := [
  { op := .i .slli, opcode7 := 0b0010011#7, f3 := some 0b001#3, f7 := some 0b0000000#7 },
  { op := .i .srli, opcode7 := 0b0010011#7, f3 := some 0b101#3, f7 := some 0b0000000#7 },
  { op := .i .srai, opcode7 := 0b0010011#7, f3 := some 0b101#3, f7 := some 0b0100000#7 } ]

def zbbIAlu : List Entry := [
  { op := .zbb .rori, opcode7 := 0b0010011#7, f3 := some 0b101#3, f7 := some 0b0110000#7 },
  { op := .zbb .clz, opcode7 := 0b0010011#7, f3 := some 0b001#3, f7 := some 0b0110000#7,
    rs2Eq := some 0#5 },
  { op := .zbb .ctz, opcode7 := 0b0010011#7, f3 := some 0b001#3, f7 := some 0b0110000#7,
    rs2Eq := some 1#5 },
  { op := .zbb .cpop, opcode7 := 0b0010011#7, f3 := some 0b001#3, f7 := some 0b0110000#7,
    rs2Eq := some 2#5 },
  { op := .zbb .sextB, opcode7 := 0b0010011#7, f3 := some 0b001#3, f7 := some 0b0110000#7,
    rs2Eq := some 4#5 },
  { op := .zbb .sextH, opcode7 := 0b0010011#7, f3 := some 0b001#3, f7 := some 0b0110000#7,
    rs2Eq := some 5#5 },
  { op := .zbb .orcB, opcode7 := 0b0010011#7, f3 := some 0b101#3, f7 := some 0b0010100#7,
    rs2Eq := some 7#5 },
  { op := .zbb .rev8, opcode7 := 0b0010011#7, f3 := some 0b101#3, f7 := some 0b0110100#7,
    rs2Eq := some 24#5 } ]

def zbsIAlu : List Entry := [
  { op := .zbs .bclri, opcode7 := 0b0010011#7, f3 := some 0b001#3, f7 := some 0b0100100#7 },
  { op := .zbs .bexti, opcode7 := 0b0010011#7, f3 := some 0b101#3, f7 := some 0b0100100#7 },
  { op := .zbs .binvi, opcode7 := 0b0010011#7, f3 := some 0b001#3, f7 := some 0b0110100#7 },
  { op := .zbs .bseti, opcode7 := 0b0010011#7, f3 := some 0b001#3, f7 := some 0b0010100#7 } ]

def loads : List Entry := [
  { op := .i .lb, opcode7 := 0b0000011#7, f3 := some 0b000#3 },
  { op := .i .lh, opcode7 := 0b0000011#7, f3 := some 0b001#3 },
  { op := .i .lw, opcode7 := 0b0000011#7, f3 := some 0b010#3 },
  { op := .i .lbu, opcode7 := 0b0000011#7, f3 := some 0b100#3 },
  { op := .i .lhu, opcode7 := 0b0000011#7, f3 := some 0b101#3 } ]

def stores : List Entry := [
  { op := .i .sb, opcode7 := 0b0100011#7, f3 := some 0b000#3 },
  { op := .i .sh, opcode7 := 0b0100011#7, f3 := some 0b001#3 },
  { op := .i .sw, opcode7 := 0b0100011#7, f3 := some 0b010#3 } ]

def branches : List Entry := [
  { op := .i .beq, opcode7 := 0b1100011#7, f3 := some 0b000#3 },
  { op := .i .bne, opcode7 := 0b1100011#7, f3 := some 0b001#3 },
  { op := .i .blt, opcode7 := 0b1100011#7, f3 := some 0b100#3 },
  { op := .i .bge, opcode7 := 0b1100011#7, f3 := some 0b101#3 },
  { op := .i .bltu, opcode7 := 0b1100011#7, f3 := some 0b110#3 },
  { op := .i .bgeu, opcode7 := 0b1100011#7, f3 := some 0b111#3 } ]

def atomics : List Entry := [
  { op := .a .lrW, opcode7 := 0b0101111#7, f3 := some 0b010#3, f5 := some 0b00010#5,
    rs2Eq := some 0#5 },
  { op := .a .scW, opcode7 := 0b0101111#7, f3 := some 0b010#3, f5 := some 0b00011#5 },
  { op := .a .amoswapW, opcode7 := 0b0101111#7, f3 := some 0b010#3, f5 := some 0b00001#5 },
  { op := .a .amoaddW, opcode7 := 0b0101111#7, f3 := some 0b010#3, f5 := some 0b00000#5 },
  { op := .a .amoxorW, opcode7 := 0b0101111#7, f3 := some 0b010#3, f5 := some 0b00100#5 },
  { op := .a .amoandW, opcode7 := 0b0101111#7, f3 := some 0b010#3, f5 := some 0b01100#5 },
  { op := .a .amoorW, opcode7 := 0b0101111#7, f3 := some 0b010#3, f5 := some 0b01000#5 },
  { op := .a .amominW, opcode7 := 0b0101111#7, f3 := some 0b010#3, f5 := some 0b10000#5 },
  { op := .a .amomaxW, opcode7 := 0b0101111#7, f3 := some 0b010#3, f5 := some 0b10100#5 },
  { op := .a .amominuW, opcode7 := 0b0101111#7, f3 := some 0b010#3, f5 := some 0b11000#5 },
  { op := .a .amomaxuW, opcode7 := 0b0101111#7, f3 := some 0b010#3, f5 := some 0b11100#5 } ]

def systems : List Entry := [
  { op := .i .ecall, opcode7 := 0b1110011#7, f3 := some 0b000#3,
    f12 := some 0x000#12, rdEq := some 0#5, rs1Eq := some 0#5 },
  { op := .i .ebreak, opcode7 := 0b1110011#7, f3 := some 0b000#3,
    f12 := some 0x001#12, rdEq := some 0#5, rs1Eq := some 0#5 },
  { op := .csr .csrrw, opcode7 := 0b1110011#7, f3 := some 0b001#3 },
  { op := .csr .csrrs, opcode7 := 0b1110011#7, f3 := some 0b010#3 },
  { op := .csr .csrrc, opcode7 := 0b1110011#7, f3 := some 0b011#3 },
  { op := .csr .csrrwi, opcode7 := 0b1110011#7, f3 := some 0b101#3 },
  { op := .csr .csrrsi, opcode7 := 0b1110011#7, f3 := some 0b110#3 },
  { op := .csr .csrrci, opcode7 := 0b1110011#7, f3 := some 0b111#3 } ]

def fixedOpcodes : List Entry := [
  { op := .i .lui, opcode7 := 0b0110111#7 },
  { op := .i .auipc, opcode7 := 0b0010111#7 },
  { op := .i .jal, opcode7 := 0b1101111#7 },
  { op := .i .jalr, opcode7 := 0b1100111#7, f3 := some 0b000#3 },
  { op := .i .fence, opcode7 := 0b0001111#7, f3 := some 0b000#3 },
  { op := .i .fenceI, opcode7 := 0b0001111#7, f3 := some 0b001#3 } ]

/-- **The registry.** -/
def registry : List Entry :=
  rv32iR ++ rv32mR ++ zbaR ++ zbbR ++ zbsR ++ iAlu ++ iAluShift ++ zbbIAlu ++ zbsIAlu ++ loads ++
    stores ++ branches ++ atomics ++ systems ++ fixedOpcodes

/-- The entries of one major opcode. -/
def byOpcode (op : BitVec 7) : List Entry := registry.filter fun e => e.opcode7 = op

/-- The entry that a word encodes, if there is one. -/
def lookup (raw : Word) : Option Entry :=
  (byOpcode ((raw &&& 0x7F#32).setWidth 7)).find? fun e => e.isMatch raw

end Registry
end Determinant
