import Determinant.Decoders.Branch
import Determinant.Instructions.Names

/-!
# Disassembly

The text of an instruction and the line of a listing, as functions to texts. A line of a
listing has no newline in it, and is shorter than the 128 bytes that the trace keeps for one
(`printLine_short`).
-/

set_option autoImplicit false

namespace Determinant

open Foundations

namespace Disasm

/-! ## Operands -/

/-- The ABI names of x0 to x31. -/
def regNames : Vector String 32 :=
  #v["zero", "ra", "sp", "gp", "tp", "t0", "t1", "t2",
    "s0", "s1", "a0", "a1", "a2", "a3", "a4", "a5",
    "a6", "a7", "s2", "s3", "s4", "s5", "s6", "s7",
    "s8", "s9", "s10", "s11", "t3", "t4", "t5", "t6"]

/-- The standard name of a CSR. The time counters trap, but a program may name them. -/
def csrName (addr : BitVec 12) : Option String :=
  match addr with
  | 0x340#12 => some "mscratch"
  | 0xC00#12 => some "cycle"
  | 0xC01#12 => some "time"
  | 0xC02#12 => some "instret"
  | 0xC80#12 => some "cycleh"
  | 0xC81#12 => some "timeh"
  | 0xC82#12 => some "instreth"
  | _ => none

def reg (k : Reg) : List Byte := ascii (regNames.get k.toFin)

/-- A branch or jump target: absolute when the address of the instruction is known, and
otherwise the offset with its sign. -/
def target (pc : Option Word) (offset : Word) : List Byte :=
  match pc with
  | some pc => ascii "0x" ++ hex 8 (pc + offset).toNat
  | none =>
      if offset.slt 0#32 then signedDecimal offset.toInt
      else ascii "+" ++ signedDecimal offset.toInt

def csr (addr : BitVec 12) : List Byte :=
  match csrName addr with
  | some name => ascii name
  | none => ascii "0x" ++ hex 3 addr.toNat

/-- A memory operand, as in `8(sp)`. -/
def displaced (offset : Word) (base : Reg) : List Byte :=
  signedDecimal offset.toInt ++ ascii "(" ++ reg base ++ ascii ")"

/-- The name of an instruction and its operands. -/
def form (name : List Byte) (operands : List (List Byte)) : List Byte :=
  name ++ ascii " " ++ (ascii ", ").intercalate operands

/-! ## Instructions -/

/-- An instruction in assembly syntax. `pc` is its address, if known. -/
def printInstruction (inst : Instruction) (pc : Option Word) : List Byte :=
  let opName := match inst.compressedOp with
    | some cOp => ascii cOp.name
    | none => ascii inst.op.name
  let rd := reg inst.rd
  let rs1 := reg inst.rs1
  let rs2 := reg inst.rs2
  let imm := signedDecimal inst.imm.toInt
  let target := target pc inst.imm
  match inst.op with
  | .i op =>
      match op with
      | .add | .sub | .sll | .slt | .sltu | .xor | .srl | .sra | .or | .and =>
          form opName [rd, rs1, rs2]
      | .lb | .lh | .lw | .lbu | .lhu | .jalr => form opName [rd, displaced inst.imm inst.rs1]
      | .fence | .fenceI | .ecall | .ebreak => opName
      | .sb | .sh | .sw => form opName [rs2, displaced inst.imm inst.rs1]
      | .beq | .bne | .blt | .bge | .bltu | .bgeu => form opName [rs1, rs2, target]
      | .lui | .auipc => form opName [rd, ascii "0x" ++ hex 0 (inst.immUnsigned >>> 12).toNat]
      | .jal => form opName [rd, target]
      | .addi | .slti | .sltiu | .xori | .ori | .andi | .slli | .srli | .srai =>
          form opName [rd, rs1, imm]
  | .m _ => form opName [rd, rs1, rs2]
  | .a op =>
      match op with
      | .lrW => form opName [rd, ascii "(" ++ rs1 ++ ascii ")"]
      | _ => form opName [rd, rs2, ascii "(" ++ rs1 ++ ascii ")"]
  | .csr op =>
      match op with
      | .csrrw | .csrrs | .csrrc => form opName [rd, csr inst.csrAddr, rs1]
      | .csrrwi | .csrrsi | .csrrci => form opName [rd, csr inst.csrAddr, decimal inst.rs1.toNat]
  | .zba _ => form opName [rd, rs1, rs2]
  | .zbb op =>
      match op with
      | .clz | .ctz | .cpop | .sextB | .sextH | .zextH | .orcB | .rev8 => form opName [rd, rs1]
      | .rori => form opName [rd, rs1, imm]
      | .andn | .orn | .xnor | .max | .maxu | .min | .minu | .rol | .ror =>
          form opName [rd, rs1, rs2]
  | .zbs op =>
      match op with
      | .bclr | .bext | .binv | .bset => form opName [rd, rs1, rs2]
      | .bclri | .bexti | .binvi | .bseti => form opName [rd, rs1, imm]

/-- The bits of an instruction: 4 digits for a 16-bit one, and 8 for a 32-bit one. With `pad`
the 4 digits are padded to 8 columns. -/
def bits (raw : Word) (pad : Bool) : List Byte :=
  if isCompressed raw then hex 4 raw.toNat ++ if pad then ascii "    " else []
  else hex 8 raw.toNat

/-- One line of a listing: the address, the bits, and the instruction, or `???` if the bits do
not decode. -/
def printLine (pc raw : Word) : List Byte :=
  hex 8 pc.toNat ++ ascii "  " ++ bits raw true ++ ascii "  " ++
    match decode raw with
    | .ok inst => printInstruction inst (some pc)
    | .error _ => ascii "???"

example : printLine 0x40#32 0x00208863#32 =
    ascii "00000040  00208863  BEQ ra, sp, 0x00000050" := by decide +kernel

example : printLine 4#32 0x0505#32 = ascii "00000004  0505      C.ADDI a0, a0, 1" := by
  decide +kernel

/-! ## How long a line is -/

theorem natAbs_toInt_lt (w : Word) : w.toInt.natAbs < 10 ^ 10 := by
  have := w.toInt_lt
  have := w.le_toInt
  omega

variable {c : Byte}

theorem imm_clear (separator : Separator c) (w : Word) : Clear c 11 (signedDecimal w.toInt) :=
  .signedDecimal separator (by decide) (natAbs_toInt_lt w)

theorem word_clear (separator : Separator c) (w : Word) : Clear c 8 (hex 8 w.toNat) :=
  .hex separator (by decide) w.isLt (by decide)

theorem reg_clear (separator : Separator c) (k : Reg) : Clear c 4 (reg k) := by
  have every : ∀ i : Fin 32, Clear newline 4 (ascii (regNames.get i)) ∧
      Clear equalsSign 4 (ascii (regNames.get i)) := by decide
  exact .const separator (every k.toFin)

theorem target_clear (separator : Separator c) (pc : Option Word) (offset : Word) :
    Clear c 17 (target pc offset) := by
  have radix : Clear c 2 (ascii "0x") := .const separator (by decide)
  have sign : Clear c 1 (ascii "+") := .const separator (by decide)
  unfold target
  cases pc with
  | some pc => exact (radix.append (word_clear separator _)).mono (by decide)
  | none =>
      dsimp only
      split
      · exact (imm_clear separator offset).mono (by decide)
      · exact (sign.append (imm_clear separator offset)).mono (by decide)

theorem csr_clear (separator : Separator c) (addr : BitVec 12) : Clear c 17 (csr addr) := by
  have radix : Clear c 2 (ascii "0x") := .const separator (by decide)
  have digits : Clear c 3 (hex 3 addr.toNat) := .hex separator (by decide) addr.isLt (by decide)
  unfold csr csrName
  split
  · rename_i name named
    split at named <;> cases named <;> exact .const separator (by decide)
  · exact (radix.append digits).mono (by decide)

theorem displaced_clear (separator : Separator c) (offset : Word) (base : Reg) :
    Clear c 17 (displaced offset base) := by
  have opening : Clear c 1 (ascii "(") := .const separator (by decide)
  have closing : Clear c 1 (ascii ")") := .const separator (by decide)
  exact (((imm_clear separator offset).append opening).append (reg_clear separator base)).append
    closing

theorem form_clear (separator : Separator c) {name : List Byte} (named : Clear c 10 name)
    {operands : List (List Byte)} (few : operands.length ≤ 3)
    (each : ∀ text ∈ operands, Clear c 17 text) : Clear c 68 (form name operands) := by
  have blank : Clear c 1 (ascii " ") := .const separator (by decide)
  have comma : Clear c 2 (ascii ", ") := .const separator (by decide)
  refine ((named.append blank).append (comma.intercalate each)).mono ?_
  omega

theorem printInstruction_clear (separator : Separator c) (inst : Instruction) (pc : Option Word) :
    Clear c 68 (printInstruction inst pc) := by
  obtain ⟨op, rd, rs1, rs2, imm, raw, compressedOp⟩ := inst
  have opening : Clear c 1 (ascii "(") := .const separator (by decide)
  have closing : Clear c 1 (ascii ")") := .const separator (by decide)
  have radix : Clear c 2 (ascii "0x") := .const separator (by decide)
  have named : Clear c 10 (match compressedOp with
      | some cOp => ascii cOp.name
      | none => ascii op.name) := by
    cases compressedOp with
    | some cOp => exact cOp.name_clear separator
    | none => exact op.name_clear separator
  have register : ∀ k : Reg, Clear c 17 (reg k) := fun k =>
    (reg_clear separator k).mono (by decide)
  have address : Clear c 17 (ascii "(" ++ reg rs1 ++ ascii ")") :=
    ((opening.append (reg_clear separator rs1)).append closing).mono (by decide)
  have number : Clear c 17 (signedDecimal imm.toInt) := (imm_clear separator imm).mono (by decide)
  have field : Clear c 17 (decimal rs1.toNat) :=
    (Clear.decimal (k := 2) separator (by decide) (Nat.lt_trans rs1.isLt (by decide))).mono
      (by decide)
  have offset : Clear c 17 (displaced imm rs1) := displaced_clear separator imm rs1
  have target : Clear c 17 (target pc imm) := target_clear separator pc imm
  have csr : ∀ addr, Clear c 17 (csr addr) := csr_clear separator
  have two : ∀ {a b : List Byte}, Clear c 17 a → Clear c 17 b → ∀ {name}, Clear c 10 name →
      Clear c 68 (form name [a, b]) := fun first second _ named =>
    form_clear separator named (by simp) (by simp [first, second])
  have three : ∀ {a b d : List Byte}, Clear c 17 a → Clear c 17 b → Clear c 17 d → ∀ {name},
      Clear c 10 name → Clear c 68 (form name [a, b, d]) := fun first second third _ named =>
    form_clear separator named (by simp) (by simp [first, second, third])
  have upper : Clear c 17 (ascii "0x" ++ hex 0 (imm >>> 12).toNat) :=
    (radix.append (Clear.hex (k := 8) separator (by decide) (imm >>> 12).isLt (by decide))).mono
      (by decide)
  cases op with
  | i op =>
      cases op with
      | add | sub | sll | slt | sltu | xor | srl | sra | or | and =>
          exact three (register rd) (register rs1) (register rs2) named
      | lb | lh | lw | lbu | lhu | jalr => exact two (register rd) offset named
      | fence | fenceI | ecall | ebreak => exact named.mono (by decide)
      | sb | sh | sw => exact two (register rs2) offset named
      | beq | bne | blt | bge | bltu | bgeu =>
          exact three (register rs1) (register rs2) target named
      | lui | auipc => exact two (register rd) upper named
      | jal => exact two (register rd) target named
      | addi | slti | sltiu | xori | ori | andi | slli | srli | srai =>
          exact three (register rd) (register rs1) number named
  | a op =>
      cases op with
      | lrW => exact two (register rd) address named
      | _ => exact three (register rd) (register rs2) address named
  | csr op =>
      cases op with
      | csrrw | csrrs | csrrc => exact three (register rd) (csr _) (register rs1) named
      | csrrwi | csrrsi | csrrci => exact three (register rd) (csr _) field named
  | zbb op =>
      cases op with
      | clz | ctz | cpop | sextB | sextH | zextH | orcB | rev8 =>
          exact two (register rd) (register rs1) named
      | rori => exact three (register rd) (register rs1) number named
      | _ => exact three (register rd) (register rs1) (register rs2) named
  | zbs op =>
      cases op with
      | bclr | bext | binv | bset =>
          exact three (register rd) (register rs1) (register rs2) named
      | bclri | bexti | binvi | bseti => exact three (register rd) (register rs1) number named
  | m | zba => exact three (register rd) (register rs1) (register rs2) named

theorem bits_clear (separator : Separator c) (raw : Word) (pad : Bool) :
    Clear c 12 (bits raw pad) := by
  have columns : Clear c 4 (if pad then ascii "    " else []) := by
    cases pad <;> exact .const separator (by decide)
  unfold bits
  split
  · exact (Clear.hex (k := 8) separator (by decide) raw.isLt (by decide)).append columns
  · exact (word_clear separator raw).mono (by decide)

/-- **A line of a listing has at most 92 bytes, and no separator in it.** -/
theorem printLine_clear (separator : Separator c) (pc raw : Word) :
    Clear c 92 (printLine pc raw) := by
  have gap : Clear c 2 (ascii "  ") := .const separator (by decide)
  have unknown : Clear c 68 (ascii "???") := .const separator (by decide)
  have front := (((word_clear separator pc).append gap).append
    (bits_clear separator raw true)).append gap
  unfold printLine
  refine front.append (k := 68) ?_
  cases decode raw with
  | ok inst => exact printInstruction_clear separator inst (some pc)
  | error _ => exact unknown

/-- **A line of a listing is one line, of at most 92 bytes.** -/
theorem printLine_short (pc raw : Word) : Short 92 (printLine pc raw) :=
  (printLine_clear .newline pc raw).short

end Disasm

end Determinant
