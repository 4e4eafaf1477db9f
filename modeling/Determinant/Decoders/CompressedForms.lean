import Determinant.Decoders.Decoded
import Determinant.Decoders.Encoders

/-!
# Full-size forms of the compressed instructions

Every instruction that a halfword stands for can also be written as a word
(`expandOp_encodes`). The immediate of a compressed form always lies in the range of the
format of its RV32I opcode: the unsigned ones are short, the signed ones have fewer bits than
the format has, and those of branches and jumps are even. What is left is to name the encoder
and the entry of the registry for each form.
-/

set_option autoImplicit false

namespace Determinant
namespace Rv32c

open Foundations Registry Imm

/-! ## Ranges of the immediates -/

/-- The value is an I or S immediate. -/
def Fits12 (imm : Word) : Prop := (imm.setWidth 12).signExtend 32 = imm

section Ranges

variable (half : Half)

theorem ciwNzuimm_fits : Fits12 (ciwNzuimm half) :=
  small_fits (or_small (or_small (or_small (and_small _ (by decide)) (and_small _ (by decide)))
    (and_small _ (by decide))) (and_small _ (by decide)))

theorem clswOffset_fits : Fits12 (clswOffset half) :=
  small_fits (or_small (or_small (and_small _ (by decide)) (and_small _ (by decide)))
    (and_small _ (by decide)))

theorem ciLwspOffset_fits : Fits12 (ciLwspOffset half) :=
  small_fits (or_small (or_small (and_small _ (by decide)) (and_small _ (by decide)))
    (and_small _ (by decide)))

theorem cssSwspOffset_fits : Fits12 (cssSwspOffset half) :=
  small_fits (or_small (and_small _ (by decide)) (and_small _ (by decide)))

theorem ciImm_fits : Fits12 (ciImm half) :=
  signExtend_fits (by decide) (by decide) (by decide) _

theorem ciAddi16spImm_fits : Fits12 (ciAddi16spImm half) :=
  signExtend_fits (by decide) (by decide) (by decide) _

theorem cbOffset_fits : ((cbOffset half).setWidth 13).signExtend 32 = cbOffset half :=
  signExtend_fits (by decide) (by decide) (by decide) _

theorem cjOffset_fits : ((cjOffset half).setWidth 21).signExtend 32 = cjOffset half :=
  signExtend_fits (by decide) (by decide) (by decide) _

end Ranges

/-! ## Forms -/

/-- Some word decodes to an instruction with these operands. -/
def HasWord (op : Rv32i.Opcode) (rd rs1 rs2 : Reg) (imm : Word) : Prop :=
  ∃ w, Encodes w (.i op) rd rs1 rs2 imm

section Formats

variable (op : Rv32i.Opcode) (opcode : BitVec 7) (f3 : BitVec 3) (f7 : BitVec 7) (rd rs1 rs2 : Reg)

theorem hasWord_R (format : op.format = .R)
    (listed : { op := .i op, opcode7 := 0b0110011#7, f3 := some f3, f7 := some f7 } ∈ registry) :
    HasWord op rd rs1 rs2 0#32 :=
  ⟨encodeOp f3 f7 rd rs1 rs2, encodes_encodeR _ _ _ format listed⟩

theorem hasWord_shift (format : (Opcode.i op).format = .I) (shift : f3 = 0b001#3 ∨ f3 = 0b101#3)
    (operands : Opcode.i op ∉ [Opcode.i .ecall, .i .ebreak, .i .fence, .i .fenceI])
    (listed : { op := .i op, opcode7 := 0b0010011#7, f3 := some f3, f7 := some f7 } ∈ registry)
    (shamt : Word) : HasWord op rd rs1 0#5 (shamt &&& 0x1F#32) := by
  have amount := shift_mask shamt 0 5
  rw [BitVec.ushiftRight_zero] at amount
  have encodes : Encodes (encodeOpImmShift f3 f7 rd rs1 (field 0 5 shamt)) (.i op) rd rs1 0#5
      ((field 0 5 shamt).setWidth 32) :=
    encodes_shift _ _ format shift listed operands _
  rw [← amount] at encodes
  exact ⟨_, encodes⟩

theorem hasWord_I (format : (Opcode.i op).format = .I)
    (plain : ¬(opcode = 0b0010011#7 ∧ (f3 = 0b001#3 ∨ f3 = 0b101#3)))
    (operands : Opcode.i op ∉ [Opcode.i .ecall, .i .ebreak, .i .fence, .i .fenceI])
    (listed : { op := .i op, opcode7 := opcode, f3 := some f3 } ∈ registry) {imm : Word}
    (fits : Fits12 imm) : HasWord op rd rs1 0#5 imm := by
  have encodes : Encodes (encodeI opcode f3 rd rs1 (imm.setWidth 12)) (.i op) rd rs1 0#5
      ((imm.setWidth 12).signExtend 32) :=
    encodes_encodeI _ _ format plain listed operands _
  rw [fits] at encodes
  exact ⟨_, encodes⟩

theorem hasWord_S (format : op.format = .S)
    (listed : { op := .i op, opcode7 := 0b0100011#7, f3 := some f3 } ∈ registry) {imm : Word}
    (fits : Fits12 imm) : HasWord op 0#5 rs1 rs2 imm := by
  have encodes := encodes_encodeS rs1 rs2 format listed (imm.setWidth 12)
  rw [fits] at encodes
  exact ⟨_, encodes⟩

theorem hasWord_B (format : op.format = .B)
    (listed : { op := .i op, opcode7 := 0b1100011#7, f3 := some f3 } ∈ registry) {imm : Word}
    (fits : (imm.setWidth 13).signExtend 32 = imm) (even : imm.getLsbD 0 = false) :
    HasWord op 0#5 rs1 rs2 imm := by
  have short : (imm.setWidth 13).getLsbD 0 = false := by simpa using even
  have encodes := encodes_encodeB rs1 rs2 format listed short
  rw [fits] at encodes
  exact ⟨_, encodes⟩

theorem hasWord_U (format : op.format = .U)
    (listed : { op := .i op, opcode7 := opcode } ∈ registry) (imm : Word) :
    HasWord op rd 0#5 0#5 (imm <<< 12) := by
  have encodes := encodes_encodeU rd format listed (imm.setWidth 20)
  rw [shiftLeft_setWidth (by decide)] at encodes
  exact ⟨_, encodes⟩

theorem hasWord_J (format : op.format = .J)
    (listed : { op := .i op, opcode7 := 0b1101111#7 } ∈ registry) {imm : Word}
    (fits : (imm.setWidth 21).signExtend 32 = imm) (even : imm.getLsbD 0 = false) :
    HasWord op rd 0#5 0#5 imm := by
  have short : (imm.setWidth 21).getLsbD 0 = false := by simpa using even
  have encodes := encodes_encodeJ rd format listed short
  rw [fits] at encodes
  exact ⟨_, encodes⟩

end Formats

/-! ## Every compressed form -/

theorem hasWord_addi (rd rs1 : Reg) {imm : Word} (fits : Fits12 imm) :
    HasWord .addi rd rs1 0#5 imm :=
  hasWord_I .addi 0b0010011#7 0b000#3 rd rs1 rfl (by decide) (by decide) (by decide) fits

theorem hasWord_lw (rd rs1 : Reg) {imm : Word} (fits : Fits12 imm) : HasWord .lw rd rs1 0#5 imm :=
  hasWord_I .lw 0b0000011#7 0b010#3 rd rs1 rfl (by decide) (by decide) (by decide) fits

theorem hasWord_sw (rs1 rs2 : Reg) {imm : Word} (fits : Fits12 imm) : HasWord .sw 0#5 rs1 rs2 imm :=
  hasWord_S .sw 0b010#3 rs1 rs2 rfl (by decide) fits

theorem hasWord_jalr (rd rs1 : Reg) : HasWord .jalr rd rs1 0#5 0#32 :=
  hasWord_I .jalr 0b1100111#7 0b000#3 rd rs1 rfl (by decide) (by decide) (by decide) rfl

theorem hasWord_add (rd rs1 rs2 : Reg) : HasWord .add rd rs1 rs2 0#32 :=
  hasWord_R .add 0b000#3 0b0000000#7 rd rs1 rs2 rfl (by decide)

theorem hasWord_jal (rd : Reg) (half : Half) : HasWord .jal rd 0#5 0#5 (cjOffset half) :=
  hasWord_J .jal rd rfl (by decide) (cjOffset_fits half) (cjOffset_even half)

theorem hasWord_ebreak : HasWord .ebreak 0#5 0#5 0#5 0#32 :=
  ⟨0x00100073#32, by decide, by decide⟩

/-- **Every compressed form has a full-size form**: the same opcode and operands. -/
theorem expandOp_hasWord {op : Opcode} {half : Half} {exp : Expanded}
    (expanded : expandOp op half = .ok exp) :
    HasWord exp.op exp.rd exp.rs1 exp.rs2 exp.imm := by
  cases op with
  | cAddi4spn =>
      simp only [expandOp] at expanded
      split at expanded <;> cases expanded
      exact hasWord_addi _ _ (ciwNzuimm_fits half)
  | cAddi16sp =>
      simp only [expandOp] at expanded
      split at expanded <;> cases expanded
      exact hasWord_addi _ _ (ciAddi16spImm_fits half)
  | cAddi | cLi =>
      cases expanded
      exact hasWord_addi _ _ (ciImm_fits half)
  | cLw =>
      cases expanded
      exact hasWord_lw _ _ (clswOffset_fits half)
  | cLwsp =>
      simp only [expandOp] at expanded
      split at expanded <;> cases expanded
      exact hasWord_lw _ _ (ciLwspOffset_fits half)
  | cSw =>
      cases expanded
      exact hasWord_sw _ _ (clswOffset_fits half)
  | cSwsp =>
      cases expanded
      exact hasWord_sw _ _ (cssSwspOffset_fits half)
  | cJal | cJ =>
      cases expanded
      exact hasWord_jal _ half
  | cJr =>
      simp only [expandOp] at expanded
      split at expanded <;> cases expanded
      exact hasWord_jalr _ _
  | cJalr =>
      cases expanded
      exact hasWord_jalr _ _
  | cBeqz =>
      cases expanded
      exact hasWord_B .beq 0b000#3 _ _ rfl (by decide) (cbOffset_fits half) (cbOffset_even half)
  | cBnez =>
      cases expanded
      exact hasWord_B .bne 0b001#3 _ _ rfl (by decide) (cbOffset_fits half) (cbOffset_even half)
  | cLui =>
      simp only [expandOp] at expanded
      split at expanded <;> cases expanded
      exact hasWord_U .lui 0b0110111#7 _ rfl (by decide) _
  | cSlli =>
      simp only [expandOp] at expanded
      split at expanded <;> cases expanded
      exact hasWord_shift .slli 0b001#3 0b0000000#7 _ _ rfl (.inl rfl) (by decide) (by decide) _
  | cSrli =>
      simp only [expandOp] at expanded
      split at expanded <;> cases expanded
      exact hasWord_shift .srli 0b101#3 0b0000000#7 _ _ rfl (.inr rfl) (by decide) (by decide) _
  | cSrai =>
      simp only [expandOp] at expanded
      split at expanded <;> cases expanded
      exact hasWord_shift .srai 0b101#3 0b0100000#7 _ _ rfl (.inr rfl) (by decide) (by decide) _
  | cAndi =>
      cases expanded
      exact hasWord_I .andi 0b0010011#7 0b111#3 _ _ rfl (by decide) (by decide) (by decide)
        (ciImm_fits half)
  | cSub =>
      cases expanded
      exact hasWord_R .sub 0b000#3 0b0100000#7 _ _ _ rfl (by decide)
  | cXor =>
      cases expanded
      exact hasWord_R .xor 0b100#3 0b0000000#7 _ _ _ rfl (by decide)
  | cOr =>
      cases expanded
      exact hasWord_R .or 0b110#3 0b0000000#7 _ _ _ rfl (by decide)
  | cAnd =>
      cases expanded
      exact hasWord_R .and 0b111#3 0b0000000#7 _ _ _ rfl (by decide)
  | cMv | cAdd =>
      cases expanded
      exact hasWord_add _ _ _
  | cEbreak =>
      cases expanded
      exact hasWord_ebreak

end Rv32c
end Determinant
