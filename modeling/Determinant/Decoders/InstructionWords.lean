import Determinant.Decoders.FieldRoundTrip

/-!
# Instruction words

The words of the RV32I instructions that compute, access memory or jump, format by format
(`Rv32i.Encoding`), and the words of the atomic instructions, with any `aq` and `rl`
(`Rv32a.Encoding`). The operands are register numbers and an integer. Each word decodes to the
instruction with these operands, which is all that the semantics of an instruction needs to
know about decoding.
-/

set_option autoImplicit false

namespace Determinant

open Foundations Registry

/-- The word encodes the instruction with these registers and this immediate. Fields that its
format does not have are zero. -/
inductive Rv32i.Encoding (op : Rv32i.Opcode) : Reg → Reg → Reg → Int → Word → Prop
  | register {f3 : BitVec 3} {f7 : BitVec 7}
      (listed : { op := .i op, opcode7 := 0b0110011#7, f3 := some f3, f7 := some f7 } ∈ registry)
      (rd rs1 rs2 : Reg) : Encoding op rd rs1 rs2 0 (encodeOp f3 f7 rd rs1 rs2)
  | shift {f3 : BitVec 3} {f7 : BitVec 7}
      (listed : { op := .i op, opcode7 := 0b0010011#7, f3 := some f3, f7 := some f7 } ∈ registry)
      (rd rs1 : Reg) (shamt : BitVec 5) :
      Encoding op rd rs1 0#5 shamt.toNat (encodeOpImmShift f3 f7 rd rs1 shamt)
  | immediate {opcode : BitVec 7} {f3 : BitVec 3}
      (major : opcode ∈ [0b0010011#7, 0b0000011#7, 0b1100111#7])
      (listed : { op := .i op, opcode7 := opcode, f3 := some f3 } ∈ registry)
      (rd rs1 : Reg) (imm : BitVec 12) :
      Encoding op rd rs1 0#5 imm.toInt (encodeI opcode f3 rd rs1 imm)
  | store {f3 : BitVec 3}
      (listed : { op := .i op, opcode7 := 0b0100011#7, f3 := some f3 } ∈ registry)
      (rs1 rs2 : Reg) (imm : BitVec 12) :
      Encoding op 0#5 rs1 rs2 imm.toInt (encodeS f3 rs1 rs2 imm)
  | branch {f3 : BitVec 3}
      (listed : { op := .i op, opcode7 := 0b1100011#7, f3 := some f3 } ∈ registry)
      (rs1 rs2 : Reg) {imm : BitVec 13} (even : imm.toInt % 2 = 0) :
      Encoding op 0#5 rs1 rs2 imm.toInt (encodeB f3 rs1 rs2 imm)
  | upper {opcode : BitVec 7} (major : opcode ∈ [0b0110111#7, 0b0010111#7])
      (listed : { op := .i op, opcode7 := opcode } ∈ registry) (rd : Reg) (imm : BitVec 20) :
      Encoding op rd 0#5 0#5 (4096 * imm.toInt) (encodeU opcode rd imm)
  | jump (listed : { op := .i op, opcode7 := 0b1101111#7 } ∈ registry) (rd : Reg)
      {imm : BitVec 21} (even : imm.toInt % 2 = 0) :
      Encoding op rd 0#5 0#5 imm.toInt (encodeJ rd imm)

/-- A word with `funct5` of an atomic instruction; LR.W has no `rs2`. -/
inductive Rv32a.Encoding (op : Rv32a.Opcode) : Reg → Reg → Reg → Word → Prop
  | intro {funct5 : BitVec 5} (coded : Rv32a.decodeR funct5 = some op) (aq rl : Bool)
      (rd rs1 rs2 : Reg) (reserved : op = .lrW → rs2 = 0#5) :
      Encoding op rd rs1 rs2
        (encodeR 0b0101111#7 0b010#3 (funct5 ++ BitVec.ofBool aq ++ BitVec.ofBool rl) rd rs1 rs2)

/-! ## The words decode -/

namespace Registry

open Bitfields

/-- A word with the fields of an entry of RV32I decodes to its opcode, with the operands that
the word's format says. -/
theorem decodes_of_fields {e : Entry} {op : Rv32i.Opcode} {rd rs1 rs2 : Reg} {imm : Int}
    {raw : Word} (listed : e ∈ registry) (isOp : e.op = .i op) (fields : e.Fields raw)
    (operands : ∀ inst, decode raw = .ok inst → inst.Operands rd rs1 rs2 imm) :
    isCompressed raw = false ∧
      ∃ inst, decode raw = .ok inst ∧ inst.op = .i op ∧ inst.Operands rd rs1 rs2 imm := by
  obtain ⟨full, decoded⟩ := decode_of_fields listed fields
  exact ⟨full, _, decoded, (instruction_op e raw).trans isOp, operands _ decoded⟩

/-- A word of the atomics' major opcode decodes by its `funct5`. -/
theorem decode_atomic {op : Rv32a.Opcode} {raw : Word} (major : opcode7 raw = 0b0101111#7)
    (word : funct3 raw = 0b010#3) (coded : Rv32a.decodeR (funct5 raw) = some op)
    (reserved : op = .lrW → rs2 raw = 0#5) :
    isCompressed raw = false ∧
      decode raw =
        .ok { op := .a op, rd := rd raw, rs1 := rs1 raw, rs2 := rs2 raw, raw := raw } := by
  have full : isCompressed raw = false := by
    rw [Bool.eq_false_iff, ne_eq, isCompressed_iff, not_not,
      ← BitVec.setWidth_setWidth_of_le _ (by decide : 2 ≤ 7), ← opcode7, major]
    rfl
  have notReserved : ¬(op = .lrW ∧ rs2 raw ≠ 0#5) := fun both => both.2 (reserved both.1)
  refine ⟨full, ?_⟩
  rw [opcode7] at major
  simp only [decode, full, Bool.false_eq_true, if_false, major, decodeAtomic, word, coded,
    notReserved]
  rfl

/-- `funct5` is the upper part of `funct7`. -/
theorem funct5_eq (raw : Word) : funct5 raw = (funct7 raw >>> 2).setWidth 5 := by
  apply BitVec.eq_of_getLsbD_eq
  intro i hi
  simp [funct5, funct7, show 2 + i < 7 by omega, show 25 + (2 + i) = 27 + i by omega]

theorem upper_append (funct5 : BitVec 5) (aq rl : Bool) :
    ((funct5 ++ BitVec.ofBool aq ++ BitVec.ofBool rl) >>> 2).setWidth 5 = funct5 := by
  revert funct5
  cases aq <;> cases rl <;> decide

/-- The shifts of RV32I are the ones with a `funct7`. -/
theorem registry_shifts : ∀ e ∈ registry, e.opcode7 = 0b0010011#7 →
    (e.f7.isSome = true ↔ e.f3 = some 0b001#3 ∨ e.f3 = some 0b101#3) := by
  decide

/-- ECALL and EBREAK have a major opcode of their own, with the CSR instructions. -/
theorem registry_calls : ∀ e ∈ registry, e.op = .i .ecall ∨ e.op = .i .ebreak →
    e.opcode7 = 0b1110011#7 := by
  decide

end Registry

variable {rd rs1 rs2 : Reg} {imm : Int} {raw : Word}

/-- No word of these formats stops the VM. -/
theorem Rv32i.Encoding.not_call {op : Rv32i.Opcode} (encoding : Encoding op rd rs1 rs2 imm raw) :
    op ≠ .ecall ∧ op ≠ .ebreak := by
  -- The major opcodes of the formats are other ones.
  have major {e : Entry} (listed : e ∈ registry) (isOp : e.op = .i op)
      (other : e.opcode7 ∈ [0b0110011#7, 0b0010011#7, 0b0000011#7, 0b1100111#7, 0b0100011#7,
        0b1100011#7, 0b0110111#7, 0b0010111#7, 0b1101111#7]) : op ≠ .ecall ∧ op ≠ .ebreak := by
    refine ⟨?_, ?_⟩
    · rintro rfl
      rw [registry_calls e listed (.inl isOp)] at other
      exact absurd other (by decide)
    · rintro rfl
      rw [registry_calls e listed (.inr isOp)] at other
      exact absurd other (by decide)
  cases encoding with
  | register listed | shift listed | store listed | branch listed | jump listed =>
      exact major listed rfl (by simp)
  | immediate isMajor listed | upper isMajor listed =>
      refine major listed rfl ?_
      simp only [List.mem_cons, List.mem_nil_iff, or_false] at isMajor ⊢
      tauto

/-- **An encoded word decodes to the instruction.** -/
theorem Rv32i.Encoding.decodes {op : Rv32i.Opcode} (encoding : Encoding op rd rs1 rs2 imm raw) :
    isCompressed raw = false ∧
      ∃ inst, decode raw = .ok inst ∧ inst.op = .i op ∧ inst.Operands rd rs1 rs2 imm := by
  cases encoding with
  | @register f3 f7 listed =>
      obtain ⟨opcode, _, funct3, _, _, funct7⟩ := fields_encodeR 0b0110011#7 f3 f7 rd rs1 rs2
      refine decodes_of_fields listed rfl ⟨opcode, ?_, ?_, nofun, nofun, nofun, nofun, nofun⟩
        fun inst decoded => operands_encodeR (by decide : 0b0110011#7 ∈ _) decoded
      · rintro _ ⟨⟩
        exact funct3
      · rintro _ ⟨⟩
        exact funct7
  | @shift f3 f7 listed _ _ shamt =>
      obtain ⟨opcode, _, funct3, _, _, funct7⟩ := fields_encodeR 0b0010011#7 f3 f7 rd rs1 shamt
      have shift : f3 = 0b001#3 ∨ f3 = 0b101#3 := by
        simpa using (registry_shifts _ listed rfl).1 rfl
      refine decodes_of_fields listed rfl ⟨opcode, ?_, ?_, nofun, nofun, nofun, nofun, nofun⟩
        fun inst decoded => operands_encodeOpImmShift shift decoded
      · rintro _ ⟨⟩
        exact funct3
      · rintro _ ⟨⟩
        exact funct7
  | @immediate opcode f3 major listed _ _ imm12 =>
      obtain ⟨isOpcode, _, funct3, _, _⟩ := fields_encodeI opcode f3 rd rs1 imm12
      have plain : ¬(opcode = 0b0010011#7 ∧ (f3 = 0b001#3 ∨ f3 = 0b101#3)) := by
        rintro ⟨rfl, shift⟩
        have given := (registry_shifts _ listed rfl).2 (by simpa using shift)
        cases given
      have notCall : ¬(opcode = 0b1110011#7 ∧ f3 = 0b000#3) := by
        rintro ⟨rfl, _⟩
        exact absurd major (by decide)
      refine decodes_of_fields listed rfl
        ⟨isOpcode, ?_, nofun, nofun, nofun, nofun, nofun, nofun⟩ fun inst decoded => ?_
      · rintro _ ⟨⟩
        exact funct3
      · obtain ⟨isRd, isRs1, isRs2, isImm⟩ :=
          immediate_encodeI (List.mem_append_left [0b1110011#7] major) plain notCall decoded
        exact ⟨isRd, isRs1, isRs2, by rw [isImm, BitVec.toInt_signExtend_of_le (by decide)]⟩
  | @store f3 listed _ _ imm12 =>
      obtain ⟨opcode, funct3, _⟩ := fields_encodeS f3 rs1 rs2 imm12
      refine decodes_of_fields listed rfl ⟨opcode, ?_, nofun, nofun, nofun, nofun, nofun, nofun⟩
        fun inst decoded => operands_encodeS decoded
      rintro _ ⟨⟩
      exact funct3
  | @branch f3 listed _ _ imm13 even =>
      obtain ⟨opcode, funct3, _⟩ := fields_encodeB f3 rs1 rs2 (getLsbD_zero_of_even even)
      refine decodes_of_fields listed rfl ⟨opcode, ?_, nofun, nofun, nofun, nofun, nofun, nofun⟩
        fun inst decoded => operands_encodeB even decoded
      rintro _ ⟨⟩
      exact funct3
  | @upper opcode major listed _ imm20 =>
      obtain ⟨isOpcode, _⟩ := fields_encodeU opcode rd imm20
      exact decodes_of_fields listed rfl
        ⟨isOpcode, nofun, nofun, nofun, nofun, nofun, nofun, nofun⟩
        fun inst decoded => operands_encodeU major decoded
  | jump listed _ even =>
      obtain ⟨opcode, _⟩ := fields_encodeJ rd (getLsbD_zero_of_even even)
      exact decodes_of_fields listed rfl ⟨opcode, nofun, nofun, nofun, nofun, nofun, nofun, nofun⟩
        fun inst decoded => operands_encodeJ even decoded

/-- The `aq` and `rl` bits are not looked at. -/
theorem Rv32a.Encoding.decodes {op : Rv32a.Opcode} (encoding : Encoding op rd rs1 rs2 raw) :
    isCompressed raw = false ∧
      decode raw = .ok { op := .a op, rd := rd, rs1 := rs1, rs2 := rs2, raw := raw } := by
  cases encoding with
  | @intro funct5 coded aq rl _ _ _ reserved =>
      obtain ⟨major, isRd, funct3, isRs1, isRs2, funct7⟩ := fields_encodeR 0b0101111#7 0b010#3
        (funct5 ++ BitVec.ofBool aq ++ BitVec.ofBool rl) rd rs1 rs2
      have decoded := decode_atomic major funct3 (by rw [funct5_eq, funct7, upper_append, coded])
        fun lr => isRs2.trans (reserved lr)
      rwa [isRd, isRs1, isRs2] at decoded

end Determinant
