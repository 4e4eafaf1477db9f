import Determinant.Decoders.FieldRoundTrip
import Determinant.Instructions.BitManipulation

/-!
# Words of the extensions

A word that decodes to an instruction of an extension is a full-size one, and the instruction
has the operands of its format: the registers in the fields of the word, with the shift amount
for the immediate of a bit-manipulation instruction, and the CSR number for that of a CSR
instruction.
-/

set_option autoImplicit false

namespace Determinant

open Foundations Registry Bitfields

variable {raw : Word} {inst : Instruction}

/-- An opcode outside RV32I. -/
def Opcode.isExtension : Opcode → Prop
  | .i _ => False
  | _ => True

/-- Compressed instructions are of RV32I. -/
theorem expandCompressed_base (expanded : expandCompressed raw = .ok inst) :
    ¬inst.op.isExtension := by
  obtain ⟨exp, _, same⟩ := bind_eq_ok.1 expanded
  cases same
  exact id

/-- An instruction of an extension is the one that an entry of the registry specifies. -/
theorem entry_of_extension (extension : inst.op.isExtension) (decoded : decode raw = .ok inst) :
    isCompressed raw = false ∧ ∃ e ∈ registry, e.Fields raw ∧ e.op = inst.op ∧
      instruction e raw = inst := by
  have full : isCompressed raw = false := by
    rw [Bool.eq_false_iff]
    intro short
    rw [decode, if_pos short] at decoded
    exact expandCompressed_base decoded extension
  obtain ⟨e, listed, fields, same⟩ := (decode_iff_gives full).1 decoded
  exact ⟨full, e, listed, fields, by rw [← same, instruction_op], same⟩

/-- The instructions without operands are of RV32I. -/
theorem Opcode.isExtension.operands {op : Opcode} (extension : op.isExtension) :
    op ∉ [Opcode.i .ecall, .i .ebreak, .i .fence, .i .fenceI] := by
  intro listed
  simp only [List.mem_cons, List.mem_nil_iff, or_false] at listed
  rcases listed with rfl | rfl | rfl | rfl <;> exact extension

/-- The fields of the R format. -/
theorem register_word (extension : inst.op.isExtension) (decoded : decode raw = .ok inst)
    (format : inst.op.format = .R) :
    isCompressed raw = false ∧ inst = regInstruction inst.op raw := by
  obtain ⟨full, e, _, _, isOp, same⟩ := entry_of_extension extension decoded
  rw [← isOp] at format ⊢
  exact ⟨full, same ▸ instruction_of_R format raw⟩

/-- The opcodes of Zicsr. -/
def Opcode.isCsr : Opcode → Bool
  | .csr _ => true
  | _ => false

/-- The shape of the words of the I format. -/
theorem registry_immediates : ∀ e ∈ registry, e.op.format = .I →
    (e.op.isCsr = true → e.opcode7 = 0b1110011#7) ∧
      (e.op.isBitManipulation = true →
        e.opcode7 = 0b0010011#7 ∧ (e.f3 = some 0b001#3 ∨ e.f3 = some 0b101#3)) := by
  decide

theorem Opcode.isExtension_of_bits {op : Opcode} (bits : op.isBitManipulation = true) :
    op.isExtension := by
  cases op with
  | i op => cases bits
  | m | a | csr | zba | zbb | zbs => exact trivial

/-- The immediate of a bit-manipulation instruction is the `rs2` field: a shift amount, or the
selector of a unary operation. -/
theorem selector_word (bits : inst.op.isBitManipulation = true) (decoded : decode raw = .ok inst)
    (format : inst.op.format = .I) :
    isCompressed raw = false ∧ inst = immInstruction inst.op raw ((rs2 raw).setWidth 32) := by
  have extension := Opcode.isExtension_of_bits bits
  obtain ⟨full, e, listed, fields, isOp, same⟩ := entry_of_extension extension decoded
  rw [← isOp] at format extension bits ⊢
  obtain ⟨opcode, shift⟩ := (registry_immediates e listed format).2 bits
  have shifts : funct3 raw = 0b001#3 ∨ funct3 raw = 0b101#3 :=
    shift.imp (fields.2.1 _) (fields.2.1 _)
  refine ⟨full, ?_⟩
  rw [← same, instruction_of_I format extension.operands, if_pos ⟨opcode, shifts⟩]

/-- The immediate of a CSR instruction is the sign-extended CSR number. -/
theorem csr_word {op : Zicsr.Opcode} (isOp : inst.op = .csr op) (decoded : decode raw = .ok inst) :
    isCompressed raw = false ∧ inst = immInstruction inst.op raw (immI raw) := by
  have extension : inst.op.isExtension := by
    rw [isOp]
    trivial
  have csr : inst.op.isCsr = true ∧ inst.op.format = .I := by
    rw [isOp]
    exact ⟨rfl, rfl⟩
  obtain ⟨full, e, listed, _, same, given⟩ := entry_of_extension extension decoded
  rw [← same] at csr extension ⊢
  have major := (registry_immediates e listed csr.2).1 csr.1
  have notShift : ¬(e.opcode7 = 0b0010011#7 ∧ (funct3 raw = 0b001#3 ∨ funct3 raw = 0b101#3)) := by
    rintro ⟨other, _⟩
    rw [major] at other
    cases other
  refine ⟨full, ?_⟩
  rw [← given, instruction_of_I csr.2 extension.operands, if_neg notShift]

end Determinant
