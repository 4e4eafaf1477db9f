import Determinant.Cpu.Ready
import Determinant.Decoders.ExtensionWords

/-!
# Bit manipulation

The second operand of a bit-manipulation instruction is a register or the `rs2` field, by the
format of its opcode. The step of the instruction writes the value that the bitwise definition
gives for the operands (`Opcode.defines_iff`), and changes nothing else.
-/

set_option autoImplicit false

namespace Determinant

open Foundations

variable {n : MemSize} {o : Options}

/-- The second operand of an instruction with these bits: for the R format the register `rs2`,
for the I format the five bits of the field. -/
def Machine.secondOperand (m : Machine n) (op : Opcode) (raw : Word) : Word :=
  if op.format = .R then m.regs (Bitfields.rs2 raw) else (Bitfields.rs2 raw).setWidth 32

/-- The formats of Zba, Zbb and Zbs. -/
theorem Opcode.format_bits {op : Opcode} (bits : op.isBitManipulation = true)
    (notR : op.format ≠ .R) : op.format = .I := by
  cases op with
  | i | m | a | csr => cases bits
  | zba => exact absurd rfl notR
  | zbb op => cases op <;> first | rfl | exact absurd rfl notR
  | zbs op => cases op <;> first | rfl | exact absurd rfl notR

/-- A bit-manipulation instruction decides on its value. -/
theorem Machine.decision_bits {inst : Instruction} (bits : inst.op.isBitManipulation = true)
    (instSize : Word) (m : Machine n) :
    decision inst instSize m = .ok (write inst.rd (m.pc + instSize)
      (inst.op.bitValue (m.regs inst.rs1)
        (if inst.op.format = .R then m.regs inst.rs2 else inst.imm))) := by
  obtain ⟨op, rd, rs1, rs2, imm, raw, compressedOp⟩ := inst
  cases op with
  | i | m | a | csr => cases bits
  | zba | zbb | zbs => rfl

namespace Vm

variable {vm : Vm o n} {raw : Word} {inst : Instruction}

/-- The step of a bit-manipulation instruction. -/
theorem manipulates (ready : vm.Ready raw inst) (x0 : vm.regs 0#5 = 0#32)
    (decoded : decode raw = .ok inst)
    (bits : inst.op.isBitManipulation = true) :
    answer (step vm) = .ok .continue ∧
      (stateAfter (step vm)).toMachine = vm.afterValue (Bitfields.rd raw)
        (inst.op.bitValue (vm.regs (Bitfields.rs1 raw)) (vm.secondOperand inst.op raw)) := by
  have decided := Machine.decision_bits bits (Machine.instSize raw) vm.toMachine
  unfold Machine.secondOperand
  by_cases format : inst.op.format = .R
  · obtain ⟨full, same⟩ := register_word (Opcode.isExtension_of_bits bits) decoded format
    rw [if_pos format] at decided ⊢
    have stepped := ready.computes_zero x0 full decided
    rwa [same] at stepped
  · obtain ⟨full, same⟩ := selector_word bits decoded (Opcode.format_bits bits format)
    rw [if_neg format] at decided ⊢
    have stepped := ready.computes_zero x0 full decided
    rwa [same] at stepped

/-- **Bit manipulation, end to end.** What the source computes for an opcode of Zba, Zbb or Zbs
is the value that the bitwise definition gives, and no other; an immediate form has the value of
its register form, and the operations of one operand do not depend on the other one. A VM whose
next word decodes to such an instruction writes this value of the operands before the step to
`rd`, if that is not x0. It goes on behind the word, counts one cycle, and changes nothing
else. -/
theorem bit_manipulation_exact :
    (∀ {op : Opcode}, op.isBitManipulation = true → ∀ x y value,
      op.Defines x y value ↔ value = op.bitValue x y) ∧
      (∀ (op : Opcode) x y, op.registerForm.bitValue x y = op.bitValue x y) ∧
      (∀ {op : Opcode}, op.isUnary = true → ∀ x y y', op.bitValue x y = op.bitValue x y') ∧
      ∀ {n : MemSize} {o : Options} {vm : Vm o n} {raw : Word} {inst : Instruction},
        o.decode = decode → Coherent o.decode vm.decodeCache → vm.regs 0#5 = 0#32 →
        vm.fetch = .ok raw → decode raw = .ok inst → inst.op.isBitManipulation = true →
        answer (step vm) = .ok .continue ∧
          (stateAfter (step vm)).toMachine = vm.afterValue (Bitfields.rd raw)
            (inst.op.bitValue (vm.regs (Bitfields.rs1 raw)) (vm.secondOperand inst.op raw)) := by
  refine ⟨Opcode.defines_iff, Opcode.bitValue_registerForm, Opcode.bitValue_unary, ?_⟩
  intro n o vm raw inst standard coherent x0 fetched decoded bits
  exact manipulates ⟨coherent, fetched, standard ▸ decoded⟩ x0 decoded bits

/-- RORI x1, x1, 4 with 0x12345678 in x1. -/
def rotateItself : Vm Options.uncached .four :=
  { (reset : Vm Options.uncached .four) with
    regs := fun reg => if reg = 1#5 then 0x12345678#32 else 0#32
    memory := patch (fun _ => 0#8) 0
      (writeInt 4 (encodeOpImmShift 0b101#3 0b0110000#7 1#5 1#5 4#5)) }

theorem bit_manipulation_exact_rori :
    (stateAfter (step rotateItself)).regs 1#5 = 0x81234567#32 := by
  have fetched : rotateItself.fetch = .ok (encodeOpImmShift 0b101#3 0b0110000#7 1#5 1#5 4#5) := rfl
  have decoded : decode (encodeOpImmShift 0b101#3 0b0110000#7 1#5 1#5 4#5) =
      .ok (immInstruction (.zbb .rori) (encodeOpImmShift 0b101#3 0b0110000#7 1#5 1#5 4#5) 4#32) :=
    rfl
  obtain ⟨_, changes⟩ := bit_manipulation_exact.2.2.2 rfl (.empty _) rfl fetched decoded rfl
  rw [changes]
  decide

end Vm

end Determinant
