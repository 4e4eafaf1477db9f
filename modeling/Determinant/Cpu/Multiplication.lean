import Determinant.Cpu.Ready
import Determinant.Decoders.ExtensionWords
import Determinant.Instructions.Multiplication

/-!
# Multiplication and division

The step of an M-extension instruction writes what `Rv32m.execute` computes, for which the laws
over the integers hold (`Rv32m.exact`), and changes nothing else.
-/

set_option autoImplicit false

namespace Determinant

open Foundations

variable {n : MemSize} {o : Options}

namespace Vm

/-- The step of an M-extension instruction. -/
theorem multiplies {vm : Vm o n} {raw : Word} {inst : Instruction} {op : Rv32m.Opcode}
    (ready : vm.Ready raw inst) (decoded : decode raw = .ok inst) (isOp : inst.op = .m op) :
    answer (step vm) = .ok .continue ∧
      (stateAfter (step vm)).toMachine = vm.zeroX0.afterValue (Bitfields.rd raw)
        (Rv32m.execute op (vm.readReg (Bitfields.rs1 raw)) (vm.readReg (Bitfields.rs2 raw))) := by
  obtain ⟨full, same⟩ := register_word (by rw [isOp]; trivial) decoded (by rw [isOp]; rfl)
  rw [isOp] at same
  subst same
  rw [← Machine.zeroX0_regs, ← Machine.zeroX0_regs]
  exact ready.computes full rfl

/-- **The M extension over the integers.** The values of the eight instructions obey the laws of
multiplication and division over the integers, and no product, quotient or conversion in their
computation can trap. A VM whose next word decodes to one of them, with any registers, equal or
not, and whatever a host has put into `regs[0]`, writes this value of the operands before the step
to `rd`, if that is not x0. It goes on behind the word, counts one cycle, and changes nothing else,
but that `regs[0]` is zero. -/
theorem multiplication_exact :
    Rv32m.Exact Rv32m.execute ∧
      (∀ op x y, Rv32m.executeChecked op x y = .ok (Rv32m.execute op x y)) ∧
      ∀ {n : MemSize} {o : Options} {vm : Vm o n} {raw : Word} {inst : Instruction}
        {op : Rv32m.Opcode}, o.decode = decode → Coherent o.decode vm.decodeCache →
        vm.fetch = .ok raw → decode raw = .ok inst → inst.op = .m op →
        answer (step vm) = .ok .continue ∧
          (stateAfter (step vm)).toMachine = vm.zeroX0.afterValue (Bitfields.rd raw)
            (Rv32m.execute op (vm.readReg (Bitfields.rs1 raw))
              (vm.readReg (Bitfields.rs2 raw))) := by
  refine ⟨Rv32m.exact, Rv32m.executeChecked_eq, ?_⟩
  intro n o vm raw inst op standard coherent fetched decoded isOp
  exact multiplies ⟨coherent, fetched, standard ▸ decoded⟩ decoded isOp

/-- DIV x1, x1, x1 with the most negative integer in x1, and something in `regs[0]`. -/
def divideItself : Vm Options.uncached .four :=
  { (reset : Vm Options.uncached .four) with
    regs := fun reg => if reg = 1#5 then Rv32m.minInt else 7#32
    memory := patch (fun _ => 0#8) 0 (writeInt 4 (encodeOp 0b100#3 0b0000001#7 1#5 1#5 1#5)) }

theorem multiplication_exact_div : (stateAfter (step divideItself)).regs 1#5 = 1#32 := by
  have fetched : divideItself.fetch = .ok (encodeOp 0b100#3 0b0000001#7 1#5 1#5 1#5) := rfl
  have decoded : decode (encodeOp 0b100#3 0b0000001#7 1#5 1#5 1#5) =
      .ok (regInstruction (.m .div) (encodeOp 0b100#3 0b0000001#7 1#5 1#5 1#5)) := rfl
  obtain ⟨_, changes⟩ := multiplication_exact.2.2 rfl (.empty _) fetched decoded rfl
  rw [changes]
  decide

end Vm

end Determinant
