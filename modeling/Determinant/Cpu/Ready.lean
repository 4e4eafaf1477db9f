import Determinant.Cpu.Accesses
import Determinant.Cpu.DecodeCache
import Determinant.Decoders.InstructionWords

/-!
# The next instruction

A VM is *ready* for an instruction when the bits at its `pc` are that instruction, to the
decoder and to its cache. The step of a ready VM forces x0 to zero and is then the decision of
the instruction and nothing else: it makes the decided changes (`Vm.Ready.retires`), or it fails
with the error of the decision and leaves the machine so (`Vm.Ready.refused`).
-/

set_option autoImplicit false

namespace Determinant

open Foundations

variable {n : MemSize} {o : Options}

/-- The registers with one of them set. Register 0 is not set. -/
def Machine.setReg (m : Machine n) (rd : Reg) (value : Word) : Reg → Word := fun reg =>
  if reg = rd ∧ rd ≠ 0#5 then value else m.regs reg

/-- Writing a register sets it, and restores the zero that was in `regs[0]`. -/
theorem Machine.writeReg_regs {m : Machine n} (x0 : m.regs 0#5 = 0#32) (rd : Reg) (value : Word) :
    (m.writeReg rd value).regs = m.setReg rd value := by
  funext reg
  change Function.update (Function.update m.regs rd value) 0#5 0#32 reg = m.setReg rd value reg
  by_cases zero : reg = 0#5
  · subst zero
    have same : ¬((0#5 : Reg) = rd ∧ rd ≠ 0#5) := fun both => both.2 both.1.symm
    rw [setReg, if_neg same, x0, Function.update_self]
  · by_cases written : reg = rd
    · subst written
      rw [setReg, if_pos ⟨rfl, zero⟩, Function.update_of_ne zero, Function.update_self]
    · rw [setReg, if_neg fun both => written both.1, Function.update_of_ne zero,
        Function.update_of_ne written]

/-- The machine behind a full-size instruction that only computes a value. -/
def Machine.afterValue (m : Machine n) (rd : Reg) (value : Word) : Machine n :=
  { m with pc := m.pc + 4#32, cycleCount := m.cycleCount + 1, regs := m.setReg rd value }

/-- The bits at `pc` are `raw`, which the decoder and the cache take for `inst`. -/
structure Vm.Ready (vm : Vm o n) (raw : Word) (inst : Instruction) : Prop where
  coherent : Coherent o.decode vm.decodeCache
  fetched : vm.fetch = .ok raw
  decoded : o.decode raw = .ok inst

namespace Vm

variable {vm : Vm o n} {raw : Word} {inst : Instruction}

/-- The step of a ready VM is the decision of its instruction. -/
theorem Ready.step (ready : vm.Ready raw inst) :
    answer (step vm) = answer (Machine.execute inst (Machine.instSize raw) vm.toMachine) ∧
      (stateAfter (step vm)).toMachine =
        stateAfter (Machine.execute inst (Machine.instSize raw) vm.toMachine) := by
  have stepped := step_of_coherent ready.coherent
  have executes : Machine.stepWith o.decode vm.toMachine =
      Machine.execute inst (Machine.instSize raw) vm.toMachine := by
    simp only [Machine.stepWith, bind_apply, reads, ready.fetched, ready.decoded, liftDecode]
  rwa [executes] at stepped

/-- **An instruction that does not fail makes the changes it decided.** -/
theorem Ready.retires (ready : vm.Ready raw inst) {d : Machine.Decision}
    (decided : Machine.decision inst (Machine.instSize raw) vm.zeroX0 = .ok d) :
    answer (Vm.step vm) = .ok d.result ∧
      (stateAfter (Vm.step vm)).toMachine = vm.zeroX0.retire d := by
  have stepped := ready.step
  simp only [Machine.execute_eq, decided] at stepped
  exact stepped

/-- **An instruction that fails changes nothing**, but that x0 is zero. -/
theorem Ready.refused (ready : vm.Ready raw inst) {e : StepError}
    (decided : Machine.decision inst (Machine.instSize raw) vm.zeroX0 = .error e) :
    answer (Vm.step vm) = .error e ∧ (stateAfter (Vm.step vm)).toMachine = vm.zeroX0 := by
  have stepped := ready.step
  simp only [Machine.execute_eq, decided] at stepped
  exact stepped

/-- An instruction that only computes a value writes its register and goes on. -/
theorem Ready.computes (ready : vm.Ready raw inst) (full : isCompressed raw = false) {rd : Reg}
    {value : Word} (decided : Machine.decision inst (Machine.instSize raw) vm.zeroX0 =
      .ok (Machine.write rd (vm.pc + Machine.instSize raw) value)) :
    answer (Vm.step vm) = .ok .continue ∧
      (stateAfter (Vm.step vm)).toMachine = vm.zeroX0.afterValue rd value := by
  have size : Machine.instSize raw = 4#32 := by simp [Machine.instSize, full]
  obtain ⟨answers, changes⟩ := ready.retires decided
  refine ⟨answers, changes.trans ?_⟩
  apply Machine.ext
  case pc => exact congrArg (vm.pc + ·) size
  case regs => exact Machine.writeReg_regs (Machine.zeroX0_regs vm.toMachine 0#5) rd value
  all_goals rfl

/-! ## With zero in x0 -/

section ZeroRegister

variable (ready : vm.Ready raw inst) (x0 : vm.regs 0#5 = 0#32)
include ready x0

theorem Ready.retires_zero {d : Machine.Decision}
    (decided : Machine.decision inst (Machine.instSize raw) vm.toMachine = .ok d) :
    answer (Vm.step vm) = .ok d.result ∧
      (stateAfter (Vm.step vm)).toMachine = vm.toMachine.retire d := by
  rw [← Machine.zeroX0_eq_self x0] at decided ⊢
  exact ready.retires decided

theorem Ready.refused_zero {e : StepError}
    (decided : Machine.decision inst (Machine.instSize raw) vm.toMachine = .error e) :
    answer (Vm.step vm) = .error e ∧ (stateAfter (Vm.step vm)).toMachine = vm.toMachine := by
  rw [← Machine.zeroX0_eq_self x0] at decided ⊢
  exact ready.refused decided

theorem Ready.computes_zero (full : isCompressed raw = false) {rd : Reg} {value : Word}
    (decided : Machine.decision inst (Machine.instSize raw) vm.toMachine =
      .ok (Machine.write rd (vm.pc + Machine.instSize raw) value)) :
    answer (Vm.step vm) = .ok .continue ∧
      (stateAfter (Vm.step vm)).toMachine = vm.afterValue rd value := by
  have zeroed := Machine.zeroX0_eq_self x0
  have stepped := ready.computes full (by rw [zeroed]; exact decided)
  rwa [zeroed] at stepped

end ZeroRegister

end Vm

end Determinant
