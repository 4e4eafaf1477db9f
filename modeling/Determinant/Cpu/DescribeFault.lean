import Determinant.Cpu.Accesses
import Determinant.Cpu.DecodeCache

/-!
# Describing a fault

`describeFault` is called after a step has failed, and finds out again what the step was doing:
it fetches once more, decodes without the cache, and computes an address of its own. Since a
fault has left the machine as it was, it sees what the step saw, and the address it computes is
the one of the access whose check failed (`describeFault_true`).
-/

set_option autoImplicit false

namespace Determinant

open Foundations

variable {n : MemSize} {o : Options}

/-- Details of a fault. -/
@[ext]
structure Fault where
  err : StepError
  /-- The address of the faulting instruction. -/
  pc : Word
  /-- The bits of the faulting instruction, unless fetching them was the fault. -/
  raw : Option Word
  /-- The address that faulted. -/
  addr : Option Word
deriving DecidableEq, Repr

/-- Describe a fault that a step has just returned. -/
def Vm.describeFault (vm : Vm o n) (err : StepError) : Fault :=
  let fault : Fault := { err := err, pc := vm.pc, raw := none, addr := none }
  match vm.fetch with
  | .error _ => { fault with addr := some vm.pc }
  | .ok raw =>
      let fault := { fault with raw := some raw }
      match o.decode raw with
      | .error _ => fault
      | .ok inst =>
          let rs1Val := vm.readReg inst.rs1
          match inst.op with
          | .i op =>
              match op with
              | .lb | .lh | .lw | .lbu | .lhu | .sb | .sh | .sw =>
                  { fault with addr := some (rs1Val + inst.immUnsigned) }
              | _ => fault
          | .a _ => { fault with addr := some rs1Val }
          | _ => fault

namespace Machine

variable {decode : Word → Except DecodeError Instruction} {m : Machine n}

/-- What a step returns: it fetches, decodes and decides. -/
theorem answer_stepWith : answer (stepWith decode m) = (do
    let raw ← m.fetch
    let inst ← liftDecode (decode raw)
    let d ← decision inst (instSize raw) m.zeroX0
    .ok d.result) := by
  simp only [stepWith, bind_apply, reads, execute_eq]
  cases m.fetch with
  | error e => rfl
  | ok raw =>
      dsimp only
      cases decoded : decode raw with
      | error e => simp only [decoded, liftDecode, answer_error, bind, Except.bind]
      | ok inst =>
          simp only [decoded, liftDecode, bind, Except.bind]
          cases decision inst (instSize raw) m.zeroX0 <;> rfl

end Machine

namespace Vm

variable {vm : Vm o n} {e : StepError}

/-! The description in its three cases. -/

theorem describeFault_unfetched {e' : StepError} (unfetched : vm.fetch = .error e')
    (err : StepError) : vm.describeFault err = ⟨err, vm.pc, none, some vm.pc⟩ := by
  simp only [describeFault, unfetched]

theorem describeFault_undecoded {raw : Word} {e' : DecodeError} (fetched : vm.fetch = .ok raw)
    (undecoded : o.decode raw = .error e') (err : StepError) :
    vm.describeFault err = ⟨err, vm.pc, some raw, none⟩ := by
  simp only [describeFault, fetched, undecoded]

/-- The address is the one of the data access, if there is one. -/
theorem describeFault_decoded {raw : Word} {inst : Instruction} (fetched : vm.fetch = .ok raw)
    (decoded : o.decode raw = .ok inst) (err : StepError) :
    vm.describeFault err =
      ⟨err, vm.pc, some raw, (dataAccess inst (vm.readReg inst.rs1)).map Prod.fst⟩ := by
  simp only [describeFault, fetched, decoded, dataAccess, Instruction.immUnsigned]
  cases inst.op with
  | i op => cases op <;> rfl
  | _ => rfl

/-- **`describeFault` tells the truth.** Called after a step that failed, it names the error and
the address of the instruction. When the fetch failed it gives no bits, and the address is
`pc`. Otherwise it gives the bits that were fetched, and when they do not decode no address.
When they do, and the instruction is a load, a store or an atomic one, the address is the one
at which the access of its width failed, with the error that it failed with; and when it is
none of them, it accessed a CSR, and there is no address. -/
theorem describeFault_true {vm' : Vm o n} (coherent : Coherent o.decode vm.decodeCache)
    (x0 : vm.regs 0#5 = 0#32) (failed : step vm = .error e vm') :
    let fault := vm'.describeFault e
    fault.err = e ∧ fault.pc = vm.pc ∧
      match vm.fetch with
      | .error e' => e = e' ∧ fault.raw = none ∧ fault.addr = some vm.pc
      | .ok raw => fault.raw = some raw ∧
          match o.decode raw with
          | .error e' => e = e'.toStepError ∧ fault.addr = none
          | .ok inst =>
              match dataAccess inst (vm.readReg inst.rs1) with
              | some (addr, width) => fault.addr = some addr ∧ access n width addr = .error e
              | none => (∃ op, inst.op = .csr op) ∧ e = .illegalInstruction ∧
                  fault.addr = none := by
  have same := step_error_unchanged x0 failed
  have answers := (step_of_coherent coherent).1
  rw [failed, answer_error, Machine.answer_stepWith, Machine.zeroX0_eq_self x0] at answers
  have describes : describeFault vm' e = describeFault vm e := by
    unfold describeFault
    rw [same]
  rw [describes]
  cases fetched : vm.fetch with
  | error e' =>
      rw [describeFault_unfetched fetched]
      simp only [fetched, bind, Except.bind, Except.error.injEq] at answers
      exact ⟨rfl, rfl, answers, rfl, rfl⟩
  | ok raw =>
      cases decoded : o.decode raw with
      | error e' =>
          rw [describeFault_undecoded fetched decoded]
          simp only [fetched, decoded, liftDecode, bind, Except.bind, Except.error.injEq] at answers
          simp only [decoded, answers, and_self]
      | ok inst =>
          have refused : Machine.decision inst (Machine.instSize raw) vm.toMachine = .error e := by
            simp only [fetched, decoded, liftDecode, bind, Except.bind] at answers
            cases decided : Machine.decision inst (Machine.instSize raw) vm.toMachine <;>
              simp_all
          have sameRs1 : vm.readReg inst.rs1 = vm.regs inst.rs1 := by
            rw [← Machine.zeroX0_regs, Machine.zeroX0_eq_self x0]
          rw [describeFault_decoded fetched decoded]
          simp only [decoded, sameRs1, true_and]
          cases accesses : dataAccess inst (vm.regs inst.rs1) with
          | some found => exact ⟨rfl, (Machine.decision_of_access accesses).1 refused⟩
          | none =>
              obtain ⟨isCsr, illegal⟩ := Machine.decision_without_access accesses refused
              exact ⟨isCsr, illegal, rfl⟩

/-- The program whose load is misaligned, at its load. -/
theorem describeFault_true_load :
    (stateAfter (step (stateAfter (step countThenLoad)))).describeFault .misalignedAccess =
      ⟨.misalignedAccess, 4#32, some 0x0000A103#32, some 1#32⟩ := by
  have failed : step (stateAfter (step countThenLoad)) = .error .misalignedAccess _ := rfl
  obtain ⟨err, pc, raw, addr, _⟩ := describeFault_true (coherent_uncached _) rfl failed
  exact Fault.ext err pc raw addr

end Vm

end Determinant
