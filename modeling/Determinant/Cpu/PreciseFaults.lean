import Determinant.Cpu.Slicing

/-!
# Faults are precise

A step that fails changes nothing but the decode cache (`step_error_unchanged`), and failing
again from the state it leaves is all that the machine can do: the slot that the step may
have filled answers for the same bits what the decoder answered (`decoder_again`), so the
next step fails in the same way (`step_error_again`). A run that fails therefore ends in the
state after its last retired step.
-/

set_option autoImplicit false

namespace Determinant

open Foundations

variable {n : MemSize} {o : Options}

namespace Machine

variable {decode decode' : Word → Except DecodeError Instruction} {m : Machine n}

/-- A step asks the decoder only about the bits it fetches. -/
theorem stepWith_congr (agree : ∀ raw, m.fetch = .ok raw → decode raw = decode' raw) :
    stepWith decode m = stepWith decode' m := by
  simp only [stepWith, bind_apply, reads]
  cases fetched : m.fetch with
  | error e => rfl
  | ok raw => simp only [agree raw fetched]

/-- The registers after a retired instruction have zero in `regs[0]`. -/
theorem retire_x0 (m : Machine n) (d : Decision) : (m.zeroX0.retire d).regs 0#5 = 0#32 := by
  unfold retire
  cases d.reg with
  | none => simp [zeroX0]
  | some write => simp [writeReg]

end Machine

namespace Vm

variable {vm vm' : Vm o n} {e : StepError}

/-- **A step that fails changes nothing but the cache.** -/
theorem step_error_unchanged (x0 : vm.regs 0#5 = 0#32) (failed : step vm = .error e vm') :
    vm'.toMachine = vm.toMachine := by
  rcases Machine.stepWith_error (step_error_machine failed) with same | same
  · exact same
  · rw [same, Machine.zeroX0_eq_self x0]

theorem step_ok_x0 {result : StepResult} (stepped : step vm = .ok result vm') :
    vm'.regs 0#5 = 0#32 := by
  obtain ⟨_, _, d, _, _, retired⟩ := Machine.stepWith_eq_ok.1 (step_ok_machine stepped)
  rw [← retired]
  exact Machine.retire_x0 _ d

/-- Steps that retire keep zero in `regs[0]`. -/
theorem Steps.x0 {k : Nat} {result : StepResult} (steps : Steps k vm result vm')
    (x0 : vm.regs 0#5 = 0#32) : vm'.regs 0#5 = 0#32 := by
  cases steps with
  | zero => exact x0
  | succ _ stepped => exact step_ok_x0 stepped

/-! ## Failing again -/

/-- Decoding the same bits again, from the slot, gives the same answer. -/
theorem decoder_again (raw : Word) (vm : Vm o n) :
    (stateAfter (decodeCached raw vm)).decoder raw = vm.decoder raw := by
  by_cases off : o.decodeCacheEntries = 0#32
  · simp only [decoder, decodeCached_off off]
    cases o.decode raw <;> rfl
  · by_cases hit : (vm.decodeCache (slot off vm.pc)).raw = raw
    · simp only [decoder, decodeCached_hit off hit, stateAfter_ok]
    · cases decoded : o.decode raw with
      | error e => simp only [decoder, decodeCached_miss off hit, decoded, stateAfter_error]
      | ok inst =>
          rw [decodeCached_miss off hit, decoded, decoder, decoder, decodeCached_miss off hit,
            decoded, stateAfter_ok]
          by_cases own : inst.raw = raw
          · rw [decodeCached_hit off (by rw [fillSlot_slot, own]), fillSlot_slot, answer_ok]
          · rw [decodeCached_miss off (by rw [fillSlot_slot]; exact own), decoded, answer_ok,
              answer_ok]

theorem step_cache (vm : Vm o n) {raw : Word} (fetched : vm.fetch = .ok raw) :
    (stateAfter (step vm)).decodeCache = (stateAfter (decodeCached raw vm)).decodeCache := by
  simp only [step, bind_apply, reads, fetched, adaptExcept_apply, onMachine]
  cases decodeCached raw vm with
  | error e vm' => rfl
  | ok inst vm' => rw [stateAfter_onPart]; rfl

/-- **A step that failed fails again in the same way.** -/
theorem step_error_again (x0 : vm.regs 0#5 = 0#32) (failed : step vm = .error e vm') :
    ∃ vm'', step vm' = .error e vm'' := by
  have same := step_error_unchanged x0 failed
  have agree : ∀ raw, vm.fetch = .ok raw → vm'.decoder raw = vm.decoder raw := by
    intro raw fetched
    have cache := step_cache vm fetched
    rw [failed, stateAfter_error] at cache
    have after : vm' = stateAfter (decodeCached raw vm) := by
      apply Vm.ext <;> first | exact cache | rw [decodeCached_toMachine, same]
    rw [after, decoder_again]
  have machineStep : Machine.stepWith vm'.decoder vm'.toMachine =
      .error e vm'.toMachine := by
    rw [same, Machine.stepWith_congr agree, step_error_machine failed, same]
  obtain ⟨sameAnswer, _⟩ := step_eq_stepWith vm'
  rw [machineStep, answer_error] at sameAnswer
  cases again : step vm' with
  | ok result vm'' => simp [again] at sameAnswer
  | error e' vm'' =>
      simp only [again, answer_error, Except.error.injEq] at sameAnswer
      exact ⟨vm'', by rw [sameAnswer]⟩

/-- **Faults are precise.** A step that fails leaves `pc`, the registers, the memory,
`cycle_count`, the reservation, the CSRs and `stop_pc` as they were: every field of the
machine. A run with a limit that fails has retired `k` steps and counted each of them, its
final state is the one after the last of them, and the next step from there fails in the
same way. -/
theorem faults_precise (vm : Vm o n) (x0 : vm.regs 0#5 = 0#32) :
    (∀ e vm', step vm = .error e vm' → vm'.toMachine = vm.toMachine) ∧
    ∀ limit e vm', Runs (some limit) vm (.error e vm') →
      ∃ k last, Steps k vm .continue last ∧ vm'.toMachine = last.toMachine ∧
        vm'.cycleCount.toNat = vm.cycleCount.toNat + k ∧
        ∃ vm'', step vm' = .error e vm'' := by
  refine ⟨fun e vm' failed => step_error_unchanged x0 failed, fun limit e vm' runs => ?_⟩
  obtain ⟨k, result, last, steps, counted, _, ⟨_, same⟩ | ⟨goesOn, e', _, failed, same⟩⟩ :=
    runs_spec runs
  · cases same
  · cases same
    subst goesOn
    have unchanged := step_error_unchanged (steps.x0 x0) failed
    refine ⟨k, last, steps, unchanged, ?_, step_error_again (steps.x0 x0) failed⟩
    rw [unchanged, counted]

/-- The run of a program whose load is misaligned has retired one step. -/
theorem faults_precise_load :
    ∃ vm' last, Runs (some 10#64) countThenLoad (.error .misalignedAccess vm') ∧
      Steps 1 countThenLoad .continue last ∧ vm'.toMachine = last.toMachine ∧
      ∃ vm'', step vm' = .error .misalignedAccess vm'' := by
  have runs : Runs (some 10#64) countThenLoad (.error .misalignedAccess _) := ⟨2, rfl⟩
  obtain ⟨k, last, steps, same, counted, again⟩ :=
    (faults_precise countThenLoad rfl).2 _ _ _ runs
  have one : 1 = 0 + k := counted
  have retired : k = 1 := by omega
  subst retired
  exact ⟨_, last, runs, steps, same, again⟩

end Vm

end Determinant
