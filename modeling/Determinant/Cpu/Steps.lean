import Determinant.Cpu.Commit

/-!
# Steps of the machine

The decode cache does not take part in what a step computes, except through the answers of
`decodeCached`. `Machine.stepWith` is the step of a machine that asks an arbitrary decoder
instead, and the step of a VM is the step of its machine with the answers of its cache
(`answer_step`, `toMachine_step`). A step that does not fail fetches, decodes and decides
(`Retires`), and then only makes the decided changes (`stepWith_eq_ok`). A step that fails
leaves the machine as it was, once `regs[0]` is zero (`stepWith_error`).
-/

set_option autoImplicit false

namespace Determinant

open Foundations

variable {n : MemSize} {o : Options}

namespace Machine

/-- A step with an arbitrary decoder in the place of the cached one. -/
def stepWith (decode : Word → Except DecodeError Instruction) :
    EStateM StepError (Machine n) StepResult := do
  let raw ← reads fetch
  let inst ← reads fun _ => liftDecode (decode raw)
  execute inst (instSize raw)

/-- The instruction `inst` at `pc`, with the bits `raw`, retires with the changes `d`. -/
structure Retires (decode : Word → Except DecodeError Instruction) (m : Machine n) (raw : Word)
    (inst : Instruction) (d : Decision) : Prop where
  fetched : m.fetch = .ok raw
  decoded : decode raw = .ok inst
  decided : decision inst (instSize raw) m.zeroX0 = .ok d

variable {decode : Word → Except DecodeError Instruction} {m m' : Machine n}

/-- **A step that does not fail makes the changes it decided.** -/
theorem stepWith_eq_ok {result : StepResult} :
    stepWith decode m = .ok result m' ↔
      ∃ raw inst d, Retires decode m raw inst d ∧ d.result = result ∧ m.zeroX0.retire d = m' := by
  constructor
  · intro stepped
    cases fetched : m.fetch with
    | error e => simp [stepWith, bind_apply, reads, fetched] at stepped
    | ok raw =>
        cases decoded : decode raw with
        | error e => simp [stepWith, bind_apply, reads, fetched, decoded, liftDecode] at stepped
        | ok inst =>
            simp only [stepWith, bind_apply, reads, fetched, decoded, liftDecode,
              execute_eq] at stepped
            cases decided : decision inst (instSize raw) m.zeroX0 with
            | error e => simp [decided] at stepped
            | ok d =>
                simp only [decided, EStateM.Result.ok.injEq] at stepped
                exact ⟨raw, inst, d, ⟨fetched, decoded, decided⟩, stepped⟩
  · rintro ⟨raw, inst, d, ⟨fetched, decoded, decided⟩, rfl, rfl⟩
    simp only [stepWith, bind_apply, reads, fetched, decoded, liftDecode, execute_eq, decided]

/-- A step that fails changes at most `regs[0]`, which it sets to zero. -/
theorem stepWith_error {e : StepError} (failed : stepWith decode m = .error e m') :
    m' = m ∨ m' = m.zeroX0 := by
  cases fetched : m.fetch with
  | error e =>
      simp only [stepWith, bind_apply, reads, fetched, EStateM.Result.error.injEq] at failed
      exact .inl failed.2.symm
  | ok raw =>
      cases decoded : decode raw with
      | error e =>
          simp only [stepWith, bind_apply, reads, fetched, decoded, liftDecode,
            EStateM.Result.error.injEq] at failed
          exact .inl failed.2.symm
      | ok inst =>
          simp only [stepWith, bind_apply, reads, fetched, decoded, liftDecode,
            execute_eq] at failed
          cases decided : decision inst (instSize raw) m.zeroX0 with
          | ok d => simp [decided] at failed
          | error e =>
              simp only [decided, EStateM.Result.error.injEq] at failed
              exact .inr failed.2.symm

theorem zeroX0_eq_self (x0 : m.regs 0#5 = 0#32) : m.zeroX0 = m := by
  unfold zeroX0
  rw [← x0, Function.update_eq_self]

end Machine

namespace Vm

/-- The answers of the cached decoder, which depend on the cache and on `pc`. -/
def decoder (vm : Vm o n) (raw : Word) : Except DecodeError Instruction :=
  answer (decodeCached raw vm)

theorem decodeCached_off (off : o.decodeCacheEntries = 0#32) (raw : Word) (vm : Vm o n) :
    decodeCached raw vm = match o.decode raw with
      | .ok inst => .ok inst vm
      | .error e => .error e vm := by
  simp only [decodeCached, off, dif_pos, reads]
  cases o.decode raw <;> rfl

theorem decodeCached_hit (enabled : o.decodeCacheEntries ≠ 0#32) {raw : Word} {vm : Vm o n}
    (hit : (vm.decodeCache (slot enabled vm.pc)).raw = raw) :
    decodeCached raw vm = .ok (vm.decodeCache (slot enabled vm.pc)) vm := by
  simp only [decodeCached, enabled, dif_neg, not_false_eq_true, bind_apply, get_apply,
    ite_apply_state, hit, ne_eq, not_true_eq_false, if_false]
  rfl

/-- The VM with an instruction in the slot for its `pc`. -/
def fillSlot (enabled : o.decodeCacheEntries ≠ 0#32) (inst : Instruction) (vm : Vm o n) : Vm o n :=
  { vm with decodeCache := Function.update vm.decodeCache (slot enabled vm.pc) inst }

@[simp] theorem fillSlot_slot (enabled : o.decodeCacheEntries ≠ 0#32) (inst : Instruction)
    (vm : Vm o n) :
    (fillSlot enabled inst vm).decodeCache (slot enabled (fillSlot enabled inst vm).pc) = inst :=
  Function.update_self ..

theorem decodeCached_miss (enabled : o.decodeCacheEntries ≠ 0#32) {raw : Word} {vm : Vm o n}
    (miss : (vm.decodeCache (slot enabled vm.pc)).raw ≠ raw) :
    decodeCached raw vm = match o.decode raw with
      | .ok inst => .ok inst (fillSlot enabled inst vm)
      | .error e => .error e vm := by
  simp only [decodeCached, enabled, dif_neg, not_false_eq_true, bind_apply, get_apply,
    ite_apply_state, miss, ne_eq, if_true, reads]
  cases o.decode raw with
  | error e => rfl
  | ok inst =>
      have filled := fillSlot_slot enabled inst vm
      exact congrArg (fun slot => EStateM.Result.ok slot _) filled

theorem decodeCached_toMachine (raw : Word) (vm : Vm o n) :
    (stateAfter (decodeCached raw vm)).toMachine = vm.toMachine := by
  by_cases off : o.decodeCacheEntries = 0#32
  · rw [decodeCached_off off]
    cases o.decode raw <;> rfl
  · by_cases hit : (vm.decodeCache (slot off vm.pc)).raw = raw
    · rw [decodeCached_hit off hit, stateAfter_ok]
    · rw [decodeCached_miss off hit]
      cases o.decode raw <;> rfl

/-- **The step of a VM is the step of its machine**, with the answers of its cache. -/
theorem step_eq_stepWith (vm : Vm o n) :
    answer (step vm) = answer (Machine.stepWith vm.decoder vm.toMachine) ∧
      (stateAfter (step vm)).toMachine =
        stateAfter (Machine.stepWith vm.decoder vm.toMachine) := by
  simp only [step, Machine.stepWith, bind_apply, reads, decoder, adaptExcept_apply, onMachine]
  cases fetched : vm.fetch with
  | error e => exact ⟨rfl, rfl⟩
  | ok raw =>
      have same := decodeCached_toMachine raw vm
      cases decoded : decodeCached raw vm with
      | error e vm' =>
          rw [decoded, stateAfter_error] at same
          simp only [decoded, answer_error, stateAfter_error, liftDecode, same, and_self]
      | ok inst vm' =>
          rw [decoded, stateAfter_ok] at same
          simp only [decoded, answer_ok, liftDecode, answer_onPart, stateAfter_onPart, same,
            and_self]

/-- The instruction that a step retires, when it does not fail. -/
def retired (vm : Vm o n) : Option Instruction :=
  match vm.fetch, step vm with
  | .ok raw, .ok _ _ => (vm.decoder raw).toOption
  | _, _ => none

/-- **A step retires an instruction**, and makes the changes it decides, or it fails and
changes at most `regs[0]`. -/
theorem step_cases (vm : Vm o n) :
    (∃ raw inst d, vm.retired = some inst ∧
      Machine.Retires vm.decoder vm.toMachine raw inst d ∧
      (stateAfter (step vm)).toMachine = vm.zeroX0.retire d) ∨
    vm.retired = none ∧ ((stateAfter (step vm)).toMachine = vm.toMachine ∨
      (stateAfter (step vm)).toMachine = vm.zeroX0) := by
  obtain ⟨answers, machines⟩ := step_eq_stepWith vm
  cases stepped : Machine.stepWith vm.decoder vm.toMachine with
  | ok result m' =>
      left
      obtain ⟨raw, inst, d, retires, _, rfl⟩ := Machine.stepWith_eq_ok.1 stepped
      rw [stepped] at answers machines
      refine ⟨raw, inst, d, ?_, retires, machines⟩
      unfold retired
      cases ok : step vm with
      | ok _ _ => simp only [retires.fetched, retires.decoded, Except.toOption]
      | error _ _ => simp [ok] at answers
  | error e m' =>
      right
      rw [stepped] at answers machines
      have failed : vm.retired = none := by
        unfold retired
        cases ok : step vm with
        | ok _ _ => simp [ok] at answers
        | error _ _ => cases vm.fetch <;> rfl
      refine ⟨failed, ?_⟩
      rw [machines]
      exact Machine.stepWith_error stepped

end Vm

end Determinant
