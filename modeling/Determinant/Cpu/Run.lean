import Determinant.Cpu.Steps
import Determinant.Foundations.Behaviours
import Determinant.Foundations.WhileLoops

/-!
# Runs

`run` steps until an instruction stops it, a step fails, or the cycle limit is reached. Its
loop is `runBody`; a run ends with an outcome when the loop does (`Runs`), and with a numeric
limit it always does (`runs_exists`). What a run has done is a number of steps, all but the
last of which went on (`Steps`), and each of them counted one cycle (`Steps.cycleCount`); a
run with a limit never counts past the limit, so its counter does not wrap (`runs_spec`).
-/

set_option autoImplicit false

namespace Determinant

open Foundations

variable {n : MemSize} {o : Options}

/-- What a method of the VM leaves: its answer, and the VM. -/
abbrev Outcome (o : Options) (n : MemSize) (α : Type) := EStateM.Result StepError (Vm o n) α

namespace Vm

/-! ## The loop -/

/-- Whether a limit on the cycles, if there is one, has been reached. -/
def limitReached (maxCycles : Option Count) (vm : Vm o n) : Bool :=
  match maxCycles with
  | some limit => vm.cycleCount ≥ limit
  | none => false

/-- One turn of the loop of `run`; the state holds the VM and the last result. -/
def runBody (maxCycles : Option Count) :
    Vm o n × StepResult → Turn (Vm o n × StepResult) (Outcome o n StepResult)
  | (vm, result) =>
      if result ≠ .continue then .done (.ok result vm)
      else if limitReached maxCycles vm then .done (.ok result vm)
      else
        match step vm with
        | .ok result vm => .again (vm, result)
        | .error e vm => .done (.error e vm)

/-- `run(max_cycles)` ends with an outcome. Without a limit there may be none. -/
def Runs (maxCycles : Option Count) (vm : Vm o n) (outcome : Outcome o n StepResult) : Prop :=
  Ends (runBody maxCycles) (vm, .continue) outcome

/-- The sum of two counters, or the largest counter if the sum does not fit. -/
def saturatingAdd (a b : Count) : Count :=
  if a.toNat + b.toNat < 2 ^ 64 then a + b else BitVec.allOnes 64

/-- `runFor(steps)` ends with an outcome. -/
def RunsFor (steps : Count) (vm : Vm o n) (outcome : Outcome o n StepResult) : Prop :=
  Runs (some (saturatingAdd vm.cycleCount steps)) vm outcome

/-- `k` steps that did not fail, all but the last of which went on; `result` is the last
one's, and `continue` when there was none. -/
inductive Steps : Nat → Vm o n → StepResult → Vm o n → Prop where
  | zero (vm : Vm o n) : Steps 0 vm .continue vm
  | succ {k : Nat} {vm vm' vm'' : Vm o n} {result : StepResult}
      (steps : Steps k vm .continue vm') (stepped : step vm' = .ok result vm'') :
      Steps (k + 1) vm result vm''

/-! ## Turns of the loop -/

theorem runBody_eq_again {maxCycles : Option Count} {s t : Vm o n × StepResult} :
    runBody maxCycles s = .again t ↔
      s.2 = .continue ∧ limitReached maxCycles s.1 = false ∧ step s.1 = .ok t.2 t.1 := by
  obtain ⟨vm, result⟩ := s
  obtain ⟨vm', result'⟩ := t
  unfold runBody
  by_cases goesOn : result = .continue
  · cases reached : limitReached maxCycles vm with
    | true => simp [goesOn, reached]
    | false => cases stepped : step vm <;> simp [goesOn, reached, stepped, and_comm]
  · simp [goesOn]

theorem runBody_eq_done {maxCycles : Option Count} {s : Vm o n × StepResult}
    {outcome : Outcome o n StepResult} :
    runBody maxCycles s = .done outcome ↔
      (s.2 = .continue → limitReached maxCycles s.1 = true) ∧ .ok s.2 s.1 = outcome ∨
        s.2 = .continue ∧ limitReached maxCycles s.1 = false ∧
          ∃ e vm', step s.1 = .error e vm' ∧ .error e vm' = outcome := by
  obtain ⟨vm, result⟩ := s
  unfold runBody
  by_cases goesOn : result = .continue
  · cases reached : limitReached maxCycles vm with
    | true => simp [goesOn, reached]
    | false => cases stepped : step vm <;> simp [goesOn, reached, stepped]
  · simp [goesOn]

/-- A run, by its first step. -/
theorem runs_iff {maxCycles : Option Count} {vm : Vm o n} {outcome : Outcome o n StepResult} :
    Runs maxCycles vm outcome ↔
      if limitReached maxCycles vm then outcome = .ok .continue vm
      else
        match step vm with
        | .error e vm' => outcome = .error e vm'
        | .ok .continue vm' => Runs maxCycles vm' outcome
        | .ok result vm' => outcome = .ok result vm' := by
  have leaves : ∀ {s : Vm o n × StepResult} {r : Outcome o n StepResult},
      runBody maxCycles s = .done r → (Ends (runBody maxCycles) s outcome ↔ outcome = r) :=
    fun turn => ⟨fun ends => ends.of_done turn, fun same => same ▸ ends_of_done turn⟩
  unfold Runs
  cases reached : limitReached maxCycles vm with
  | true =>
      rw [leaves (r := .ok .continue vm) (by simp [runBody, reached])]
      simp
  | false =>
      cases stepped : step vm with
      | error e vm' =>
          rw [leaves (r := .error e vm') (by simp [runBody, reached, stepped])]
          simp
      | ok result vm' =>
          have turn : runBody maxCycles (vm, .continue) = .again (vm', result) :=
            runBody_eq_again.2 ⟨rfl, reached, stepped⟩
          have onward : Ends (runBody maxCycles) (vm, .continue) outcome ↔
              Ends (runBody maxCycles) (vm', result) outcome :=
            ⟨fun ends => ends.of_again turn, ends_of_again turn⟩
          rw [onward]
          cases result with
          | «continue» => simp
          | ecall =>
              rw [leaves (r := .ok .ecall vm') (by simp [runBody])]
              simp
          | ebreak =>
              rw [leaves (r := .ok .ebreak vm') (by simp [runBody])]
              simp

/-- One turn of a run: leave with a result, or go round. -/
def runTurn (maxCycles : Option Count) : EStateM StepError (Vm o n) (Option StepResult) := do
  if limitReached maxCycles (← get) then return some .continue
  let result ← step
  return if result = .continue then none else some result

theorem runTurn_apply (maxCycles : Option Count) (vm : Vm o n) :
    runTurn maxCycles vm =
      if limitReached maxCycles vm then .ok (some .continue) vm
      else
        match step vm with
        | .error e vm' => .error e vm'
        | .ok result vm' => .ok (if result = .continue then none else some result) vm' := by
  unfold runTurn
  simp only [bind_apply, get_apply, ite_apply_state, pure_apply]
  split
  · rfl
  · cases step vm <;> rfl

/-- **A run is a loop of such turns.** -/
theorem runs_iff_loop {maxCycles : Option Count} {vm : Vm o n} {outcome : Outcome o n StepResult} :
    Runs maxCycles vm outcome ↔ Behaviour.loop (.lift (runTurn maxCycles)) vm outcome := by
  constructor
  · intro runs
    have onward : ∀ {s : Vm o n × StepResult} {r : Outcome o n StepResult},
        Ends (runBody maxCycles) s r →
          if s.2 = .continue then Behaviour.Loops (.lift (runTurn maxCycles)) s.1 r
          else r = .ok s.2 s.1 := by
      intro s r ends
      induction ends using Ends.induct with
      | leave s r leaves =>
          rcases runBody_eq_done.1 leaves with ⟨stopped, rfl⟩ | ⟨goesOn, below, e, vm', failed, rfl⟩
          · split
            · rename_i goesOn
              have turned := runTurn_apply maxCycles s.1
              rw [if_pos (stopped goesOn), ← goesOn] at turned
              exact .leave turned
            · rfl
          · have turned := runTurn_apply maxCycles s.1
            simp only [below, failed, Bool.false_eq_true, if_false] at turned
            rw [if_pos goesOn]
            exact .fail turned
      | round s t r turn _ ih =>
          obtain ⟨goesOn, below, stepped⟩ := runBody_eq_again.1 turn
          have turned := runTurn_apply maxCycles s.1
          simp only [below, stepped, Bool.false_eq_true, if_false] at turned
          rw [if_pos goesOn]
          split at ih
          · rename_i again
            rw [if_pos again] at turned
            exact .again turned ih
          · rename_i stops
            rw [if_neg stops] at turned
            rw [ih]
            exact .leave turned
    exact onward runs
  · intro loops
    induction loops with
    | @leave vm vm' result left =>
        rw [Behaviour.lift, runTurn_apply] at left
        rw [runs_iff]
        split at left
        · cases left
          rename_i reached
          rw [if_pos reached]
        · rename_i below
          rw [if_neg below]
          cases stepped : step vm with
          | error e next => simp [stepped] at left
          | ok onward next => cases onward <;> simp_all
    | @fail vm vm' e broke =>
        rw [Behaviour.lift, runTurn_apply] at broke
        rw [runs_iff]
        split at broke
        · cases broke
        · rename_i below
          rw [if_neg below]
          cases stepped : step vm <;> simp_all
    | @again vm vm' r round _ ih =>
        rw [Behaviour.lift, runTurn_apply] at round
        rw [runs_iff]
        split at round
        · cases round
        · rename_i below
          rw [if_neg below]
          cases stepped : step vm with
          | error e next => simp [stepped] at round
          | ok onward next => cases onward <;> simp_all

/-- The turns of a run from the start are steps. -/
theorem steps_of_turns {maxCycles : Option Count} {k : Nat} {vm : Vm o n}
    {t : Vm o n × StepResult} (turns : Turns (runBody maxCycles) k (vm, .continue) t) :
    Steps k vm t.2 t.1 := by
  have onward : ∀ {j k : Nat} {s t : Vm o n × StepResult}, Turns (runBody maxCycles) k s t →
      Steps j vm s.2 s.1 → Steps (j + k) vm t.2 t.1 := by
    intro j k s t turns
    induction turns generalizing j with
    | refl s => exact fun steps => steps
    | @head k s t u turn _ ih =>
        intro steps
        obtain ⟨goesOn, _, stepped⟩ := runBody_eq_again.1 turn
        rw [goesOn] at steps
        have := ih (.succ steps stepped)
        rwa [Nat.add_right_comm] at this
  have steps := onward turns (.zero vm)
  rwa [Nat.zero_add] at steps

/-! ## Counting cycles -/

theorem step_ok_machine {vm vm' : Vm o n} {result : StepResult}
    (stepped : step vm = .ok result vm') :
    Machine.stepWith vm.decoder vm.toMachine = .ok result vm'.toMachine := by
  obtain ⟨sameAnswer, sameMachine⟩ := step_eq_stepWith vm
  rw [stepped] at sameAnswer sameMachine
  exact result_ext sameAnswer.symm sameMachine.symm

theorem step_error_machine {vm vm' : Vm o n} {e : StepError} (failed : step vm = .error e vm') :
    Machine.stepWith vm.decoder vm.toMachine = .error e vm'.toMachine := by
  obtain ⟨sameAnswer, sameMachine⟩ := step_eq_stepWith vm
  rw [failed] at sameAnswer sameMachine
  exact result_ext sameAnswer.symm sameMachine.symm

theorem step_cycleCount {vm vm' : Vm o n} {result : StepResult}
    (stepped : step vm = .ok result vm') : vm'.cycleCount = vm.cycleCount + 1 := by
  obtain ⟨raw, inst, d, _, _, retired⟩ := Machine.stepWith_eq_ok.1 (step_ok_machine stepped)
  rw [← retired]
  rfl

theorem step_error_cycleCount {vm vm' : Vm o n} {e : StepError}
    (failed : step vm = .error e vm') : vm'.cycleCount = vm.cycleCount := by
  rcases Machine.stepWith_error (step_error_machine failed) with same | same <;> rw [same]
  rfl

/-- A turn counts a cycle below the limit, so the counter does not wrap. -/
theorem turn_cycleCount {limit : Count} {s t : Vm o n × StepResult}
    (turn : runBody (some limit) s = .again t) :
    t.1.cycleCount.toNat = s.1.cycleCount.toNat + 1 ∧ s.1.cycleCount.toNat < limit.toNat := by
  obtain ⟨_, below, stepped⟩ := runBody_eq_again.1 turn
  have small : s.1.cycleCount.toNat < limit.toNat := by
    simpa [limitReached, BitVec.lt_def] using below
  refine ⟨?_, small⟩
  have bound := limit.isLt
  rw [step_cycleCount stepped, BitVec.toNat_add]
  exact Nat.mod_eq_of_lt (by simp; omega)

theorem turns_cycleCount {limit : Count} {k : Nat} {s t : Vm o n × StepResult}
    (turns : Turns (runBody (some limit)) k s t) :
    t.1.cycleCount.toNat = s.1.cycleCount.toNat + k ∧
      (k ≠ 0 → t.1.cycleCount.toNat ≤ limit.toNat) := by
  induction turns with
  | refl s => simp
  | @head k s t u turn rest ih =>
      obtain ⟨counted, below⟩ := turn_cycleCount turn
      obtain ⟨sum, bound⟩ := ih
      refine ⟨by omega, fun _ => ?_⟩
      by_cases last : k = 0
      · omega
      · exact bound last

/-- **A run with a limit ends.** -/
theorem runs_exists (limit : Count) (vm : Vm o n) : ∃ outcome, Runs (some limit) vm outcome := by
  let measure : Vm o n × StepResult → Nat := fun s =>
    if s.2 = .continue then limit.toNat - s.1.cycleCount.toNat + 1 else 0
  have decreases : ∀ s t, runBody (some limit) s = .again t → measure t < measure s := by
    intro s t turn
    have goesOn := (runBody_eq_again.1 turn).1
    obtain ⟨counted, below⟩ := turn_cycleCount turn
    simp only [measure, goesOn, if_true]
    split <;> omega
  obtain ⟨outcome, ends⟩ := runFuel_of_measure decreases (vm, .continue)
  exact ⟨outcome, _, ends⟩

/-- **What a run with a limit has done**: `k` steps, each of which counted one cycle, and then
either it stopped, at an instruction that stops it or at the limit, or one more step failed. -/
theorem runs_spec {limit : Count} {vm : Vm o n} {outcome : Outcome o n StepResult}
    (runs : Runs (some limit) vm outcome) :
    ∃ k result vm', Steps k vm result vm' ∧
      vm'.cycleCount.toNat = vm.cycleCount.toNat + k ∧
      (k ≠ 0 → vm'.cycleCount.toNat ≤ limit.toNat) ∧
      ((result = .continue → limit.toNat ≤ vm'.cycleCount.toNat) ∧ outcome = .ok result vm' ∨
        result = .continue ∧ ∃ e vm'', step vm' = .error e vm'' ∧ outcome = .error e vm'') := by
  obtain ⟨k, ⟨vm', result⟩, turns, leaves⟩ := ends_iff_turns.1 runs
  obtain ⟨counted, bounded⟩ := turns_cycleCount turns
  refine ⟨k, result, vm', steps_of_turns turns, counted, bounded, ?_⟩
  rcases runBody_eq_done.1 leaves with ⟨reached, same⟩ | ⟨goesOn, _, e, vm'', failed, same⟩
  · refine .inl ⟨fun goesOn => ?_, same.symm⟩
    simpa [limitReached, BitVec.le_def] using reached goesOn
  · exact .inr ⟨goesOn, e, vm'', failed, same.symm⟩

/-! ## Two runs -/

/-- **When the steps of two VMs cannot be told apart, neither can their runs.** -/
theorem Runs.simulate {o' : Options} {n' : MemSize} {related : Vm o n → Vm o' n' → Prop}
    (counts : ∀ vm vm', related vm vm' → vm.cycleCount = vm'.cycleCount)
    (steps : Indistinguishable related step step) {maxCycles : Option Count} {vm : Vm o n}
    {outcome : Outcome o n StepResult} (runs : Runs maxCycles vm outcome) {vm' : Vm o' n'}
    (start : related vm vm') :
    ∃ outcome', Runs maxCycles vm' outcome' ∧ answer outcome = answer outcome' ∧
      related (stateAfter outcome) (stateAfter outcome') := by
  have limits : ∀ {vm : Vm o n} {vm' : Vm o' n'}, related vm vm' →
      limitReached maxCycles vm' = limitReached maxCycles vm := by
    intro vm vm' same
    unfold limitReached
    rw [counts vm vm' same]
  refine Ends.simulate (fun s s' => related s.1 s'.1 ∧ s.2 = s'.2)
    (fun r r' => answer r = answer r' ∧ related (stateAfter r) (stateAfter r')) ?_ ?_ runs
    ⟨start, rfl⟩
  · rintro ⟨vm, result⟩ ⟨vm', result'⟩ ⟨next, onward⟩ ⟨same, rfl⟩ turn
    obtain ⟨goesOn, below, stepped⟩ := runBody_eq_again.1 turn
    obtain ⟨answers, after⟩ := steps same
    dsimp only at *
    rw [stepped] at answers after
    cases stepped' : step vm' with
    | error e next' => simp [stepped'] at answers
    | ok onward' next' =>
        rw [stepped'] at answers after
        cases answers
        exact ⟨(next', onward), runBody_eq_again.2 ⟨goesOn, (limits same).trans below, stepped'⟩,
          after, rfl⟩
  · rintro ⟨vm, result⟩ ⟨vm', result'⟩ outcome ⟨same, rfl⟩ leaves
    rcases runBody_eq_done.1 leaves with ⟨reached, rfl⟩ | ⟨goesOn, below, e, next, failed, rfl⟩
    · exact ⟨.ok result vm',
        runBody_eq_done.2 (.inl ⟨fun goesOn => (limits same).trans (reached goesOn), rfl⟩),
        rfl, same⟩
    · obtain ⟨answers, after⟩ := steps same
      dsimp only at *
      rw [failed] at answers after
      cases failed' : step vm' with
      | ok result' next' => simp [failed'] at answers
      | error e' next' =>
          rw [failed'] at answers after
          cases answers
          exact ⟨.error e next', runBody_eq_done.2 (.inr ⟨goesOn, (limits same).trans below,
            e, next', failed', rfl⟩), rfl, after⟩

/-- A program of two instructions, ADDI x1, x0, 1 and ECALL, in eight bytes of memory. -/
def countThenCall : Vm Options.uncached .eight :=
  { (reset : Vm Options.uncached .eight) with
    memory := patch (fun _ => 0#8) 0
      (writeInt 4 0x00100093#32 ++ writeInt 4 0x00000073#32) }

/-- A program of two instructions, ADDI x1, x0, 1 and LW x2, 0(x1), which is misaligned. -/
def countThenLoad : Vm Options.uncached .eight :=
  { (reset : Vm Options.uncached .eight) with
    memory := patch (fun _ => 0#8) 0
      (writeInt 4 0x00100093#32 ++ writeInt 4 0x0000A103#32) }

end Vm

end Determinant
