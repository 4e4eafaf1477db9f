import Determinant.Cpu.Run

/-!
# Slicing a run

The limit of a run is an absolute cycle count. A run to an earlier limit therefore is the
beginning of a run to a later one: its loop leaves where the other would go on, and is the
same otherwise. So a run may be cut at any limit and resumed (`runs_resume`), a run that was
stopped by the program or by a fault is not changed by a later limit (`runs_extend`), and
two budgets spent one after the other are their sum (`runsFor_add`). A budget bounds the
number of instructions even when the counter is so high that the sum saturates
(`runsFor_bound`).
-/

set_option autoImplicit false

namespace Determinant

open Foundations

variable {n : MemSize} {o : Options}

namespace Vm

variable {limit later : Count} {vm vm' : Vm o n} {outcome : Outcome o n StepResult}

theorem runs_unique {maxCycles : Option Count} {outcome' : Outcome o n StepResult}
    (runs : Runs maxCycles vm outcome) (runs' : Runs maxCycles vm outcome') :
    outcome = outcome' :=
  Ends.unique runs runs'

/-- With an earlier limit the loop does the same, or leaves with the state it is at. -/
theorem runBody_agree (le : limit ≤ later) (s : Vm o n × StepResult) :
    runBody (some limit) s = runBody (some later) s ∨
      runBody (some limit) s = .done (.ok s.2 s.1) := by
  obtain ⟨vm, result⟩ := s
  by_cases goesOn : result = .continue
  · cases reached : limitReached (some limit) vm with
    | true => exact .inr (by simp [runBody, goesOn, reached])
    | false =>
        have later' : limitReached (some later) vm = false := by
          simp only [limitReached, decide_eq_false_iff_not, ge_iff_le, BitVec.not_le] at reached ⊢
          exact Nat.lt_of_lt_of_le reached le
        exact .inl (by simp [runBody, reached, later'])
  · exact .inl (by simp [runBody, goesOn])

/-- A run of a VM that has reached the limit does nothing. -/
theorem runs_of_reached (reached : limit ≤ vm.cycleCount) :
    Runs (some limit) vm (.ok .continue vm) :=
  ends_of_done (by simp [runBody, limitReached, reached])

theorem runs_continue (runs : Runs (some limit) vm (.ok .continue vm')) :
    limit ≤ vm'.cycleCount := by
  obtain ⟨k, result, at', _, _, _, stopped | ⟨_, e, _, _, failed⟩⟩ := runs_spec runs
  · obtain ⟨reached, same⟩ := stopped
    cases same
    exact reached rfl
  · cases failed

/-- **A run can be cut at any limit and resumed.** -/
theorem runs_resume (le : limit ≤ later) (paused : Runs (some limit) vm (.ok .continue vm')) :
    Runs (some later) vm' outcome ↔ Runs (some later) vm outcome := by
  rcases Ends.slice (fun s => .ok s.2 s.1) (runBody_agree le) paused with
    ⟨⟨at', result⟩, same, onward⟩ | whole
  · cases same
    exact onward outcome
  · -- The later limit was reached as well, so neither run does anything more.
    have rest : Runs (some later) vm' (.ok .continue vm') :=
      runs_of_reached (runs_continue whole)
    constructor
    · intro runs
      rw [runs_unique runs rest]
      exact whole
    · intro runs
      rw [runs_unique runs whole]
      exact rest

/-- **A run that was stopped otherwise than by its limit is not changed by a later one.** -/
theorem runs_extend (le : limit ≤ later) (runs : Runs (some limit) vm outcome)
    (stopped : ∀ vm', outcome ≠ .ok .continue vm') : Runs (some later) vm outcome := by
  rcases Ends.slice (fun s => .ok s.2 s.1) (runBody_agree le) runs with
    ⟨⟨at', result⟩, same, onward⟩ | whole
  · subst same
    have leaves : result ≠ .continue := fun goesOn => stopped at' (by rw [goesOn])
    exact (onward _).1 (ends_of_done (by simp [runBody, leaves]))
  · exact whole

/-! ## Budgets -/

theorem saturatingAdd_of_lt {a b : Count} (fits : a.toNat + b.toNat < 2 ^ 64) :
    (saturatingAdd a b).toNat = a.toNat + b.toNat := by
  rw [saturatingAdd, if_pos fits, BitVec.toNat_add, Nat.mod_eq_of_lt fits]

theorem saturatingAdd_le (a b : Count) : (saturatingAdd a b).toNat ≤ a.toNat + b.toNat := by
  unfold saturatingAdd
  split
  · rename_i fits
    rw [BitVec.toNat_add, Nat.mod_eq_of_lt fits]
  · rw [BitVec.toNat_allOnes]
    omega

/-- What a run that only its limit stopped has counted. -/
theorem runs_continue_cycleCount (runs : Runs (some limit) vm (.ok .continue vm')) :
    vm'.cycleCount.toNat = max limit.toNat vm.cycleCount.toNat := by
  obtain ⟨k, result, at', _, counted, bounded, stopped | ⟨_, e, _, _, failed⟩⟩ := runs_spec runs
  · obtain ⟨reached, same⟩ := stopped
    cases same
    have := reached rfl
    by_cases none : k = 0
    · omega
    · have := bounded none
      omega
  · cases failed

/-- **Two budgets spent one after the other are their sum.** -/
theorem runsFor_add {a b : Count}
    (fits : vm.cycleCount.toNat + a.toNat + b.toNat ≤ 2 ^ 64 - 1)
    (first : RunsFor a vm (.ok .continue vm')) :
    RunsFor b vm' outcome ↔ RunsFor (a + b) vm outcome := by
  have sum : (a + b).toNat = a.toNat + b.toNat := by
    rw [BitVec.toNat_add, Nat.mod_eq_of_lt (by omega)]
  have early : (saturatingAdd vm.cycleCount a).toNat = vm.cycleCount.toNat + a.toNat :=
    saturatingAdd_of_lt (by omega)
  have late : (saturatingAdd vm.cycleCount (a + b)).toNat =
      vm.cycleCount.toNat + a.toNat + b.toNat := by
    rw [saturatingAdd_of_lt (by omega), sum, Nat.add_assoc]
  have counted : vm'.cycleCount.toNat = vm.cycleCount.toNat + a.toNat := by
    rw [runs_continue_cycleCount first, early]
    omega
  have same : saturatingAdd vm'.cycleCount b = saturatingAdd vm.cycleCount (a + b) := by
    apply BitVec.eq_of_toNat_eq
    rw [saturatingAdd_of_lt (by omega), late, counted]
  have le : saturatingAdd vm.cycleCount a ≤ saturatingAdd vm.cycleCount (a + b) := by
    rw [BitVec.le_def, early, late]
    omega
  unfold RunsFor
  rw [same]
  exact runs_resume le first

/-- **A budget bounds the number of instructions**, also when the limit saturates. -/
theorem runsFor_bound {steps : Count} (runs : RunsFor steps vm outcome) :
    ∃ k result vm', Steps k vm result vm' ∧ k ≤ steps.toNat ∧
      (outcome = .ok result vm' ∨
        ∃ e vm'', step vm' = .error e vm'' ∧ outcome = .error e vm'') := by
  obtain ⟨k, result, vm', done, counted, bounded, ending⟩ := runs_spec runs
  refine ⟨k, result, vm', done, ?_, ?_⟩
  · by_cases none : k = 0
    · omega
    · have := bounded none
      have := saturatingAdd_le vm.cycleCount steps
      omega
  · rcases ending with ⟨_, same⟩ | ⟨_, failed⟩
    · exact .inl same
    · exact .inr failed

/-! ## The laws together -/

/-- **Runs can be sliced anywhere.** A run to an earlier limit that is not stopped can be
resumed to a later one, and one that is stopped is the run to the later limit. A run with a
limit ends with exactly one outcome, after `k` steps that `cycle_count` counts without
wrapping, and perhaps one that fails; it goes on only at the limit. Budgets that do not
overflow add up, and no budget is exceeded. -/
theorem runs_sliced (vm : Vm o n) :
    (∀ limit later : Count, limit ≤ later →
      (∀ vm', Runs (some limit) vm (.ok .continue vm') →
        ∀ outcome, Runs (some later) vm' outcome ↔ Runs (some later) vm outcome) ∧
      ∀ outcome, Runs (some limit) vm outcome → (∀ vm', outcome ≠ .ok .continue vm') →
        Runs (some later) vm outcome) ∧
    (∀ limit, ∃ outcome, Runs (some limit) vm outcome ∧
      ∀ outcome', Runs (some limit) vm outcome' → outcome' = outcome) ∧
    (∀ limit outcome, Runs (some limit) vm outcome →
      ∃ k result vm', Steps k vm result vm' ∧
        vm'.cycleCount.toNat = vm.cycleCount.toNat + k ∧
        (outcome = .ok result vm' ∧
            (result = .continue →
              vm'.cycleCount.toNat = max limit.toNat vm.cycleCount.toNat) ∨
          result = .continue ∧ ∃ e vm'', step vm' = .error e vm'' ∧
            vm''.cycleCount = vm'.cycleCount ∧ outcome = .error e vm'')) ∧
    (∀ (a b : Count) vm', vm.cycleCount.toNat + a.toNat + b.toNat ≤ 2 ^ 64 - 1 →
      RunsFor a vm (.ok .continue vm') →
      ∀ outcome, RunsFor b vm' outcome ↔ RunsFor (a + b) vm outcome) ∧
    ∀ (steps : Count) outcome, RunsFor steps vm outcome →
      ∃ k result vm', Steps k vm result vm' ∧ k ≤ steps.toNat ∧
        (outcome = .ok result vm' ∨
          ∃ e vm'', step vm' = .error e vm'' ∧ outcome = .error e vm'') := by
  refine ⟨fun limit later le => ⟨fun vm' paused outcome => runs_resume le paused,
      fun outcome runs stopped => runs_extend le runs stopped⟩, fun limit => ?_,
    fun limit outcome runs => ?_, fun a b vm' fits first outcome => runsFor_add fits first,
    fun steps outcome runs => runsFor_bound runs⟩
  · obtain ⟨outcome, runs⟩ := runs_exists limit vm
    exact ⟨outcome, runs, fun outcome' runs' => runs_unique runs' runs⟩
  · obtain ⟨k, result, vm', steps, counted, _, ending⟩ := runs_spec runs
    refine ⟨k, result, vm', steps, counted, ?_⟩
    rcases ending with ⟨_, rfl⟩ | ⟨goesOn, e, vm'', failed, same⟩
    · refine .inl ⟨rfl, fun goesOn => ?_⟩
      subst goesOn
      exact runs_continue_cycleCount runs
    · exact .inr ⟨goesOn, e, vm'', failed, step_error_cycleCount failed, same⟩

/-- Cut after its first instruction, the program runs on to its ECALL as it does at once. -/
theorem runs_sliced_countThenCall :
    ∀ outcome, Runs (some 2) (stateAfter countThenCall.step) outcome ↔
      Runs (some 2) countThenCall outcome :=
  ((runs_sliced countThenCall).1 1 2 (by decide)).1 _ ⟨2, rfl⟩

end Vm

end Determinant
