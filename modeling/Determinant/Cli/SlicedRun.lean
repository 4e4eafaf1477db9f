import Determinant.Cli.GuestProgram

/-!
# Slicing a program with its host calls

The limit of `execute` is an absolute cycle count, and a turn of its loop is one instruction with
the call it makes. So a program can be cut at any limit, between any two instructions and also
between calls, and executed on from there, as often as one likes (`execute_sliced`): the slices
together do what the whole does, with the same calls in the same order, the same writes and the
same lines of the trace.
-/

set_option autoImplicit false

namespace Determinant

open Foundations Hostcall

variable {n : MemSize} {o : Options}

namespace Cli

/-- The limits that are not before another one. No limit is after all of them. -/
def NotBefore (limit : Count) (later : Option Count) : Prop := ∀ l ∈ later, limit ≤ l

theorem limitReached_of_notBefore {limit : Count} {later : Option Count}
    (after : NotBefore limit later) {vm : Vm o n}
    (below : Vm.limitReached (some limit) vm = false) : Vm.limitReached later vm = false := by
  cases later with
  | none => rfl
  | some l =>
      simp only [Vm.limitReached, ge_iff_le, decide_eq_false_iff_not, BitVec.not_le] at below ⊢
      exact Nat.lt_of_lt_of_le below (after l rfl)

/-- A call to the host does not stop a program at the limit. -/
theorem performCall_ne_limit (trace : Bool) (s t : Session o n) :
    performCall trace s ≠ .ok (some .cycleLimit) t := by
  intro called
  simp only [performCall, bind_apply, modify_apply] at called
  cases handled : handle s.flushBeforeCall with
  | error f u => simp [handled] at called
  | ok outcome u =>
      rw [handled] at called
      cases outcome with
      | resumed => cases trace <;> simp [bind_apply] at called
      | exit status => simp at called
      | unknown number => simp at called

/-- With an earlier limit a turn does the same, or leaves because of the limit. -/
theorem cliTurn_agree {limit : Count} {later : Option Count} (after : NotBefore limit later)
    (trace : Bool) (s : Session o n) :
    (cliTurn trace (some limit) s = cliTurn trace later s ∧
        ∀ t, cliTurn trace (some limit) s ≠ .ok (some .cycleLimit) t) ∨
      cliTurn trace (some limit) s = .ok (some .cycleLimit) s := by
  simp only [cliTurn, Behaviour.nestedTurn, bind_apply, adaptExcept_apply, vmTurn_apply]
  cases reached : Vm.limitReached (some limit) s.vm with
  | true => exact .inr rfl
  | false =>
      rw [limitReached_of_notBefore after reached]
      refine .inl ⟨rfl, fun t => ?_⟩
      simp only [Bool.false_eq_true, if_false]
      cases Vm.step s.vm with
      | error e vm =>
          intro stopped
          cases stopped
      | ok result vm =>
          cases result with
          | «continue» | ebreak =>
              intro stopped
              cases stopped
          | ecall => exact performCall_ne_limit trace _ t

/-- **Programs can be sliced**, if no write fails. Executing up to a limit, and from there to a
later limit or without one, is executing from the start: every state that the first ends in at its
limit is one that the second goes through, and a program that has ended before its limit has
ended. -/
theorem execute_sliced (s : Session o n) (trace : Bool) (limit : Count) (later : Option Count)
    (after : NotBefore limit later) :
    (∀ t, execute trace (some limit) s (.ok .cycleLimit t) →
      ∀ r, execute trace later t r ↔ execute trace later s r) ∧
    ∀ r, execute trace (some limit) s r → (∀ t, r ≠ .ok .cycleLimit t) →
      execute trace later s r := by
  have slice : ∀ {r}, execute trace (some limit) s r → _ := fun {r} ends =>
    Behaviour.loop_slice (cliTurn_agree after trace)
      (execute_eq_loop (o := o) trace (some limit) ▸ ends)
  simp only [← execute_eq_loop] at slice
  constructor
  · intro t paused r
    rcases slice paused with ⟨t', same, onward⟩ | ⟨ended, _⟩
    · cases same
      exact onward r
    · exact absurd rfl (ended t)
  · intro r ends stopped
    rcases slice ends with ⟨t, same, _⟩ | ⟨_, whole⟩
    · exact absurd same (stopped t)
    · exact whole

/-- A program of two instructions, stopped before its call. -/
theorem execute_sliced_counting :
    ∃ t, execute false (some 1#64) countingSession (.ok .cycleLimit t) ∧
      ∀ r, execute false none t r ↔ execute false none countingSession r := by
  obtain ⟨t, turned⟩ :
      ∃ t, execute false (some 1#64) countingSession (.ok .cycleLimit t) := by
    rw [execute_eq_loop]
    exact ⟨_, .again rfl (.leave rfl)⟩
  exact ⟨t, turned, (execute_sliced countingSession false 1#64 none nofun).1 t turned⟩

end Cli

end Determinant
