import Mathlib.Tactic.Basic

/-!
# Computations that keep their state when they fail

An `EStateM ε σ α` computation ends in a value or in an error, and in both cases with a
state. This is the shape of a method that changes an object in place and may return an
error: what it had written before the error stays written. The monad of Lean's core has no
rules that reduce a computation applied to a state, so they are stated here, one for each
former, and tagged for `simp`.

A method that only looks at the object is a function `σ → Except ε α`; `reads` runs it
inside the monad, where it leaves the state alone. A method that cannot fail is a function
`σ → σ`. A computation is *atomic* when its errors leave the state as it was (`Atomic`).
Reading before an atomic computation, and writing after one, keep it atomic
(`Atomic.after_reads`, `Atomic.then_total`); nothing else does.
-/

set_option autoImplicit false

namespace Determinant.Foundations

variable {ε σ τ α β : Type}

/-! ## Applying a computation to a state -/

@[simp] theorem pure_apply (a : α) (s : σ) : (pure a : EStateM ε σ α) s = .ok a s := rfl

@[simp] theorem throw_apply (e : ε) (s : σ) : (throw e : EStateM ε σ α) s = .error e s := rfl

@[simp] theorem get_apply (s : σ) : (get : EStateM ε σ σ) s = .ok s s := rfl

@[simp] theorem set_apply (s t : σ) : (set t : EStateM ε σ PUnit) s = .ok ⟨⟩ t := rfl

@[simp] theorem modify_apply (f : σ → σ) (s : σ) :
    (modify f : EStateM ε σ PUnit) s = .ok ⟨⟩ (f s) := rfl

theorem bind_apply (x : EStateM ε σ α) (f : α → EStateM ε σ β) (s : σ) :
    (x >>= f) s = match x s with
      | .ok a t => f a t
      | .error e t => .error e t := rfl

theorem map_apply (f : α → β) (x : EStateM ε σ α) (s : σ) :
    (f <$> x) s = match x s with
      | .ok a t => .ok (f a) t
      | .error e t => .error e t := rfl

theorem adaptExcept_apply {ε' : Type} (f : ε → ε') (x : EStateM ε σ α) (s : σ) :
    EStateM.adaptExcept f x s = match x s with
      | .ok a t => .ok a t
      | .error e t => .error (f e) t := by
  unfold EStateM.adaptExcept
  cases x s <;> rfl

@[simp] theorem ite_apply_state (c : Prop) [Decidable c] (x y : EStateM ε σ α) (s : σ) :
    (if c then x else y) s = if c then x s else y s := by
  split <;> rfl

/-! ## Methods that only look -/

/-- Run a read-only method inside the monad. -/
def reads (f : σ → Except ε α) : EStateM ε σ α := fun s =>
  match f s with
  | .ok a => .ok a s
  | .error e => .error e s

theorem reads_ok {f : σ → Except ε α} {s : σ} {a : α} (h : f s = .ok a) :
    reads f s = .ok a s := by
  simp [reads, h]

/-- A bind in `Except` succeeds exactly when both parts do. -/
theorem bind_eq_ok {x : Except ε α} {f : α → Except ε β} {b : β} :
    (x >>= f) = .ok b ↔ ∃ a, x = .ok a ∧ f a = .ok b := by
  cases x <;> simp [bind, Except.bind]

/-- It fails when the first part does, or the second after it. -/
theorem bind_eq_error {x : Except ε α} {f : α → Except ε β} {e : ε} :
    (x >>= f) = .error e ↔ x = .error e ∨ ∃ a, x = .ok a ∧ f a = .error e := by
  cases x <;> simp [bind, Except.bind]

/-- A check that throws, and what comes after it. -/
theorem guard_eq_ok {c : Prop} [Decidable c] {e : ε} {x : Except ε α} {a : α} :
    (if c then (throw e : Except ε PUnit) >>= fun _ => x else x) = .ok a ↔ ¬c ∧ x = .ok a := by
  by_cases fails : c
  · simp [fails, bind, Except.bind, throw, throwThe, MonadExceptOf.throw]
  · simp [fails]

/-- A last check. -/
theorem guard_last_eq_ok {c : Prop} [Decidable c] {e : ε} {a : PUnit} :
    (if c then (throw e : Except ε PUnit) else pure ⟨⟩) = .ok a ↔ ¬c := by
  by_cases fails : c
  · simp [fails, throw, throwThe, MonadExceptOf.throw]
  · simp [fails, pure, Except.pure]

/-! ## The state after a computation -/

/-- The state a computation leaves, whether it fails or not. -/
def stateAfter : EStateM.Result ε σ α → σ
  | .ok _ s => s
  | .error _ s => s

@[simp] theorem stateAfter_ok (a : α) (s : σ) :
    stateAfter (.ok a s : EStateM.Result ε σ α) = s := rfl

@[simp] theorem stateAfter_error (e : ε) (s : σ) :
    stateAfter (.error e s : EStateM.Result ε σ α) = s := rfl

/-- What a computation returns, without the state it leaves. -/
def answer : EStateM.Result ε σ α → Except ε α
  | .ok a _ => .ok a
  | .error e _ => .error e

@[simp] theorem answer_ok (a : α) (s : σ) :
    answer (.ok a s : EStateM.Result ε σ α) = .ok a := rfl

@[simp] theorem answer_error (e : ε) (s : σ) :
    answer (.error e s : EStateM.Result ε σ α) = .error e := rfl

/-- An outcome is its answer and its state. -/
theorem result_ext {r r' : EStateM.Result ε σ α} (sameAnswer : answer r = answer r')
    (sameState : stateAfter r = stateAfter r') : r = r' := by
  cases r <;> cases r' <;> simp_all

/-! ## Atomic computations -/

/-- A computation that fails has changed nothing. -/
def Atomic (x : EStateM ε σ α) : Prop := ∀ ⦃s e s'⦄, x s = .error e s' → s' = s

theorem Atomic.pure (a : α) : Atomic (Pure.pure a : EStateM ε σ α) := by
  rintro s e s' ⟨⟩

theorem Atomic.throw (e : ε) : Atomic (throw e : EStateM ε σ α) := by
  rintro s e s' ⟨⟩
  rfl

theorem Atomic.modify (f : σ → σ) : Atomic (modify f : EStateM ε σ PUnit) := by
  rintro s e s' ⟨⟩

theorem Atomic.ite (c : Prop) [Decidable c] {x y : EStateM ε σ α} (first : Atomic x)
    (second : Atomic y) : Atomic (if c then x else y) := by
  split
  · exact first
  · exact second

/-- Looking first and going on with what was seen. -/
theorem Atomic.after_reads (f : σ → Except ε α) {g : α → EStateM ε σ β}
    (rest : ∀ a, Atomic (g a)) : Atomic (reads f >>= g) := by
  intro s e s' failed
  rw [bind_apply, reads] at failed
  cases seen : f s with
  | ok a =>
      rw [seen] at failed
      exact rest a failed
  | error e =>
      rw [seen] at failed
      cases failed
      rfl

/-- Going on with something that cannot fail. -/
theorem Atomic.then_total {x : EStateM ε σ α} (first : Atomic x) {g : α → EStateM ε σ β}
    (total : ∀ a s e s', g a s ≠ .error e s') : Atomic (x >>= g) := by
  intro s e s' failed
  rw [bind_apply] at failed
  cases outcome : x s with
  | ok a t =>
      rw [outcome] at failed
      exact absurd failed (total a t e s')
  | error e' t =>
      rw [outcome] at failed
      cases failed
      exact first outcome

/-! ## Working on a part of the state -/

/-- Run a computation on a part of a larger state, seen through `view` and put back with
`put`. -/
def onPart (view : τ → σ) (put : σ → τ → τ) (x : EStateM ε σ α) : EStateM ε τ α := fun t =>
  match x (view t) with
  | .ok a s => .ok a (put s t)
  | .error e s => .error e (put s t)

@[simp] theorem answer_onPart (view : τ → σ) (put : σ → τ → τ) (x : EStateM ε σ α) (t : τ) :
    answer (onPart view put x t) = answer (x (view t)) := by
  unfold onPart
  cases x (view t) <;> rfl

@[simp] theorem stateAfter_onPart (view : τ → σ) (put : σ → τ → τ) (x : EStateM ε σ α) (t : τ) :
    stateAfter (onPart view put x t) = put (stateAfter (x (view t))) t := by
  unfold onPart
  cases x (view t) <;> rfl

end Determinant.Foundations
