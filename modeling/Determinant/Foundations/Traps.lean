import Mathlib.Tactic.Ring

/-!
# Traps

Arithmetic on machine integers that must not wrap, ranges that must lie inside a list, and
branches that must not be reached are checked when they are executed, and a check that fails
stops the program. Such a stop is a trap, and not an error that a function returns: a function
that may do both fails with a `Failure`. Each check is a definition here, with the condition
under which it passes; a function is safe when it never fails with `trapped` (`TrapFree`).
-/

set_option autoImplicit false

namespace Determinant.Foundations

variable {ε α : Type}

/-- What a failed check reports. -/
inductive Trap where
  | overflow
  | divideByZero
  | outOfRange
  | reachedUnreachable
deriving DecidableEq, Repr

/-- A failure is an error that was returned, or a trap. -/
inductive Failure (ε : Type) where
  | returned (e : ε)
  | trapped (t : Trap)
deriving DecidableEq, Repr

/-- The sum of two integers of `w` bits. -/
def checkedAdd (w a b : Nat) : Except (Failure ε) Nat :=
  if a + b < 2 ^ w then .ok (a + b) else .error (.trapped .overflow)

/-- The product of two integers of `w` bits. -/
def checkedMul (w a b : Nat) : Except (Failure ε) Nat :=
  if a * b < 2 ^ w then .ok (a * b) else .error (.trapped .overflow)

/-- The difference of two unsigned integers. -/
def checkedSub (a b : Nat) : Except (Failure ε) Nat :=
  if b ≤ a then .ok (a - b) else .error (.trapped .overflow)

/-- The integers of `w` bits with a sign. -/
def Signed (w : Nat) (k : Int) : Prop := -2 ^ (w - 1) ≤ k ∧ k < 2 ^ (w - 1)

instance (w : Nat) (k : Int) : Decidable (Signed w k) := inferInstanceAs (Decidable (_ ∧ _))

/-- A result as a signed integer of `w` bits. -/
def checkedSigned (w : Nat) (k : Int) : Except (Failure ε) Int :=
  if Signed w k then .ok k else .error (.trapped .overflow)

/-- A divisor. -/
def checkedDivisor [DecidableEq α] [Zero α] (b : α) : Except (Failure ε) α :=
  if b ≠ 0 then .ok b else .error (.trapped .divideByZero)

/-- `@divTrunc`: the quotient of two signed integers of `w` bits. -/
def checkedDivTrunc (w : Nat) (a b : Int) : Except (Failure ε) Int := do
  let b ← checkedDivisor b
  checkedSigned w (a.tdiv b)

/-- `@rem`: the remainder, which is not defined either when the quotient does not fit. -/
def checkedRem (w : Nat) (a b : Int) : Except (Failure ε) Int := do
  let quotient ← checkedDivTrunc w a b
  .ok (a - quotient * b)

/-- An integer as one of `w` bits: `@intCast`. -/
def checkedCast (w k : Nat) : Except (Failure ε) (BitVec w) :=
  if k < 2 ^ w then .ok (BitVec.ofNat w k) else .error (.trapped .overflow)

/-- The `len` elements of a list from `start`. -/
def checkedRange (xs : List α) (start len : Nat) : Except (Failure ε) (List α) :=
  if start + len ≤ xs.length then .ok ((xs.drop start).take len)
  else .error (.trapped .outOfRange)

/-- `if (c) return error.e` -/
def refuseIf (e : ε) (c : Prop) [Decidable c] : Except (Failure ε) Unit :=
  if c then .error (.returned e) else .ok ()

/-! ## Checks that pass -/

theorem checkedAdd_ok {w a b : Nat} (fits : a + b < 2 ^ w) :
    (checkedAdd w a b : Except (Failure ε) Nat) = .ok (a + b) := if_pos fits

theorem checkedMul_ok {w a b : Nat} (fits : a * b < 2 ^ w) :
    (checkedMul w a b : Except (Failure ε) Nat) = .ok (a * b) := if_pos fits

theorem checkedSub_ok {a b : Nat} (fits : b ≤ a) :
    (checkedSub a b : Except (Failure ε) Nat) = .ok (a - b) := if_pos fits

theorem checkedSigned_ok {w : Nat} {k : Int} (fits : Signed w k) :
    (checkedSigned w k : Except (Failure ε) Int) = .ok k := if_pos fits

theorem checkedDivisor_ok [DecidableEq α] [Zero α] {b : α} (nonzero : b ≠ 0) :
    (checkedDivisor b : Except (Failure ε) α) = .ok b := if_pos nonzero

theorem checkedDivTrunc_ok {w : Nat} {a b : Int} (nonzero : b ≠ 0) (fits : Signed w (a.tdiv b)) :
    (checkedDivTrunc w a b : Except (Failure ε) Int) = .ok (a.tdiv b) := by
  rw [checkedDivTrunc, checkedDivisor_ok nonzero]
  exact checkedSigned_ok fits

theorem checkedRem_ok {w : Nat} {a b : Int} (nonzero : b ≠ 0) (fits : Signed w (a.tdiv b)) :
    (checkedRem w a b : Except (Failure ε) Int) = .ok (a.tmod b) := by
  rw [checkedRem, checkedDivTrunc_ok nonzero fits, Int.tmod_def, Int.mul_comm b]
  rfl

theorem checkedCast_ok {w k : Nat} (fits : k < 2 ^ w) :
    (checkedCast w k : Except (Failure ε) (BitVec w)) = .ok (BitVec.ofNat w k) := if_pos fits

theorem checkedRange_ok {xs : List α} {start len : Nat} (inside : start + len ≤ xs.length) :
    (checkedRange xs start len : Except (Failure ε) (List α)) = .ok ((xs.drop start).take len) :=
  if_pos inside

theorem refuseIf_eq_ok {e : ε} {c : Prop} [Decidable c] {u : Unit} :
    refuseIf e c = .ok u ↔ ¬c := by
  unfold refuseIf
  split
  · rename_i refused
    simp [refused]
  · rename_i passed
    simp [passed]

/-- A check that fails is a trap. -/
theorem check_traps {c : Prop} [Decidable c] {a : α} {t : Trap} {f : Failure ε}
    (failed : (if c then .ok a else .error (.trapped t) : Except (Failure ε) α) = .error f) :
    ∃ t, f = .trapped t := by
  split at failed <;> cases failed
  exact ⟨t, rfl⟩

/-! ## Computations with a single error -/

/-- The computation fails with the error `e` if it fails, and with nothing else. -/
def OnlyFails (e : ε) (x : Except (Failure ε) α) : Prop := ∀ f, x = .error f → f = .returned e

namespace OnlyFails

variable {β : Type} {e : ε}

theorem ok (a : α) : OnlyFails e (.ok a) := nofun

theorem refuse (c : Prop) [Decidable c] : OnlyFails e (refuseIf e c) := by
  intro f failed
  unfold refuseIf at failed
  split at failed
  · cases failed
    rfl
  · cases failed

/-- What comes after a computation may use that it succeeded. -/
theorem bind {x : Except (Failure ε) α} {g : α → Except (Failure ε) β} (first : OnlyFails e x)
    (rest : ∀ a, x = .ok a → OnlyFails e (g a)) : OnlyFails e (x >>= g) := by
  intro f failed
  cases outcome : x with
  | error f' =>
      rw [outcome] at failed
      cases failed
      exact first f outcome
  | ok a =>
      rw [outcome] at failed
      exact rest a outcome f failed

theorem bind_ok {x : Except (Failure ε) α} {a : α} (passed : x = .ok a)
    {g : α → Except (Failure ε) β} (rest : OnlyFails e (g a)) : OnlyFails e (x >>= g) := by
  rw [passed]
  exact rest

theorem bind_refuse {c : Prop} [Decidable c] {g : Unit → Except (Failure ε) β}
    (rest : ¬c → OnlyFails e (g ())) : OnlyFails e (refuseIf e c >>= g) :=
  (refuse c).bind fun _ passed => rest (refuseIf_eq_ok.1 passed)

theorem forM {list : List α} {body : α → Except (Failure ε) Unit}
    (each : ∀ a ∈ list, OnlyFails e (body a)) : OnlyFails e (ForM.forM list body) := by
  induction list with
  | nil => exact .ok ()
  | cons a rest ih =>
      rw [List.forM_cons]
      exact (each a (by simp)).bind fun _ _ => ih fun b listed => each b (by simp [listed])

end OnlyFails

/-! ## Computations that do not trap -/

/-- The computation may fail, but not with a trap. -/
def TrapFree (x : Except (Failure ε) α) : Prop := ∀ t, x ≠ .error (.trapped t)

namespace TrapFree

variable {β : Type}

theorem ok (a : α) : TrapFree (.ok a : Except (Failure ε) α) := nofun

theorem returned (e : ε) : TrapFree (.error (.returned e) : Except (Failure ε) α) := nofun

theorem of_ok {x : Except (Failure ε) α} {a : α} (passed : x = .ok a) : TrapFree x := by
  rw [passed]
  exact .ok a

/-- What comes after a computation may use that it succeeded. -/
theorem bind {x : Except (Failure ε) α} {g : α → Except (Failure ε) β} (first : TrapFree x)
    (rest : ∀ a, x = .ok a → TrapFree (g a)) : TrapFree (x >>= g) := by
  intro t trapped
  cases outcome : x with
  | error f =>
      rw [outcome] at trapped
      cases trapped
      exact first t outcome
  | ok a =>
      rw [outcome] at trapped
      exact rest a outcome t trapped

theorem forM {list : List α} {body : α → Except (Failure ε) Unit}
    (each : ∀ a ∈ list, TrapFree (body a)) : TrapFree (ForM.forM list body) := by
  induction list with
  | nil => exact .ok ()
  | cons a rest ih =>
      rw [List.forM_cons]
      exact (each a (by simp)).bind fun _ _ => ih fun b listed => each b (by simp [listed])

end TrapFree

/-- A loop succeeds when every turn does. -/
theorem forM_eq_ok {list : List α} {body : α → Except (Failure ε) Unit} {u : Unit} :
    forM list body = .ok u ↔ ∀ a ∈ list, body a = .ok () := by
  induction list with
  | nil => simp [pure, Except.pure]
  | cons a rest ih =>
      rw [List.forM_cons]
      cases outcome : body a with
      | error e => simp [Bind.bind, Except.bind, outcome]
      | ok v => simpa [Bind.bind, Except.bind, outcome] using ih

end Determinant.Foundations
