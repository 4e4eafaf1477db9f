import Mathlib.Data.List.Perm.Basic

/-!
# Folds of steps that may fail

Two computations are alike when they succeed with the same values (`Alike`); how they fail does
not matter. When any two steps of a fold can be exchanged in this sense, the folds over a list
and over its permutations are alike (`foldlM_perm`).
-/

set_option autoImplicit false

namespace Determinant.Foundations

variable {ε α β : Type}

/-- They succeed with the same values. -/
def Alike (x y : Except ε α) : Prop := ∀ a, x = .ok a ↔ y = .ok a

namespace Alike

theorem refl (x : Except ε α) : Alike x x := fun _ => Iff.rfl

theorem bind {x y : Except ε α} (alike : Alike x y) (f : α → Except ε β) :
    Alike (x >>= f) (y >>= f) := by
  intro b
  cases x with
  | ok a => rw [(alike a).1 rfl]
  | error e =>
      cases y with
      | error e' => exact ⟨nofun, nofun⟩
      | ok a => cases (alike a).2 rfl

theorem toOption_eq {x y : Except ε α} (alike : Alike x y) : x.toOption = y.toOption := by
  cases x with
  | ok a => rw [(alike a).1 rfl]
  | error e =>
      cases y with
      | error e' => rfl
      | ok b => cases (alike b).2 rfl

theorem of_toOption {x y : Except ε α} (same : x.toOption = y.toOption) : Alike x y := by
  intro a
  cases x <;> cases y <;> simp_all [Except.toOption]

end Alike

/-- What a fold ends with, if no step fails. -/
theorem toOption_foldlM (step : α → β → Except ε α) (xs : List β) (a : α) :
    (xs.foldlM step a).toOption =
      xs.foldl (fun o x => o.bind fun a => (step a x).toOption) (some a) := by
  have failed : ∀ xs : List β,
      xs.foldl (fun o x => o.bind fun a => (step a x).toOption) none = none := by
    intro xs
    induction xs with
    | nil => rfl
    | cons x xs ih => exact ih
  induction xs generalizing a with
  | nil => rfl
  | cons x xs ih =>
      rw [List.foldlM_cons, List.foldl_cons, Option.bind_some]
      cases outcome : step a x with
      | ok b => exact ih b
      | error e => exact (failed xs).symm

/-- **The order of steps that can be exchanged does not matter.** -/
theorem foldlM_perm {step : α → β → Except ε α} {xs ys : List β} (perm : xs.Perm ys)
    (exchange : ∀ x ∈ xs, ∀ y ∈ xs, ∀ a,
      Alike (step a x >>= fun b => step b y) (step a y >>= fun b => step b x)) (a : α) :
    Alike (xs.foldlM step a) (ys.foldlM step a) := by
  have bind_toOption : ∀ (x : Except ε α) (y : β),
      (x >>= fun b => step b y).toOption = x.toOption.bind fun b => (step b y).toOption := by
    intro x y
    cases x <;> rfl
  apply Alike.of_toOption
  rw [toOption_foldlM, toOption_foldlM]
  refine perm.foldl_eq' (fun x listed y listed' o => ?_) _
  cases o with
  | none => rfl
  | some a =>
      have same := (exchange x listed y listed' a).toOption_eq
      rwa [bind_toOption, bind_toOption] at same

end Determinant.Foundations
