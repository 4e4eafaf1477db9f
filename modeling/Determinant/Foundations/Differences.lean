import Mathlib.Data.List.Nodup
import Mathlib.Logic.Function.Basic

/-!
# Differences of two assignments

The keys of a list at which two functions differ, with the values of the second. Assigning these
values to the first gives the second, if the functions are the same at every other key
(`assign_differences`).
-/

set_option autoImplicit false

namespace Determinant.Foundations

variable {κ α : Type} [DecidableEq α]

/-- The keys at which the functions differ, with the values after. -/
def differences (keys : List κ) (before after : κ → α) : List (κ × α) :=
  keys.filterMap fun k => if after k = before k then none else some (k, after k)

/-- Differences do not depend on what the functions are at other keys. -/
theorem differences_congr {keys : List κ} {before before' after : κ → α}
    (same : ∀ k ∈ keys, before k = before' k) :
    differences keys before after = differences keys before' after := by
  unfold differences
  refine List.filterMap_congr fun k listed => ?_
  rw [same k listed]

/-- Functions that are the same have no differences. -/
theorem differences_eq_nil {keys : List κ} {before after : κ → α}
    (same : ∀ k ∈ keys, after k = before k) : differences keys before after = [] := by
  rw [differences, List.filterMap_eq_nil_iff]
  intro k listed
  rw [if_pos (same k listed)]

section Assign

variable [DecidableEq κ]

/-- One new value is one difference, by induction on the keys. -/
theorem differences_update {keys : List κ} (nodup : keys.Nodup) {before : κ → α} {k : κ} {a : α}
    (listed : k ∈ keys) (changed : a ≠ before k) :
    differences keys before (Function.update before k a) = [(k, a)] := by
  induction keys with
  | nil => exact absurd listed List.not_mem_nil
  | cons j rest ih =>
      obtain ⟨fresh, nodup⟩ := List.nodup_cons.1 nodup
      by_cases here : k = j
      · subst here
        have others : differences rest before (Function.update before k a) = [] :=
          differences_eq_nil fun i listed =>
            Function.update_of_ne (ne_of_mem_of_not_mem listed fresh) _ _
        rw [differences] at others ⊢
        rw [List.filterMap_cons_some (by rw [Function.update_self, if_neg changed]), others]
      · have there := ih nodup ((List.mem_cons.1 listed).resolve_left here)
        rw [differences] at there ⊢
        rw [List.filterMap_cons_none (by rw [Function.update_of_ne (Ne.symm here), if_pos rfl]),
          there]

/-- Assign the values in order. -/
def assign (f : κ → α) (changes : List (κ × α)) : κ → α :=
  changes.foldl (fun f change => Function.update f change.1 change.2) f

omit [DecidableEq α] in
theorem assign_cons (f : κ → α) (k : κ) (a : α) (rest : List (κ × α)) :
    assign f ((k, a) :: rest) = assign (Function.update f k a) rest :=
  rfl

/-- **The differences lead from one function to the other**, by induction on the keys. -/
theorem assign_differences {keys : List κ} (nodup : keys.Nodup) {before after : κ → α}
    (others : ∀ k, k ∉ keys → after k = before k) :
    assign before (differences keys before after) = after := by
  induction keys generalizing before with
  | nil =>
      funext k
      exact (others k List.not_mem_nil).symm
  | cons k rest ih =>
      obtain ⟨fresh, nodup⟩ := List.nodup_cons.1 nodup
      by_cases same : after k = before k
      · have step : differences (k :: rest) before after = differences rest before after := by
          simp [differences, same]
        rw [step]
        refine ih nodup fun j outside => ?_
        by_cases equal : j = k
        · rw [equal, same]
        · exact others j (by simp [equal, outside])
      · have step : differences (k :: rest) before after =
            (k, after k) :: differences rest (Function.update before k (after k)) after := by
          have unchanged : differences rest before after =
              differences rest (Function.update before k (after k)) after := by
            refine differences_congr fun j listed => ?_
            have other : j ≠ k := fun equal => fresh (equal ▸ listed)
            rw [Function.update_of_ne other]
          rw [← unchanged]
          simp [differences, same]
        rw [step, assign_cons]
        refine ih nodup fun j outside => ?_
        by_cases equal : j = k
        · rw [equal, Function.update_self]
        · rw [Function.update_of_ne equal]
          exact others j (by simp [equal, outside])

end Assign

end Determinant.Foundations
