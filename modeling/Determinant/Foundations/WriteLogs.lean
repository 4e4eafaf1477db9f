import Determinant.Foundations.Regions
import Mathlib.Data.List.Induction

/-!
# Logs of writes

A log is a list of writes, each a start and the cells written from there on. After the writes
of a log a cell holds what the latest write of it put there, and what it held before if there
was none (`patchAll_apply`). Which write that is depends on the log alone (`latest`): the last
one, in the order of the log, whose region contains the cell (`latest_split`).
-/

set_option autoImplicit false

namespace Determinant.Foundations

variable {α : Type} {n : Nat}

/-- What a write puts in a cell, if it writes it. -/
def written (write : Nat × List α) (i : Nat) : Option α :=
  if write.1 ≤ i then write.2[i - write.1]? else none

/-- What the latest write of a cell put there. -/
def latest (log : List (Nat × List α)) (i : Nat) : Option α :=
  log.reverse.findSome? fun write => written write i

/-- The array after the writes of a log. -/
def patchAll (cells : Fin n → α) (log : List (Nat × List α)) : Fin n → α :=
  log.foldl (fun cells write => patch cells write.1 write.2) cells

/-! ## One write -/

theorem written_eq_none {write : Nat × List α} {i : Nat} :
    written write i = none ↔ ¬(write.1 ≤ i ∧ i < write.1 + write.2.length) := by
  unfold written
  split
  · rw [List.getElem?_eq_none_iff]
    omega
  · simp_all

theorem written_inside (write : Nat × List α) {i : Nat} (after : write.1 ≤ i)
    (before : i - write.1 < write.2.length) : written write i = some write.2[i - write.1] := by
  rw [written, if_pos after, List.getElem?_eq_getElem before]

theorem patch_apply (cells : Fin n → α) (start : Nat) (xs : List α) (i : Fin n) :
    patch cells start xs i = (written (start, xs) i.val).getD (cells i) := by
  by_cases inside : start ≤ i.val ∧ i.val < start + xs.length
  · rw [patch_inside _ _ _ _ inside.1 inside.2,
      written_inside (start, xs) inside.1 (by dsimp only; omega)]
    rfl
  · rw [patch_outside _ _ _ _ (by omega), written_eq_none.2 inside]
    rfl

/-- A write of two lists, one behind the other, is two writes. -/
theorem patch_append (cells : Fin n → α) (start : Nat) (xs ys : List α) :
    patch cells start (xs ++ ys) = patch (patch cells start xs) (start + xs.length) ys := by
  funext i
  simp only [patch, List.length_append]
  by_cases second : start + xs.length ≤ i.val ∧ i.val < start + xs.length + ys.length
  · rw [dif_pos second, dif_pos (by omega), List.getElem_append_right (by omega)]
    congr 1
    omega
  · rw [dif_neg second]
    by_cases first : start ≤ i.val ∧ i.val < start + xs.length
    · rw [dif_pos first, dif_pos (by omega), List.getElem_append_left (by omega)]
    · rw [dif_neg first, dif_neg (by omega)]

/-! ## The latest write -/

@[simp] theorem latest_nil (i : Nat) : latest ([] : List (Nat × List α)) i = none := rfl

theorem latest_concat (log : List (Nat × List α)) (write : Nat × List α) (i : Nat) :
    latest (log ++ [write]) i = (written write i).or (latest log i) := by
  rw [latest, List.reverse_append, List.reverse_singleton, List.singleton_append,
    List.findSome?_cons]
  cases written write i <;> rfl

/-- **A cell holds what the latest write put there.** -/
theorem patchAll_apply (cells : Fin n → α) (log : List (Nat × List α)) (i : Fin n) :
    patchAll cells log i = (latest log i.val).getD (cells i) := by
  induction log using List.reverseRecOn with
  | nil => rfl
  | append_singleton log write ih =>
      rw [patchAll, List.foldl_append, List.foldl_cons, List.foldl_nil, patch_apply, latest_concat]
      cases written (write.1, write.2) i.val with
      | some x => rfl
      | none => exact ih

/-- **The latest write is the last one that contains the cell.** -/
theorem latest_split {before after : List (Nat × List α)} {write : Nat × List α} {i : Nat}
    (last : ∀ later ∈ after, written later i = none) (isWritten : (written write i).isSome) :
    latest (before ++ write :: after) i = written write i := by
  induction after using List.reverseRecOn with
  | nil =>
      rw [latest_concat]
      cases put : written write i with
      | some x => rfl
      | none => simp [put] at isWritten
  | append_singleton after later ih =>
      rw [← List.cons_append, ← List.append_assoc, latest_concat, last later (by simp)]
      exact ih fun other listed => last other (by simp [listed])

theorem latest_eq_none {log : List (Nat × List α)} {i : Nat}
    (unwritten : ∀ write ∈ log, written write i = none) : latest log i = none := by
  rw [latest, List.findSome?_eq_none_iff]
  simpa using unwritten

end Determinant.Foundations
