import Determinant.Foundations.Regions

/-!
# Memories with holes

A partial map gives an address a cell, or nothing where there is none. Reading consecutive
cells succeeds when all of them are there (`cellsAt`), and writing them replaces the cells of
their addresses (`overwrite`). An array is the map that is defined below its size
(`ofCells`); there the two operations are the regions of the array and their patches
(`cellsAt_ofCells`, `overwrite_ofCells`).
-/

set_option autoImplicit false

namespace Determinant.Foundations

variable {α : Type} {n : Nat}

/-- The cells at `len` consecutive addresses, if all of them are there. -/
def cellsAt (map : Nat → Option α) (addr : Nat) : Nat → Option (List α)
  | 0 => some []
  | len + 1 => (map addr).bind fun cell => (cellsAt map (addr + 1) len).map (cell :: ·)

/-- The map with the cells from `addr` replaced by `xs`. -/
def overwrite (map : Nat → Option α) (addr : Nat) (xs : List α) : Nat → Option α := fun x =>
  if addr ≤ x then xs[x - addr]?.or (map x) else map x

/-- The map of an array. -/
def ofCells (cells : Fin n → α) : Nat → Option α := fun x =>
  if inside : x < n then some (cells ⟨x, inside⟩) else none

theorem ofCells_inside (cells : Fin n → α) {x : Nat} (inside : x < n) :
    ofCells cells x = some (cells ⟨x, inside⟩) :=
  dif_pos inside

theorem ofCells_outside (cells : Fin n → α) {x : Nat} (outside : n ≤ x) :
    ofCells cells x = none :=
  dif_neg (Nat.not_lt.2 outside)

/-- **A region of an array.** -/
theorem cellsAt_ofCells (cells : Fin n → α) {addr len : Nat} (inside : addr + len ≤ n) :
    cellsAt (ofCells cells) addr len = some (slice cells addr len inside) := by
  induction len generalizing addr with
  | zero => rfl
  | succ len ih =>
      have rest := @ih (addr + 1) (by omega)
      have first : addr < n := by omega
      rw [cellsAt, ofCells_inside cells first, rest]
      simp [slice, List.ofFn_succ, Nat.add_assoc, Nat.add_comm 1]

/-- **There is no region across the end of an array.** -/
theorem cellsAt_ofCells_outside (cells : Fin n → α) {addr len : Nat} (outside : n < addr + len)
    (nonempty : len ≠ 0) : cellsAt (ofCells cells) addr len = none := by
  induction len generalizing addr with
  | zero => exact absurd rfl nonempty
  | succ len ih =>
      by_cases last : len = 0
      · subst last
        rw [cellsAt, ofCells_outside cells (by omega)]
        rfl
      · have rest := @ih (addr + 1) (by omega) last
        rw [cellsAt, rest]
        cases ofCells cells addr <;> rfl

/-- **A patch of an array.** -/
theorem overwrite_ofCells (cells : Fin n → α) {addr : Nat} {xs : List α}
    (inside : addr + xs.length ≤ n) :
    overwrite (ofCells cells) addr xs = ofCells (patch cells addr xs) := by
  funext x
  unfold overwrite
  by_cases within : addr ≤ x ∧ x < addr + xs.length
  · obtain ⟨after, before⟩ := within
    have inArray : x < n := by omega
    rw [if_pos after, ofCells_inside (patch cells addr xs) inArray,
      patch_inside cells addr xs ⟨x, inArray⟩ after before, List.getElem?_eq_getElem (by omega)]
    rfl
  · have kept : (if addr ≤ x then xs[x - addr]?.or (ofCells cells x) else ofCells cells x) =
        ofCells cells x := by
      split
      · rw [List.getElem?_eq_none (by omega)]
        rfl
      · rfl
    rw [kept]
    have around : x < addr ∨ addr + xs.length ≤ x := by omega
    by_cases inArray : x < n
    · rw [ofCells_inside cells inArray, ofCells_inside (patch cells addr xs) inArray,
        patch_outside cells addr xs ⟨x, inArray⟩ around]
    · rw [ofCells_outside cells (by omega), ofCells_outside (patch cells addr xs) (by omega)]

end Determinant.Foundations
