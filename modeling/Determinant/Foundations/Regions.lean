import Mathlib.Data.List.OfFn

/-!
# Regions of an array

An array of `n` cells is a function on `Fin n`. `slice` reads the cells of a region as a list,
and needs the region to lie inside the array. `patch` overwrites a region with a list, and
leaves every other cell alone. A read sees exactly what the last overlapping write put there:
the written cells (`slice_patch_same`), and the old ones where the regions are disjoint
(`slice_patch_disjoint`).

A loop that writes chunks of one width is `patchChunks`. An array whose fields are written one
after the other, each where the last one ended, becomes the array whose fields they are,
whatever it held before (`AgreeBelow.patch`, `AgreeBelow.patchChunks`).
-/

set_option autoImplicit false

namespace Determinant.Foundations

variable {α : Type} {n : Nat}

/-! ## Arrays -/

/-- The `len` cells from `start`. -/
def slice (cells : Fin n → α) (start len : Nat) (inside : start + len ≤ n) : List α :=
  List.ofFn fun i : Fin len => cells ⟨start + i, by omega⟩

/-- The array with the cells from `start` overwritten by `xs`. -/
def patch (cells : Fin n → α) (start : Nat) (xs : List α) : Fin n → α := fun i =>
  if h : start ≤ i.val ∧ i.val < start + xs.length then xs[i.val - start] else cells i

theorem whole_inside (n : Nat) : 0 + n ≤ n := Nat.le_of_eq (Nat.zero_add n)

/-- All cells. -/
abbrev whole (cells : Fin n → α) : List α := slice cells 0 n (whole_inside n)

@[simp] theorem length_slice (cells : Fin n → α) (start len : Nat) (inside : start + len ≤ n) :
    (slice cells start len inside).length = len := by
  simp [slice]

@[simp] theorem getElem_slice (cells : Fin n → α) (start len : Nat) (inside : start + len ≤ n)
    (i : Nat) (h : i < (slice cells start len inside).length) :
    (slice cells start len inside)[i] =
      cells ⟨start + i, by rw [length_slice] at h; omega⟩ := by
  simp [slice]

theorem patch_inside (cells : Fin n → α) (start : Nat) (xs : List α) (i : Fin n)
    (after : start ≤ i.val) (before : i.val < start + xs.length) :
    patch cells start xs i = xs[i.val - start] := by
  simp [patch, after, before]

theorem patch_outside (cells : Fin n → α) (start : Nat) (xs : List α) (i : Fin n)
    (outside : i.val < start ∨ start + xs.length ≤ i.val) :
    patch cells start xs i = cells i := by
  have notInside : ¬(start ≤ i.val ∧ i.val < start + xs.length) := by omega
  simp only [patch, dif_neg notInside]

@[simp] theorem patch_nil (cells : Fin n → α) (start : Nat) : patch cells start [] = cells := by
  funext i
  exact patch_outside cells start [] i (by simp; omega)

/-- Regions of arrays that agree there are the same. -/
theorem slice_congr {cells cells' : Fin n → α} {start len : Nat} (inside : start + len ≤ n)
    (agree : ∀ i : Fin n, start ≤ i.val → i.val < start + len → cells i = cells' i) :
    slice cells start len inside = slice cells' start len inside := by
  apply List.ext_getElem (by simp)
  intro i h _
  rw [length_slice] at h
  simp only [getElem_slice]
  exact agree _ (by simp) (by simp; omega)

/-- A region is its first cells and the rest. -/
theorem slice_add (cells : Fin n → α) (start len len' : Nat)
    (inside : start + (len + len') ≤ n) :
    slice cells start (len + len') inside =
      slice cells start len (by omega) ++ slice cells (start + len) len' (by omega) := by
  apply List.ext_getElem (by simp)
  intro i h h'
  rw [length_slice] at h
  by_cases first : i < len
  · rw [List.getElem_append_left (by simpa using first)]
    simp
  · rw [List.getElem_append_right (by simpa using first)]
    simp only [getElem_slice, length_slice]
    congr 2
    omega

/-- **A read of the region just written gives what was written.** -/
theorem slice_patch_same (cells : Fin n → α) (start : Nat) (xs : List α)
    (inside : start + xs.length ≤ n) :
    slice (patch cells start xs) start xs.length inside = xs := by
  apply List.ext_getElem (by simp)
  intro i h h'
  rw [length_slice] at h
  rw [getElem_slice, patch_inside _ _ _ _ (by simp) (by simp; omega)]
  simp

theorem slice_patch_field (cells : Fin n → α) (start : Nat) {xs : List α} {len : Nat}
    (field : xs.length = len) (inside : start + len ≤ n) :
    slice (patch cells start xs) start len inside = xs := by
  subst field
  exact slice_patch_same cells start xs inside

/-- **A read of a disjoint region gives what was there.** -/
theorem slice_patch_disjoint (cells : Fin n → α) (start : Nat) (xs : List α)
    (start' len' : Nat) (inside : start' + len' ≤ n)
    (disjoint : start' + len' ≤ start ∨ start + xs.length ≤ start') :
    slice (patch cells start xs) start' len' inside = slice cells start' len' inside := by
  apply slice_congr
  intro i after before
  exact patch_outside _ _ _ _ (by omega)

/-- A region that is written over itself stays as it is. -/
theorem patch_slice_self (cells : Fin n → α) (start len : Nat) (inside : start + len ≤ n) :
    patch cells start (slice cells start len inside) = cells := by
  funext i
  by_cases within : start ≤ i.val ∧ i.val < start + len
  · rw [patch_inside _ _ _ _ within.1 (by rw [length_slice]; exact within.2), getElem_slice]
    congr 1
    exact Fin.ext (by dsimp only; omega)
  · exact patch_outside _ _ _ _ (by rw [length_slice]; omega)

/-- The cells of a whole array, and the array made of them. -/
theorem patch_slice_all (cells cells' : Fin n → α) :
    patch cells' 0 (slice cells 0 n (whole_inside n)) = cells := by
  funext i
  rw [patch_inside _ _ _ _ (by omega) (by simp)]
  simp

/-- A list as long as an array is read back after it was written over the array. -/
theorem slice_patch_all (cells : Fin n → α) {xs : List α} (len : xs.length = n) :
    slice (patch cells 0 xs) 0 n (whole_inside n) = xs := by
  subst len
  exact slice_patch_same cells 0 xs (by omega)

/-- A read within a list that was written from the first cell on. -/
theorem slice_patch_zero (cells : Fin n → α) (xs : List α) (start len : Nat)
    (inside : start + len ≤ n) (written : start + len ≤ xs.length) :
    slice (patch cells 0 xs) start len inside = (xs.drop start).take len := by
  apply List.ext_getElem (by simp; omega)
  intro i h h'
  rw [length_slice] at h
  rw [getElem_slice, patch_inside _ _ _ _ (by omega) (by simp; omega)]
  simp

/-- Every region is a part of the list of all cells. -/
theorem take_drop_slice_all (cells : Fin n → α) (start len : Nat) (inside : start + len ≤ n) :
    ((slice cells 0 n (whole_inside n)).drop start).take len = slice cells start len inside := by
  rw [← slice_patch_zero cells _ start len inside (by simpa using inside), patch_slice_all]

/-! ## Regions that share a cell -/

/-- Some cell is in both `[start, start + len)` and `[start', start' + len')`. -/
def Overlap (start len start' len' : Nat) : Prop :=
  ∃ i, (start ≤ i ∧ i < start + len) ∧ start' ≤ i ∧ i < start' + len'

/-- Two regions that are not empty overlap when each starts before the other ends. -/
theorem overlap_iff {start len start' len' : Nat} :
    Overlap start len start' len' ↔
      len ≠ 0 ∧ len' ≠ 0 ∧ start < start' + len' ∧ start' < start + len := by
  constructor
  · rintro ⟨i, _, _⟩
    omega
  · rintro ⟨_, _, _, _⟩
    -- The later of the two starts is in both.
    exact ⟨max start start', by omega, by omega⟩

theorem not_overlap_empty (start start' len' : Nat) : ¬Overlap start 0 start' len' :=
  fun shared => (overlap_iff.1 shared).1 rfl

/-! ## Chunks of one width -/

/-- The array with `k` chunks of one width written one after the other from `start` on. -/
def patchChunks (cells : Fin n → α) (start width : Nat) (chunks : Nat → List α) :
    Nat → Fin n → α
  | 0 => cells
  | k + 1 => patch (patchChunks cells start width chunks k) (start + width * k) (chunks k)

theorem slice_patchChunks_outside (cells : Fin n → α) (start width : Nat)
    {chunks : Nat → List α} (len : ∀ i, (chunks i).length = width) (k : Nat)
    (start' len' : Nat) (inside : start' + len' ≤ n)
    (disjoint : start' + len' ≤ start ∨ start + width * k ≤ start') :
    slice (patchChunks cells start width chunks k) start' len' inside =
      slice cells start' len' inside := by
  induction k with
  | zero => rfl
  | succ k ih =>
      rw [Nat.mul_succ] at disjoint
      rw [patchChunks, slice_patch_disjoint _ _ _ _ _ _ (by rw [len]; omega), ih (by omega)]

theorem slice_patchChunks (cells : Fin n → α) (start width : Nat) {chunks : Nat → List α}
    (len : ∀ i, (chunks i).length = width) (k : Nat) {i : Nat} (written : i < k)
    (inside : start + width * i + width ≤ n) :
    slice (patchChunks cells start width chunks k) (start + width * i) width inside = chunks i := by
  induction k with
  | zero => exact absurd written (Nat.not_lt_zero i)
  | succ k ih =>
      rw [patchChunks]
      by_cases last : i = k
      · subst last
        exact slice_patch_field _ _ (len i) inside
      · have earlier : i + 1 ≤ k := by omega
        have before : width * i + width ≤ width * k := by
          rw [← Nat.mul_succ]
          exact Nat.mul_le_mul_left width earlier
        rw [slice_patch_disjoint _ _ _ _ _ _ (.inl (by omega)), ih (by omega)]

/-! ## Writing an array field by field -/

/-- The two arrays have the same first `k` cells. -/
def AgreeBelow (k : Nat) (cells target : Fin n → α) : Prop :=
  ∀ i : Fin n, i.val < k → cells i = target i

theorem AgreeBelow.zero (cells target : Fin n → α) : AgreeBelow 0 cells target :=
  fun _ below => absurd below (Nat.not_lt_zero _)

/-- **Writing the next field of the target** extends the agreement past the field. -/
theorem AgreeBelow.patch {cells target : Fin n → α} {start : Nat}
    (agree : AgreeBelow start cells target) (len : Nat) (xs : List α) (inside : start + len ≤ n)
    (field : xs = slice target start len inside) :
    AgreeBelow (start + len) (patch cells start xs) target := by
  subst field
  intro i below
  by_cases before : i.val < start
  · rw [patch_outside _ _ _ _ (.inl before), agree i before]
  · rw [patch_inside _ _ _ _ (by omega) (by simpa using below), getElem_slice]
    congr 1
    apply Fin.ext
    simp
    omega

theorem AgreeBelow.patchChunks {cells target : Fin n → α} {start : Nat}
    (agree : AgreeBelow start cells target) (width : Nat) (chunks : Nat → List α) (k : Nat)
    (inside : start + width * k ≤ n)
    (fields : ∀ i (h : start + width * i + width ≤ n), i < k →
      chunks i = slice target (start + width * i) width h) :
    AgreeBelow (start + width * k) (patchChunks cells start width chunks k) target := by
  induction k with
  | zero => exact agree
  | succ k ih =>
      rw [Nat.mul_succ] at inside
      have earlier := ih (by omega) fun i h before => fields i h (by omega)
      have next :=
        earlier.patch width (chunks k) (by omega) (fields k (by omega) (Nat.lt_succ_self k))
      rwa [Nat.add_assoc, ← Nat.mul_succ] at next

theorem AgreeBelow.eq {cells target : Fin n → α} (agree : AgreeBelow n cells target) :
    cells = target :=
  funext fun i => agree i i.isLt

end Determinant.Foundations
