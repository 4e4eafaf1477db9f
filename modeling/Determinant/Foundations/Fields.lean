import Determinant.Foundations.BitPatterns
import Mathlib.Tactic.Ring

/-!
# Words put together from fields

An encoder shifts its fields to their places and joins them; a decoder reads them back. A
field read from a joined word is the one that was put there (`field_place`), and one from
another place is zero (`field_place_apart`), so `field_or` reads a whole word. An immediate
that is scattered over several fields is put together again by `getLsbD_placed_field`, bit by
bit. Sign extension comes in three forms: of a bit vector, by shifting to the left and back
(`shift_signExtend`), and by shifting an upper field to the right (`sshiftRight_field`). Two
words are compared field by field with `SameBits`.
-/

set_option autoImplicit false

namespace Determinant.Foundations

variable {w k j s t : Nat}

/-! ## Reading fields -/

theorem field_or (a b : BitVec w) : field s k (a ||| b) = field s k a ||| field s k b := by
  apply BitVec.eq_of_getLsbD_eq
  intro i hi
  simp [field, hi]

/-- A field is read back from its place. -/
theorem field_place (fits : s + k ≤ w) (x : BitVec k) : field s k (x.setWidth w <<< s) = x := by
  apply BitVec.eq_of_getLsbD_eq
  intro i hi
  have inside : s + i < w := by omega
  simp [field, hi, inside]

/-- At any other place there is nothing of it. -/
theorem field_place_apart (apart : t + j ≤ s ∨ s + k ≤ t) (x : BitVec j) :
    field s k (x.setWidth w <<< t) = 0#k := by
  apply BitVec.eq_of_getLsbD_eq
  intro i hi
  simp only [field, BitVec.getLsbD_setWidth, BitVec.getLsbD_ushiftRight, BitVec.getLsbD_shiftLeft,
    BitVec.getLsbD_zero, hi, decide_true, Bool.true_and]
  rcases apart with above | below
  · rw [BitVec.getLsbD_of_ge x (s + i - t) (by omega)]
    simp
  · simp [show s + i < t by omega]

theorem field_zero (raw : BitVec w) : field 0 k raw = raw.setWidth k := by
  simp [field]

theorem field_setWidth (fits : s + k ≤ w) (x : BitVec j) :
    field s k (x.setWidth w) = field s k x := by
  apply BitVec.eq_of_getLsbD_eq
  intro i hi
  simp [field, hi, show s + i < w by omega]

/-- The lowest field is not shifted. -/
theorem field_low (fits : k ≤ w) (x : BitVec k) : field 0 k (x.setWidth w) = x := by
  simpa using field_place (s := 0) (by simpa using fits) x

theorem field_low_apart (above : j ≤ s) (x : BitVec j) : field s k (x.setWidth w) = 0#k := by
  simpa using field_place_apart (t := 0) (w := w) (k := k) (.inl (by simpa using above)) x

theorem field_self (x : BitVec w) : field 0 w x = x := by
  simp [field]

theorem extractLsb'_eq_field (x : BitVec w) (s k : Nat) : x.extractLsb' s k = field s k x := by
  apply BitVec.eq_of_getLsbD_eq
  intro i hi
  simp [field]

/-- A field of the lower part of a joined word. -/
theorem field_append_low (a : BitVec t) (b : BitVec j) (low : s + k ≤ j) :
    field s k (a ++ b) = field s k b := by
  apply BitVec.eq_of_getLsbD_eq
  intro i hi
  have inside : s + i < j := by omega
  simp [field, hi, inside, BitVec.getLsbD_append]

/-- A field of the upper part. -/
theorem field_append_high (a : BitVec t) (b : BitVec j) (s k : Nat) :
    field (j + s) k (a ++ b) = field s k a := by
  apply BitVec.eq_of_getLsbD_eq
  intro i hi
  have above : ¬j + s + i < j := by omega
  have back : j + s + i - j = s + i := by omega
  simp [field, hi, above, back, BitVec.getLsbD_append]

/-- A shift and a mask of ones read a field. -/
theorem shift_mask (raw : BitVec w) (s k : Nat) :
    (raw >>> s) &&& (BitVec.allOnes k).setWidth w = (field s k raw).setWidth w := by
  apply BitVec.eq_of_getLsbD_eq
  intro i hi
  simp only [field, BitVec.getLsbD_and, BitVec.getLsbD_ushiftRight, BitVec.getLsbD_setWidth,
    BitVec.getLsbD_allOnes, hi, decide_true, Bool.true_and]
  rw [Bool.and_comm]

/-- A field of a short number is read after it was extended. -/
theorem extended_mask (fits : s + k ≤ w) (x : BitVec j) :
    (x.setWidth w >>> s) &&& (BitVec.allOnes k).setWidth w = (field s k x).setWidth w := by
  rw [shift_mask, field_setWidth fits]

/-- The mask of a field keeps it at its place. -/
theorem placed_mask (fits : s + k ≤ w) (raw : BitVec w) :
    raw &&& ((BitVec.allOnes k).setWidth w <<< s) = (field s k raw).setWidth w <<< s :=
  (matches_field fits raw _).2 rfl

/-- The bits of a field that is put back at its place. -/
theorem getLsbD_placed_field (x : BitVec j) (s k i : Nat) :
    ((field s k x).setWidth w <<< s).getLsbD i =
      (decide (i < w) && decide (s ≤ i) && decide (i < s + k) && x.getLsbD i) := by
  simp only [field, BitVec.getLsbD_shiftLeft, BitVec.getLsbD_setWidth, BitVec.getLsbD_ushiftRight]
  by_cases before : i < s
  · simp [before, Nat.not_le.2 before]
  · have back : s + (i - s) = i := by omega
    by_cases inside : i < s + k
    · have within : i - s < k := by omega
      have small : i < w → i - s < w := by omega
      by_cases hi : i < w
      · simp [before, hi, small hi, inside, within, back, Nat.not_lt.1 before]
      · simp [hi]
    · have outside : ¬i - s < k := by omega
      simp [inside, outside]

/-! ## Sign extension -/

/-- Shifting the lowest `k` bits to the top and back extends their sign. -/
theorem shift_signExtend (positive : 0 < k) (fits : k ≤ w) (x : BitVec w) :
    (x <<< (w - k)).sshiftRight (w - k) = (x.setWidth k).signExtend w := by
  apply BitVec.eq_of_getLsbD_eq
  intro i hi
  simp only [BitVec.getLsbD_sshiftRight, BitVec.getLsbD_signExtend, BitVec.getLsbD_shiftLeft,
    BitVec.getLsbD_setWidth, BitVec.msb_eq_getLsbD_last]
  by_cases low : i < k
  · simp [hi, low, show ¬w ≤ i by omega, show w - k + i < w by omega]
  · simp [hi, low, show ¬w ≤ i by omega, show ¬w - k + i < w by omega,
      show ¬w - 1 < w - k by omega, show w - 1 - (w - k) = k - 1 by omega,
      show w - 1 < w by omega, show k - 1 < k by omega]

/-- Shifting the upper bits of a word to the right extends their sign. -/
theorem sshiftRight_field (fits : s + k = w) (positive : 0 < k) (x : BitVec w) :
    x.sshiftRight s = (field s k x).signExtend w := by
  apply BitVec.eq_of_getLsbD_eq
  intro i hi
  simp only [field, BitVec.getLsbD_sshiftRight, BitVec.getLsbD_signExtend, BitVec.getLsbD_setWidth,
    BitVec.getLsbD_ushiftRight, BitVec.msb_eq_getLsbD_last]
  by_cases low : i < k
  · simp [hi, low, show ¬w ≤ i by omega, show s + i < w by omega]
  · simp [hi, low, show ¬w ≤ i by omega, show ¬s + i < w by omega,
      show s + (k - 1) = w - 1 by omega, show k - 1 < k by omega]

/-- A bit vector whose sign was extended fits wherever its own bits do. -/
theorem signExtend_fits (narrow : j ≤ k) (positive : 0 < j) (fits : k ≤ w) (x : BitVec j) :
    ((x.signExtend w).setWidth k).signExtend w = x.signExtend w := by
  apply BitVec.eq_of_getLsbD_eq
  intro i hi
  simp only [BitVec.getLsbD_signExtend, BitVec.getLsbD_setWidth, BitVec.msb_eq_getLsbD_last]
  by_cases low : i < k
  · simp [hi, low]
  · by_cases same : k - 1 < j
    · simp [hi, low, show ¬i < j by omega, show k - 1 = j - 1 by omega, show j - 1 < w by omega]
      omega
    · simp [hi, low, show ¬i < j by omega, same, show k - 1 < w by omega, show k - 1 < k by omega]

/-- So does a small number. -/
theorem small_fits {x : BitVec w} (bound : x.toNat < 2 ^ (k - 1)) :
    (x.setWidth k).signExtend w = x := by
  have clear : ∀ i, k - 1 ≤ i → x.getLsbD i = false := by
    intro i high
    rw [BitVec.getLsbD]
    exact Nat.testBit_lt_two_pow (Nat.lt_of_lt_of_le bound (Nat.pow_le_pow_right (by decide) high))
  apply BitVec.eq_of_getLsbD_eq
  intro i hi
  simp only [BitVec.getLsbD_signExtend, BitVec.getLsbD_setWidth, BitVec.msb_eq_getLsbD_last]
  by_cases low : i < k
  · simp [hi, low]
  · rw [clear i (by omega), clear (k - 1) (Nat.le_refl _)]
    simp [low]

/-- The bits that a shift to the left pushes out do not matter. -/
theorem shiftLeft_setWidth (fits : s + k = w) (x : BitVec w) :
    (x.setWidth k).setWidth w <<< s = x <<< s := by
  apply BitVec.eq_of_getLsbD_eq
  intro i hi
  simp only [BitVec.getLsbD_shiftLeft, BitVec.getLsbD_setWidth, hi, decide_true, Bool.true_and]
  by_cases before : i < s
  · simp [before]
  · simp [before, show i - s < w by omega, show i - s < k by omega]

/-! ## Comparing words -/

/-- The words have the same bits from `lo` on and below `hi`. -/
def SameBits (lo hi : Nat) (x y : BitVec w) : Prop :=
  ∀ i, lo ≤ i → i < hi → x.getLsbD i = y.getLsbD i

variable {x y : BitVec w}

/-- **Two words have the same bits in a field when the field has one value.** -/
theorem sameBits_of_field {hi : Nat} (width : s + k = hi) (same : field s k x = field s k y) :
    SameBits s hi x y := by
  intro i above below
  have bit := congrArg (fun z => z.getLsbD (i - s)) same
  simpa [field, show i - s < k by omega, show s + (i - s) = i by omega] using bit

theorem SameBits.trans {lo mid hi : Nat} (low : SameBits lo mid x y) (high : SameBits mid hi x y) :
    SameBits lo hi x y := by
  intro i above below
  by_cases before : i < mid
  · exact low i above before
  · exact high i (Nat.not_lt.1 before) below

/-- A field below the sign is not changed by extending it. -/
theorem field_signExtend (fits : s + k ≤ j) (wider : j ≤ w) (x : BitVec j) :
    field s k (x.signExtend w) = field s k x := by
  apply BitVec.eq_of_getLsbD_eq
  intro i hi
  simp only [field, BitVec.getLsbD_setWidth, BitVec.getLsbD_ushiftRight,
    BitVec.getLsbD_signExtend, hi, show s + i < w by omega, show s + i < j by omega, decide_true,
    Bool.true_and, if_true]

/-! ## Small numbers -/

theorem or_small {x y : BitVec w} (left : x.toNat < 2 ^ k) (right : y.toNat < 2 ^ k) :
    (x ||| y).toNat < 2 ^ k := by
  rw [BitVec.toNat_or]
  exact Nat.or_lt_two_pow left right

theorem and_small (x : BitVec w) {mask : BitVec w} (small : mask.toNat < 2 ^ k) :
    (x &&& mask).toNat < 2 ^ k := by
  rw [BitVec.toNat_and]
  exact Nat.and_lt_two_pow _ small

end Determinant.Foundations
