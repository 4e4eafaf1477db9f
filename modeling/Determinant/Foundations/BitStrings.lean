import Determinant.Foundations.Fields

/-!
# Words as strings of bits

A word is also the string of its bits, and some operations are about the string only: to count
the zeros at one of its ends or all its ones, to rotate it, and to look at one bit. Each is
defined or stated bit by bit here, and the operation on words is shown to agree.
-/

set_option autoImplicit false

namespace Determinant.Foundations

variable {w : Nat}

/-! ## Counting -/

/-- The number of zeros below the lowest one. -/
def trailingZeros (x : BitVec w) : Nat := ((List.range w).takeWhile fun i => !x.getLsbD i).length

/-- The number of zeros above the highest one. -/
def leadingZeros (x : BitVec w) : Nat := ((List.range w).takeWhile fun i => !x.getMsbD i).length

/-- The number of ones. -/
def ones (x : BitVec w) : Nat := (List.range w).countP x.getLsbD

/-- The numbers from 0 that satisfy a predicate, up to the first that does not. -/
theorem length_takeWhile_range {p : Nat → Bool} {c : Nat} (small : c ≤ w) (below : ∀ i < c, p i)
    (stops : c < w → p c = false) : ((List.range w).takeWhile p).length = c := by
  obtain ⟨rest, rfl⟩ := Nat.exists_eq_add_of_le small
  have all : ∀ i ∈ List.range c, p i := fun i listed => below i (List.mem_range.1 listed)
  rw [List.range_add, List.takeWhile_append_of_pos all, List.length_append, List.length_range]
  cases rest with
  | zero => rfl
  | succ rest =>
      have first : ¬p (c + 0) = true := by simp [stops (by omega)]
      rw [List.range_succ_eq_map, List.map_cons, List.takeWhile_cons_of_neg first]
      rfl

theorem toNat_width : (w : BitVec w).toNat = w := by
  rw [BitVec.natCast_eq_ofNat, BitVec.toNat_ofNat, Nat.mod_eq_of_lt Nat.lt_two_pow_self]

theorem toNat_ctz (x : BitVec w) : x.ctz.toNat = trailingZeros x := by
  symm
  have bounded : x.ctz.toNat ≤ w := by
    have le := BitVec.le_def.1 (BitVec.clz_le (x := x.reverse))
    rwa [toNat_width, ← BitVec.ctz_eq_reverse_clz] at le
  refine length_takeWhile_range bounded (fun i below => ?_) fun small => ?_
  · simp [BitVec.getLsbD_false_of_lt_ctz below]
  · have nonzero : x ≠ 0#w := by
      rintro rfl
      have zero : (0#w).ctz = w := by
        rw [BitVec.ctz_eq_reverse_clz, BitVec.clz_eq_iff_eq_zero, BitVec.reverse_eq_zero_iff]
      rw [zero, toNat_width] at small
      exact Nat.lt_irrefl _ small
    simp [BitVec.getLsbD_true_ctz_of_ne_zero nonzero]

theorem toNat_clz (x : BitVec w) : x.clz.toNat = leadingZeros x := by
  rw [BitVec.clz_eq_reverse_ctz, toNat_ctz, trailingZeros, leadingZeros]
  simp only [BitVec.getLsbD_reverse]

theorem cpopNatRec_eq_countP (x : BitVec w) (k : Nat) :
    x.cpopNatRec k 0 = (List.range k).countP x.getLsbD := by
  induction k with
  | zero => rfl
  | succ k ih =>
      rw [BitVec.cpopNatRec_succ, BitVec.cpopNatRec_eq, ih, List.range_succ, List.countP_append,
        List.countP_singleton]
      cases x.getLsbD k <;> simp

theorem toNat_cpop (x : BitVec w) : x.cpop.toNat = ones x := by
  rw [BitVec.toNat_cpop, cpopNatRec_eq_countP, ones]

/-! ## Rotating -/

/-- Two shifts whose distances make up the width rotate the string. -/
theorem getLsbD_rotated (x : BitVec w) {s c : Nat} (apart : s + c = w ∨ s = 0 ∧ c = 0) {i : Nat}
    (inside : i < w) : (x <<< s ||| x >>> c).getLsbD ((i + s) % w) = x.getLsbD i := by
  rcases apart with rfl | ⟨rfl, rfl⟩
  · by_cases stays : i + s < s + c
    · rw [Nat.mod_eq_of_lt stays]
      have gone : x.getLsbD (c + (i + s)) = false := BitVec.getLsbD_of_ge x _ (by omega)
      rw [BitVec.getLsbD_or, BitVec.getLsbD_shiftLeft, BitVec.getLsbD_ushiftRight, gone]
      simp [stays, inside]
    · have wraps : (i + s) % (s + c) = i - c := by
        rw [Nat.mod_eq_sub_mod (by omega), Nat.mod_eq_of_lt (by omega)]
        omega
      rw [wraps]
      have low : i - c < s := by omega
      have back : c + (i - c) = i := by omega
      simp [low, back]
  · simp [Nat.mod_eq_of_lt inside]

/-! ## Single bits -/

theorem getLsbD_one_shiftLeft {s i : Nat} (inside : i < w) :
    (1#w <<< s).getLsbD i = decide (i = s) := by
  rw [← BitVec.twoPow_eq, BitVec.getLsbD_twoPow]
  by_cases here : i = s
  · simp [← here, inside]
  · simp [here, Ne.symm here]

end Determinant.Foundations
