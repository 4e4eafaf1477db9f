import Determinant.Foundations.Fields

/-!
# Machine words as integers

A word of `w` bits stands for an integer modulo `2 ^ w`, and `BitVec.ofInt w` takes an integer
to its word. The operations on words are operations on the integers that the words stand for,
signed or unsigned, and then this map: sums and differences, products and quotients, shifts as
products and quotients by powers of two, where the arithmetic shift is a division that rounds
down, and the bitwise operations on the binary digits.
-/

set_option autoImplicit false

namespace Determinant.Foundations

variable {w : Nat} (x y : BitVec w)

/-- Signed or unsigned, a word is one number modulo any power of two up to `2 ^ w`. -/
theorem toInt_emod {k : Nat} (fits : k ≤ w) :
    x.toInt % (2 ^ k : Nat) = (x.toNat % 2 ^ k : Nat) := by
  have divides : ((2 ^ k : Nat) : Int) ∣ (2 ^ w : Nat) :=
    Int.natCast_dvd_natCast.2 (Nat.pow_dvd_pow 2 fits)
  rw [BitVec.toInt_eq_toNat_bmod, ← Int.emod_emod_of_dvd _ divides, Int.bmod_emod,
    Int.emod_emod_of_dvd _ divides]
  rfl

theorem eq_ofInt_toNat : x = BitVec.ofInt w x.toNat := by
  rw [BitVec.ofInt_natCast, BitVec.ofNat_toNat, BitVec.setWidth_eq]

theorem eq_ofInt_toInt : x = BitVec.ofInt w x.toInt :=
  BitVec.ofInt_toInt.symm

/-! ## Sums and differences -/

theorem add_eq_ofInt : x + y = BitVec.ofInt w (x.toNat + y.toNat) := by
  rw [BitVec.ofInt_add, ← eq_ofInt_toNat, ← eq_ofInt_toNat]

/-- The second summand can be read as signed. -/
theorem add_eq_ofInt_signed : x + y = BitVec.ofInt w (x.toNat + y.toInt) := by
  rw [BitVec.ofInt_add, ← eq_ofInt_toNat, ← eq_ofInt_toInt]

theorem sub_eq_ofInt : x - y = BitVec.ofInt w (x.toNat - y.toNat) := by
  rw [BitVec.sub_eq_add_neg, Int.sub_eq_add_neg, BitVec.ofInt_add, BitVec.ofInt_neg,
    ← eq_ofInt_toNat, ← eq_ofInt_toNat]

/-! ## Products and quotients -/

theorem mul_eq_ofInt : x * y = BitVec.ofInt w (x.toNat * y.toNat) := by
  rw [BitVec.ofInt_mul, ← eq_ofInt_toNat, ← eq_ofInt_toNat]

/-- The upper half of an integer of twice the width is the quotient, rounded down. -/
theorem upper_half {v : Nat} (p : Int) :
    (BitVec.ofInt (v + w) p >>> v).setWidth w = BitVec.ofInt w (p / 2 ^ v) := by
  have low : (0 : Int) < 2 ^ v := Int.pow_pos (by decide)
  have high : (0 : Int) < 2 ^ w := Int.pow_pos (by decide)
  have whole : (0 : Int) < 2 ^ (v + w) := Int.pow_pos (by decide)
  have split : p / 2 ^ v = p % 2 ^ (v + w) / 2 ^ v + 2 ^ w * (p / 2 ^ (v + w)) := by
    conv_lhs => rw [← Int.emod_add_mul_ediv p (2 ^ (v + w))]
    rw [Int.pow_add, Int.mul_assoc, Int.add_mul_ediv_left _ _ (Int.ne_of_gt low)]
  have rounded : (p / 2 ^ v) % 2 ^ w = p % 2 ^ (v + w) / 2 ^ v % 2 ^ w := by
    rw [split, Int.add_mul_emod_self_left]
  have remainder := Int.emod_nonneg p (Int.ne_of_gt whole)
  apply BitVec.eq_of_toNat_eq
  rw [BitVec.toNat_setWidth, BitVec.toNat_ushiftRight, BitVec.toNat_ofInt, BitVec.toNat_ofInt,
    Nat.shiftRight_eq_div_pow]
  apply Int.ofNat_inj.1
  push_cast
  rw [Int.toNat_of_nonneg remainder, Int.toNat_of_nonneg (Int.emod_nonneg _ (Int.ne_of_gt high)),
    rounded]

/-- The signed quotient is rounded towards zero. -/
theorem sdiv_eq_ofInt : x.sdiv y = BitVec.ofInt w (x.toInt.tdiv y.toInt) := by
  apply BitVec.eq_of_toInt_eq
  rw [BitVec.toInt_sdiv, BitVec.toInt_ofInt]

theorem srem_eq_ofInt : x.srem y = BitVec.ofInt w (x.toInt.tmod y.toInt) := by
  rw [eq_ofInt_toInt (x.srem y), BitVec.toInt_srem]

theorem udiv_eq_ofInt : x / y = BitVec.ofInt w (x.toNat / y.toNat : Nat) := by
  rw [BitVec.ofInt_natCast, ← BitVec.toNat_udiv, BitVec.ofNat_toNat, BitVec.setWidth_eq]

theorem umod_eq_ofInt : x % y = BitVec.ofInt w (x.toNat % y.toNat : Nat) := by
  rw [BitVec.ofInt_natCast, ← BitVec.toNat_umod, BitVec.ofNat_toNat, BitVec.setWidth_eq]

/-- What a truncated division leaves is smaller than the divisor and has the sign of the
dividend. -/
theorem truncated_division (a : Int) {b : Int} (nonzero : b ≠ 0) :
    a = a.tdiv b * b + a.tmod b ∧ (a.tmod b).natAbs < b.natAbs ∧
      (a.tmod b = 0 ∨ (a.tmod b).sign = a.sign) := by
  refine ⟨(Int.tdiv_mul_add_tmod a b).symm, ?_, ?_⟩
  · rw [Int.natAbs_tmod]
    exact Nat.mod_lt _ (Int.natAbs_pos.2 nonzero)
  · by_cases divides : b ∣ a
    · exact .inl (Int.dvd_iff_tmod_eq_zero.1 divides)
    · exact .inr (by rw [Int.sign_tmod, if_neg divides])

/-! ## Shifts -/

theorem shiftLeft_eq_ofInt (k : Nat) : x <<< k = BitVec.ofInt w (x.toNat * 2 ^ k) := by
  apply BitVec.eq_of_toNat_eq
  rw [BitVec.toNat_shiftLeft, BitVec.toNat_ofInt, Nat.shiftLeft_eq]
  norm_cast

theorem ushiftRight_eq_ofInt (k : Nat) : x >>> k = BitVec.ofInt w (x.toNat / 2 ^ k) := by
  rw [eq_ofInt_toNat (x >>> k), BitVec.toNat_ushiftRight, Nat.shiftRight_eq_div_pow]
  norm_cast

/-- The arithmetic shift to the right divides and rounds down. -/
theorem sshiftRight_eq_ofInt (k : Nat) : x.sshiftRight k = BitVec.ofInt w (x.toInt / 2 ^ k) := by
  rw [eq_ofInt_toInt (x.sshiftRight k), BitVec.toInt_sshiftRight, Int.shiftRight_eq_div_pow]
  norm_cast

/-! ## Digits -/

theorem and_eq_ofInt : x &&& y = BitVec.ofInt w (x.toNat &&& y.toNat : Nat) := by
  rw [BitVec.ofInt_natCast, ← BitVec.toNat_and, BitVec.ofNat_toNat, BitVec.setWidth_eq]

theorem or_eq_ofInt : x ||| y = BitVec.ofInt w (x.toNat ||| y.toNat : Nat) := by
  rw [BitVec.ofInt_natCast, ← BitVec.toNat_or, BitVec.ofNat_toNat, BitVec.setWidth_eq]

theorem xor_eq_ofInt : x ^^^ y = BitVec.ofInt w (x.toNat ^^^ y.toNat : Nat) := by
  rw [BitVec.ofInt_natCast, ← BitVec.toNat_xor, BitVec.ofNat_toNat, BitVec.setWidth_eq]

/-- Clearing the lowest `s` bits rounds down to a multiple of `2 ^ s`. -/
theorem toNat_clear_low {s k : Nat} (fits : s + k = w) :
    (x &&& ((BitVec.allOnes k).setWidth w <<< s)).toNat = x.toNat / 2 ^ s * 2 ^ s := by
  have small : x.toNat / 2 ^ s < 2 ^ k := by
    rw [Nat.div_lt_iff_lt_mul (Nat.two_pow_pos s), ← Nat.pow_add, Nat.add_comm k, fits]
    exact x.isLt
  have rounded : x.toNat / 2 ^ s * 2 ^ s < 2 ^ w :=
    Nat.lt_of_le_of_lt (Nat.div_mul_le_self _ _) x.isLt
  rw [placed_mask (by omega), BitVec.toNat_shiftLeft, Nat.shiftLeft_eq,
    BitVec.toNat_setWidth_of_le (by omega), field, BitVec.toNat_setWidth,
    BitVec.toNat_ushiftRight, Nat.shiftRight_eq_div_pow, Nat.mod_eq_of_lt small,
    Nat.mod_eq_of_lt rounded]

/-- The lowest `k` bits are the remainder. -/
theorem toNat_mask_low {k : Nat} (fits : k ≤ w) :
    (x &&& (BitVec.allOnes k).setWidth w).toNat = x.toNat % 2 ^ k := by
  rw [BitVec.toNat_and, BitVec.toNat_setWidth_of_le fits, BitVec.toNat_allOnes,
    Nat.and_two_pow_sub_one_eq_mod]

/-! ## Orders -/

theorem ofInt_min : BitVec.ofInt w (min x.toInt y.toInt) = if y.slt x then y else x := by
  rw [BitVec.slt_eq_decide]
  by_cases less : y.toInt < x.toInt
  · simp [less, Int.min_eq_right (Int.le_of_lt less)]
  · simp [less, Int.min_eq_left (Int.not_lt.1 less)]

theorem ofInt_max : BitVec.ofInt w (max x.toInt y.toInt) = if x.slt y then y else x := by
  rw [BitVec.slt_eq_decide]
  by_cases less : x.toInt < y.toInt
  · simp [less, Int.max_eq_right (Int.le_of_lt less)]
  · simp [less, Int.max_eq_left (Int.not_lt.1 less)]

theorem ofInt_min_toNat : BitVec.ofInt w (min x.toNat y.toNat : Nat) = if y < x then y else x := by
  rw [BitVec.ofInt_natCast]
  by_cases less : y < x
  · simp [less, Nat.min_eq_right (Nat.le_of_lt less)]
  · simp [less, Nat.min_eq_left (Nat.not_lt.1 less)]

theorem ofInt_max_toNat : BitVec.ofInt w (max x.toNat y.toNat : Nat) = if x < y then y else x := by
  rw [BitVec.ofInt_natCast]
  by_cases less : x < y
  · simp [less, Nat.max_eq_right (Nat.le_of_lt less)]
  · simp [less, Nat.max_eq_left (Nat.not_lt.1 less)]

end Determinant.Foundations
