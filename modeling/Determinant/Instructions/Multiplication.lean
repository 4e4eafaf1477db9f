import Determinant.Foundations.Traps
import Determinant.Foundations.WordArithmetic
import Determinant.Instructions.Extensions

/-!
# Multiplication and division over the integers

The laws of the M extension are about the signed and unsigned integers that the operands stand
for (`Rv32m.Exact`), and `Rv32m.execute` obeys them (`Rv32m.exact`). The source multiplies in
64 bits, and it divides only after a test of the operands; `Rv32m.executeChecked` is the same
function with the check that each of its operations needs. No check fails, whatever the
operands are (`Rv32m.executeChecked_eq`).
-/

set_option autoImplicit false

namespace Determinant
namespace Rv32m

open Foundations

/-- The laws of multiplication and division. A quotient by a power of two rounds down. -/
structure Exact (execute : Opcode → Word → Word → Word) : Prop where
  mul : ∀ x y, (execute .mul x y).toNat = x.toNat * y.toNat % 2 ^ 32
  mulh : ∀ x y, execute .mulh x y = BitVec.ofInt 32 (x.toInt * y.toInt / 2 ^ 32)
  mulhsu : ∀ x y, execute .mulhsu x y = BitVec.ofInt 32 (x.toInt * y.toNat / 2 ^ 32)
  mulhu : ∀ x y, execute .mulhu x y = BitVec.ofInt 32 (x.toNat * y.toNat / 2 ^ 32)
  truncated : ∀ x y, y ≠ 0#32 → ¬(x = minInt ∧ y = -1#32) →
    let quotient := (execute .div x y).toInt
    let remainder := (execute .rem x y).toInt
    quotient = x.toInt.tdiv y.toInt ∧ x.toInt = quotient * y.toInt + remainder ∧
      remainder.natAbs < y.toInt.natAbs ∧ (remainder = 0 ∨ remainder.sign = x.toInt.sign)
  euclidean : ∀ x y, y ≠ 0#32 →
    let quotient := (execute .divu x y).toNat
    let remainder := (execute .remu x y).toNat
    x.toNat = quotient * y.toNat + remainder ∧ remainder < y.toNat
  byZero : ∀ x, execute .div x 0#32 = BitVec.allOnes 32 ∧ execute .divu x 0#32 = BitVec.allOnes 32 ∧
    execute .rem x 0#32 = x ∧ execute .remu x 0#32 = x
  overflow : execute .div minInt (-1#32) = minInt ∧ execute .rem minInt (-1#32) = 0#32

/-- An M-extension instruction with the checks of its operations. The wrapping products are
checked here too, so that none of them has to wrap. -/
def executeChecked (op : Opcode) (rs1Val rs2Val : Word) : Except (Failure Empty) Word :=
  match op with
  | .mul => .ok (rs1Val * rs2Val)
  | .mulh => do
      let result ← checkedSigned 64 (rs1Val.toInt * rs2Val.toInt)
      .ok ((BitVec.ofInt 64 result >>> 32).setWidth 32)
  | .mulhsu => do
      let result ← checkedSigned 64 (rs1Val.toInt * rs2Val.toNat)
      .ok ((BitVec.ofInt 64 result >>> 32).setWidth 32)
  | .mulhu => do
      let result ← checkedMul 64 rs1Val.toNat rs2Val.toNat
      .ok ((BitVec.ofNat 64 result >>> 32).setWidth 32)
  | .div =>
      if rs2Val.toInt = 0 then .ok (-1#32)
      else if rs1Val.toInt = minInt.toInt ∧ rs2Val.toInt = -1 then .ok minInt
      else do
        let res ← checkedDivTrunc 32 rs1Val.toInt rs2Val.toInt
        .ok (BitVec.ofInt 32 res)
  | .divu =>
      if rs2Val.toNat = 0 then .ok 0xFFFFFFFF#32
      else do
        let divisor ← checkedDivisor rs2Val.toNat
        .ok (BitVec.ofNat 32 (rs1Val.toNat / divisor))
  | .rem =>
      if rs2Val.toInt = 0 then .ok rs1Val
      else if rs1Val.toInt = minInt.toInt ∧ rs2Val.toInt = -1 then .ok 0#32
      else do
        let res ← checkedRem 32 rs1Val.toInt rs2Val.toInt
        .ok (BitVec.ofInt 32 res)
  | .remu =>
      if rs2Val.toNat = 0 then .ok rs1Val
      else do
        let divisor ← checkedDivisor rs2Val.toNat
        .ok (BitVec.ofNat 32 (rs1Val.toNat % divisor))

variable (x y : Word)

/-! ## Products -/

/-- The upper half of a product of 64 bits. -/
theorem upper_product {a b : BitVec 64} {i j : Int} (left : a = BitVec.ofInt 64 i)
    (right : b = BitVec.ofInt 64 j) :
    ((a * b) >>> 32).setWidth 32 = BitVec.ofInt 32 (i * j / 2 ^ 32) := by
  rw [left, right, ← BitVec.ofInt_mul]
  exact upper_half (i * j)

/-- A word as 64 bits, without its sign. -/
theorem widened : x.setWidth 64 = BitVec.ofInt 64 x.toNat := by
  rw [BitVec.ofInt_natCast, BitVec.ofNat_toNat]

/-- A product of a signed word with a factor of at most 32 bits. -/
theorem product_signed {k : Int} (small : k.natAbs < 2 ^ 32) : Signed 64 (x.toInt * k) := by
  have above : x.toInt < 2 ^ 31 := BitVec.toInt_lt
  have below : -2 ^ 31 ≤ x.toInt := BitVec.le_toInt x
  have bounded : (x.toInt * k).natAbs < 2 ^ 63 := by
    rw [Int.natAbs_mul]
    calc x.toInt.natAbs * k.natAbs ≤ 2 ^ 31 * (2 ^ 32 - 1) := Nat.mul_le_mul (by omega) (by omega)
      _ < 2 ^ 63 := by decide
  constructor <;> omega

theorem natAbs_toInt_lt : y.toInt.natAbs < 2 ^ 32 := by
  have above : y.toInt < 2 ^ 31 := BitVec.toInt_lt
  have below : -2 ^ 31 ≤ y.toInt := BitVec.le_toInt y
  omega

theorem unsigned_product : x.toNat * y.toNat < 2 ^ 64 := by
  have left := x.isLt
  have right := y.isLt
  calc x.toNat * y.toNat ≤ (2 ^ 32 - 1) * (2 ^ 32 - 1) := Nat.mul_le_mul (by omega) (by omega)
    _ < 2 ^ 64 := by decide

/-! ## Divisions -/

variable {x y}

theorem zero_iff : y = 0#32 ↔ y.toInt = 0 := by
  rw [← BitVec.toInt_inj, BitVec.toInt_zero]

theorem unsigned_zero_iff : y = 0#32 ↔ y.toNat = 0 := by
  rw [← BitVec.toNat_inj]
  rfl

theorem overflow_iff : x = minInt ∧ y = -1#32 ↔ x.toInt = minInt.toInt ∧ y.toInt = -1 := by
  rw [← BitVec.toInt_inj, ← BitVec.toInt_inj (y := -1#32)]
  rfl

/-- Any other quotient fits into a word. -/
theorem quotient_toInt (fits : ¬(x = minInt ∧ y = -1#32)) :
    (x.sdiv y).toInt = x.toInt.tdiv y.toInt :=
  BitVec.toInt_sdiv_of_ne_or_ne x y (Decidable.not_and_iff_or_not.1 fits)

theorem quotient_signed (fits : ¬(x = minInt ∧ y = -1#32)) :
    Signed 32 (x.toInt.tdiv y.toInt) := by
  rw [← quotient_toInt fits]
  exact ⟨BitVec.le_toInt _, BitVec.toInt_lt⟩

/-! ## The laws -/

/-- **The M extension computes over the integers.** -/
theorem exact : Exact execute where
  mul x y := BitVec.toNat_mul x y
  mulh x y := upper_product rfl rfl
  mulhsu x y := upper_product rfl (widened y)
  mulhu x y := upper_product (widened x) (widened y)
  truncated x y nonzero fits := by
    have divides : execute .div x y = x.sdiv y := by
      simp only [execute, if_neg nonzero, if_neg fits]
    have leaves : execute .rem x y = x.srem y := by
      simp only [execute, if_neg nonzero, if_neg fits]
    simp only [divides, leaves, quotient_toInt fits, BitVec.toInt_srem, true_and]
    exact truncated_division x.toInt (mt zero_iff.2 nonzero)
  euclidean x y nonzero := by
    have divides : execute .divu x y = x / y := by simp only [execute, if_neg nonzero]
    have leaves : execute .remu x y = x % y := by simp only [execute, if_neg nonzero]
    have positive : 0 < y.toNat := Nat.pos_of_ne_zero (mt unsigned_zero_iff.2 nonzero)
    simp only [divides, leaves, BitVec.toNat_udiv, BitVec.toNat_umod]
    exact ⟨(Nat.div_add_mod' _ _).symm, Nat.mod_lt _ positive⟩
  byZero x := by
    refine ⟨?_, ?_, ?_, ?_⟩ <;> simp only [execute, if_true] <;> rfl
  overflow := by decide

/-- **No operation traps**: the products fit into 64 bits, the divisors are not zero, and the
quotients fit into 32 bits. -/
theorem executeChecked_eq (op : Opcode) (x y : Word) :
    executeChecked op x y = .ok (execute op x y) := by
  cases op with
  | mul => rfl
  | mulh =>
      have product := product_signed x (natAbs_toInt_lt y)
      simp only [executeChecked, checkedSigned_ok product, exact.mulh]
      exact congrArg Except.ok (upper_half _)
  | mulhsu =>
      have product := product_signed x (k := y.toNat) y.isLt
      simp only [executeChecked, checkedSigned_ok product, exact.mulhsu]
      exact congrArg Except.ok (upper_half _)
  | mulhu =>
      simp only [executeChecked, checkedMul_ok (unsigned_product x y), exact.mulhu]
      exact congrArg Except.ok (upper_half (w := 32) (x.toNat * y.toNat : Nat))
  | div =>
      simp only [executeChecked, execute, zero_iff, overflow_iff]
      split
      · rfl
      · rename_i nonzero
        split
        · rfl
        · rename_i fits
          rw [checkedDivTrunc_ok nonzero (quotient_signed (mt overflow_iff.1 fits)), sdiv_eq_ofInt]
          rfl
  | rem =>
      simp only [executeChecked, execute, zero_iff, overflow_iff]
      split
      · rfl
      · rename_i nonzero
        split
        · rfl
        · rename_i fits
          rw [checkedRem_ok nonzero (quotient_signed (mt overflow_iff.1 fits)), srem_eq_ofInt]
          rfl
  | divu =>
      simp only [executeChecked, execute, unsigned_zero_iff]
      split
      · rfl
      · rename_i nonzero
        rw [checkedDivisor_ok nonzero, udiv_eq_ofInt, BitVec.ofInt_natCast]
        rfl
  | remu =>
      simp only [executeChecked, execute, unsigned_zero_iff]
      split
      · rfl
      · rename_i nonzero
        rw [checkedDivisor_ok nonzero, umod_eq_ofInt, BitVec.ofInt_natCast]
        rfl

end Rv32m
end Determinant
