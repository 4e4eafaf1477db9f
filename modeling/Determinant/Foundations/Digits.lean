import Determinant.Foundations.Reading

/-!
# Digits of a base

A number written in a base up to sixteen, in the digits of `Nat.toDigits`, is read back
(`readNumber_digits`), and its bytes are digits. A word in eight digits of lower-case hexadecimal
is such a number with zeros in front.
-/

set_option autoImplicit false

namespace Determinant.Foundations

theorem charToDigit_digitChar {base d : Nat} (small : d < base) (le : base ≤ 16) :
    charToDigit base (BitVec.ofNat 8 (Nat.digitChar d).toNat) = some d := by
  have bound : d < 16 := by omega
  have value : charToDigit 16 (BitVec.ofNat 8 (Nat.digitChar d).toNat) = some d := by
    interval_cases d <;> rfl
  unfold charToDigit at value ⊢
  rw [Option.filter_eq_some_iff] at value ⊢
  exact ⟨value.1, decide_eq_true small⟩

/-- **A number is read back from its digits**, by induction on it: all but the last are those of
the quotient by the base. -/
theorem readNumber_digits {base : Nat} (large : 1 < base) (le : base ≤ 16) (k : Nat) :
    readNumber base (charBytes (Nat.toDigits base k)) = k := by
  induction k using Nat.strong_induction_on with
  | _ k ih =>
    rw [Nat.toDigits_eq_if large]
    split
    · rename_i small
      have value := charToDigit_digitChar small le
      simp [readNumber, charBytes, value]
    · rename_i more
      have front := ih (k / base) (Nat.div_lt_self (by omega) large)
      have value := charToDigit_digitChar (Nat.mod_lt k (by omega : base > 0)) le
      rw [charBytes] at front ⊢
      rw [List.map_append, List.map_singleton, readNumber_concat, front, value]
      exact Nat.div_add_mod k base

/-- A digit of a base is a digit of any larger base. -/
theorem isSome_charToDigit_of_mem_digits {base base' k : Nat} (large : 1 < base) {c : Byte}
    (listed : c ∈ charBytes (Nat.toDigits base k)) (wider : base ≤ base') (le : base' ≤ 16) :
    (charToDigit base' c).isSome := by
  obtain ⟨letter, member, rfl⟩ := List.mem_map.1 listed
  obtain ⟨d, small, rfl⟩ := mem_toDigits large k member
  rw [charToDigit_digitChar (Nat.lt_of_lt_of_le small wider) le]
  rfl

/-- The number of some digits, with zeros in front. -/
theorem readNumber_padded (width k : Nat) :
    readNumber 16 ((charBytes (Nat.toDigits 16 k)).leftpad width 0x30#8) = k := by
  rw [List.leftpad, readNumber_zeros, readNumber_digits (by decide) (by decide)]

theorem isHexDigit_of_mem_padded {width k : Nat} {c : Byte}
    (listed : c ∈ (charBytes (Nat.toDigits 16 k)).leftpad width 0x30#8) : isHexDigit c = true := by
  rw [List.leftpad] at listed
  rcases List.mem_append.1 listed with padding | digit
  · rw [List.eq_of_mem_replicate padding]
    rfl
  · exact isSome_charToDigit_of_mem_digits (by decide) digit (by decide) (by decide)

end Determinant.Foundations
