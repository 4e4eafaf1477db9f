import Determinant.Foundations.Reading

/-!
# Integers in texts

The reader of an unsigned integer of `w` bits, as the standard library has it: an optional sign,
a prefix `0b`, `0o` or `0x` for another base than ten, and digits with `_` between them. It reads
the digits in order, and fails with the first that is none or with which the number does not fit
any more. A minus sign is accepted in front of zero only. A number that is written in decimal is
read back (`parseInt_decimal`).
-/

set_option autoImplicit false

namespace Determinant.Foundations

inductive ParseIntError where
  | overflow
  | invalidCharacter
deriving DecidableEq, Repr

def underscore : Byte := 0x5F#8

/-- The number of some digits and of those before them, if it is below the bound. -/
def parseDigits (bound base : Nat) : Nat → List Byte → Except ParseIntError Nat
  | k, [] => .ok k
  | k, c :: rest =>
      if c = underscore then parseDigits bound base k rest
      else match charToDigit base c with
        | none => .error .invalidCharacter
        | some digit =>
            if base * k + digit < bound then parseDigits bound base (base * k + digit) rest
            else .error .overflow

/-- The base of a text, and what comes after its prefix. -/
def detectBase : List Byte → Nat × List Byte
  | zero :: letter :: digit :: rest =>
      if zero = 0x30#8 then
        if letter = 0x62#8 ∨ letter = 0x42#8 then (2, digit :: rest)
        else if letter = 0x6F#8 ∨ letter = 0x4F#8 then (8, digit :: rest)
        else if letter = 0x78#8 ∨ letter = 0x58#8 then (16, digit :: rest)
        else (10, zero :: letter :: digit :: rest)
      else (10, zero :: letter :: digit :: rest)
  | text => (10, text)

/-- An integer without its sign. -/
def parseWithSign (bound : Nat) (text : List Byte) : Except ParseIntError Nat :=
  let (base, digits) := detectBase text
  if digits = [] ∨ digits.head? = some underscore ∨ digits.getLast? = some underscore then
    .error .invalidCharacter
  else parseDigits bound base 0 digits

/-- `std.fmt.parseInt` to an unsigned integer of `w` bits, with the base that the text says. -/
def parseInt (w : Nat) (text : List Byte) : Except ParseIntError (BitVec w) :=
  (match text with
    | 0x2B#8 :: rest => parseWithSign (2 ^ w) rest
    | 0x2D#8 :: rest => parseWithSign 1 rest
    | text => parseWithSign (2 ^ w) text).map (BitVec.ofNat w)

example : parseInt 32 (ascii "0xF_f") = .ok 255#32 := by rfl

example : parseInt 8 (ascii "256x") = .error .overflow := by rfl

example : parseInt 64 (ascii "1e6") = .error .invalidCharacter := by rfl

/-! ## What is written in decimal -/

/-- The bytes of a number in decimal are digits. -/
theorem digit_of_mem_decimal {k : Nat} {c : Byte} (listed : c ∈ decimal k) :
    0x30#8 ≤ c ∧ c ≤ 0x39#8 := by
  obtain ⟨letter, member, rfl⟩ := List.mem_map.1 listed
  obtain ⟨d, small, rfl⟩ := mem_toDigits (by decide) k member
  interval_cases d <;> decide

theorem decimal_ne_nil (k : Nat) : decimal k ≠ [] := by
  intro empty
  have none := congrArg List.length empty
  rw [decimal, length_charBytes, List.length_nil, List.length_eq_zero_iff] at none
  exact Nat.toDigits_ne_nil none

theorem parseDigits_append (bound base k : Nat) (digits rest : List Byte) :
    parseDigits bound base k (digits ++ rest) =
      parseDigits bound base k digits >>= fun k => parseDigits bound base k rest := by
  induction digits generalizing k with
  | nil => rfl
  | cons c digits ih =>
      rw [List.cons_append, parseDigits, parseDigits]
      split
      · exact ih k
      · cases charToDigit base c with
        | none => rfl
        | some digit =>
            dsimp only
            split
            · exact ih _
            · rfl

/-- One digit more. -/
theorem parseDigits_digit {bound k d : Nat} (small : d < 10) (fits : 10 * k + d < bound) :
    parseDigits bound 10 k [BitVec.ofNat 8 (Nat.digitChar d).toNat] = .ok (10 * k + d) := by
  have plain : BitVec.ofNat 8 (Nat.digitChar d).toNat ≠ underscore := by
    interval_cases d <;> decide
  have value : charToDigit 10 (BitVec.ofNat 8 (Nat.digitChar d).toNat) = some d := by
    interval_cases d <;> rfl
  simp only [parseDigits, if_neg plain, value, if_pos fits]

/-- **The digits of a number are read back**, by induction on it: all but the last are those of a
tenth of it. -/
theorem parseDigits_decimal {bound : Nat} (k : Nat) (fits : k < bound) :
    parseDigits bound 10 0 (decimal k) = .ok k := by
  induction k using Nat.strong_induction_on with
  | _ k ih =>
    rw [decimal, Nat.toDigits_eq_if (by decide)]
    split
    · rename_i small
      have digit := parseDigits_digit (k := 0) small (by omega : 10 * 0 + k < bound)
      rwa [Nat.mul_zero, Nat.zero_add] at digit
    · rename_i large
      have front := ih (k / 10) (by omega) (by omega)
      have last := @parseDigits_digit bound (k / 10) (k % 10) (by omega) (by omega)
      have whole : 10 * (k / 10) + k % 10 = k := Nat.div_add_mod k 10
      rw [whole] at last
      rw [charBytes, List.map_append, List.map_singleton, parseDigits_append]
      change (parseDigits bound 10 0 (decimal (k / 10)) >>= _) = _
      rw [front]
      exact last

/-- Different numbers are written differently. -/
theorem decimal_injective : Function.Injective decimal := by
  intro k k' same
  have read := @parseDigits_decimal (k + k' + 1) k (by omega)
  have read' := @parseDigits_decimal (k + k' + 1) k' (by omega)
  rw [same] at read
  exact Except.ok.inj (read.symm.trans read')

theorem signedDecimal_injective : Function.Injective signedDecimal := by
  -- A number has no sign of its own.
  have unsigned : ∀ k k' : Nat, ascii "-" ++ decimal k ≠ decimal k' := by
    intro k k' same
    have sign : 0x2D#8 ∈ decimal k' := by
      rw [← same]
      exact List.mem_cons_self
    exact absurd (digit_of_mem_decimal sign) (by decide)
  intro i i' same
  unfold signedDecimal at same
  split at same <;> split at same
  · have digits := decimal_injective (List.append_cancel_left same)
    omega
  · exact absurd same (unsigned _ _)
  · exact absurd same.symm (unsigned _ _)
  · have digits := decimal_injective same
    omega

/-- A digit is no letter of a base. -/
theorem detectBase_digits {text : List Byte} (digits : ∀ c ∈ text, 0x30#8 ≤ c ∧ c ≤ 0x39#8) :
    detectBase text = (10, text) := by
  unfold detectBase
  split
  · rename_i zero letter digit rest
    have small := (digits letter (by simp)).2
    have other : ∀ base : Byte, 0x39#8 < base → letter ≠ base := by
      rintro base large rfl
      exact absurd large (BitVec.not_lt.2 small)
    split
    · rw [if_neg (not_or.2 ⟨other _ (by decide), other _ (by decide)⟩),
        if_neg (not_or.2 ⟨other _ (by decide), other _ (by decide)⟩),
        if_neg (not_or.2 ⟨other _ (by decide), other _ (by decide)⟩)]
    · rfl
  · rfl

/-- **A number that is written in decimal is read back**, at any width that it fits. -/
theorem parseInt_decimal {w k : Nat} (fits : k < 2 ^ w) :
    parseInt w (decimal k) = .ok (BitVec.ofNat w k) := by
  have digits : ∀ c ∈ decimal k, 0x30#8 ≤ c ∧ c ≤ 0x39#8 := fun _ => digit_of_mem_decimal
  have plain : ¬(decimal k = [] ∨ (decimal k).head? = some underscore ∨
      (decimal k).getLast? = some underscore) := by
    have other : underscore ∉ decimal k := fun listed => absurd (digits _ listed) (by decide)
    rintro (empty | first | last)
    · exact decimal_ne_nil k empty
    · exact other (List.mem_of_head? first)
    · exact other (List.mem_of_getLast? last)
  have unsigned : parseWithSign (2 ^ w) (decimal k) = .ok k := by
    simp only [parseWithSign, detectBase_digits digits, if_neg plain, parseDigits_decimal k fits]
  unfold parseInt
  split
  · rename_i rest split
    rw [split] at digits
    exact absurd (digits _ List.mem_cons_self) (by decide)
  · rename_i rest split
    rw [split] at digits
    exact absurd (digits _ List.mem_cons_self) (by decide)
  · rw [unsigned]
    rfl

end Determinant.Foundations
