import Determinant.Foundations.Text

/-!
# Reading texts

The readers of what writers put into a text: its lines (`lines`), the value of a digit
(`charToDigit`), and a number of digits of a base (`readNumber`). Each gives back what was
written (`lines_unlines`, `readNumber_hex`).
-/

set_option autoImplicit false

namespace Determinant.Foundations

/-! ## Lines -/

/-- A text of lines, each with its newline. -/
def unlines (texts : List (List Byte)) : List Byte := texts.flatMap fun line => line ++ [newline]

/-- The lines of a text. -/
def lines (text : List Byte) : List (List Byte) := (text.splitOn newline).dropLast

theorem lines_cons {line : List Byte} (oneLine : OneLine line) (text : List Byte) :
    lines (line ++ newline :: text) = line :: lines text := by
  have next := List.splitOn_append_cons_self_of_not_mem oneLine text
  rw [lines, next, List.dropLast_cons_of_ne_nil (List.splitOn_ne_nil _ _)]
  rfl

theorem lines_unlines {texts : List (List Byte)} (each : ∀ line ∈ texts, OneLine line) :
    lines (unlines texts) = texts := by
  induction texts with
  | nil => rfl
  | cons line rest ih =>
      have first := each line (by simp)
      have others := ih fun text listed => each text (by simp [listed])
      have shape : unlines (line :: rest) = line ++ newline :: unlines rest := by
        simp [unlines, List.append_assoc]
      rw [shape, lines_cons first, others]

theorem unlines_append (texts texts' : List (List Byte)) :
    unlines (texts ++ texts') = unlines texts ++ unlines texts' :=
  List.flatMap_append

/-! ## Separated texts -/

/-- **Texts that are put together with a separator can be taken apart**, when none has the first
byte of the separator in it. -/
theorem intercalate_injective {c : Byte} {rest : List Byte} {texts texts' : List (List Byte)}
    (plain : ∀ text ∈ texts, c ∉ text) (plain' : ∀ text ∈ texts', c ∉ text)
    (some : texts ≠ []) (some' : texts' ≠ [])
    (same : (c :: rest).intercalate texts = (c :: rest).intercalate texts') : texts = texts' := by
  induction texts generalizing texts' with
  | nil => exact absurd rfl some
  | cons text others ih =>
      cases texts' with
      | nil => exact absurd rfl some'
      | cons text' others' =>
          have first := plain text (by simp)
          have first' := plain' text' (by simp)
          cases others with
          | nil =>
              cases others' with
              | nil =>
                  rw [List.intercalate_singleton, List.intercalate_singleton] at same
                  rw [same]
              | cons next' more' =>
                  rw [List.intercalate_singleton, List.intercalate_cons_cons] at same
                  exact absurd (by rw [same]; simp) first
          | cons next more =>
              cases others' with
              | nil =>
                  rw [List.intercalate_singleton, List.intercalate_cons_cons] at same
                  exact absurd (by rw [← same]; simp) first'
              | cons next' more' =>
                  rw [List.intercalate_cons_cons, List.intercalate_cons_cons, List.append_assoc,
                    List.append_assoc, List.cons_append, List.cons_append] at same
                  have split := congrArg (List.splitOn c) same
                  rw [List.splitOn_append_cons_self_of_not_mem first,
                    List.splitOn_append_cons_self_of_not_mem first'] at split
                  cases List.head_eq_of_cons_eq split
                  have behind := (List.cons.inj (List.append_cancel_left same)).2
                  rw [ih (fun text listed => plain text (by simp [listed]))
                    (fun text listed => plain' text (by simp [listed])) (by simp) (by simp)
                    (List.append_cancel_left behind)]

/-! ## Digits -/

/-- The value of a digit of a base, a letter in either case. -/
def charToDigit (base : Nat) (c : Byte) : Option Nat :=
  let value : Option Nat :=
    if 0x30#8 ≤ c ∧ c ≤ 0x39#8 then some (c.toNat - 0x30)
    else if 0x41#8 ≤ c ∧ c ≤ 0x5A#8 then some (c.toNat - 0x41 + 10)
    else if 0x61#8 ≤ c ∧ c ≤ 0x7A#8 then some (c.toNat - 0x61 + 10)
    else none
  value.filter (· < base)

/-- The digit of hexadecimal in upper case. -/
def upperDigit (d : Nat) : Byte := BitVec.ofNat 8 (Nat.digitChar d).toUpper.toNat

theorem charToDigit_upperDigit {d : Nat} (small : d < 16) :
    charToDigit 16 (upperDigit d) = some d := by
  interval_cases d <;> rfl

/-- The number that digits of a base stand for. -/
def readNumber (base : Nat) (digits : List Byte) : Nat :=
  digits.foldl (fun k c => base * k + (charToDigit base c).getD 0) 0

theorem readNumber_concat (base : Nat) (digits : List Byte) (c : Byte) :
    readNumber base (digits ++ [c]) =
      base * readNumber base digits + (charToDigit base c).getD 0 := by
  rw [readNumber, List.foldl_append]
  rfl

theorem readNumber_zeros (count : Nat) (digits : List Byte) :
    readNumber 16 (List.replicate count 0x30#8 ++ digits) = readNumber 16 digits := by
  induction count with
  | zero => rfl
  | succ count ih =>
      rw [List.replicate_succ, List.cons_append, ← ih]
      rfl

theorem readNumber_toDigits (k : Nat) :
    readNumber 16 ((Nat.toDigits 16 k).map fun c => BitVec.ofNat 8 c.toUpper.toNat) = k := by
  induction k using Nat.strong_induction_on with
  | _ k ih =>
    rw [Nat.toDigits_eq_if (by decide)]
    split
    · rename_i small
      have value := charToDigit_upperDigit small
      simp only [upperDigit] at value
      simp [readNumber, value]
    · rename_i large
      have front := ih (k / 16) (Nat.div_lt_self (by omega) (by decide))
      have value := charToDigit_upperDigit (Nat.mod_lt k (by decide : 16 > 0))
      simp only [upperDigit] at value
      rw [List.map_append, List.map_singleton, readNumber_concat, front, value]
      exact Nat.div_add_mod k 16

theorem hex_eq (width k : Nat) :
    hex width k = ((Nat.toDigits 16 k).map fun c => BitVec.ofNat 8 c.toUpper.toNat).leftpad width
      0x30#8 := by
  rw [hex, charBytes, List.map_map]
  rfl

/-- A number in hexadecimal is read back, whatever the width of its column. -/
@[simp] theorem readNumber_hex (width k : Nat) : readNumber 16 (hex width k) = k := by
  rw [hex_eq, List.leftpad, readNumber_zeros, readNumber_toDigits]

/-- The bytes of a number in hexadecimal are digits. -/
theorem isSome_charToDigit_of_mem_hex {width k : Nat} {c : Byte} (listed : c ∈ hex width k) :
    (charToDigit 16 c).isSome := by
  rw [hex_eq, List.leftpad] at listed
  rcases List.mem_append.1 listed with padding | digit
  · rw [List.eq_of_mem_replicate padding]
    rfl
  · obtain ⟨c', digit', rfl⟩ := List.mem_map.1 digit
    obtain ⟨d, small, rfl⟩ := mem_toDigits (by decide) k digit'
    have value := charToDigit_upperDigit small
    rw [upperDigit] at value
    rw [value]
    rfl

def isHexDigit (c : Byte) : Bool := (charToDigit 16 c).isSome

/-- The digits of a number in hexadecimal, in front of a text that begins with none. -/
theorem span_hex (width k : Nat) {rest : List Byte}
    (other : ∀ c ∈ rest.head?, isHexDigit c = false) :
    (hex width k ++ rest).takeWhile isHexDigit = hex width k ∧
      (hex width k ++ rest).dropWhile isHexDigit = rest := by
  have digits : ∀ c ∈ hex width k, isHexDigit c = true := fun c listed =>
    isSome_charToDigit_of_mem_hex listed
  have stops : rest.takeWhile isHexDigit = [] ∧ rest.dropWhile isHexDigit = rest := by
    cases rest with
    | nil => exact ⟨rfl, rfl⟩
    | cons c rest =>
        have letter := other c rfl
        rw [List.takeWhile_cons, List.dropWhile_cons, letter]
        exact ⟨rfl, rfl⟩
  rw [List.takeWhile_append_of_pos digits, List.dropWhile_append_of_pos digits, stops.1, stops.2,
    List.append_nil]
  exact ⟨rfl, rfl⟩

theorem length_hex {k v : Nat} (some : 0 < k) (small : v < 16 ^ k) : (hex k v).length = k := by
  have digits := (Nat.length_toDigits_le_iff (n := v) (by decide : 1 < 16) some).2 small
  rw [hex, List.length_leftpad, length_charBytes, List.length_map]
  exact max_eq_left digits

/-- A byte has two digits. -/
theorem hex_byte (byte : Byte) :
    hex 2 byte.toNat = [upperDigit (byte.toNat / 16), upperDigit (byte.toNat % 16)] := by
  have bound : byte.toNat < 256 := byte.isLt
  rw [hex_eq, Nat.toDigits_eq_if (by decide)]
  split
  · rename_i small
    rw [Nat.div_eq_of_lt small, Nat.mod_eq_of_lt small]
    rfl
  · have high : byte.toNat / 16 < 16 := by omega
    rw [Nat.toDigits_of_lt_base high]
    rfl

end Determinant.Foundations
