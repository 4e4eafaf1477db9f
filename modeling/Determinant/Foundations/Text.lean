import Determinant.Foundations.LittleEndian

/-!
# Texts

A text is the list of its bytes, as a writer takes them: constant texts (`ascii`), integers in
decimal (`decimal`, `signedDecimal`) and in hexadecimal (`hex`), and columns padded to a width
(`List.leftpad`, `List.rightpad`). A text is one line when no newline is in it (`OneLine`).
-/

set_option autoImplicit false

namespace Determinant.Foundations

/-- The bytes of characters, each of which is one byte. -/
def charBytes (chars : List Char) : List Byte := chars.map fun c => BitVec.ofNat 8 c.toNat

/-- A constant text. -/
def ascii (text : String) : List Byte := charBytes text.toList

def newline : Byte := 0x0A#8

def space : Byte := 0x20#8

def equalsSign : Byte := 0x3D#8

/-- An unsigned integer in decimal. -/
def decimal (k : Nat) : List Byte := charBytes (Nat.toDigits 10 k)

/-- A signed integer in decimal. -/
def signedDecimal (i : Int) : List Byte :=
  if i < 0 then ascii "-" ++ decimal i.natAbs else decimal i.natAbs

/-- An unsigned integer in upper-case hexadecimal, padded with zeros to a width. -/
def hex (width k : Nat) : List Byte :=
  (charBytes ((Nat.toDigits 16 k).map Char.toUpper)).leftpad width 0x30#8

/-- A byte as two digits of lower-case hexadecimal. -/
def lowerHex (byte : Byte) : List Byte := (charBytes (Nat.toDigits 16 byte.toNat)).leftpad 2 0x30#8

example : hex 8 0x2A0 = ascii "000002A0" := by decide

example : signedDecimal (-100) = ascii "-100" := by decide

/-! ## One line -/

/-- There is no newline in the text. -/
def OneLine (text : List Byte) : Prop := newline ∉ text

instance (text : List Byte) : Decidable (OneLine text) := by
  unfold OneLine
  infer_instance

@[simp] theorem oneLine_append {text text' : List Byte} :
    OneLine (text ++ text') ↔ OneLine text ∧ OneLine text' := by
  simp [OneLine]

theorem OneLine.take {text : List Byte} (line : OneLine text) (k : Nat) : OneLine (text.take k) :=
  fun listed => line (List.mem_of_mem_take listed)

/-- Padding with anything else keeps a text on its line. -/
theorem OneLine.leftpad {text : List Byte} (line : OneLine text) (width : Nat) {fill : Byte}
    (other : fill ≠ newline) : OneLine (text.leftpad width fill) := by
  unfold List.leftpad
  exact oneLine_append.2 ⟨fun listed => other (List.eq_of_mem_replicate listed).symm, line⟩

theorem OneLine.rightpad {text : List Byte} (line : OneLine text) (width : Nat) {fill : Byte}
    (other : fill ≠ newline) : OneLine (text.rightpad width fill) := by
  unfold List.rightpad
  exact oneLine_append.2 ⟨line, fun listed => other (List.eq_of_mem_replicate listed).symm⟩

/-- One line, and the newline behind it. -/
def IsLine (text : List Byte) : Prop := ∃ line, OneLine line ∧ text = line ++ [newline]

theorem OneLine.isLine {text : List Byte} (line : OneLine text) : IsLine (text ++ [newline]) :=
  ⟨text, line, rfl⟩

theorem OneLine.append {text text' : List Byte} (front : OneLine text) (line : IsLine text') :
    IsLine (text ++ text') := by
  obtain ⟨rest, back, rfl⟩ := line
  exact ⟨text ++ rest, oneLine_append.2 ⟨front, back⟩, (List.append_assoc ..).symm⟩

/-! ## Digits -/

/-- The characters of a number are digits of its base. -/
theorem mem_toDigits {base : Nat} (large : 1 < base) (k : Nat) {c : Char}
    (listed : c ∈ Nat.toDigits base k) : ∃ d < base, c = Nat.digitChar d := by
  induction k using Nat.strong_induction_on with
  | _ k ih =>
    rw [Nat.toDigits_eq_if large] at listed
    split at listed
    · rename_i small
      exact ⟨k, small, List.mem_singleton.1 listed⟩
    · rename_i notSmall
      rcases List.mem_append.1 listed with front | last
      · exact ih (k / base) (Nat.div_lt_self (by omega) large) front
      · exact ⟨k % base, Nat.mod_lt _ (by omega), List.mem_singleton.1 last⟩

/-- The bytes that separate texts in a report: no number has one of them. -/
inductive Separator : Byte → Prop where
  | newline : Separator newline
  | equals : Separator equalsSign

variable {c : Byte}

theorem Separator.ne_digitChar (separator : Separator c) {d : Nat} (small : d < 16) :
    BitVec.ofNat 8 (Nat.digitChar d).toNat ≠ c ∧
      BitVec.ofNat 8 (Nat.digitChar d).toUpper.toNat ≠ c := by
  cases separator <;> interval_cases d <;> decide

theorem not_mem_decimal (separator : Separator c) (k : Nat) : c ∉ decimal k := by
  intro listed
  obtain ⟨digit, member, same⟩ := List.mem_map.1 listed
  obtain ⟨d, small, rfl⟩ := mem_toDigits (by decide : 1 < 10) k member
  exact (separator.ne_digitChar (Nat.lt_trans small (by decide))).1 same

theorem not_mem_signedDecimal (separator : Separator c) (i : Int) : c ∉ signedDecimal i := by
  have sign : c ∉ ascii "-" := by cases separator <;> decide
  unfold signedDecimal
  split
  · rw [List.mem_append]
    exact not_or.2 ⟨sign, not_mem_decimal separator _⟩
  · exact not_mem_decimal separator _

theorem not_mem_hex (separator : Separator c) (width k : Nat) : c ∉ hex width k := by
  have padding : (0x30#8 : Byte) ≠ c := by cases separator <;> decide
  intro listed
  unfold hex List.leftpad at listed
  rcases List.mem_append.1 listed with fill | digits
  · exact padding (List.eq_of_mem_replicate fill).symm
  · obtain ⟨upper, mapped, same⟩ := List.mem_map.1 digits
    obtain ⟨digit, member, rfl⟩ := List.mem_map.1 mapped
    obtain ⟨d, small, rfl⟩ := mem_toDigits (by decide : 1 < 16) k member
    exact (separator.ne_digitChar small).2 same

@[simp] theorem oneLine_decimal (k : Nat) : OneLine (decimal k) := not_mem_decimal .newline k

@[simp] theorem oneLine_signedDecimal (i : Int) : OneLine (signedDecimal i) :=
  not_mem_signedDecimal .newline i

@[simp] theorem oneLine_hex (width k : Nat) : OneLine (hex width k) :=
  not_mem_hex .newline width k

/-! ## Lengths -/

@[simp] theorem length_charBytes (chars : List Char) : (charBytes chars).length = chars.length :=
  List.length_map ..

/-- A text of at most `k` bytes, none of which is `c`. -/
def Clear (c : Byte) (k : Nat) (text : List Byte) : Prop := text.length ≤ k ∧ c ∉ text

/-- A text of at most `k` bytes on one line. -/
def Short (k : Nat) (text : List Byte) : Prop := text.length ≤ k ∧ OneLine text

instance (k : Nat) (text : List Byte) : Decidable (Clear c k text) :=
  inferInstanceAs (Decidable (_ ∧ _))

instance (k : Nat) (text : List Byte) : Decidable (Short k text) := by
  unfold Short
  infer_instance

namespace Clear

variable {j k : Nat} {text text' : List Byte}

theorem short (clear : Clear newline k text) : Short k text := clear

/-- A constant text is looked at. -/
theorem const (separator : Separator c) (clear : Clear newline k text ∧ Clear equalsSign k text) :
    Clear c k text := by
  cases separator with
  | newline => exact clear.1
  | equals => exact clear.2

theorem mono (clear : Clear c j text) (le : j ≤ k) : Clear c k text := ⟨clear.1.trans le, clear.2⟩

theorem append (first : Clear c j text) (second : Clear c k text') :
    Clear c (j + k) (text ++ text') := by
  refine ⟨?_, fun listed => (List.mem_append.1 listed).elim first.2 second.2⟩
  rw [List.length_append]
  exact Nat.add_le_add first.1 second.1

theorem intercalate {texts : List (List Byte)} (between : Clear c j text)
    (each : ∀ text ∈ texts, Clear c k text) :
    Clear c (texts.length * (j + k)) (text.intercalate texts) := by
  induction texts with
  | nil => exact ⟨Nat.zero_le _, List.not_mem_nil⟩
  | cons first rest ih =>
      have head := each first (by simp)
      have tail := ih fun text listed => each text (by simp [listed])
      cases rest with
      | nil =>
          rw [List.intercalate_singleton]
          exact head.mono (by simp)
      | cons second rest =>
          rw [List.intercalate_cons_cons]
          refine ((head.append between).append tail).mono ?_
          simp only [List.length_cons, Nat.add_mul]
          omega

theorem decimal {i : Nat} (separator : Separator c) (some : 0 < k) (small : i < 10 ^ k) :
    Clear c k (decimal i) := by
  refine ⟨?_, not_mem_decimal separator i⟩
  rw [Foundations.decimal, length_charBytes]
  exact (Nat.length_toDigits_le_iff (by decide) some).2 small

theorem signedDecimal {i : Int} (separator : Separator c) (some : 0 < k)
    (small : i.natAbs < 10 ^ k) : Clear c (1 + k) (signedDecimal i) := by
  have sign : Clear c 1 (ascii "-") := .const separator (by decide)
  have digits := Clear.decimal separator some small
  unfold Foundations.signedDecimal
  split
  · exact sign.append digits
  · exact digits.mono (by omega)

theorem hex {i width : Nat} (separator : Separator c) (some : 0 < k) (small : i < 16 ^ k)
    (narrow : width ≤ k) : Clear c k (hex width i) := by
  have digits := (Nat.length_toDigits_le_iff (n := i) (by decide : 1 < 16) some).2 small
  refine ⟨?_, not_mem_hex separator width i⟩
  rw [Foundations.hex, List.length_leftpad, length_charBytes, List.length_map]
  exact max_le narrow digits

end Clear

end Determinant.Foundations
