import Determinant.Foundations.BitStrings
import Determinant.Foundations.WordArithmetic
import Determinant.Instructions.Instruction

/-!
# Bit manipulation, bit by bit

The instructions of Zba, Zbb and Zbs are defined by the string of bits of their operands: which
bit of an operand each bit of the result is, how many bits are set, what becomes of each byte
(`Opcode.Defines`). What the source computes with shifts and masks is the value so defined
(`Opcode.defines_iff`). An immediate form has the value of its register form, and the operations
of one operand do not look at the other one.
-/

set_option autoImplicit false

namespace Determinant

open Foundations

/-- The opcodes of Zba, Zbb and Zbs. -/
def Opcode.isBitManipulation : Opcode → Bool
  | .zba _ | .zbb _ | .zbs _ => true
  | _ => false

/-- The value of a bit-manipulation instruction, as the source computes it. -/
def Opcode.bitValue (op : Opcode) (x y : Word) : Word :=
  match op with
  | .zba op => Zba.execute op x y
  | .zbb op => Zbb.execute op x y
  | .zbs op => Zbs.execute op x y
  | _ => 0#32

/-- The register form of an immediate form. -/
def Opcode.registerForm : Opcode → Opcode
  | .zbb .rori => .zbb .ror
  | .zbs .bclri => .zbs .bclr
  | .zbs .bexti => .zbs .bext
  | .zbs .binvi => .zbs .binv
  | .zbs .bseti => .zbs .bset
  | op => op

/-- The operations of one operand. -/
def Opcode.isUnary : Opcode → Bool
  | .zbb .clz | .zbb .ctz | .zbb .cpop | .zbb .sextB | .zbb .sextH | .zbb .zextH | .zbb .orcB
  | .zbb .rev8 => true
  | _ => false

/-- The bits of a word, from the lowest. -/
def Bits (value : Word) (bit : Nat → Bool) : Prop := ∀ i < 32, value.getLsbD i = bit i

/-- The bytes of a word, from the lowest. -/
def Bytes (value : Word) (byte : Nat → Byte) : Prop := ∀ k < 4, field (8 * k) 8 value = byte k

/-- A byte of ones for a byte with a one. -/
def filled (byte : Byte) : Byte := if byte = 0#8 then 0x00#8 else 0xFF#8

/-- The value of an instruction on the operands `x` and `y`. A rotation or a single bit goes by
the amount in `y` modulo 32, and `x` moves around the word by it. -/
def Opcode.Defines (op : Opcode) (x y value : Word) : Prop :=
  let amount := y.toNat % 32
  match op with
  | .zba .sh1add => value.toNat = (x.toNat * 2 ^ 1 + y.toNat) % 2 ^ 32
  | .zba .sh2add => value.toNat = (x.toNat * 2 ^ 2 + y.toNat) % 2 ^ 32
  | .zba .sh3add => value.toNat = (x.toNat * 2 ^ 3 + y.toNat) % 2 ^ 32
  | .zbb .andn => Bits value fun i => x.getLsbD i && !y.getLsbD i
  | .zbb .orn => Bits value fun i => x.getLsbD i || !y.getLsbD i
  | .zbb .xnor => Bits value fun i => x.getLsbD i == y.getLsbD i
  | .zbb .max => value = BitVec.ofInt 32 (max x.toInt y.toInt)
  | .zbb .maxu => value = BitVec.ofInt 32 (max x.toNat y.toNat : Nat)
  | .zbb .min => value = BitVec.ofInt 32 (min x.toInt y.toInt)
  | .zbb .minu => value = BitVec.ofInt 32 (min x.toNat y.toNat : Nat)
  | .zbb .rol => Bits value fun i => x.getLsbD ((i + (32 - amount)) % 32)
  | .zbb .ror | .zbb .rori => Bits value fun i => x.getLsbD ((i + amount) % 32)
  | .zbb .clz => value.toNat = leadingZeros x
  | .zbb .ctz => value.toNat = trailingZeros x
  | .zbb .cpop => value.toNat = ones x
  | .zbb .sextB => value.toInt = (x.setWidth 8).toInt
  | .zbb .sextH => value.toInt = (x.setWidth 16).toInt
  | .zbb .zextH => value.toNat = x.toNat % 2 ^ 16
  | .zbb .orcB => Bytes value fun k => filled (field (8 * k) 8 x)
  | .zbb .rev8 => Bytes value fun k => field (8 * (3 - k)) 8 x
  | .zbs .bclr | .zbs .bclri => Bits value fun i => x.getLsbD i && i ≠ amount
  | .zbs .bext | .zbs .bexti => value.toNat = (x.getLsbD amount).toNat
  | .zbs .binv | .zbs .binvi => Bits value fun i => x.getLsbD i != decide (i = amount)
  | .zbs .bset | .zbs .bseti => Bits value fun i => x.getLsbD i || i = amount
  | _ => False

/-! ## A word is its bits and its bytes -/

theorem Bits.unique {a b : Word} {bit : Nat → Bool} (left : Bits a bit) (right : Bits b bit) :
    a = b :=
  BitVec.eq_of_getLsbD_eq fun i hi => (left i hi).trans (right i hi).symm

theorem Bytes.unique {a b : Word} {byte : Nat → Byte} (left : Bytes a byte)
    (right : Bytes b byte) : a = b := by
  apply BitVec.eq_of_getLsbD_eq
  intro i hi
  have same : field (8 * (i / 8)) 8 a = field (8 * (i / 8)) 8 b :=
    (left _ (by omega)).trans (right _ (by omega)).symm
  have bit := congrArg (fun byte : Byte => byte.getLsbD (i % 8)) same
  have back : 8 * (i / 8) + i % 8 = i := Nat.div_add_mod i 8
  simpa [field, Nat.mod_lt, back] using bit

/-! ## The source's operations -/

section

variable (x y : Word)

theorem shifted_add (k : Nat) :
    ((x <<< k) + y).toNat = (x.toNat * 2 ^ k + y.toNat) % 2 ^ 32 := by
  rw [BitVec.toNat_add, BitVec.toNat_shiftLeft, Nat.shiftLeft_eq, Nat.mod_add_mod]

/-- The amount of a rotation and its complement in five bits. -/
theorem rotation_distances (amount : BitVec 5) :
    amount.toNat + (0#5 - amount).toNat = 32 ∨ amount.toNat = 0 ∧ (0#5 - amount).toNat = 0 := by
  have small := amount.isLt
  rw [BitVec.toNat_sub, BitVec.toNat_ofNat]
  omega

theorem rotated_left : Bits (Zbb.execute .rol x y) fun i =>
    x.getLsbD ((i + (32 - y.toNat % 32)) % 32) := by
  intro i hi
  have apart := rotation_distances (y.setWidth 5)
  have amount : (y.setWidth 5).toNat = y.toNat % 32 := BitVec.toNat_setWidth ..
  have source : (i + (32 - y.toNat % 32)) % 32 < 32 := Nat.mod_lt _ (by decide)
  have moved := getLsbD_rotated x apart source
  have target : ((i + (32 - y.toNat % 32)) % 32 + (y.setWidth 5).toNat) % 32 = i := by omega
  rw [target] at moved
  exact moved

theorem rotated_right : Bits (Zbb.execute .ror x y) fun i =>
    x.getLsbD ((i + y.toNat % 32) % 32) := by
  intro i hi
  have apart := rotation_distances (y.setWidth 5)
  have amount : (y.setWidth 5).toNat = y.toNat % 32 := BitVec.toNat_setWidth ..
  have source : (i + y.toNat % 32) % 32 < 32 := Nat.mod_lt _ (by decide)
  have swapped : (0#5 - y.setWidth 5).toNat + (y.setWidth 5).toNat = 32 ∨
      (0#5 - y.setWidth 5).toNat = 0 ∧ (y.setWidth 5).toNat = 0 := by omega
  have moved := getLsbD_rotated x swapped source
  have target : ((i + y.toNat % 32) % 32 + (0#5 - y.setWidth 5).toNat) % 32 = i := by omega
  rw [target, BitVec.or_comm] at moved
  exact moved

/-- A byte that is put at one place is read there and nowhere else. -/
theorem placed_byte {j k : Nat} (inside : k < 4) (b : Byte) :
    field (8 * k) 8 (b.setWidth 32 <<< (8 * j)) = if k = j then b else 0#8 := by
  by_cases here : k = j
  · rw [if_pos here, here, field_place (by omega)]
  · rw [if_neg here, field_place_apart (by omega)]

/-- A byte is filled when the mask of its place finds a bit in it. -/
theorem filled_byte {k : Nat} (inside : k < 4) (result : Word) :
    (if x &&& ((0xFF#8).setWidth 32 <<< (8 * k)) ≠ 0#32
      then result ||| ((0xFF#8).setWidth 32 <<< (8 * k)) else result) =
      result ||| ((filled (field (8 * k) 8 x)).setWidth 32 <<< (8 * k)) := by
  have empty := matches_field (s := 8 * k) (by omega) x 0#8
  rw [BitVec.setWidth_zero, BitVec.zero_shiftLeft] at empty
  unfold filled
  by_cases found : field (8 * k) 8 x = 0#8
  · have none : ¬(x &&& ((0xFF#8).setWidth 32 <<< (8 * k)) ≠ 0#32) := not_not.2 (empty.2 found)
    rw [if_neg none, if_pos found, BitVec.setWidth_zero, BitVec.zero_shiftLeft, BitVec.or_zero]
  · have some : x &&& ((0xFF#8).setWidth 32 <<< (8 * k)) ≠ 0#32 := mt empty.1 found
    rw [if_pos some, if_neg found]

theorem filled_bytes : Bytes (Zbb.execute .orcB x y) fun k => filled (field (8 * k) 8 x) := by
  have joined : Zbb.execute .orcB x y =
      0#32 ||| (filled (field (8 * 0) 8 x)).setWidth 32 <<< (8 * 0) |||
        (filled (field (8 * 1) 8 x)).setWidth 32 <<< (8 * 1) |||
        (filled (field (8 * 2) 8 x)).setWidth 32 <<< (8 * 2) |||
        (filled (field (8 * 3) 8 x)).setWidth 32 <<< (8 * 3) := by
    rw [← filled_byte x (by decide), ← filled_byte x (by decide), ← filled_byte x (by decide),
      ← filled_byte x (by decide)]
    rfl
  intro k inside
  rw [joined]
  simp only [field_or, placed_byte inside]
  interval_cases k <;> simp [field]

theorem swapped_bytes : Bytes (Zbb.execute .rev8 x y) fun k => field (8 * (3 - k)) 8 x := by
  intro k inside
  simp only [Zbb.execute, Zbb.byteSwap, extractLsb'_eq_field]
  interval_cases k
  · rw [field_append_low _ _ (by decide), field_self]
  · rw [field_append_high _ _ 0, field_append_low _ _ (by decide), field_self]
  · rw [field_append_high _ _ 8, field_append_high _ _ 0, field_append_low _ _ (by decide),
      field_self]
  · rw [field_append_high _ _ 16, field_append_high _ _ 8, field_append_high _ _ 0, field_self]

/-- The mask of a single bit. -/
theorem single_bit {i : Nat} (inside : i < 32) :
    (1#32 <<< (y.setWidth 5 : BitVec 5)).getLsbD i = decide (i = y.toNat % 32) := by
  rw [BitVec.shiftLeft_eq', getLsbD_one_shiftLeft inside, BitVec.toNat_setWidth]

theorem tested_bit : (Zbs.execute .bext x y).toNat = (x.getLsbD (y.toNat % 32)).toNat := by
  have bit : ((x >>> (y.setWidth 5 : BitVec 5)) &&& 1#32) =
      (BitVec.ofBool (x.getLsbD (y.toNat % 32))).setWidth 32 := by
    rw [BitVec.and_one_eq_setWidth_ofBool_getLsbD, BitVec.ushiftRight_eq', BitVec.toNat_setWidth,
      BitVec.getLsbD_ushiftRight]
    rfl
  rw [show Zbs.execute .bext x y = _ from bit]
  cases x.getLsbD (y.toNat % 32) <;> rfl

end

/-! ## The instructions -/

/-- **The source computes the defined value.** -/
theorem Opcode.defines_bitValue {op : Opcode} (bits : op.isBitManipulation = true) (x y : Word) :
    op.Defines x y (op.bitValue x y) := by
  cases op with
  | i | m | a | csr => cases bits
  | zba op =>
      cases op with
      | sh1add => exact shifted_add x y 1
      | sh2add => exact shifted_add x y 2
      | sh3add => exact shifted_add x y 3
  | zbb op =>
      cases op with
      | andn | orn =>
          intro i hi
          simp [bitValue, Zbb.execute, hi]
      | xnor =>
          intro i hi
          simp only [bitValue, Zbb.execute, BitVec.getLsbD_xor, BitVec.getLsbD_not, hi, decide_true,
            Bool.true_and]
          cases x.getLsbD i <;> cases y.getLsbD i <;> rfl
      | max => exact (ofInt_max x y).symm
      | maxu => exact (ofInt_max_toNat x y).symm
      | min => exact (ofInt_min x y).symm
      | minu => exact (ofInt_min_toNat x y).symm
      | rol => exact rotated_left x y
      | ror | rori => exact rotated_right x y
      | clz => exact toNat_clz x
      | ctz => exact toNat_ctz x
      | cpop => exact toNat_cpop x
      | sextB | sextH => exact BitVec.toInt_signExtend_of_le (by decide)
      | zextH => exact toNat_mask_low x (by decide : 16 ≤ 32)
      | orcB => exact filled_bytes x y
      | rev8 => exact swapped_bytes x y
  | zbs op =>
      cases op with
      | bclr | bclri =>
          intro i hi
          simp only [bitValue, Zbs.execute, BitVec.getLsbD_and, BitVec.getLsbD_not,
            single_bit y hi, hi, decide_true, Bool.true_and, decide_not]
      | bext | bexti => exact tested_bit x y
      | binv | binvi =>
          intro i hi
          simp only [bitValue, Zbs.execute, BitVec.getLsbD_xor, single_bit y hi]
      | bset | bseti =>
          intro i hi
          simp only [bitValue, Zbs.execute, BitVec.getLsbD_or, single_bit y hi]

/-- The definition leaves no choice. -/
theorem Opcode.Defines.unique {op : Opcode} {x y value value' : Word}
    (left : op.Defines x y value) (right : op.Defines x y value') : value = value' := by
  cases op with
  | i | m | a | csr => exact left.elim
  | zba op => cases op <;> exact BitVec.eq_of_toNat_eq (left.trans right.symm)
  | zbb op =>
      cases op with
      | andn | orn | xnor | rol | ror | rori => exact Bits.unique left right
      | orcB | rev8 => exact Bytes.unique left right
      | max | maxu | min | minu => exact left.trans right.symm
      | clz | ctz | cpop | zextH => exact BitVec.eq_of_toNat_eq (left.trans right.symm)
      | sextB | sextH => exact BitVec.eq_of_toInt_eq (left.trans right.symm)
  | zbs op =>
      cases op with
      | bext | bexti => exact BitVec.eq_of_toNat_eq (left.trans right.symm)
      | _ => exact Bits.unique left right

theorem Opcode.defines_iff {op : Opcode} (bits : op.isBitManipulation = true) (x y value : Word) :
    op.Defines x y value ↔ value = op.bitValue x y := by
  constructor
  · intro defined
    exact defined.unique (Opcode.defines_bitValue bits x y)
  · rintro rfl
    exact Opcode.defines_bitValue bits x y

/-- An immediate form has the value of its register form. -/
theorem Opcode.bitValue_registerForm (op : Opcode) (x y : Word) :
    op.registerForm.bitValue x y = op.bitValue x y := by
  cases op with
  | zbb op => cases op <;> rfl
  | zbs op => cases op <;> rfl
  | _ => rfl

/-- An operation of one operand does not look at the other one. -/
theorem Opcode.bitValue_unary {op : Opcode} (unary : op.isUnary = true) (x y y' : Word) :
    op.bitValue x y = op.bitValue x y' := by
  cases op with
  | zbb op => cases op <;> first | rfl | cases unary
  | _ => cases unary

end Determinant
