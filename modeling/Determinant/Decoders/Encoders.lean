import Determinant.Decoders.Agreement
import Determinant.Foundations.Fields

/-!
# Encoders

The encoders of the six instruction formats, as the source's tests build their instruction
words, and what the decoder makes of these words: the fields that were put in
(`fields_encodeR` and its siblings), and so, by the registry, the instruction that was meant
(`decode_encodeR` and its siblings).
-/

set_option autoImplicit false

namespace Determinant

open Foundations

/-! ## The encoders -/

def encodeR (op : BitVec 7) (f3 : BitVec 3) (f7 : BitVec 7) (rd rs1 rs2 : Reg) : Word :=
  op.setWidth 32 ||| (rd.setWidth 32 <<< 7) ||| (f3.setWidth 32 <<< 12) |||
    (rs1.setWidth 32 <<< 15) ||| (rs2.setWidth 32 <<< 20) ||| (f7.setWidth 32 <<< 25)

def encodeI (op : BitVec 7) (f3 : BitVec 3) (rd rs1 : Reg) (imm12 : BitVec 12) : Word :=
  op.setWidth 32 ||| (rd.setWidth 32 <<< 7) ||| (f3.setWidth 32 <<< 12) |||
    (rs1.setWidth 32 <<< 15) ||| (imm12.setWidth 32 <<< 20)

def encodeOp (f3 : BitVec 3) (f7 : BitVec 7) (rd rs1 rs2 : Reg) : Word :=
  encodeR 0b0110011#7 f3 f7 rd rs1 rs2

/-- A shift: the shift amount is in the place of `rs2`. -/
def encodeOpImmShift (f3 : BitVec 3) (f7 : BitVec 7) (rd rs1 : Reg) (shamt : BitVec 5) : Word :=
  encodeR 0b0010011#7 f3 f7 rd rs1 shamt

def encodeS (f3 : BitVec 3) (rs1 rs2 : Reg) (imm12 : BitVec 12) : Word :=
  let imm : Word := imm12.setWidth 32
  let imm_4_0 : Word := imm &&& 0x1F#32
  let imm_11_5 : Word := (imm >>> 5) &&& 0x7F#32
  0b0100011#32 ||| (imm_4_0 <<< 7) ||| (f3.setWidth 32 <<< 12) ||| (rs1.setWidth 32 <<< 15) |||
    (rs2.setWidth 32 <<< 20) ||| (imm_11_5 <<< 25)

def encodeB (f3 : BitVec 3) (rs1 rs2 : Reg) (imm : BitVec 13) : Word :=
  let bits : Word := imm.setWidth 32
  let bit_12 : Word := (bits >>> 12) &&& 1#32
  let bit_11 : Word := (bits >>> 11) &&& 1#32
  let bits_10_5 : Word := (bits >>> 5) &&& 0x3F#32
  let bits_4_1 : Word := (bits >>> 1) &&& 0xF#32
  0b1100011#32 ||| (bit_11 <<< 7) ||| (bits_4_1 <<< 8) ||| (f3.setWidth 32 <<< 12) |||
    (rs1.setWidth 32 <<< 15) ||| (rs2.setWidth 32 <<< 20) ||| (bits_10_5 <<< 25) ||| (bit_12 <<< 31)

def encodeU (op : BitVec 7) (rd : Reg) (imm20 : BitVec 20) : Word :=
  op.setWidth 32 ||| (rd.setWidth 32 <<< 7) ||| (imm20.setWidth 32 <<< 12)

def encodeJ (rd : Reg) (imm : BitVec 21) : Word :=
  let bits : Word := imm.setWidth 32
  let bit_20 : Word := (bits >>> 20) &&& 1#32
  let bits_10_1 : Word := (bits >>> 1) &&& 0x3FF#32
  let bit_11 : Word := (bits >>> 11) &&& 1#32
  let bits_19_12 : Word := (bits >>> 12) &&& 0xFF#32
  0b1101111#32 ||| (rd.setWidth 32 <<< 7) ||| (bits_19_12 <<< 12) ||| (bit_11 <<< 20) |||
    (bits_10_1 <<< 21) ||| (bit_20 <<< 31)

/-! ## The fields of a word -/

namespace Bitfields

variable (raw : Word)

theorem opcode7_eq : opcode7 raw = field 0 7 raw := (field_zero raw).symm
theorem rd_eq : rd raw = field 7 5 raw := rfl
theorem funct3_eq : funct3 raw = field 12 3 raw := rfl
theorem rs1_eq : rs1 raw = field 15 5 raw := rfl
theorem rs2_eq : rs2 raw = field 20 5 raw := rfl
theorem funct7_eq : funct7 raw = field 25 7 raw := rfl

/-! The immediates, with their fields named and their sign extended in the end. -/

theorem immI_eq : immI raw = (field 20 12 raw).signExtend 32 :=
  sshiftRight_field (s := 20) (k := 12) (by decide) (by decide) raw

theorem immS_eq :
    immS raw = (((field 25 7 raw).setWidth 32 <<< 5 ||| (field 7 5 raw).setWidth 32 :
      Word).setWidth 12).signExtend 32 := by
  rw [← shift_mask, ← shift_mask]
  exact shift_signExtend (k := 12) (by decide) (by decide) _

theorem immB_eq :
    immB raw = (((field 31 1 raw).setWidth 32 <<< 12 ||| (field 7 1 raw).setWidth 32 <<< 11 |||
      (field 25 6 raw).setWidth 32 <<< 5 ||| (field 8 4 raw).setWidth 32 <<< 1 :
        Word).setWidth 13).signExtend 32 := by
  simp only [← shift_mask]
  exact shift_signExtend (k := 13) (by decide) (by decide) _

theorem immU_eq : immU raw = (field 12 20 raw).setWidth 32 <<< 12 :=
  placed_mask (s := 12) (k := 20) (by decide) raw

theorem immJ_eq :
    immJ raw = (((field 31 1 raw).setWidth 32 <<< 20 ||| (field 12 8 raw).setWidth 32 <<< 12 |||
      (field 20 1 raw).setWidth 32 <<< 11 ||| (field 21 10 raw).setWidth 32 <<< 1 :
        Word).setWidth 21).signExtend 32 := by
  simp only [← shift_mask]
  exact shift_signExtend (k := 21) (by decide) (by decide) _

end Bitfields

/-! ## The fields of an encoded word -/

section Fields

open Bitfields

variable (op : BitVec 7) (f3 : BitVec 3) (f7 : BitVec 7) (a b c : Reg)

theorem fields_encodeR :
    opcode7 (encodeR op f3 f7 a b c) = op ∧ rd (encodeR op f3 f7 a b c) = a ∧
      funct3 (encodeR op f3 f7 a b c) = f3 ∧ rs1 (encodeR op f3 f7 a b c) = b ∧
      rs2 (encodeR op f3 f7 a b c) = c ∧ funct7 (encodeR op f3 f7 a b c) = f7 := by
  refine ⟨?_, ?_, ?_, ?_, ?_, ?_⟩ <;>
    simp (disch := omega) only [opcode7_eq, rd_eq, funct3_eq, rs1_eq, rs2_eq, funct7_eq, encodeR,
      field_or, field_low, field_low_apart, field_place, field_place_apart, BitVec.or_zero,
      BitVec.zero_or]

theorem fields_encodeI (imm : BitVec 12) :
    opcode7 (encodeI op f3 a b imm) = op ∧ rd (encodeI op f3 a b imm) = a ∧
      funct3 (encodeI op f3 a b imm) = f3 ∧ rs1 (encodeI op f3 a b imm) = b ∧
      immI (encodeI op f3 a b imm) = imm.signExtend 32 := by
  refine ⟨?_, ?_, ?_, ?_, ?_⟩ <;>
    simp (disch := omega) only [opcode7_eq, rd_eq, funct3_eq, rs1_eq, immI_eq, encodeI,
      field_or, field_low, field_low_apart, field_place, field_place_apart, BitVec.or_zero,
      BitVec.zero_or]

/-- The pieces of an S immediate are fields of it. -/
theorem encodeS_eq (imm : BitVec 12) :
    encodeS f3 b c imm =
      (0b0100011#7).setWidth 32 ||| ((field 0 5 imm).setWidth 32 <<< 7) |||
        (f3.setWidth 32 <<< 12) ||| (b.setWidth 32 <<< 15) ||| (c.setWidth 32 <<< 20) |||
        ((field 5 7 imm).setWidth 32 <<< 25) := by
  rw [← extended_mask (w := 32) (s := 0) (by decide),
    ← extended_mask (w := 32) (s := 5) (by decide),
    BitVec.ushiftRight_zero]
  rfl

/-- They make it up. -/
theorem join_encodeS (imm : BitVec 12) :
    ((field 5 7 imm).setWidth 32 <<< 5 ||| (field 0 5 imm).setWidth 32 : Word).setWidth 12 =
      imm := by
  apply BitVec.eq_of_getLsbD_eq
  intro i hi
  have low := getLsbD_placed_field (w := 32) imm 0 5 i
  rw [BitVec.shiftLeft_zero] at low
  rw [Bool.eq_iff_iff]
  simp only [BitVec.getLsbD_setWidth, BitVec.getLsbD_or, getLsbD_placed_field, low,
    Bool.or_eq_true, Bool.and_eq_true, decide_eq_true_eq]
  constructor
  · tauto
  · intro set
    simp only [set, and_true]
    omega

theorem fields_encodeS (imm : BitVec 12) :
    opcode7 (encodeS f3 b c imm) = 0b0100011#7 ∧ funct3 (encodeS f3 b c imm) = f3 ∧
      rs1 (encodeS f3 b c imm) = b ∧ rs2 (encodeS f3 b c imm) = c ∧
      immS (encodeS f3 b c imm) = imm.signExtend 32 := by
  rw [encodeS_eq]
  refine ⟨?_, ?_, ?_, ?_, ?_⟩ <;>
    simp (disch := omega) only [opcode7_eq, funct3_eq, rs1_eq, rs2_eq, immS_eq, field_or,
      field_low, field_low_apart, field_place, field_place_apart, BitVec.or_zero, BitVec.zero_or,
      join_encodeS]

/-- The pieces of a B immediate are fields of it. -/
theorem encodeB_eq (imm : BitVec 13) :
    encodeB f3 b c imm =
      (0b1100011#7).setWidth 32 ||| ((field 11 1 imm).setWidth 32 <<< 7) |||
        ((field 1 4 imm).setWidth 32 <<< 8) ||| (f3.setWidth 32 <<< 12) |||
        (b.setWidth 32 <<< 15) ||| (c.setWidth 32 <<< 20) |||
        ((field 5 6 imm).setWidth 32 <<< 25) ||| ((field 12 1 imm).setWidth 32 <<< 31) := by
  rw [← extended_mask (w := 32) (s := 11) (by decide),
    ← extended_mask (w := 32) (s := 1) (by decide),
    ← extended_mask (w := 32) (s := 5) (by decide),
    ← extended_mask (w := 32) (s := 12) (by decide)]
  rfl

/-- They make up an even one. -/
theorem join_encodeB {imm : BitVec 13} (even : imm.getLsbD 0 = false) :
    ((field 12 1 imm).setWidth 32 <<< 12 ||| (field 11 1 imm).setWidth 32 <<< 11 |||
      (field 5 6 imm).setWidth 32 <<< 5 ||| (field 1 4 imm).setWidth 32 <<< 1 : Word).setWidth 13 =
      imm := by
  apply BitVec.eq_of_getLsbD_eq
  intro i hi
  rw [Bool.eq_iff_iff]
  simp only [BitVec.getLsbD_setWidth, BitVec.getLsbD_or, getLsbD_placed_field, Bool.or_eq_true,
    Bool.and_eq_true, decide_eq_true_eq]
  constructor
  · tauto
  · intro set
    have positive : i ≠ 0 := by
      rintro rfl
      rw [even] at set
      cases set
    simp only [set, and_true]
    omega

theorem fields_encodeB {imm : BitVec 13} (even : imm.getLsbD 0 = false) :
    opcode7 (encodeB f3 b c imm) = 0b1100011#7 ∧ funct3 (encodeB f3 b c imm) = f3 ∧
      rs1 (encodeB f3 b c imm) = b ∧ rs2 (encodeB f3 b c imm) = c ∧
      immB (encodeB f3 b c imm) = imm.signExtend 32 := by
  rw [encodeB_eq]
  refine ⟨?_, ?_, ?_, ?_, ?_⟩ <;>
    simp (disch := omega) only [opcode7_eq, funct3_eq, rs1_eq, rs2_eq, immB_eq, field_or,
      field_low, field_low_apart, field_place, field_place_apart, BitVec.or_zero, BitVec.zero_or,
      join_encodeB even]

theorem fields_encodeU (imm : BitVec 20) :
    opcode7 (encodeU op a imm) = op ∧ rd (encodeU op a imm) = a ∧
      immU (encodeU op a imm) = imm.setWidth 32 <<< 12 := by
  refine ⟨?_, ?_, ?_⟩ <;>
    simp (disch := omega) only [opcode7_eq, rd_eq, immU_eq, encodeU, field_or, field_low,
      field_low_apart, field_place, field_place_apart, BitVec.or_zero, BitVec.zero_or]

/-- The pieces of a J immediate are fields of it. -/
theorem encodeJ_eq (imm : BitVec 21) :
    encodeJ a imm =
      (0b1101111#7).setWidth 32 ||| (a.setWidth 32 <<< 7) |||
        ((field 12 8 imm).setWidth 32 <<< 12) ||| ((field 11 1 imm).setWidth 32 <<< 20) |||
        ((field 1 10 imm).setWidth 32 <<< 21) ||| ((field 20 1 imm).setWidth 32 <<< 31) := by
  rw [← extended_mask (w := 32) (s := 11) (by decide),
    ← extended_mask (w := 32) (s := 1) (by decide),
    ← extended_mask (w := 32) (s := 12) (by decide),
    ← extended_mask (w := 32) (s := 20) (by decide)]
  rfl

/-- They make up an even one. -/
theorem join_encodeJ {imm : BitVec 21} (even : imm.getLsbD 0 = false) :
    ((field 20 1 imm).setWidth 32 <<< 20 ||| (field 12 8 imm).setWidth 32 <<< 12 |||
      (field 11 1 imm).setWidth 32 <<< 11 ||| (field 1 10 imm).setWidth 32 <<< 1 :
        Word).setWidth 21 = imm := by
  apply BitVec.eq_of_getLsbD_eq
  intro i hi
  rw [Bool.eq_iff_iff]
  simp only [BitVec.getLsbD_setWidth, BitVec.getLsbD_or, getLsbD_placed_field, Bool.or_eq_true,
    Bool.and_eq_true, decide_eq_true_eq]
  constructor
  · tauto
  · intro set
    have positive : i ≠ 0 := by
      rintro rfl
      rw [even] at set
      cases set
    simp only [set, and_true]
    omega

theorem fields_encodeJ {imm : BitVec 21} (even : imm.getLsbD 0 = false) :
    opcode7 (encodeJ a imm) = 0b1101111#7 ∧ rd (encodeJ a imm) = a ∧
      immJ (encodeJ a imm) = imm.signExtend 32 := by
  rw [encodeJ_eq]
  refine ⟨?_, ?_, ?_⟩ <;>
    simp (disch := omega) only [opcode7_eq, rd_eq, immJ_eq, field_or, field_low,
      field_low_apart, field_place, field_place_apart, BitVec.or_zero, BitVec.zero_or,
      join_encodeJ even]

end Fields

/-! ## The decoder and the encoders -/

/-- A full-size word that decodes to an instruction with these operands. -/
def Encodes (w : Word) (op : Opcode) (rd rs1 rs2 : Reg) (imm : Word) : Prop :=
  isCompressed w = false ∧
    decode w = .ok { op := op, rd := rd, rs1 := rs1, rs2 := rs2, imm := imm, raw := w }

namespace Registry

open Bitfields

theorem registry_full : ∀ e ∈ registry, e.opcode7.setWidth 2 = 0b11#2 := by
  decide

/-- A word with the fields of an entry decodes to the entry's instruction. -/
theorem decode_of_fields {e : Entry} (listed : e ∈ registry) {w : Word} (fields : e.Fields w) :
    isCompressed w = false ∧ decode w = .ok (instruction e w) := by
  have full : isCompressed w = false := by
    rw [Bool.eq_false_iff, ne_eq, isCompressed_iff, not_not]
    rw [← registry_full e listed, ← fields.1, Bitfields.opcode7,
      BitVec.setWidth_setWidth_of_le w (by decide)]
  exact ⟨full, (decode_iff_gives full).2 ⟨e, listed, fields, rfl⟩⟩

variable {op : Opcode} {opcode : BitVec 7} {f3 : BitVec 3} {f7 : BitVec 7} (a b c : Reg)

theorem encodes_encodeR (format : op.format = .R)
    (listed : { op := op, opcode7 := opcode, f3 := some f3, f7 := some f7 } ∈ registry) :
    Encodes (encodeR opcode f3 f7 a b c) op a b c 0#32 := by
  obtain ⟨major, rd, funct3, rs1, rs2, funct7⟩ := fields_encodeR opcode f3 f7 a b c
  obtain ⟨full, decoded⟩ := decode_of_fields listed (w := encodeR opcode f3 f7 a b c)
    ⟨major, by rintro _ ⟨⟩; exact funct3, by rintro _ ⟨⟩; exact funct7, nofun, nofun, nofun, nofun,
      nofun⟩
  refine ⟨full, decoded.trans ?_⟩
  rw [instruction_of_R format, regInstruction, rd, rs1, rs2]

/-- Shifts are R words with the amount in the place of `rs2`. -/
theorem encodes_shift (format : op.format = .I) (shift : f3 = 0b001#3 ∨ f3 = 0b101#3)
    (listed : { op := op, opcode7 := 0b0010011#7, f3 := some f3, f7 := some f7 } ∈ registry)
    (operands : op ∉ [Opcode.i .ecall, .i .ebreak, .i .fence, .i .fenceI]) (shamt : BitVec 5) :
    Encodes (encodeOpImmShift f3 f7 a b shamt) op a b 0#5 (shamt.setWidth 32) := by
  obtain ⟨major, rd, funct3, rs1, rs2, funct7⟩ := fields_encodeR 0b0010011#7 f3 f7 a b shamt
  obtain ⟨full, decoded⟩ := decode_of_fields listed (w := encodeOpImmShift f3 f7 a b shamt)
    ⟨major, by rintro _ ⟨⟩; exact funct3, by rintro _ ⟨⟩; exact funct7, nofun, nofun, nofun, nofun,
      nofun⟩
  refine ⟨full, decoded.trans ?_⟩
  rw [instruction_of_I format operands, immInstruction, encodeOpImmShift, rd, rs1, rs2, funct3,
    if_pos ⟨rfl, shift⟩]

theorem encodes_encodeI (format : op.format = .I)
    (plain : ¬(opcode = 0b0010011#7 ∧ (f3 = 0b001#3 ∨ f3 = 0b101#3)))
    (listed : { op := op, opcode7 := opcode, f3 := some f3 } ∈ registry)
    (operands : op ∉ [Opcode.i .ecall, .i .ebreak, .i .fence, .i .fenceI]) (imm : BitVec 12) :
    Encodes (encodeI opcode f3 a b imm) op a b 0#5 (imm.signExtend 32) := by
  obtain ⟨major, rd, funct3, rs1, immI⟩ := fields_encodeI opcode f3 a b imm
  obtain ⟨full, decoded⟩ := decode_of_fields listed (w := encodeI opcode f3 a b imm)
    ⟨major, by rintro _ ⟨⟩; exact funct3, nofun, nofun, nofun, nofun, nofun, nofun⟩
  refine ⟨full, decoded.trans ?_⟩
  rw [instruction_of_I format operands, immInstruction, rd, rs1, funct3, if_neg plain, immI]

/-- The instructions of the other formats: those of RV32I without special operands. -/
theorem instruction_of_base {op : Rv32i.Opcode} {e : Entry} (same : e.op = .i op) (w : Word) :
    (op.format = .S → instruction e w =
      { op := .i op, rs1 := rs1 w, rs2 := rs2 w, imm := immS w, raw := w }) ∧
    (op.format = .B → instruction e w =
      { op := .i op, rs1 := rs1 w, rs2 := rs2 w, imm := immB w, raw := w }) ∧
    (op.format = .U → instruction e w = { op := .i op, rd := rd w, imm := immU w, raw := w }) ∧
    (op.format = .J → instruction e w = { op := .i op, rd := rd w, imm := immJ w, raw := w }) := by
  obtain ⟨_, _⟩ := e
  cases same
  refine ⟨fun format => ?_, fun format => ?_, fun format => ?_, fun format => ?_⟩ <;>
    cases op <;> first | (cases format; done) | rfl

variable {op : Rv32i.Opcode}

theorem encodes_encodeS (format : op.format = .S)
    (listed : { op := .i op, opcode7 := 0b0100011#7, f3 := some f3 } ∈ registry)
    (imm : BitVec 12) : Encodes (encodeS f3 b c imm) (.i op) 0#5 b c (imm.signExtend 32) := by
  obtain ⟨major, funct3, rs1, rs2, immS⟩ := fields_encodeS f3 b c imm
  obtain ⟨full, decoded⟩ := decode_of_fields listed (w := encodeS f3 b c imm)
    ⟨major, by rintro _ ⟨⟩; exact funct3, nofun, nofun, nofun, nofun, nofun, nofun⟩
  refine ⟨full, decoded.trans ?_⟩
  rw [(instruction_of_base rfl _).1 format, rs1, rs2, immS]

theorem encodes_encodeB (format : op.format = .B)
    (listed : { op := .i op, opcode7 := 0b1100011#7, f3 := some f3 } ∈ registry)
    {imm : BitVec 13} (even : imm.getLsbD 0 = false) :
    Encodes (encodeB f3 b c imm) (.i op) 0#5 b c (imm.signExtend 32) := by
  obtain ⟨major, funct3, rs1, rs2, immB⟩ := fields_encodeB f3 b c even
  obtain ⟨full, decoded⟩ := decode_of_fields listed (w := encodeB f3 b c imm)
    ⟨major, by rintro _ ⟨⟩; exact funct3, nofun, nofun, nofun, nofun, nofun, nofun⟩
  refine ⟨full, decoded.trans ?_⟩
  rw [(instruction_of_base rfl _).2.1 format, rs1, rs2, immB]

theorem encodes_encodeU (format : op.format = .U)
    (listed : { op := .i op, opcode7 := opcode } ∈ registry) (imm : BitVec 20) :
    Encodes (encodeU opcode a imm) (.i op) a 0#5 0#5 (imm.setWidth 32 <<< 12) := by
  obtain ⟨major, rd, immU⟩ := fields_encodeU opcode a imm
  obtain ⟨full, decoded⟩ := decode_of_fields listed (w := encodeU opcode a imm)
    ⟨major, nofun, nofun, nofun, nofun, nofun, nofun, nofun⟩
  refine ⟨full, decoded.trans ?_⟩
  rw [(instruction_of_base rfl _).2.2.1 format, rd, immU]

theorem encodes_encodeJ (format : op.format = .J)
    (listed : { op := .i op, opcode7 := 0b1101111#7 } ∈ registry) {imm : BitVec 21}
    (even : imm.getLsbD 0 = false) :
    Encodes (encodeJ a imm) (.i op) a 0#5 0#5 (imm.signExtend 32) := by
  obtain ⟨major, rd, immJ⟩ := fields_encodeJ a even
  obtain ⟨full, decoded⟩ := decode_of_fields listed (w := encodeJ a imm)
    ⟨major, nofun, nofun, nofun, nofun, nofun, nofun, nofun⟩
  refine ⟨full, decoded.trans ?_⟩
  rw [(instruction_of_base rfl _).2.2.2 format, rd, immJ]

end Registry

end Determinant
