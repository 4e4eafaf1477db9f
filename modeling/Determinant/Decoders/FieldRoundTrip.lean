import Determinant.Decoders.Encoders

/-!
# Instruction fields survive decoding

Whatever the function fields of a word are, an instruction that it decodes to has the operands
that an encoder put into the word (`operands_encodeR` and its siblings): no bit of an operand
is dropped or moved. In the other direction the operands, with the opcode, leave no choice for
any bit of the word, other than the bits that the decoder does not look at
(`ignored_of_differ`).
-/

set_option autoImplicit false

namespace Determinant

open Foundations

/-! ## The encoders of atomics and CSR instructions -/

/-- An atomic instruction with `aq` and `rl` clear. -/
def encodeAtomic (funct5 : BitVec 5) (rd rs1 rs2 : Reg) : Word :=
  let f7 : BitVec 7 := funct5.setWidth 7 <<< 2
  (0b0101111#7).setWidth 32 ||| (rd.setWidth 32 <<< 7) ||| ((0b010#3).setWidth 32 <<< 12) |||
    (rs1.setWidth 32 <<< 15) ||| (rs2.setWidth 32 <<< 20) ||| (f7.setWidth 32 <<< 25)

def encodeCsr (f3 : BitVec 3) (rd rs1 : Reg) (csrAddr : BitVec 12) : Word :=
  (0b1110011#7).setWidth 32 ||| (rd.setWidth 32 <<< 7) ||| (f3.setWidth 32 <<< 12) |||
    (rs1.setWidth 32 <<< 15) ||| (csrAddr.setWidth 32 <<< 20)

/-! ## Operands -/

/-- The operands of a decoded instruction; the immediate is an integer. -/
structure Instruction.Operands (inst : Instruction) (rd rs1 rs2 : Reg) (imm : Int) : Prop where
  rd : inst.rd = rd
  rs1 : inst.rs1 = rs1
  rs2 : inst.rs2 = rs2
  imm : inst.imm.toInt = imm

/-- The instructions have the same operands. -/
structure Instruction.SameOperands (inst inst' : Instruction) : Prop where
  rd : inst.rd = inst'.rd
  rs1 : inst.rs1 = inst'.rs1
  rs2 : inst.rs2 = inst'.rs2
  imm : inst.imm = inst'.imm

/-- An immediate of U format is a multiple of 4096. -/
theorem toInt_upper (imm : BitVec 20) : (imm.setWidth 32 <<< 12).toInt = 4096 * imm.toInt := by
  have joined : imm.setWidth 32 <<< 12 = imm ++ 0#12 := by
    apply BitVec.eq_of_getLsbD_eq
    intro i hi
    simp only [BitVec.getLsbD_shiftLeft, BitVec.getLsbD_setWidth, BitVec.getLsbD_append,
      BitVec.getLsbD_zero, hi, decide_true, Bool.true_and]
    by_cases low : i < 12
    · simp [low]
    · simp [low, show i - 12 < 32 by omega]
  rw [joined, BitVec.toInt_append_zero]
  rfl

theorem toInt_shamt (shamt : BitVec 5) : (shamt.setWidth 32).toInt = shamt.toNat := by
  have small := shamt.isLt
  have same : (shamt.setWidth 32).toNat = shamt.toNat := BitVec.toNat_setWidth_of_le (by decide)
  rw [BitVec.toInt_eq_toNat_of_lt (by omega), same]

theorem getLsbD_zero_of_even {k : Nat} {imm : BitVec (k + 1)} (even : imm.toInt % 2 = 0) :
    imm.getLsbD 0 = false := by
  rw [BitVec.getLsbD, Nat.testBit_zero, decide_eq_false_iff_not]
  rw [BitVec.toInt_eq_toNat_cond, Nat.pow_succ] at even
  split at even <;> omega

namespace Registry

open Bitfields

variable {w : Word} {inst : Instruction}

theorem entry_of_decode (full : (opcode7 w).setWidth 2 = 0b11#2) (decoded : decode w = .ok inst) :
    ∃ e ∈ registry, e.Fields w ∧ instruction e w = inst := by
  have notShort : isCompressed w = false := by
    rw [Bool.eq_false_iff, ne_eq, isCompressed_iff, not_not, ← full, Bitfields.opcode7,
      BitVec.setWidth_setWidth_of_le w (by decide)]
  exact (decode_iff_gives notShort).1 decoded

/-- An instruction that a word decodes to is the one that an entry of its major opcode
specifies. -/
theorem entry_of_major {majors : List (BitVec 7)} {opcode : BitVec 7}
    (isOpcode : opcode7 w = opcode)
    (listed : opcode ∈ majors) (full : ∀ opcode ∈ majors, opcode.setWidth 2 = 0b11#2)
    (decoded : decode w = .ok inst) :
    ∃ e ∈ registry, e.opcode7 ∈ majors ∧ e.Fields w ∧ instruction e w = inst := by
  subst isOpcode
  obtain ⟨e, found, fields, same⟩ := entry_of_decode (full _ listed) decoded
  exact ⟨e, found, fields.1 ▸ listed, fields, same⟩

/-- The formats other than R and I are of RV32I. -/
theorem base_of_format (op : Opcode) (notR : op.format ≠ .R) (notI : op.format ≠ .I) :
    ∃ base, op = .i base := by
  cases op with
  | i base => exact ⟨base, rfl⟩
  | m | a | zba => exact absurd rfl notR
  | csr => exact absurd rfl notI
  | zbb op =>
      have both : op.format = .R ∨ op.format = .I := by
        cases op <;> simp [Zbb.Opcode.format]
      exact (both.elim notR notI).elim
  | zbs op =>
      have both : op.format = .R ∨ op.format = .I := by
        cases op <;> simp [Zbs.Opcode.format]
      exact (both.elim notR notI).elim

variable {opcode : BitVec 7} {f3 : BitVec 3} {f7 : BitVec 7} {a b c : Reg}

/-! ## From the encoder to the instruction -/

/-- The major opcodes of the register-register instructions. -/
theorem operands_encodeR (major : opcode ∈ [0b0110011#7, 0b0101111#7])
    (decoded : decode (encodeR opcode f3 f7 a b c) = .ok inst) : inst.Operands a b c 0 := by
  have formats : ∀ e ∈ registry, e.opcode7 ∈ [0b0110011#7, 0b0101111#7] → e.op.format = .R := by
    decide
  obtain ⟨isOpcode, rd, _, rs1, rs2, _⟩ := fields_encodeR opcode f3 f7 a b c
  obtain ⟨e, listed, major, fields, rfl⟩ := entry_of_major isOpcode major (by decide) decoded
  rw [instruction_of_R (formats e listed major)]
  exact ⟨rd, rs1, rs2, rfl⟩

/-- Shifts, and the unary operations that are encoded like them. -/
theorem operands_encodeOpImmShift {shamt : BitVec 5} (shift : f3 = 0b001#3 ∨ f3 = 0b101#3)
    (decoded : decode (encodeOpImmShift f3 f7 a b shamt) = .ok inst) :
    inst.Operands a b 0#5 shamt.toNat := by
  have formats : ∀ e ∈ registry, e.opcode7 ∈ [0b0010011#7] → e.op.format = .I ∧
      e.op ∉ [Opcode.i .ecall, .i .ebreak, .i .fence, .i .fenceI] := by
    decide
  obtain ⟨isOpcode, rd, funct3, rs1, rs2, _⟩ := fields_encodeR 0b0010011#7 f3 f7 a b shamt
  obtain ⟨e, listed, major, fields, rfl⟩ :=
    entry_of_major isOpcode (List.mem_singleton_self _) (by decide) decoded
  obtain ⟨format, operands⟩ := formats e listed major
  rw [instruction_of_I format operands, if_pos ⟨List.mem_singleton.1 major, by rwa [funct3]⟩]
  refine ⟨rd, rs1, rfl, ?_⟩
  rw [immInstruction, rs2, toInt_shamt]

/-- The immediates of 12 bits: of arithmetic, of loads and of JALR, and CSR numbers. -/
theorem immediate_encodeI {imm : BitVec 12}
    (major : opcode ∈ [0b0010011#7, 0b0000011#7, 0b1100111#7, 0b1110011#7])
    (plain : ¬(opcode = 0b0010011#7 ∧ (f3 = 0b001#3 ∨ f3 = 0b101#3)))
    (notCall : ¬(opcode = 0b1110011#7 ∧ f3 = 0b000#3))
    (decoded : decode (encodeI opcode f3 a b imm) = .ok inst) :
    inst.rd = a ∧ inst.rs1 = b ∧ inst.rs2 = 0#5 ∧ inst.imm = imm.signExtend 32 := by
  have formats : ∀ e ∈ registry, e.opcode7 ∈ [0b0010011#7, 0b0000011#7, 0b1100111#7, 0b1110011#7] →
      e.op.format = .I ∧ (e.op ∉ [Opcode.i .ecall, .i .ebreak, .i .fence, .i .fenceI] ∨
        e.opcode7 = 0b1110011#7 ∧ e.f3 = some 0b000#3) := by
    decide
  obtain ⟨isOpcode, rd, funct3, rs1, immI⟩ := fields_encodeI opcode f3 a b imm
  obtain ⟨e, listed, major, fields, rfl⟩ := entry_of_major isOpcode major (by decide) decoded
  obtain ⟨format, operands | ⟨system, call⟩⟩ := formats e listed major
  · rw [instruction_of_I format operands, ← fields.1, isOpcode, funct3, if_neg plain, immI]
    exact ⟨rd, rs1, rfl, rfl⟩
  · refine absurd ⟨?_, ?_⟩ notCall
    · rw [← isOpcode, fields.1, system]
    · rw [← funct3, fields.2.1 _ call]

/-- The entries of the other formats, by their major opcode. -/
theorem registry_bases : ∀ e ∈ registry,
    (e.opcode7 = 0b0100011#7 → e.op.format = .S) ∧ (e.opcode7 = 0b1100011#7 → e.op.format = .B) ∧
      (e.opcode7 ∈ [0b0110111#7, 0b0010111#7] → e.op.format = .U) ∧
      (e.opcode7 = 0b1101111#7 → e.op.format = .J) := by
  decide

theorem operands_encodeS {imm : BitVec 12} (decoded : decode (encodeS f3 b c imm) = .ok inst) :
    inst.Operands 0#5 b c imm.toInt := by
  obtain ⟨isOpcode, _, rs1, rs2, immS⟩ := fields_encodeS f3 b c imm
  obtain ⟨e, listed, major, fields, rfl⟩ :=
    entry_of_major isOpcode (List.mem_singleton_self _) (by decide) decoded
  have format := (registry_bases e listed).1 (List.mem_singleton.1 major)
  obtain ⟨base, isBase⟩ := base_of_format e.op (by simp [format]) (by simp [format])
  rw [isBase] at format
  rw [(instruction_of_base isBase _).1 format]
  exact ⟨rfl, rs1, rs2, by rw [immS, BitVec.toInt_signExtend_of_le (by decide)]⟩

theorem operands_encodeB {imm : BitVec 13} (even : imm.toInt % 2 = 0)
    (decoded : decode (encodeB f3 b c imm) = .ok inst) : inst.Operands 0#5 b c imm.toInt := by
  obtain ⟨isOpcode, _, rs1, rs2, immB⟩ := fields_encodeB f3 b c (getLsbD_zero_of_even even)
  obtain ⟨e, listed, major, fields, rfl⟩ :=
    entry_of_major isOpcode (List.mem_singleton_self _) (by decide) decoded
  have format := (registry_bases e listed).2.1 (List.mem_singleton.1 major)
  obtain ⟨base, isBase⟩ := base_of_format e.op (by simp [format]) (by simp [format])
  rw [isBase] at format
  rw [(instruction_of_base isBase _).2.1 format]
  exact ⟨rfl, rs1, rs2, by rw [immB, BitVec.toInt_signExtend_of_le (by decide)]⟩

theorem operands_encodeU {imm : BitVec 20} (major : opcode ∈ [0b0110111#7, 0b0010111#7])
    (decoded : decode (encodeU opcode a imm) = .ok inst) :
    inst.Operands a 0#5 0#5 (4096 * imm.toInt) := by
  obtain ⟨isOpcode, rd, immU⟩ := fields_encodeU opcode a imm
  obtain ⟨e, listed, major, fields, rfl⟩ := entry_of_major isOpcode major (by decide) decoded
  have format := (registry_bases e listed).2.2.1 major
  obtain ⟨base, isBase⟩ := base_of_format e.op (by simp [format]) (by simp [format])
  rw [isBase] at format
  rw [(instruction_of_base isBase _).2.2.1 format]
  exact ⟨rd, rfl, rfl, by rw [immU, toInt_upper]⟩

theorem operands_encodeJ {imm : BitVec 21} (even : imm.toInt % 2 = 0)
    (decoded : decode (encodeJ a imm) = .ok inst) : inst.Operands a 0#5 0#5 imm.toInt := by
  obtain ⟨isOpcode, rd, immJ⟩ := fields_encodeJ a (getLsbD_zero_of_even even)
  obtain ⟨e, listed, major, fields, rfl⟩ :=
    entry_of_major isOpcode (List.mem_singleton_self _) (by decide) decoded
  have format := (registry_bases e listed).2.2.2 (List.mem_singleton.1 major)
  obtain ⟨base, isBase⟩ := base_of_format e.op (by simp [format]) (by simp [format])
  rw [isBase] at format
  rw [(instruction_of_base isBase _).2.2.2 format]
  exact ⟨rd, rfl, rfl, by rw [immJ, BitVec.toInt_signExtend_of_le (by decide)]⟩

/-! ## From the instruction to the word -/

/-- The bits of a word that its instruction does not depend on: `aq` and `rl` of an atomic, and
what is not the opcode or `funct3` of a fence. -/
def ignored (op : Opcode) (i : Nat) : Prop :=
  match op with
  | .a _ => i = 25 ∨ i = 26
  | .i .fence | .i .fenceI => ¬(i < 7 ∨ 12 ≤ i ∧ i < 15)
  | _ => False

variable {w' : Word} {e : Entry}

/-- The fields that an entry fixes are the same in all of its words. -/
theorem fixed_sameBits (fields : e.Fields w) (fields' : e.Fields w') :
    SameBits 0 7 w w' ∧ (e.f3.isSome → SameBits 12 15 w w') ∧ (e.f7.isSome → SameBits 25 32 w w') ∧
      (e.f5.isSome → SameBits 27 32 w w') ∧ (e.f12.isSome → SameBits 20 32 w w') ∧
      (e.rdEq.isSome → SameBits 7 12 w w') ∧ (e.rs1Eq.isSome → SameBits 15 20 w w') := by
  obtain ⟨opcode, f3, f7, _, f5, f12, rdEq, rs1Eq⟩ := fields
  obtain ⟨opcode', f3', f7', _, f5', f12', rdEq', rs1Eq'⟩ := fields'
  simp only [Option.isSome_iff_exists]
  refine ⟨?_, ?_, ?_, ?_, ?_, ?_, ?_⟩
  · refine sameBits_of_field (k := 7) rfl ?_
    rw [← opcode7_eq, ← opcode7_eq, opcode, opcode']
  · rintro ⟨x, given⟩
    exact sameBits_of_field (k := 3) rfl ((f3 x given).trans (f3' x given).symm)
  · rintro ⟨x, given⟩
    exact sameBits_of_field (k := 7) rfl ((f7 x given).trans (f7' x given).symm)
  · rintro ⟨x, given⟩
    exact sameBits_of_field (k := 5) rfl ((f5 x given).trans (f5' x given).symm)
  · rintro ⟨x, given⟩
    exact sameBits_of_field (k := 12) rfl ((f12 x given).trans (f12' x given).symm)
  · rintro ⟨x, given⟩
    exact sameBits_of_field (k := 5) rfl ((rdEq x given).trans (rdEq' x given).symm)
  · rintro ⟨x, given⟩
    exact sameBits_of_field (k := 5) rfl ((rs1Eq x given).trans (rs1Eq' x given).symm)

/-! The pieces of the immediates, read back from them. -/

theorem pieces_immS (raw : Word) :
    field 0 5 (immS raw) = field 7 5 raw ∧ field 5 7 (immS raw) = field 25 7 raw := by
  rw [immS_eq]
  refine ⟨?_, ?_⟩ <;>
  · rw [field_signExtend (by decide) (by decide), field_setWidth (by decide)]
    simp (disch := omega) only [field_or, field_low, field_low_apart, field_place,
      field_place_apart, BitVec.or_zero, BitVec.zero_or]

theorem pieces_immB (raw : Word) :
    field 12 1 (immB raw) = field 31 1 raw ∧ field 11 1 (immB raw) = field 7 1 raw ∧
      field 5 6 (immB raw) = field 25 6 raw ∧ field 1 4 (immB raw) = field 8 4 raw := by
  rw [immB_eq]
  refine ⟨?_, ?_, ?_, ?_⟩ <;>
  · rw [field_signExtend (by decide) (by decide), field_setWidth (by decide)]
    simp (disch := omega) only [field_or, field_place, field_place_apart, BitVec.or_zero,
      BitVec.zero_or]

theorem pieces_immJ (raw : Word) :
    field 20 1 (immJ raw) = field 31 1 raw ∧ field 12 8 (immJ raw) = field 12 8 raw ∧
      field 11 1 (immJ raw) = field 20 1 raw ∧ field 1 10 (immJ raw) = field 21 10 raw := by
  rw [immJ_eq]
  refine ⟨?_, ?_, ?_, ?_⟩ <;>
  · rw [field_signExtend (by decide) (by decide), field_setWidth (by decide)]
    simp (disch := omega) only [field_or, field_place, field_place_apart, BitVec.or_zero,
      BitVec.zero_or]

theorem piece_immI (raw : Word) : field 0 12 (immI raw) = field 20 12 raw := by
  rw [immI_eq, field_signExtend (by decide) (by decide), field_zero, BitVec.setWidth_eq]

theorem piece_immU (raw : Word) : field 12 20 (immU raw) = field 12 20 raw := by
  rw [immU_eq, field_place (by decide)]

theorem sameBits_of_piece {imm : Word → Word} {s t k hi : Nat} (width : t + k = hi)
    (piece : ∀ raw, field s k (imm raw) = field t k raw) (same : imm w = imm w') :
    SameBits t hi w w' :=
  sameBits_of_field width (by rw [← piece w, ← piece w', same])

/-- Whether an opcode is of the A extension. -/
def atomic (op : Opcode) : Bool :=
  match op with
  | .a _ => true
  | _ => false

/-- What the entries of each format fix. -/
theorem registry_fixed : ∀ e ∈ registry,
    (e.op.format ∉ [Format.U, .J] → e.f3.isSome = true) ∧
      (e.op.format = .R → e.f7.isSome = true ∨ e.f5.isSome = true ∧ atomic e.op = true) ∧
      (e.op ∈ [Opcode.i .ecall, .i .ebreak] →
        e.f12.isSome = true ∧ e.rdEq.isSome = true ∧ e.rs1Eq.isSome = true) ∧
      (e.opcode7 = 0b0010011#7 → e.f3 ∈ [some 0b001#3, some 0b101#3] → e.f7.isSome = true) := by
  decide

section

variable (listed : e ∈ registry) (fields : e.Fields w) (fields' : e.Fields w')

include listed fields fields'

/-- ECALL and EBREAK are one word each. -/
theorem sameBits_call (call : e.op ∈ [Opcode.i .ecall, .i .ebreak]) : SameBits 0 32 w w' := by
  obtain ⟨someF3, _, some, _⟩ := registry_fixed e listed
  obtain ⟨opcode, funct3, _, _, funct12, rdEq, rs1Eq⟩ := fixed_sameBits fields fields'
  obtain ⟨f12, rd, rs1⟩ := some call
  have notUJ : e.op.format ∉ [Format.U, .J] := by
    simp only [List.mem_cons, List.mem_nil_iff, or_false] at call
    rcases call with same | same <;> rw [same] <;> decide
  exact (((opcode.trans (rdEq rd)).trans (funct3 (someF3 notUJ))).trans (rs1Eq rs1)).trans
    (funct12 f12)

variable (same : (instruction e w).SameOperands (instruction e w'))

include same

/-- Register-register instructions; an atomic leaves bits 25 and 26 free. -/
theorem sameBits_R (format : e.op.format = .R) :
    SameBits 0 25 w w' ∧ SameBits 27 32 w w' ∧ (SameBits 25 27 w w' ∨ atomic e.op = true) := by
  obtain ⟨someF3, someF7, _, _⟩ := registry_fixed e listed
  obtain ⟨opcode, funct3, funct7, funct5, _⟩ := fixed_sameBits fields fields'
  rw [instruction_of_R format, instruction_of_R format] at same
  have low : SameBits 0 25 w w' :=
    (((opcode.trans (sameBits_of_field rfl same.rd)).trans
      (funct3 (someF3 (by simp [format])))).trans (sameBits_of_field rfl same.rs1)).trans
        (sameBits_of_field rfl same.rs2)
  rcases someF7 format with given | ⟨given, isAtomic⟩
  · have high := funct7 given
    exact ⟨low, fun i above below => high i (by omega) below,
      .inl fun i above below => high i above (by omega)⟩
  · exact ⟨low, funct5 given, .inr isAtomic⟩

theorem sameBits_I (format : e.op.format = .I)
    (operands : e.op ∉ [Opcode.i .ecall, .i .ebreak, .i .fence, .i .fenceI]) :
    SameBits 0 32 w w' := by
  obtain ⟨someF3, _, _, someF7⟩ := registry_fixed e listed
  obtain ⟨opcode, funct3, funct7, _⟩ := fixed_sameBits fields fields'
  have given := someF3 (by simp [format])
  obtain ⟨f3, isF3⟩ := Option.isSome_iff_exists.1 given
  rw [instruction_of_I format operands, instruction_of_I format operands, fields.2.1 f3 isF3,
    fields'.2.1 f3 isF3] at same
  have low : SameBits 0 20 w w' :=
    ((opcode.trans (sameBits_of_field rfl same.rd)).trans (funct3 given)).trans
      (sameBits_of_field rfl same.rs1)
  have imm := same.imm
  dsimp only [immInstruction] at imm
  by_cases shift : e.opcode7 = 0b0010011#7 ∧ (f3 = 0b001#3 ∨ f3 = 0b101#3)
  · rw [if_pos shift, if_pos shift] at imm
    have amount : rs2 w = rs2 w' := by
      have narrowed := congrArg (BitVec.setWidth 5) imm
      simpa using narrowed
    have high := funct7 (someF7 shift.1 (by rcases shift.2 with rfl | rfl <;> simp [isF3]))
    exact (low.trans (sameBits_of_field rfl amount)).trans high
  · rw [if_neg shift, if_neg shift] at imm
    exact low.trans (sameBits_of_piece rfl piece_immI imm)

theorem sameBits_SB {base : Rv32i.Opcode} (isBase : e.op = .i base)
    (format : base.format = .S ∨ base.format = .B) : SameBits 0 32 w w' := by
  obtain ⟨someF3, _⟩ := registry_fixed e listed
  obtain ⟨opcode, funct3, _⟩ := fixed_sameBits fields fields'
  obtain ⟨ofS, ofB, _⟩ := instruction_of_base isBase w
  obtain ⟨ofS', ofB', _⟩ := instruction_of_base isBase w'
  rcases format with format | format
  · rw [ofS format, ofS' format] at same
    have rd := sameBits_of_piece rfl (fun raw => (pieces_immS raw).1) same.imm
    have funct7 := sameBits_of_piece rfl (fun raw => (pieces_immS raw).2) same.imm
    have isSome := someF3 (by rw [isBase, Opcode.format, format]; decide)
    exact ((((opcode.trans rd).trans (funct3 isSome)).trans (sameBits_of_field rfl same.rs1)).trans
      (sameBits_of_field rfl same.rs2)).trans funct7
  · rw [ofB format, ofB' format] at same
    have bit11 := sameBits_of_piece rfl (fun raw => (pieces_immB raw).2.1) same.imm
    have bits1 := sameBits_of_piece rfl (fun raw => (pieces_immB raw).2.2.2) same.imm
    have bits5 := sameBits_of_piece rfl (fun raw => (pieces_immB raw).2.2.1) same.imm
    have bit12 := sameBits_of_piece rfl (fun raw => (pieces_immB raw).1) same.imm
    have isSome := someF3 (by rw [isBase, Opcode.format, format]; decide)
    exact ((((((opcode.trans bit11).trans bits1).trans (funct3 isSome)).trans
      (sameBits_of_field rfl same.rs1)).trans (sameBits_of_field rfl same.rs2)).trans bits5).trans
        bit12

omit listed in
theorem sameBits_UJ {base : Rv32i.Opcode} (isBase : e.op = .i base)
    (format : base.format = .U ∨ base.format = .J) : SameBits 0 32 w w' := by
  obtain ⟨opcode, _⟩ := fixed_sameBits fields fields'
  obtain ⟨_, _, ofU, ofJ⟩ := instruction_of_base isBase w
  obtain ⟨_, _, ofU', ofJ'⟩ := instruction_of_base isBase w'
  rcases format with format | format
  · rw [ofU format, ofU' format] at same
    exact (opcode.trans (sameBits_of_field rfl same.rd)).trans
      (sameBits_of_piece rfl piece_immU same.imm)
  · rw [ofJ format, ofJ' format] at same
    have bits12 := sameBits_of_piece rfl (fun raw => (pieces_immJ raw).2.1) same.imm
    have bit11 := sameBits_of_piece rfl (fun raw => (pieces_immJ raw).2.2.1) same.imm
    have bits1 := sameBits_of_piece rfl (fun raw => (pieces_immJ raw).2.2.2) same.imm
    have bit20 := sameBits_of_piece rfl (fun raw => (pieces_immJ raw).1) same.imm
    exact ((((opcode.trans (sameBits_of_field rfl same.rd)).trans bits12).trans bit11).trans
      bits1).trans bit20

/-- **Two words of one entry with the same operands differ only in ignored bits.** -/
theorem ignored_of_differ {i : Nat} (below : i < 32) (differ : w.getLsbD i ≠ w'.getLsbD i) :
    ignored e.op i := by
  have refuted : ¬SameBits 0 32 w w' := fun whole => differ (whole i (Nat.zero_le i) below)
  by_cases call : e.op ∈ [Opcode.i .ecall, .i .ebreak]
  · exact absurd (sameBits_call listed fields fields' call) refuted
  by_cases fence : e.op ∈ [Opcode.i .fence, .i .fenceI]
  · obtain ⟨someF3, _⟩ := registry_fixed e listed
    obtain ⟨opcode, funct3, _⟩ := fixed_sameBits fields fields'
    simp only [List.mem_cons, List.mem_nil_iff, or_false] at fence
    have isSome := someF3 (by rcases fence with is | is <;> rw [is] <;> decide)
    have free : ¬(i < 7 ∨ 12 ≤ i ∧ i < 15) := by
      rintro (low | ⟨above, low⟩)
      · exact differ (opcode i (Nat.zero_le i) low)
      · exact differ (funct3 isSome i above low)
    rcases fence with is | is <;> rw [is] <;> exact free
  have operands : e.op ∉ [Opcode.i .ecall, .i .ebreak, .i .fence, .i .fenceI] := by
    simp only [List.mem_cons, List.mem_nil_iff, or_false, not_or] at call fence ⊢
    exact ⟨call.1, call.2, fence.1, fence.2⟩
  cases format : e.op.format with
  | R =>
      obtain ⟨low, high, middle | isAtomic⟩ := sameBits_R listed fields fields' same format
      · exact absurd ((low.trans middle).trans high) refuted
      · have free : i = 25 ∨ i = 26 := by
          by_contra fixed
          by_cases before : i < 25
          · exact differ (low i (Nat.zero_le i) before)
          · exact differ (high i (by omega) below)
        unfold atomic at isAtomic
        split at isAtomic
        · rename_i is
          rw [is]
          exact free
        · cases isAtomic
  | I => exact absurd (sameBits_I listed fields fields' same format operands) refuted
  | S | B =>
      obtain ⟨base, isBase⟩ := base_of_format e.op (by simp [format]) (by simp [format])
      rw [isBase, Opcode.format] at format
      exact absurd (sameBits_SB listed fields fields' same isBase (by simp [format])) refuted
  | U | J =>
      obtain ⟨base, isBase⟩ := base_of_format e.op (by simp [format]) (by simp [format])
      rw [isBase, Opcode.format] at format
      exact absurd (sameBits_UJ fields fields' same isBase (by simp [format])) refuted

end

/-- A word with the fixed fields of an instruction decodes to it. -/
theorem decodes_of_match (listed : e ∈ registry) (isMatch : e.isMatch w) :
    ∃ inst, decode w = .ok inst ∧ inst.op = e.op :=
  ⟨_, (decode_of_fields listed ((isMatch_iff (registry_separate e listed) w).1 isMatch)).2,
    instruction_op e w⟩

/-- **Instruction fields survive decoding.** Format by format, with any function fields, an
instruction that the encoded word decodes to has the registers and the sign-extended immediate
that were encoded; and every word with the fixed fields of an instruction does decode to it.
Conversely two full-size words that decode to the same opcode with the same operands differ at
most in bits 25 and 26 of an atomic, or in what is not the opcode or `funct3` of a fence. -/
theorem fields_survive_decoding :
    (∀ opcode ∈ [0b0110011#7, 0b0101111#7], ∀ f3 f7 rd rs1 rs2 inst,
      decode (encodeR opcode f3 f7 rd rs1 rs2) = .ok inst → inst.Operands rd rs1 rs2 0) ∧
    (∀ funct5 rd rs1 rs2 inst,
      decode (encodeAtomic funct5 rd rs1 rs2) = .ok inst → inst.Operands rd rs1 rs2 0) ∧
    (∀ f3 f7 rd rs1 shamt inst, f3 = 0b001#3 ∨ f3 = 0b101#3 →
      decode (encodeOpImmShift f3 f7 rd rs1 shamt) = .ok inst →
        inst.Operands rd rs1 0#5 shamt.toNat) ∧
    (∀ opcode ∈ [0b0010011#7, 0b0000011#7, 0b1100111#7], ∀ f3 rd rs1 imm inst,
      ¬(opcode = 0b0010011#7 ∧ (f3 = 0b001#3 ∨ f3 = 0b101#3)) →
      decode (encodeI opcode f3 rd rs1 imm) = .ok inst → inst.Operands rd rs1 0#5 imm.toInt) ∧
    (∀ f3 rs1 rs2 imm inst,
      decode (encodeS f3 rs1 rs2 imm) = .ok inst → inst.Operands 0#5 rs1 rs2 imm.toInt) ∧
    (∀ f3 rs1 rs2 (imm : BitVec 13) inst, imm.toInt % 2 = 0 →
      decode (encodeB f3 rs1 rs2 imm) = .ok inst → inst.Operands 0#5 rs1 rs2 imm.toInt) ∧
    (∀ opcode ∈ [0b0110111#7, 0b0010111#7], ∀ rd imm inst,
      decode (encodeU opcode rd imm) = .ok inst → inst.Operands rd 0#5 0#5 (4096 * imm.toInt)) ∧
    (∀ rd (imm : BitVec 21) inst, imm.toInt % 2 = 0 →
      decode (encodeJ rd imm) = .ok inst → inst.Operands rd 0#5 0#5 imm.toInt) ∧
    (∀ f3 rd rs1 csr inst, f3 ≠ 0b000#3 →
      decode (encodeCsr f3 rd rs1 csr) = .ok inst →
        inst.rd = rd ∧ inst.rs1 = rs1 ∧ inst.csrAddr = csr) ∧
    (∀ e ∈ registry, ∀ w, e.isMatch w → ∃ inst, decode w = .ok inst ∧ inst.op = e.op) ∧
    ∀ w w' inst inst', w &&& 0b11#32 = 0b11#32 → w' &&& 0b11#32 = 0b11#32 →
      decode w = .ok inst → decode w' = .ok inst' → inst.op = inst'.op →
      inst.SameOperands inst' → ∀ i < 32, w.getLsbD i ≠ w'.getLsbD i → ignored inst.op i := by
  refine ⟨fun opcode major f3 f7 rd rs1 rs2 inst decoded => operands_encodeR major decoded,
    fun funct5 rd rs1 rs2 inst decoded => ?_,
    fun f3 f7 rd rs1 shamt inst shift decoded => operands_encodeOpImmShift shift decoded,
    fun opcode major f3 rd rs1 imm inst plain decoded => ?_,
    fun f3 rs1 rs2 imm inst decoded => operands_encodeS decoded,
    fun f3 rs1 rs2 imm inst even decoded => operands_encodeB even decoded,
    fun opcode major rd imm inst decoded => operands_encodeU major decoded,
    fun rd imm inst even decoded => operands_encodeJ even decoded,
    fun f3 rd rs1 csr inst notCall decoded => ?_,
    fun e listed w isMatch => decodes_of_match listed isMatch,
    fun w w' inst inst' low low' decoded decoded' op same i below differ => ?_⟩
  · exact operands_encodeR (by decide : 0b0101111#7 ∈ [0b0110011#7, 0b0101111#7]) decoded
  · have notSystem : opcode ≠ 0b1110011#7 := by
      rintro rfl
      exact absurd major (by decide)
    obtain ⟨isRd, isRs1, isRs2, isImm⟩ := immediate_encodeI
      (List.mem_append_left [0b1110011#7] major) plain (fun call => notSystem call.1) decoded
    exact ⟨isRd, isRs1, isRs2, by rw [isImm, BitVec.toInt_signExtend_of_le (by decide)]⟩
  · have listed : 0b1110011#7 ∈ [0b0010011#7, 0b0000011#7, 0b1100111#7, 0b1110011#7] := by decide
    obtain ⟨isRd, isRs1, _, isImm⟩ := immediate_encodeI listed
      (by rintro ⟨other, _⟩; exact absurd other (by decide)) (fun call => notCall call.2) decoded
    refine ⟨isRd, isRs1, ?_⟩
    rw [Instruction.csrAddr, Instruction.immUnsigned, isImm, ← field_zero,
      field_signExtend (by decide) (by decide), field_zero, BitVec.setWidth_eq]
  · have full : isCompressed w = false := by simp [isCompressed, low]
    have full' : isCompressed w' = false := by simp [isCompressed, low']
    obtain ⟨e, listed, fields, rfl⟩ := (decode_iff_gives full).1 decoded
    obtain ⟨e', listed', fields', rfl⟩ := (decode_iff_gives full').1 decoded'
    rw [instruction_op, instruction_op] at op
    obtain rfl := List.inj_on_of_nodup_map registry_ops_nodup listed listed' op
    rw [instruction_op]
    exact ignored_of_differ listed fields fields' same below differ

end Registry

end Determinant
