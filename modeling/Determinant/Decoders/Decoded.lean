import Determinant.Decoders.Branch
import Determinant.Foundations.FallibleState

/-!
# Decoded instructions

Two facts about every instruction that the decoder returns: it remembers the bits it was
decoded from, and when it goes to an address relative to `pc` the distance is even, because
no immediate of a branch or a jump has a bit 0 (`decode_decoded`). There is a lemma for each
decoder of a major opcode.
-/

set_option autoImplicit false

namespace Determinant

open Foundations

/-- The instructions that can go to `pc` plus their immediate. -/
def Rv32i.Opcode.relative : Rv32i.Opcode → Bool
  | .beq | .bne | .blt | .bge | .bltu | .bgeu | .jal => true
  | _ => false

/-- What is true of an instruction decoded from `raw`. -/
structure Decoded (raw : Word) (inst : Instruction) : Prop where
  raw : inst.raw = raw
  even : ∀ op, inst.op = .i op → op.relative = true → inst.imm.getLsbD 0 = false

/-! ## Immediates without a bit 0 -/

theorem immB_even (raw : Word) : (Bitfields.immB raw).getLsbD 0 = false := by
  simp only [Bitfields.immB, BitVec.getLsbD_sshiftRight, BitVec.getLsbD_shiftLeft,
    BitVec.getLsbD_or]
  simp

theorem immJ_even (raw : Word) : (Bitfields.immJ raw).getLsbD 0 = false := by
  simp only [Bitfields.immJ, BitVec.getLsbD_sshiftRight, BitVec.getLsbD_shiftLeft,
    BitVec.getLsbD_or]
  simp

theorem cjOffset_even (half : Half) : (Rv32c.Imm.cjOffset half).getLsbD 0 = false := by
  simp only [Rv32c.Imm.cjOffset, BitVec.getLsbD_signExtend, BitVec.getLsbD_setWidth,
    BitVec.getLsbD_or, BitVec.getLsbD_and]
  simp

theorem cbOffset_even (half : Half) : (Rv32c.Imm.cbOffset half).getLsbD 0 = false := by
  simp only [Rv32c.Imm.cbOffset, BitVec.getLsbD_signExtend, BitVec.getLsbD_setWidth,
    BitVec.getLsbD_or, BitVec.getLsbD_and]
  simp

/-! ## Opcodes that do not branch -/

theorem Rv32i.decodeR_relative {f3 : BitVec 3} {f7 : BitVec 7} {op : Rv32i.Opcode}
    (decoded : Rv32i.decodeR f3 f7 = some op) : op.relative = false := by
  fun_cases Rv32i.decodeR f3 f7 <;> simp_all [Rv32i.decodeR] <;> subst op <;> rfl

theorem Rv32i.decodeIAlu_relative {f3 : BitVec 3} {f7 : BitVec 7} {op : Rv32i.Opcode}
    (decoded : Rv32i.decodeIAlu f3 f7 = some op) : op.relative = false := by
  fun_cases Rv32i.decodeIAlu f3 f7 <;> simp_all [Rv32i.decodeIAlu] <;> subst op <;> rfl

theorem Rv32i.decodeLoad_relative {f3 : BitVec 3} {op : Rv32i.Opcode}
    (decoded : Rv32i.decodeLoad f3 = some op) : op.relative = false := by
  fun_cases Rv32i.decodeLoad f3 <;> simp_all [Rv32i.decodeLoad] <;> subst op <;> rfl

theorem Rv32i.decodeStore_relative {f3 : BitVec 3} {op : Rv32i.Opcode}
    (decoded : Rv32i.decodeStore f3 = some op) : op.relative = false := by
  fun_cases Rv32i.decodeStore f3 <;> simp_all [Rv32i.decodeStore] <;> subst op <;> rfl

/-! ## The decoders of the major opcodes -/

variable {raw : Word} {inst : Instruction}

theorem Decoded.straight (same : inst.raw = raw)
    (straight : ∀ op, inst.op = .i op → op.relative = false) : Decoded raw inst where
  raw := same
  even op known relative := by
    rw [straight op known] at relative
    cases relative

theorem decodeR_decoded (decoded : decodeR raw = .ok inst) : Decoded raw inst := by
  revert decoded
  fun_cases decodeR raw with
  | case1 | case3 | case4 | case5 =>
      rintro ⟨⟩
      exact .straight rfl nofun
  | case2 _ _ _ op found =>
      rintro ⟨⟩
      exact .straight rfl fun op same => by cases same; exact Rv32i.decodeR_relative found
  | case6 => exact nofun

theorem decodeIAlu_decoded (decoded : decodeIAlu raw = .ok inst) : Decoded raw inst := by
  revert decoded
  fun_cases decodeIAlu raw with
  | case1 _ _ _ op found =>
      rintro ⟨⟩
      exact .straight rfl fun op same => by cases same; exact Rv32i.decodeIAlu_relative found
  | case2 | case3 =>
      rintro ⟨⟩
      exact .straight rfl nofun
  | case4 => exact nofun

theorem decodeLoad_decoded (decoded : decodeLoad raw = .ok inst) : Decoded raw inst := by
  revert decoded
  fun_cases decodeLoad raw with
  | case1 => exact nofun
  | case2 op found =>
      rintro ⟨⟩
      exact .straight rfl fun op same => by cases same; exact Rv32i.decodeLoad_relative found

theorem decodeStore_decoded (decoded : decodeStore raw = .ok inst) : Decoded raw inst := by
  revert decoded
  fun_cases decodeStore raw with
  | case1 => exact nofun
  | case2 op found =>
      rintro ⟨⟩
      exact .straight rfl fun op same => by cases same; exact Rv32i.decodeStore_relative found

theorem decodeBranch_decoded (decoded : decodeBranch raw = .ok inst) : Decoded raw inst := by
  revert decoded
  fun_cases decodeBranch raw with
  | case1 => exact nofun
  | case2 op found =>
      rintro ⟨⟩
      exact ⟨rfl, fun _ _ _ => immB_even raw⟩

theorem decodeJalr_decoded (decoded : decodeJalr raw = .ok inst) : Decoded raw inst := by
  revert decoded
  fun_cases decodeJalr raw with
  | case1 => exact nofun
  | case2 =>
      rintro ⟨⟩
      exact .straight rfl fun op same => by cases same; rfl

theorem decodeFence_decoded (decoded : decodeFence raw = .ok inst) : Decoded raw inst := by
  revert decoded
  fun_cases decodeFence raw with
  | case1 | case2 =>
      rintro ⟨⟩
      exact .straight rfl fun op same => by cases same; rfl
  | case3 => exact nofun

theorem decodeAtomic_decoded (decoded : decodeAtomic raw = .ok inst) : Decoded raw inst := by
  revert decoded
  fun_cases decodeAtomic raw with
  | case1 | case2 | case3 => exact nofun
  | case4 =>
      rintro ⟨⟩
      exact .straight rfl nofun

theorem decodeSystem_decoded (decoded : decodeSystem raw = .ok inst) : Decoded raw inst := by
  revert decoded
  fun_cases decodeSystem raw with
  | case1 | case4 | case5 => exact nofun
  | case2 | case3 =>
      rintro ⟨⟩
      exact .straight rfl fun op same => by cases same; rfl
  | case6 =>
      rintro ⟨⟩
      exact .straight rfl nofun

theorem decode_fields_decoded (decoded : decode raw = .ok inst) (full : isCompressed raw = false) :
    Decoded raw inst := by
  revert decoded
  fun_cases decode raw with
  | case1 compressed => simp_all
  | case2 => exact decodeR_decoded
  | case3 => exact decodeIAlu_decoded
  | case4 => exact decodeLoad_decoded
  | case5 => exact decodeStore_decoded
  | case6 => exact decodeBranch_decoded
  | case7 | case8 =>
      rintro ⟨⟩
      exact .straight rfl fun op same => by cases same; rfl
  | case9 =>
      rintro ⟨⟩
      exact ⟨rfl, fun _ _ _ => immJ_even raw⟩
  | case10 => exact decodeJalr_decoded
  | case11 => exact decodeFence_decoded
  | case12 => exact decodeAtomic_decoded
  | case13 => exact decodeSystem_decoded
  | case14 => exact nofun

/-! ## Compressed instructions -/

theorem expandOp_even {op : Rv32c.Opcode} {half : Half} {exp : Rv32c.Expanded}
    (expanded : Rv32c.expandOp op half = .ok exp) (relative : exp.op.relative = true) :
    exp.imm.getLsbD 0 = false := by
  cases op with
  | cJal | cJ =>
      cases expanded
      exact cjOffset_even half
  | cBeqz | cBnez =>
      cases expanded
      exact cbOffset_even half
  | cAddi4spn | cAddi16sp | cLui | cSrli | cSrai | cSlli | cLwsp | cJr =>
      -- These refuse some operands.
      simp only [Rv32c.expandOp] at expanded
      split at expanded
      · cases expanded
      · cases expanded
        cases relative
  | _ =>
      cases expanded
      cases relative

theorem expandCompressed_decoded (decoded : expandCompressed raw = .ok inst) :
    Decoded raw inst := by
  obtain ⟨exp, expanded, same⟩ := bind_eq_ok.1 decoded
  cases same
  obtain ⟨op, _, expandedOp⟩ := bind_eq_ok.1 expanded
  refine ⟨rfl, fun op' same relative => ?_⟩
  cases same
  exact expandOp_even expandedOp relative

/-- **Every decoded instruction remembers its bits, and its relative targets are even.** -/
theorem decode_decoded (decoded : decode raw = .ok inst) : Decoded raw inst := by
  cases compressed : isCompressed raw with
  | true =>
      rw [decode, if_pos compressed] at decoded
      exact expandCompressed_decoded decoded
  | false => exact decode_fields_decoded decoded compressed

end Determinant
