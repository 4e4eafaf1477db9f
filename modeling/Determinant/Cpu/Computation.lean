import Determinant.Cpu.Ready
import Determinant.Foundations.WordArithmetic

/-!
# Computation and control flow

What the register-register, register-immediate, upper-immediate, branch and jump instructions
of RV32I compute is stated over the integers (`Rv32i.Opcode.outcome`): the value for `rd` and
the address to go on at, from the signed and unsigned values of the operands. The machine takes
both modulo `2 ^ 32`, and changes nothing else but the cycle counter
(`Vm.computation_exact`).
-/

set_option autoImplicit false

namespace Determinant

open Foundations

variable {n : MemSize} {o : Options}

/-! ## The instructions over the integers -/

/-- What an instruction computes: a value for `rd`, if it has one, and where to go on. -/
structure Rv32i.Outcome where
  value : Option Int := none
  target : Int

/-- The immediate is signed, and `x` and `y` are the operands in `rs1` and `rs2`. A division
rounds down. The instructions that are not of these classes only go on. -/
def Rv32i.Opcode.outcome (op : Rv32i.Opcode) (pc x y : Word) (imm : Int) : Rv32i.Outcome :=
  let next : Int := pc.toNat + 4
  let value (v : Int) : Outcome := { value := some v, target := next }
  let branch (taken : Bool) : Outcome := { target := if taken then pc.toNat + imm else next }
  match op with
  | .add => value (x.toNat + y.toNat)
  | .sub => value (x.toNat - y.toNat)
  | .sll => value (x.toNat * 2 ^ (y.toNat % 32))
  | .slt => value (if x.toInt < y.toInt then 1 else 0)
  | .sltu => value (if x.toNat < y.toNat then 1 else 0)
  | .xor => value (x.toNat ^^^ y.toNat : Nat)
  | .srl => value (x.toNat / 2 ^ (y.toNat % 32))
  | .sra => value (x.toInt / 2 ^ (y.toNat % 32))
  | .or => value (x.toNat ||| y.toNat : Nat)
  | .and => value (x.toNat &&& y.toNat : Nat)
  | .addi => value (x.toNat + imm)
  | .slti => value (if x.toInt < imm then 1 else 0)
  | .sltiu => value (if x.toNat < imm % 2 ^ 32 then 1 else 0)
  | .xori => value (x.toNat ^^^ (imm % 2 ^ 32).toNat : Nat)
  | .ori => value (x.toNat ||| (imm % 2 ^ 32).toNat : Nat)
  | .andi => value (x.toNat &&& (imm % 2 ^ 32).toNat : Nat)
  | .slli => value (x.toNat * 2 ^ (imm % 32).toNat)
  | .srli => value (x.toNat / 2 ^ (imm % 32).toNat)
  | .srai => value (x.toInt / 2 ^ (imm % 32).toNat)
  | .lui => value imm
  | .auipc => value (pc.toNat + imm)
  | .beq => branch (x.toNat = y.toNat)
  | .bne => branch (x.toNat ≠ y.toNat)
  | .blt => branch (x.toInt < y.toInt)
  | .bge => branch (y.toInt ≤ x.toInt)
  | .bltu => branch (x.toNat < y.toNat)
  | .bgeu => branch (y.toNat ≤ x.toNat)
  | .jal => { value := some next, target := pc.toNat + imm }
  | .jalr => { value := some next, target := (x.toNat + imm) / 2 * 2 }
  | _ => { target := next }

/-- The machine behind an instruction with this outcome. -/
def Machine.afterOutcome (m : Machine n) (rd : Reg) (outcome : Rv32i.Outcome) : Machine n :=
  { m with pc := BitVec.ofInt 32 outcome.target, cycleCount := m.cycleCount + 1,
           regs := match outcome.value with
             | some v => m.setReg rd (BitVec.ofInt 32 v)
             | none => m.regs }

/-! ## The source's operations -/

section

variable (x y : Word)

theorem shift_amount : (x &&& 0x1F#32).toNat = x.toNat % 32 := toNat_mask_low x (by decide : 5 ≤ 32)

/-- The amount of an immediate shift is the same, signed or unsigned. -/
theorem shift_immediate : (x &&& 0x1F#32).toNat = (x.toInt % 32).toNat := by
  have same := toInt_emod x (by decide : 5 ≤ 32)
  rw [shift_amount]
  omega

theorem unsigned_immediate : (x.toInt % 2 ^ 32) = x.toNat := by
  have same := toInt_emod x (Nat.le_refl 32)
  have small := x.isLt
  omega

/-- Clearing bit 0 of a target that was computed modulo `2 ^ 32`. -/
theorem clear_bit_zero (t : Int) :
    BitVec.ofInt 32 t &&& 0xFFFFFFFE#32 = BitVec.ofInt 32 (t / 2 * 2) := by
  have cleared := toNat_clear_low (s := 1) (k := 31) (BitVec.ofInt 32 t) (by decide)
  rw [BitVec.toNat_ofInt] at cleared
  apply BitVec.eq_of_toNat_eq
  rw [BitVec.toNat_ofInt]
  refine Eq.trans cleared ?_
  omega

theorem next_eq : x + 4#32 = BitVec.ofInt 32 (x.toNat + 4) := add_eq_ofInt x 4#32

end

namespace Machine

variable {m : Machine n} {op : Rv32i.Opcode}

/-- A decision to go on behind an instruction of four bytes with a value. -/
theorem write_eq {rd : Reg} {value : Word} {v : Int} (same : value = BitVec.ofInt 32 v) :
    (.ok (write rd (m.pc + 4#32) value) : Except StepError Decision) =
      .ok { reg := (some v).map fun v => (rd, BitVec.ofInt 32 v),
            nextPc := BitVec.ofInt 32 (m.pc.toNat + 4) } := by
  rw [same, next_eq]
  rfl

theorem flag_eq {p q : Prop} [Decidable p] [Decidable q] (same : p ↔ q) :
    (if p then 1#32 else 0#32) = BitVec.ofInt 32 (if q then 1 else 0) := by
  by_cases holds : q
  · rw [if_pos holds, if_pos (same.2 holds)]
    rfl
  · rw [if_neg holds, if_neg (mt same.1 holds)]
    rfl

/-- A decision to branch. -/
theorem branch_eq {imm : Word} {taken taken' : Bool} (same : taken = taken') :
    (.ok { nextPc := if taken then m.pc + imm else m.pc + 4#32 } : Except StepError Decision) =
      .ok { nextPc :=
              BitVec.ofInt 32 (if taken' then m.pc.toNat + imm.toInt else m.pc.toNat + 4) } := by
  subst same
  cases taken
  · simp only [Bool.false_eq_true, if_false, next_eq]
  · simp only [if_true, add_eq_ofInt_signed]

/-- **The decided changes are the outcome over the integers.** -/
theorem decisionI_outcome (computes : op.width = none) (goesOn : op ≠ .ecall ∧ op ≠ .ebreak)
    (rd : Reg) (imm x y : Word) :
    decisionI op rd imm x y 4#32 m =
      .ok { reg := (op.outcome m.pc x y imm.toInt).value.map fun v => (rd, BitVec.ofInt 32 v),
            nextPc := BitVec.ofInt 32 (op.outcome m.pc x y imm.toInt).target } := by
  have signedLess (z : Word) : x.slt z = true ↔ x.toInt < z.toInt := BitVec.slt_iff_toInt_lt
  cases op with
  | lb | lh | lw | lbu | lhu | sb | sh | sw => cases computes
  | ecall => exact absurd rfl goesOn.1
  | ebreak => exact absurd rfl goesOn.2
  | add => exact write_eq (add_eq_ofInt x y)
  | sub => exact write_eq (sub_eq_ofInt x y)
  | sll => exact write_eq (by rw [BitVec.shiftLeft_eq', shiftLeft_eq_ofInt, shift_amount])
  | slt => exact write_eq (flag_eq (signedLess y))
  | sltu => exact write_eq (flag_eq (by rw [BitVec.lt_def]))
  | xor => exact write_eq (xor_eq_ofInt x y)
  | srl => exact write_eq (by rw [BitVec.ushiftRight_eq', ushiftRight_eq_ofInt, shift_amount])
  | sra => exact write_eq (by rw [sshiftRight_eq_ofInt, shift_amount])
  | or => exact write_eq (or_eq_ofInt x y)
  | and => exact write_eq (and_eq_ofInt x y)
  | addi => exact write_eq (add_eq_ofInt_signed x imm)
  | slti => exact write_eq (flag_eq (signedLess imm))
  | sltiu => exact write_eq (flag_eq (by rw [BitVec.lt_def, unsigned_immediate, Int.ofNat_lt]))
  | xori => exact write_eq (by rw [xor_eq_ofInt, unsigned_immediate]; rfl)
  | ori => exact write_eq (by rw [or_eq_ofInt, unsigned_immediate]; rfl)
  | andi => exact write_eq (by rw [and_eq_ofInt, unsigned_immediate]; rfl)
  | slli => exact write_eq (by rw [BitVec.shiftLeft_eq', shiftLeft_eq_ofInt, shift_immediate])
  | srli => exact write_eq (by rw [BitVec.ushiftRight_eq', ushiftRight_eq_ofInt, shift_immediate])
  | srai => exact write_eq (by rw [sshiftRight_eq_ofInt, shift_immediate])
  | lui => exact write_eq (eq_ofInt_toInt imm)
  | auipc => exact write_eq (add_eq_ofInt_signed m.pc imm)
  | beq => exact branch_eq (decide_eq_decide.2 BitVec.toNat_inj.symm)
  | bne => exact branch_eq (decide_eq_decide.2 (not_congr BitVec.toNat_inj.symm))
  | blt => exact branch_eq BitVec.slt_eq_decide
  | bge => exact branch_eq BitVec.sle_eq_decide
  | bltu => exact branch_eq (decide_eq_decide.2 BitVec.lt_def)
  | bgeu => exact branch_eq (decide_eq_decide.2 BitVec.le_def)
  | jal =>
      simp only [decisionI, add_eq_ofInt_signed m.pc imm, next_eq]
      rfl
  | jalr =>
      simp only [decisionI, add_eq_ofInt_signed x imm, clear_bit_zero, next_eq]
      rfl
  | fence | fenceI =>
      simp only [decisionI, next_eq]
      rfl

end Machine

/-! ## The step -/

namespace Vm

variable {vm : Vm o n} {raw : Word} {op : Rv32i.Opcode} {rd rs1 rs2 : Reg} {imm : Int}

/-- **RV32I computation and control flow.** A VM whose next word encodes a register-register,
register-immediate, upper-immediate, branch or jump instruction, with any registers, equal or
not, goes on: `rd`, if it is not x0, has the value over the integers modulo `2 ^ 32`, `pc` is
the target modulo `2 ^ 32`, the cycle counter has grown by one modulo `2 ^ 64`, and nothing
else has changed. -/
theorem computation_exact (standard : o.decode = decode)
    (coherent : Coherent o.decode vm.decodeCache) (x0 : vm.regs 0#5 = 0#32)
    (encoding : Rv32i.Encoding op rd rs1 rs2 imm raw) (computes : op.width = none)
    (fetched : vm.fetch = .ok raw) :
    answer (step vm) = .ok .continue ∧
      (stateAfter (step vm)).toMachine =
        vm.afterOutcome rd (op.outcome vm.pc (vm.regs rs1) (vm.regs rs2) imm) := by
  obtain ⟨full, inst, decoded, isOp, operands⟩ := encoding.decodes
  rw [← standard] at decoded
  have ready : vm.Ready raw inst := ⟨coherent, fetched, decoded⟩
  have size : Machine.instSize raw = 4#32 := by simp [Machine.instSize, full]
  have decided := Machine.decisionI_outcome (m := vm.toMachine) computes encoding.not_call rd
    inst.imm (vm.regs rs1) (vm.regs rs2)
  rw [operands.imm] at decided
  have decides : Machine.decision inst (Machine.instSize raw) vm.toMachine =
      Machine.decisionI op rd inst.imm (vm.regs rs1) (vm.regs rs2) 4#32 vm.toMachine := by
    simp only [Machine.decision, isOp, size, operands.rd, operands.rs1, operands.rs2]
  obtain ⟨answers, changes⟩ := ready.retires_zero x0 (decides.trans decided)
  refine ⟨answers, changes.trans ?_⟩
  apply Machine.ext
  case regs =>
    simp only [Machine.retire, Machine.afterOutcome]
    cases (op.outcome vm.pc (vm.regs rs1) (vm.regs rs2) imm).value with
    | none => rfl
    | some v => exact Machine.writeReg_regs x0 rd _
  all_goals rfl

/-- JALR x1, -3(x1) with 7 in x1. -/
def jumpThroughLink : Vm Options.uncached .four :=
  { (reset : Vm Options.uncached .four) with
    regs := fun reg => if reg = 1#5 then 7#32 else 0#32
    memory := patch (fun _ => 0#8) 0 (writeInt 4 (encodeI 0b1100111#7 0b000#3 1#5 1#5 (-3#12))) }

/-- The old x1 is the base, and the link replaces it. -/
theorem computation_exact_jalr :
    (stateAfter (step jumpThroughLink)).pc = 4#32 ∧
      (stateAfter (step jumpThroughLink)).regs 1#5 = 4#32 := by
  have encoding : Rv32i.Encoding .jalr 1#5 1#5 0#5 (-3)
      (encodeI 0b1100111#7 0b000#3 1#5 1#5 (-3#12)) :=
    .immediate (by decide) (by decide) 1#5 1#5 (-3#12)
  have fetched : jumpThroughLink.fetch = .ok (encodeI 0b1100111#7 0b000#3 1#5 1#5 (-3#12)) := rfl
  obtain ⟨_, changes⟩ := computation_exact rfl (.empty _) rfl encoding rfl fetched
  rw [changes]
  exact ⟨by decide, by decide⟩

end Vm

end Determinant
