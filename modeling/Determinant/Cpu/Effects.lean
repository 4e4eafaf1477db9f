import Determinant.Cpu.Steps
import Determinant.Decoders.Decoded

/-!
# Effects of an instruction

What an instruction does outside the registers depends on its class and on one address, and
is said here once: what it does to memory and to the reservation (`decision_memory`), where it
can go on (`decision_nextPc`), and with what it can fail (`decision_error`). Whatever is true
of every step, for all instructions, is derived from these three.
-/

set_option autoImplicit false

namespace Determinant

open Foundations

variable {n : MemSize}

namespace Machine

/-! ## Memory and the reservation -/

/-- How an instruction accesses memory, other than by loading. -/
inductive MemoryEffect where
  | loadReserved (addr : Word)
  | storeConditional (addr : Word)
  | stores (addr : Word) (len : Nat)
  | nothing
deriving DecidableEq, Repr

/-- The effect of a decoded instruction on a machine with zero in `regs[0]`. -/
def memoryEffect (inst : Instruction) (m : Machine n) : MemoryEffect :=
  let rs1Val := m.regs inst.rs1
  match inst.op with
  | .a .lrW => .loadReserved rs1Val
  | .a .scW => .storeConditional rs1Val
  | .a _ => .stores rs1Val 4
  | .i .sb => .stores (rs1Val + inst.imm) 1
  | .i .sh => .stores (rs1Val + inst.imm) 2
  | .i .sw => .stores (rs1Val + inst.imm) 4
  | _ => .nothing

/-- What an instruction with an effect has decided when it retires. -/
def EffectOf (inst : Instruction) (m : Machine n) (d : Decision) : MemoryEffect → Prop
  | .loadReserved addr =>
      d.store = none ∧ d.reserve = .take addr ∧
        ∃ value, m.readWord addr = .ok value ∧ d.reg = some (inst.rd, value)
  | .storeConditional addr =>
      access n 4 addr = .ok () ∧ d.reserve = .drop ∧
        if m.reservation = some addr then
          d.store = some (addr, writeInt 4 (m.regs inst.rs2)) ∧ d.reg = some (inst.rd, 0#32)
        else d.store = none ∧ d.reg = some (inst.rd, 1#32)
  | .stores addr len =>
      ∃ bytes, d.store = some (addr, bytes) ∧ bytes.length = len ∧ access n len addr = .ok () ∧
        d.reserve = .keep
  | .nothing => d.store = none ∧ d.reserve = .keep

variable {inst : Instruction} {instSize : Word} {m : Machine n} {d : Decision}

theorem storing_ok {next addr : Word} {bytes : List Byte}
    (decided : storing n next addr bytes = .ok d) :
    ∃ bytes', d.store = some (addr, bytes') ∧ bytes'.length = bytes.length ∧
      access n bytes.length addr = .ok () ∧ d.reserve = .keep := by
  obtain ⟨_, permitted, rest⟩ := bind_eq_ok.1 decided
  cases rest
  exact ⟨bytes, rfl, rfl, permitted, rfl⟩

/-- **What an instruction that retires does to memory and to the reservation.** -/
theorem decision_memory (decided : decision inst instSize m = .ok d) :
    EffectOf inst m d (memoryEffect inst m) := by
  obtain ⟨op, rd, rs1, rs2, imm, raw, compressedOp⟩ := inst
  cases op with
  | i op =>
      cases op with
      | sb => exact storing_ok decided
      | sh => exact storing_ok decided
      | sw => exact storing_ok decided
      | lb | lbu | lh | lhu | lw =>
          obtain ⟨_, _, rest⟩ := bind_eq_ok.1 decided
          cases rest
          exact ⟨rfl, rfl⟩
      | _ =>
          cases decided
          exact ⟨rfl, rfl⟩
  | a op =>
      simp only [decision, decisionA] at decided
      cases op with
      | lrW =>
          simp only [dite_true] at decided
          obtain ⟨value, read, rest⟩ := bind_eq_ok.1 decided
          cases rest
          exact ⟨rfl, rfl, value, read, rfl⟩
      | scW =>
          simp only [reduceCtorEq, dite_false, dite_true] at decided
          obtain ⟨_, permitted, rest⟩ := bind_eq_ok.1 decided
          split at rest
          · rename_i reserved
            cases rest
            simp only [EffectOf, memoryEffect, permitted, reserved, if_true, and_self]
          · rename_i reserved
            cases rest
            simp only [EffectOf, memoryEffect, permitted, reserved, if_false, and_self]
      | _ =>
          simp only [reduceCtorEq, dite_false] at decided
          obtain ⟨old, read, rest⟩ := bind_eq_ok.1 decided
          cases rest
          exact ⟨_, rfl, length_writeInt 4 _, readWord_ok read, rfl⟩
  | csr op =>
      simp only [decision, decisionCsr] at decided
      split at decided
      · cases decided
        exact ⟨rfl, rfl⟩
      · cases decided
  | m op | zba op | zbb op | zbs op =>
      cases decided
      exact ⟨rfl, rfl⟩

/-! ## The next instruction -/

/-- **Where an instruction goes on**: behind itself, at its relative target, or at an even
address from a register. -/
theorem decision_nextPc (decided : decision inst instSize m = .ok d) :
    d.nextPc = m.pc + instSize ∨
      (∃ op, inst.op = .i op ∧ op.relative = true ∧ d.nextPc = m.pc + inst.imm) ∨
      ∃ target : Word, d.nextPc = target &&& 0xFFFFFFFE#32 := by
  obtain ⟨op, rd, rs1, rs2, imm, raw, compressedOp⟩ := inst
  cases op with
  | i op =>
      cases op with
      | sb | sh | sw | lb | lbu | lh | lhu | lw =>
          obtain ⟨_, _, rest⟩ := bind_eq_ok.1 decided
          cases rest
          exact .inl rfl
      | beq | bne | blt | bge | bltu | bgeu =>
          cases decided
          dsimp only
          split
          · exact .inr (.inl ⟨_, rfl, rfl, rfl⟩)
          · exact .inl rfl
      | jal =>
          cases decided
          exact .inr (.inl ⟨_, rfl, rfl, rfl⟩)
      | jalr =>
          cases decided
          exact .inr (.inr ⟨_, rfl⟩)
      | _ =>
          cases decided
          exact .inl rfl
  | a op => exact .inl (decisionA_goes_on decided).1
  | csr op => exact .inl (decisionCsr_goes_on decided).1
  | m op | zba op | zbb op | zbs op =>
      cases decided
      exact .inl rfl

/-! ## Errors -/

theorem access_error {k : Nat} {addr : Word} {e : StepError}
    (refused : access n k addr = .error e) :
    e ≠ .misalignedPC := by
  unfold access at refused
  split at refused
  · cases refused
    intro same
    cases same
  · split at refused
    · cases refused
      intro same
      cases same
    · cases refused

theorem read_error {addr : Word} {e : StepError}
    (refused : m.readByte addr = .error e ∨ m.readHalfword addr = .error e ∨
      m.readWord addr = .error e) : e ≠ .misalignedPC := by
  rcases refused with byte | half | word
  · unfold readByte at byte
    split at byte
    · cases byte
      intro same
      cases same
    · cases byte
  · unfold readHalfword at half
    split at half
    · cases half
      intro same
      cases same
    · split at half
      · cases half
        intro same
        cases same
      · cases half
  · unfold readWord at word
    split at word
    · rename_i checked
      cases word
      exact access_error ((checkWordAccess_eq addr).symm.trans checked)
    · cases word

/-- **An instruction never fails with a misaligned `pc`.** -/
theorem decision_error {e : StepError} (refused : decision inst instSize m = .error e) :
    e ≠ .misalignedPC := by
  obtain ⟨op, rd, rs1, rs2, imm, raw, compressedOp⟩ := inst
  cases op with
  | i op =>
      cases op with
      | sb | sh | sw =>
          rcases bind_eq_error.1 refused with refused | ⟨_, _, rest⟩
          · exact access_error refused
          · cases rest
      | lb | lbu =>
          rcases bind_eq_error.1 refused with refused | ⟨_, _, rest⟩
          · exact read_error (.inl refused)
          · cases rest
      | lh | lhu =>
          rcases bind_eq_error.1 refused with refused | ⟨_, _, rest⟩
          · exact read_error (.inr (.inl refused))
          · cases rest
      | lw =>
          rcases bind_eq_error.1 refused with refused | ⟨_, _, rest⟩
          · exact read_error (.inr (.inr refused))
          · cases rest
      | _ => cases refused
  | a op =>
      simp only [decision, decisionA] at refused
      split at refused
      · rcases bind_eq_error.1 refused with refused | ⟨_, _, rest⟩
        · exact read_error (.inr (.inr refused))
        · cases rest
      · split at refused
        · rcases bind_eq_error.1 refused with refused | ⟨_, _, rest⟩
          · exact access_error refused
          · split at rest <;> cases rest
        · rcases bind_eq_error.1 refused with refused | ⟨_, _, rest⟩
          · exact read_error (.inr (.inr refused))
          · cases rest
  | csr op =>
      simp only [decision, decisionCsr] at refused
      split at refused
      · cases refused
      · rename_i failed _ _
        cases refused
        cases failed
        intro same
        cases same
  | m op | zba op | zbb op | zbs op => cases refused

end Machine

end Determinant
