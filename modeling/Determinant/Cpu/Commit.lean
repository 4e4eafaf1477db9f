import Determinant.Cpu.Execute

/-!
# Decide, then commit

The step of the source mixes checks and writes. This module splits an instruction in two: a
pure function of the machine that either refuses with an error or decides everything the
instruction changes (`decision`), and a function that makes the changes and cannot fail
(`retire`). The source's step is the two in sequence (`execute_eq`): when the decision is an
error nothing but the forced zero in `regs[0]` is written. What an instruction does to any
one field is then read off `retire`, with no case analysis over the instructions.

An access of `k` bytes is refused when `k` does not divide its address, and then when its
bytes are not all inside memory (`access`); every reading and writing method makes exactly
these two checks.
-/

set_option autoImplicit false

namespace Determinant

open Foundations

variable {n : MemSize}

/-! ## Accesses -/

/-- The two checks of an access of `k` bytes, over the integers. -/
def access (n : MemSize) (k : Nat) (addr : Word) : Except StepError Unit :=
  if addr.toNat % k ≠ 0 then .error .misalignedAccess
  else if n.bytes < addr.toNat + k then .error .addressOutOfBounds
  else .ok ()

theorem access_eq_ok {k : Nat} {addr : Word} :
    access n k addr = .ok () ↔ addr.toNat % k = 0 ∧ addr.toNat + k ≤ n.bytes := by
  unfold access
  split
  · simp_all
  · split
    · simp_all
    · simp_all

namespace Machine

theorem umod_eq_zero {k : Word} (addr : Word) :
    addr % k = 0#32 ↔ addr.toNat % k.toNat = 0 := by
  rw [← BitVec.toNat_inj, BitVec.toNat_umod]
  rfl

theorem checkWordAccess_eq (addr : Word) : checkWordAccess n addr = access n 4 addr := by
  have bound := MemSize.le_sub_iff (n := n) (k := 4#32) (by decide) addr
  simp only [checkWordAccess, access, ne_eq, umod_eq_zero, GT.gt, ← BitVec.not_le, bound]
  simp

/-- The bytes written at an address, with the reservation dropped if they overlap it. -/
def store (m : Machine n) (addr : Word) (bytes : List Byte) : Machine n :=
  { m with memory := patch m.memory addr.toNat bytes }.invalidateReservation addr

theorem writeByte_apply (addr : Word) (value : Byte) (m : Machine n) :
    writeByte addr value m = match access n 1 addr with
      | .ok () => .ok () (m.store addr [value])
      | .error e => .error e m := by
  have bound : addr ≥ n.toWord ↔ n.bytes < addr.toNat + 1 := by
    rw [ge_iff_le, BitVec.le_def, MemSize.toNat_toWord]
    omega
  simp only [writeByte, access, Nat.mod_one, ne_eq, not_true_eq_false, if_false, bound]
  by_cases outside : n.bytes < addr.toNat + 1
  · simp [outside, bind_apply]
  · simp [outside, bind_apply, store]

theorem writeHalfword_apply (addr : Word) (value : Half) (m : Machine n) :
    writeHalfword addr value m = match access n 2 addr with
      | .ok () => .ok () (m.store addr (writeInt 2 value))
      | .error e => .error e m := by
  have bound := MemSize.le_sub_iff (n := n) (k := 2#32) (by decide) addr
  simp only [writeHalfword, access, ne_eq, umod_eq_zero, GT.gt, ← BitVec.not_le, bound]
  by_cases aligned : addr.toNat % 2 = 0
  · by_cases outside : n.bytes < addr.toNat + 2
    · simp [aligned, outside, bind_apply]
    · simp [aligned, outside, bind_apply, store]
  · simp [aligned, bind_apply]

theorem writeWord_apply (addr value : Word) (m : Machine n) :
    writeWord addr value m = match access n 4 addr with
      | .ok () => .ok () (m.store addr (writeInt 4 value))
      | .error e => .error e m := by
  simp only [writeWord, bind_apply, reads, checkWordAccess_eq, modify_apply]
  cases access n 4 addr <;> rfl

/-! ## Decisions -/

/-- What an instruction does to the reservation, after a store has dropped what it overlaps. -/
inductive Reserve where
  | keep
  | take (addr : Word)
  | drop
deriving DecidableEq, Repr

/-- Everything an instruction that does not fail changes. -/
structure Decision where
  reg : Option (Reg × Word) := none
  store : Option (Word × List Byte) := none
  reserve : Reserve := .keep
  csrs : Option Zicsr.Csr := none
  nextPc : Word
  result : StepResult := .continue

/-- The part of a decision that does not depend on the machine, made. -/
def retire (d : Decision) (m : Machine n) : Machine n where
  pc := d.nextPc
  regs := match d.reg with
    | some (rd, value) => (m.writeReg rd value).regs
    | none => m.regs
  memory := match d.store with
    | some (addr, bytes) => patch m.memory addr.toNat bytes
    | none => m.memory
  cycleCount := m.cycleCount + 1
  reservation := match d.reserve with
    | .take addr => some addr
    | .drop => none
    | .keep =>
      match d.store with
      | some (addr, _) => m.reservation.filter fun res => addr &&& 0xFFFFFFFC#32 ≠ res
      | none => m.reservation
  csrs := d.csrs.getD m.csrs
  stopPc := if d.result = .continue then m.stopPc else m.pc

/-- The register an instruction writes, and where it goes on. -/
def write (rd : Reg) (nextPc value : Word) : Decision :=
  { reg := some (rd, value), nextPc := nextPc }

/-- A store. -/
def storing (n : MemSize) (nextPc addr : Word) (bytes : List Byte) : Except StepError Decision := do
  access n bytes.length addr
  .ok { store := some (addr, bytes), nextPc := nextPc }

/-- An RV32I instruction. -/
def decisionI (op : Rv32i.Opcode) (rd : Reg) (imm rs1Val rs2Val instSize : Word) (m : Machine n) :
    Except StepError Decision :=
  let next := m.pc + instSize
  let branch (taken : Bool) : Decision := { nextPc := if taken then m.pc + imm else next }
  match op with
  | .add => .ok (write rd next (rs1Val + rs2Val))
  | .sub => .ok (write rd next (rs1Val - rs2Val))
  | .sll => .ok (write rd next (rs1Val <<< (rs2Val &&& 0x1F#32)))
  | .slt => .ok (write rd next (if rs1Val.slt rs2Val then 1#32 else 0#32))
  | .sltu => .ok (write rd next (if rs1Val < rs2Val then 1#32 else 0#32))
  | .xor => .ok (write rd next (rs1Val ^^^ rs2Val))
  | .srl => .ok (write rd next (rs1Val >>> (rs2Val &&& 0x1F#32)))
  | .sra => .ok (write rd next (rs1Val.sshiftRight (rs2Val &&& 0x1F#32).toNat))
  | .or => .ok (write rd next (rs1Val ||| rs2Val))
  | .and => .ok (write rd next (rs1Val &&& rs2Val))
  | .addi => .ok (write rd next (rs1Val + imm))
  | .slti => .ok (write rd next (if rs1Val.slt imm then 1#32 else 0#32))
  | .sltiu => .ok (write rd next (if rs1Val < imm then 1#32 else 0#32))
  | .xori => .ok (write rd next (rs1Val ^^^ imm))
  | .ori => .ok (write rd next (rs1Val ||| imm))
  | .andi => .ok (write rd next (rs1Val &&& imm))
  | .slli => .ok (write rd next (rs1Val <<< (imm &&& 0x1F#32)))
  | .srli => .ok (write rd next (rs1Val >>> (imm &&& 0x1F#32)))
  | .srai => .ok (write rd next (rs1Val.sshiftRight (imm &&& 0x1F#32).toNat))
  | .lb => do .ok (write rd next ((← m.readByte (rs1Val + imm)).signExtend 32))
  | .lh => do .ok (write rd next ((← m.readHalfword (rs1Val + imm)).signExtend 32))
  | .lw => do .ok (write rd next (← m.readWord (rs1Val + imm)))
  | .lbu => do .ok (write rd next ((← m.readByte (rs1Val + imm)).setWidth 32))
  | .lhu => do .ok (write rd next ((← m.readHalfword (rs1Val + imm)).setWidth 32))
  | .sb => storing n next (rs1Val + imm) [rs2Val.setWidth 8]
  | .sh => storing n next (rs1Val + imm) (writeInt 2 (rs2Val.setWidth 16))
  | .sw => storing n next (rs1Val + imm) (writeInt 4 rs2Val)
  | .beq => .ok (branch (rs1Val = rs2Val))
  | .bne => .ok (branch (rs1Val ≠ rs2Val))
  | .blt => .ok (branch (rs1Val.slt rs2Val))
  | .bge => .ok (branch (rs2Val.sle rs1Val))
  | .bltu => .ok (branch (rs1Val < rs2Val))
  | .bgeu => .ok (branch (rs1Val ≥ rs2Val))
  | .lui => .ok (write rd next imm)
  | .auipc => .ok (write rd next (m.pc + imm))
  | .jal => .ok (write rd (m.pc + imm) next)
  | .jalr => .ok (write rd ((rs1Val + imm) &&& 0xFFFFFFFE#32) next)
  | .fence | .fenceI => .ok { nextPc := next }
  | .ecall => .ok { nextPc := next, result := .ecall }
  | .ebreak => .ok { nextPc := next, result := .ebreak }

/-- What an atomic instruction does. -/
def decisionA (op : Rv32a.Opcode) (rd : Reg) (addr rs2Val next : Word) (m : Machine n) :
    Except StepError Decision :=
  if lr : op = .lrW then do
    let val ← m.readWord addr
    .ok { reg := some (rd, val), reserve := .take addr, nextPc := next }
  else if sc : op = .scW then do
    access n 4 addr
    if m.reservation = some addr then
      .ok { reg := some (rd, 0#32), store := some (addr, writeInt 4 rs2Val), reserve := .drop,
            nextPc := next }
    else .ok { reg := some (rd, 1#32), reserve := .drop, nextPc := next }
  else do
    let old ← m.readWord addr
    let new := Rv32a.execute op (Rv32a.Opcode.isAmo_intro lr sc) old rs2Val
    .ok { reg := some (rd, old), store := some (addr, writeInt 4 new), nextPc := next }

/-- A CSR instruction. -/
def decisionCsr (op : Zicsr.Opcode) (rd rs1Field : Reg) (rs1Val : Word) (csrAddr : BitVec 12)
    (next : Word) (m : Machine n) : Except StepError Decision :=
  match Zicsr.Csr.execute op m.cycleCount csrAddr (csrSrcVal op rs1Field rs1Val) (rd ≠ 0#5)
    (rs1Field ≠ 0#5) m.csrs with
  | .ok rdVal csrs =>
      .ok { reg := rdVal.map fun value => (rd, value), csrs := some csrs, nextPc := next }
  | .error e _ => .error e.toStepError

/-- **What a decoded instruction does**, or why it does not. -/
def decision (inst : Instruction) (instSize : Word) (m : Machine n) : Except StepError Decision :=
  let rs1Val := m.regs inst.rs1
  let rs2Val := m.regs inst.rs2
  let next := m.pc + instSize
  match inst.op with
  | .i op => decisionI op inst.rd inst.imm rs1Val rs2Val instSize m
  | .m op => .ok (write inst.rd next (Rv32m.execute op rs1Val rs2Val))
  | .a op => decisionA op inst.rd rs1Val rs2Val next m
  | .csr op => decisionCsr op inst.rd inst.rs1 rs1Val inst.csrAddr next m
  | .zba op => .ok (write inst.rd next (Zba.execute op rs1Val rs2Val))
  | .zbb op =>
      .ok (write inst.rd next
        (Zbb.execute op rs1Val (if op.format = .R then rs2Val else inst.immUnsigned)))
  | .zbs op =>
      .ok (write inst.rd next
        (Zbs.execute op rs1Val (if op.format = .R then rs2Val else inst.immUnsigned)))

/-! ## The step makes the decision -/

/-- The registers with x0 forced to zero, as the step does before it reads them. -/
def zeroX0 (m : Machine n) : Machine n := { m with regs := Function.update m.regs 0#5 0#32 }

/-- The changes of an instruction class, before `pc`, `cycle_count` and `stop_pc`. -/
def perform (d : Decision) (m : Machine n) : Machine n :=
  { m.retire d with pc := m.pc, cycleCount := m.cycleCount, stopPc := m.stopPc }

/-- The registers as the step sees them. -/
theorem zeroX0_regs (m : Machine n) (reg : Reg) : m.zeroX0.regs reg = m.readReg reg := by
  unfold zeroX0 readReg
  by_cases x0 : reg = 0#5
  · simp [x0]
  · simp [x0]

@[simp] theorem zeroX0_writeReg (m : Machine n) (reg : Reg) (value : Word) :
    m.zeroX0.writeReg reg value = m.writeReg reg value := by
  have same : Function.update (Function.update (Function.update m.regs 0#5 0#32) reg value)
      0#5 0#32 = Function.update (Function.update m.regs reg value) 0#5 0#32 := by
    funext r
    simp only [Function.update_apply]
    split_ifs <;> rfl
  unfold writeReg
  rw [← same]
  rfl

@[simp] theorem perform_write (m : Machine n) (rd : Reg) (next value : Word) :
    m.perform (write rd next value) = m.writeReg rd value := rfl

@[simp] theorem perform_pass (m : Machine n) (next : Word) (result : StepResult) :
    m.perform { nextPc := next, result := result } = m := rfl

@[simp] theorem perform_store (m : Machine n) (addr next : Word) (bytes : List Byte) :
    m.perform { store := some (addr, bytes), nextPc := next } = m.store addr bytes := by
  rw [store, invalidateReservation_eq]
  rfl

theorem executeI_eq (op : Rv32i.Opcode) (rd : Reg) (imm rs1Val rs2Val instSize : Word)
    (m : Machine n) :
    executeI op rd imm rs1Val rs2Val instSize (m.pc + instSize) m =
      match decisionI op rd imm rs1Val rs2Val instSize m with
      | .ok d => .ok (d.result, d.nextPc) (m.perform d)
      | .error e => .error e m := by
  cases op with
  | lb | lbu =>
      simp only [executeI, decisionI, bind_apply, reads]
      cases m.readByte (rs1Val + imm) <;> rfl
  | lh | lhu =>
      simp only [executeI, decisionI, bind_apply, reads]
      cases m.readHalfword (rs1Val + imm) <;> rfl
  | lw =>
      simp only [executeI, decisionI, bind_apply, reads]
      cases m.readWord (rs1Val + imm) <;> rfl
  | sb =>
      simp only [executeI, decisionI, bind_apply, writeByte_apply, storing, List.length_singleton]
      cases access n 1 (rs1Val + imm) <;> simp [bind, Except.bind]
  | sh =>
      simp only [executeI, decisionI, bind_apply, writeHalfword_apply, storing, length_writeInt]
      cases access n 2 (rs1Val + imm) <;> simp [bind, Except.bind]
  | sw =>
      simp only [executeI, decisionI, bind_apply, writeWord_apply, storing, length_writeInt]
      cases access n 4 (rs1Val + imm) <;> simp [bind, Except.bind]
  | beq | bne | blt | bge | bltu | bgeu =>
      simp only [executeI, decisionI]
      split <;> simp_all [bind_apply]
  | _ => rfl

theorem readWord_ok {m : Machine n} {addr word : Word} (read : m.readWord addr = .ok word) :
    access n 4 addr = .ok () := by
  rw [← checkWordAccess_eq]
  unfold readWord at read
  split at read
  · cases read
  · assumption

/-- A word depends on its four bytes. -/
theorem readWord_congr {m m' : Machine n} {addr : Word}
    (same : ∀ i : Fin n.bytes, addr.toNat ≤ i.val → i.val < addr.toNat + 4 →
      m.memory i = m'.memory i) : m.readWord addr = m'.readWord addr := by
  unfold readWord
  split
  · rfl
  · rw [slice_congr _ same]

theorem executeA_eq (op : Rv32a.Opcode) (rd : Reg) (addr rs2Val next : Word) (m : Machine n) :
    executeA op rd addr rs2Val m =
      match decisionA op rd addr rs2Val next m with
      | .ok d => .ok () (m.perform d)
      | .error e => .error e m := by
  unfold executeA decisionA
  by_cases lr : op = .lrW
  · simp only [lr, dif_pos, bind_apply, reads]
    cases m.readWord addr <;> rfl
  · by_cases sc : op = .scW
    · subst sc
      simp only [reduceCtorEq, dite_false, dite_true, bind_apply, reads, checkWordAccess_eq,
        get_apply]
      cases permitted : access n 4 addr with
      | error e => rfl
      | ok _ =>
          by_cases reserved : m.reservation = some addr
          · simp only [reserved, if_true, bind_apply, writeWord_apply, permitted, modify_apply]
            rw [store, invalidateReservation_eq]
            rfl
          · simp only [reserved, if_false]
            rfl
    · simp only [lr, sc, dif_neg, not_false_eq_true, bind_apply, reads]
      cases read : m.readWord addr with
      | error e => rfl
      | ok old =>
          simp only [writeWord_apply, readWord_ok read, modify_apply]
          rw [store, invalidateReservation_eq]
          rfl

theorem executeCsr_eq (op : Zicsr.Opcode) (rd rs1Field : Reg) (rs1Val : Word)
    (csrAddr : BitVec 12) (next : Word) (m : Machine n) :
    executeCsr op rd rs1Field rs1Val csrAddr m =
      match decisionCsr op rd rs1Field rs1Val csrAddr next m with
      | .ok d => .ok () (m.perform d)
      | .error e => .error e m := by
  simp only [executeCsr, decisionCsr, bind_apply, get_apply, adaptExcept_apply, onPart]
  cases outcome : Zicsr.Csr.execute op m.cycleCount csrAddr (csrSrcVal op rs1Field rs1Val)
      (rd ≠ 0#5) (rs1Field ≠ 0#5) m.csrs with
  | ok rdVal csrs => cases rdVal <;> rfl
  | error e csrs =>
      have same := Zicsr.Csr.execute_atomic _ _ _ _ _ _ outcome
      subst same
      rfl

theorem decisionA_goes_on {op : Rv32a.Opcode} {rd : Reg} {addr rs2Val next : Word}
    {m : Machine n} {d : Decision} (decided : decisionA op rd addr rs2Val next m = .ok d) :
    d.nextPc = next ∧ d.result = .continue := by
  unfold decisionA at decided
  split at decided
  · obtain ⟨_, _, rest⟩ := bind_eq_ok.1 decided
    cases rest
    exact ⟨rfl, rfl⟩
  · split at decided
    · obtain ⟨_, _, rest⟩ := bind_eq_ok.1 decided
      split at rest <;> cases rest <;> exact ⟨rfl, rfl⟩
    · obtain ⟨_, _, rest⟩ := bind_eq_ok.1 decided
      cases rest
      exact ⟨rfl, rfl⟩

theorem decisionCsr_goes_on {op : Zicsr.Opcode} {rd rs1Field : Reg} {rs1Val : Word}
    {csrAddr : BitVec 12} {next : Word} {m : Machine n} {d : Decision}
    (decided : decisionCsr op rd rs1Field rs1Val csrAddr next m = .ok d) :
    d.nextPc = next ∧ d.result = .continue := by
  unfold decisionCsr at decided
  split at decided
  · cases decided
    exact ⟨rfl, rfl⟩
  · cases decided

/-- **The step makes the decision.** An instruction that fails has written nothing but the
zero in `regs[0]`; one that retires makes the changes decided before the first of them. -/
theorem execute_eq (inst : Instruction) (instSize : Word) (m : Machine n) :
    execute inst instSize m =
      match decision inst instSize m.zeroX0 with
      | .ok d => .ok d.result (m.zeroX0.retire d)
      | .error e => .error e m.zeroX0 := by
  have start : ({ m with regs := Function.update m.regs 0#5 0#32 } : Machine n) = m.zeroX0 := rfl
  simp only [execute, decision, bind_apply, modify_apply, get_apply, start]
  cases inst.op with
  | i op =>
      simp only [bind_apply, executeI_eq]
      cases decisionI op inst.rd inst.imm (m.zeroX0.regs inst.rs1) (m.zeroX0.regs inst.rs2)
          instSize m.zeroX0 with
      | error e => rfl
      | ok d =>
          by_cases goesOn : d.result = .continue
          · simp [bind_apply, map_apply, perform, retire, goesOn]
          · simp [bind_apply, map_apply, perform, retire, goesOn]
  | a op =>
      simp only [bind_apply, executeA_eq _ _ _ _ (m.zeroX0.pc + instSize)]
      cases decided : decisionA op inst.rd (m.zeroX0.regs inst.rs1) (m.zeroX0.regs inst.rs2)
          (m.zeroX0.pc + instSize) m.zeroX0 with
      | error e => rfl
      | ok d =>
          obtain ⟨nextPc, result⟩ := decisionA_goes_on decided
          simp [bind_apply, map_apply, perform, retire, nextPc, result]
  | csr op =>
      simp only [bind_apply, executeCsr_eq _ _ _ _ _ (m.zeroX0.pc + instSize)]
      cases decided : decisionCsr op inst.rd inst.rs1 (m.zeroX0.regs inst.rs1) inst.csrAddr
          (m.zeroX0.pc + instSize) m.zeroX0 with
      | error e => rfl
      | ok d =>
          obtain ⟨nextPc, result⟩ := decisionCsr_goes_on decided
          simp [bind_apply, map_apply, perform, retire, nextPc, result]
  | _ => rfl

end Machine
end Determinant
