import Determinant.Cpu.BitManipulation
import Determinant.Cpu.CompressedCode
import Determinant.Cpu.Fetch
import Determinant.Cpu.Run
import Determinant.Decoders.ExtensionWords
import Determinant.Isa.Architecture

/-!
# The machine implements the architecture

The hart of a machine has the registers that can be read, with x0 at zero, and the map of its
memory (`Machine.hart`); it has no decode cache and no `stop_pc`. What a machine decides for an
instruction is an outcome that the architecture allows, and the only one
(`Machine.executes_iff`). So the steps of a machine are the steps of its hart, and the runs of a
VM are the runs of its hart (`Vm.runs_isa`): whatever one of them may end with the other ends
with, and when there is no end there is none on either side.
-/

set_option autoImplicit false

namespace Determinant

open Foundations

variable {n : MemSize} {o : Options}

/-- The hart of a machine. -/
def Machine.hart (m : Machine n) : Isa.Hart where
  pc := m.pc
  x := m.readReg
  zero := if_pos rfl
  memory := ofCells m.memory
  cycles := m.cycleCount
  reservation := m.reservation
  mscratch := m.csrs.mscratch

/-! ## Values -/

/-- **The source's products and quotients are the ones over the integers.** -/
theorem Rv32m.execute_eq_value (op : Rv32m.Opcode) (x y : Word) :
    execute op x y = BitVec.ofInt 32 (op.value x y) := by
  have divisor : y = 0#32 ↔ y.toInt = 0 := zero_iff
  have divisor' : y = 0#32 ↔ y.toNat = 0 := unsigned_zero_iff
  cases op with
  | mul => exact mul_eq_ofInt x y
  | mulh => exact exact.mulh x y
  | mulhsu => exact exact.mulhsu x y
  | mulhu => exact exact.mulhu x y
  | div =>
      simp only [execute, Opcode.value, divisor]
      by_cases zero : y.toInt = 0
      · rw [if_pos zero, if_pos zero]
        rfl
      · rw [if_neg zero, if_neg zero]
        by_cases overflow : x = minInt ∧ y = -1#32
        · obtain ⟨rfl, rfl⟩ := overflow
          rfl
        · rw [if_neg overflow, sdiv_eq_ofInt]
  | divu =>
      simp only [execute, Opcode.value, divisor']
      by_cases zero : y.toNat = 0
      · rw [if_pos zero, if_pos zero]
        rfl
      · rw [if_neg zero, if_neg zero, udiv_eq_ofInt]
        norm_cast
  | rem =>
      simp only [execute, Opcode.value, divisor]
      by_cases zero : y.toInt = 0
      · rw [if_pos zero, if_pos zero]
        exact eq_ofInt_toInt x
      · rw [if_neg zero, if_neg zero]
        by_cases overflow : x = minInt ∧ y = -1#32
        · obtain ⟨rfl, rfl⟩ := overflow
          rfl
        · rw [if_neg overflow, srem_eq_ofInt]
  | remu =>
      simp only [execute, Opcode.value, divisor']
      by_cases zero : y.toNat = 0
      · rw [if_pos zero, if_pos zero]
        exact eq_ofInt_toNat x
      · rw [if_neg zero, if_neg zero, umod_eq_ofInt]
        norm_cast

namespace Machine

variable {m : Machine n} {inst : Instruction} {size : Word}

/-! ## Registers and memory -/

@[simp] theorem hart_pc (m : Machine n) : m.hart.pc = m.pc := rfl

@[simp] theorem hart_memory (m : Machine n) : m.hart.memory = ofCells m.memory := rfl

theorem hart_x (x0 : m.regs 0#5 = 0#32) : m.hart.x = m.regs := by
  funext reg
  change m.readReg reg = m.regs reg
  rw [← zeroX0_regs, zeroX0_eq_self x0]

/-- The machine is the same to its hart with x0 forced to zero. -/
theorem hart_zeroX0 (m : Machine n) : m.zeroX0.hart = m.hart := by
  apply Isa.Hart.ext
  case x =>
    funext reg
    change m.zeroX0.readReg reg = m.readReg reg
    unfold readReg
    split
    · rfl
    · exact (zeroX0_regs m reg).trans (if_neg ‹_›)
  all_goals rfl

/-- **The bytes of an access.** -/
theorem hart_access (m : Machine n) {width : Nat} (positive : width ≠ 0) (addr : Word) :
    m.hart.access width addr.toNat = m.load width addr := by
  unfold Isa.Hart.access
  by_cases aligned : width ∣ addr.toNat
  · have natural : addr.toNat % width = 0 := Nat.mod_eq_zero_of_dvd aligned
    rw [if_neg (not_not.2 aligned)]
    by_cases inside : addr.toNat + width ≤ n.bytes
    · rw [load_eq_ok.2 ⟨natural, inside, rfl⟩]
      rw [hart_memory, cellsAt_ofCells m.memory inside]
    · have outside : n.bytes < addr.toNat + width := Nat.not_le.1 inside
      rw [load_eq_error.2 (access_eq_error.2 (.inr ⟨natural, outside, rfl⟩))]
      rw [hart_memory, cellsAt_ofCells_outside m.memory outside positive]
  · have unaligned : addr.toNat % width ≠ 0 := mt Nat.dvd_of_mod_eq_zero aligned
    rw [if_pos aligned, load_eq_error.2 (access_eq_error.2 (.inl ⟨unaligned, rfl⟩))]

/-- **The instruction at `pc`.** -/
theorem hart_fetch (m : Machine n) : m.hart.fetch = m.fetch := by
  unfold Isa.Hart.fetch
  by_cases odd : m.hart.pc.toNat % 2 = 1
  · rw [if_pos odd, fetch_misaligned odd]
  have even : m.pc.toNat % 2 = 0 := Nat.mod_two_ne_one.1 odd
  rw [if_neg odd]
  by_cases start : m.pc.toNat + 2 ≤ n.bytes
  · have half : cellsAt m.hart.memory m.hart.pc.toNat 2 =
        some (slice m.memory m.pc.toNat 2 start) := cellsAt_ofCells m.memory start
    rw [half]
    by_cases full : ofLeBytes (slice m.memory m.pc.toNat 2 start) % 4 = 3
    · have long : m.instructionLength m.pc.toNat = 4 := by
        rw [instructionLength, dif_pos start, if_pos full]
      dsimp only
      rw [if_neg (not_not.2 full)]
      by_cases whole : m.pc.toNat + 4 ≤ n.bytes
      · have word : cellsAt m.hart.memory m.hart.pc.toNat 4 =
            some (slice m.memory m.pc.toNat 4 whole) := cellsAt_ofCells m.memory whole
        have fetched := fetch_inside even (by rw [long]; exact whole)
        simp only [long] at fetched
        rw [word, fetched]
        rfl
      · have outside : n.bytes < m.pc.toNat + 4 := Nat.not_le.1 whole
        have none : cellsAt m.hart.memory m.hart.pc.toNat 4 = none :=
          cellsAt_ofCells_outside m.memory outside (by decide)
        rw [none, fetch_outOfBounds even (by rw [long]; exact outside)]
    · have short : m.instructionLength m.pc.toNat = 2 := by
        rw [instructionLength, dif_pos start, if_neg full]
      have fetched := fetch_inside even (by rw [short]; exact start)
      simp only [short] at fetched
      rw [fetched]
      exact if_pos full
  · have outside : n.bytes < m.pc.toNat + 2 := Nat.not_le.1 start
    have none : cellsAt m.hart.memory m.hart.pc.toNat 2 = none :=
      cellsAt_ofCells_outside m.memory outside (by decide)
    have least : 2 ≤ m.instructionLength m.pc.toNat := by
      rcases m.instructionLength_cases m.pc.toNat with half | full <;> omega
    rw [none, fetch_outOfBounds even (by omega)]

/-! ## Decisions -/

section

variable {d : Decision} {rd : Reg} {value : Word}

/-- A register that is set. -/
theorem hart_x_setReg (x0 : m.regs 0#5 = 0#32) {m' : Machine n}
    (written : m'.regs = m.setReg rd value) : m'.hart.x = (m.hart.put rd value).x := by
  have kept : m'.regs 0#5 = 0#32 := by
    rw [written, setReg, if_neg fun both => both.2 both.1.symm, x0]
  rw [hart_x kept, written]
  funext reg
  change m.setReg rd value reg = if reg = rd ∧ rd ≠ 0#5 then value else m.hart.x reg
  rw [hart_x x0]
  rfl

theorem retire_x_some (x0 : m.regs 0#5 = 0#32) (writes : d.reg = some (rd, value)) :
    (m.retire d).hart.x = (m.hart.put rd value).x := by
  apply hart_x_setReg x0
  rw [← writeReg_regs x0 rd value, retire, writes]

theorem retire_x_none (writes : d.reg = none) : (m.retire d).hart.x = m.hart.x := by
  funext reg
  change (m.retire d).readReg reg = m.readReg reg
  unfold readReg retire
  rw [writes]

end

/-! ## Computing -/

/-- A branch. -/
theorem branch_goesTo {imm : Word} {taken taken' : Bool} (same : taken = taken') :
    (if taken then some (m.pc + imm) else none).getD (m.pc + size) =
      BitVec.ofInt 32 (if taken' then m.pc.toNat + imm.toInt else m.pc.toNat + size.toNat) := by
  subst same
  cases taken
  · exact add_eq_ofInt m.pc size
  · exact add_eq_ofInt_signed m.pc imm

/-- **Where an instruction goes on**, whatever its size. -/
theorem target_goesTo (x0 : m.regs 0#5 = 0#32) {op : Rv32i.Opcode} (isOp : inst.op = .i op) :
    (target inst m).getD (m.pc + size) = BitVec.ofInt 32 (op.goesTo m.pc (m.regs inst.rs1)
      (m.regs inst.rs2) inst.imm.toInt size.toNat) := by
  have read : m.readReg = m.regs := hart_x x0
  simp only [target, isOp, read]
  cases op with
  | beq => exact branch_goesTo (decide_eq_decide.2 BitVec.toNat_inj.symm)
  | bne => exact branch_goesTo (decide_eq_decide.2 (not_congr BitVec.toNat_inj.symm))
  | blt => exact branch_goesTo BitVec.slt_eq_decide
  | bge => exact branch_goesTo BitVec.sle_eq_decide
  | bltu => exact branch_goesTo (decide_eq_decide.2 BitVec.lt_def)
  | bgeu => exact branch_goesTo (decide_eq_decide.2 BitVec.le_def)
  | jal => exact add_eq_ofInt_signed m.pc inst.imm
  | jalr =>
      change (m.regs inst.rs1 + inst.imm) &&& 0xFFFFFFFE#32 = _
      rw [add_eq_ofInt_signed, clear_bit_zero]
      rfl
  | _ => exact add_eq_ofInt m.pc size

/-- **The decision of an instruction that accesses no memory.** -/
theorem decision_computes (x0 : m.regs 0#5 = 0#32) {op : Rv32i.Opcode} (isOp : inst.op = .i op)
    (computes : op.width = none) :
    decision inst size m = .ok
      { reg := (op.result m.pc (m.regs inst.rs1) (m.regs inst.rs2) inst.imm.toInt
          size.toNat).map fun v => (inst.rd, BitVec.ofInt 32 v),
        nextPc := BitVec.ofInt 32 (op.goesTo m.pc (m.regs inst.rs1) (m.regs inst.rs2)
          inst.imm.toInt size.toNat),
        result := op.stop } := by
  have goes : (target inst m).getD (m.pc + size) = _ := target_goesTo x0 isOp
  have sized := decision_size inst m size 4#32
  rw [zeroX0_eq_self x0] at sized
  let outcome := op.outcome m.pc (m.regs inst.rs1) (m.regs inst.rs2) inst.imm.toInt
  have decided (goesOn : op ≠ .ecall ∧ op ≠ .ebreak) :
      decision inst 4#32 m = .ok
        { reg := outcome.value.map fun v => (inst.rd, BitVec.ofInt 32 v),
          nextPc := BitVec.ofInt 32 outcome.target } := by
    simp only [decision, isOp]
    exact decisionI_outcome computes goesOn inst.rd inst.imm _ _
  cases op with
  | ecall | ebreak =>
      rw [← goes]
      simp only [decision, isOp, target]
      rfl
  | jal | jalr =>
      rw [sized, decided ⟨by rintro ⟨⟩, by rintro ⟨⟩⟩, ← goes]
      simp only [Except.map, Decision.resize, links, isOp, add_eq_ofInt m.pc size]
      rfl
  | lb | lh | lw | lbu | lhu | sb | sh | sw => cases computes
  | _ =>
      rw [sized, decided ⟨by rintro ⟨⟩, by rintro ⟨⟩⟩, ← goes]
      simp only [Except.map, Decision.resize, links, isOp]
      rfl

/-! ## The outcomes -/

/-- What a decision comes to for the hart. -/
def hartOutcome (m : Machine n) (d : Decision) : StepResult × Isa.Hart :=
  (d.result, (m.retire d).hart)

theorem next_hart (m : Machine n) (size : Word) :
    m.pc + size = BitVec.ofInt 32 (m.hart.next size.toNat) :=
  add_eq_ofInt m.pc size

/-- A value for a register, and on. -/
theorem hartOutcome_write (x0 : m.regs 0#5 = 0#32) (rd : Reg) (value : Word) :
    m.hartOutcome (write rd (m.pc + size) value) =
      (.continue, (m.hart.put rd value).goOn (m.hart.next size.toNat)) := by
  have written := retire_x_some (d := write rd (m.pc + size) value) x0 rfl
  exact Prod.ext rfl (Isa.Hart.ext (next_hart m size) written rfl rfl rfl rfl)

/-- Bytes in memory, and on. -/
theorem hartOutcome_store {addr : Word} {bytes : List Byte}
    (inside : addr.toNat + bytes.length ≤ n.bytes) :
    m.hartOutcome { store := some (addr, bytes), nextPc := m.pc + size } =
      (.continue, (m.hart.store addr.toNat bytes).goOn (m.hart.next size.toNat)) := by
  refine Prod.ext rfl ?_
  change (m.retire { store := some (addr, bytes), nextPc := m.pc + size }).hart = _
  rw [retire_store]
  apply Isa.Hart.ext
  case pc => exact next_hart m size
  case memory => exact (overwrite_ofCells m.memory inside).symm
  all_goals rfl

theorem hart_computes (x0 : m.regs 0#5 = 0#32) {op : Rv32i.Opcode} (isOp : inst.op = .i op)
    (computes : op.width = none) :
    Isa.executeI op inst size.toNat m.hart = (decision inst size m).map m.hartOutcome := by
  rw [decision_computes x0 isOp computes]
  simp only [Isa.executeI, computes, hart_x x0, hart_pc, Except.map]
  refine congrArg Except.ok (Prod.ext rfl ?_)
  cases op.result m.pc (m.regs inst.rs1) (m.regs inst.rs2) inst.imm.toInt size.toNat with
  | none => exact Isa.Hart.ext rfl (retire_x_none rfl).symm rfl rfl rfl rfl
  | some v => exact Isa.Hart.ext rfl (retire_x_some x0 rfl).symm rfl rfl rfl rfl

theorem hart_accesses (x0 : m.regs 0#5 = 0#32) {op : Rv32i.Opcode} (isOp : inst.op = .i op)
    {width : Nat} (accesses : op.width = some width) :
    Isa.executeI op inst size.toNat m.hart = (decision inst size m).map m.hartOutcome := by
  have positive : width ≠ 0 := by
    rintro rfl
    cases op <;> cases accesses
  have addr : (((m.regs inst.rs1).toNat + inst.imm.toInt) % (2 ^ 32 : Nat)).toNat =
      (m.regs inst.rs1 + inst.imm).toNat := by
    rw [add_eq_ofInt_signed, BitVec.toNat_ofInt]
  have accessed : dataAccess inst (m.regs inst.rs1) =
      some (m.regs inst.rs1 + inst.imm, width) := by
    simp only [dataAccess, isOp, accesses, Option.map_some]
  simp only [Isa.executeI, accesses, hart_x x0, addr, hart_access m positive]
  cases loaded : m.load width (m.regs inst.rs1 + inst.imm) with
  | error e =>
      rw [(decision_of_access accessed).2 (load_eq_error.1 loaded)]
      rfl
  | ok bytes =>
      obtain ⟨aligned, inside, rfl⟩ := load_eq_ok.1 loaded
      rw [decision_access isOp accesses size aligned inside]
      refine congrArg Except.ok ?_
      dsimp only
      cases op.loaded (ofLeBytes (slice m.memory _ width inside)) with
      | some v => exact (hartOutcome_write x0 _ _).symm
      | none => exact (hartOutcome_store (by rw [length_leBytes]; exact inside)).symm

/-- An atomic instruction, and on. -/
theorem hart_afterAtomic (x0 : m.regs 0#5 = 0#32) (rd : Reg) {addr : Word}
    (inside : addr.toNat + 4 ≤ n.bytes) (outcome : Rv32a.Outcome) :
    (m.afterAtomic rd addr outcome).hart =
      (m.hart.combine rd addr.toNat outcome).goOn (m.hart.next 4) := by
  apply Isa.Hart.ext
  case pc => exact next_hart m 4#32
  case x =>
    have written : (m.afterAtomic rd addr outcome).regs =
        m.setReg rd (BitVec.ofInt 32 outcome.value) := rfl
    exact hart_x_setReg x0 written
  case memory =>
    have stored (v : Int) :
        overwrite (ofCells m.memory) addr.toNat (writeInt 4 (BitVec.ofInt 32 v : Word)) =
          ofCells (patch m.memory addr.toNat (writeInt 4 (BitVec.ofInt 32 v))) :=
      overwrite_ofCells m.memory (by rw [length_writeInt]; exact inside)
    obtain ⟨value, store, reservation⟩ := outcome
    cases store with
    | none => rfl
    | some v => exact (stored v).symm
  all_goals rfl

theorem hart_executeA (x0 : m.regs 0#5 = 0#32) {op : Rv32a.Opcode} (isOp : inst.op = .a op) :
    Isa.executeA op inst 4 m.hart = (decision inst 4#32 m).map m.hartOutcome := by
  have accessed := dataAccess_atomic isOp (m.regs inst.rs1)
  simp only [Isa.executeA, hart_x x0, hart_access m (by decide : 4 ≠ 0)]
  cases loaded : m.load 4 (m.regs inst.rs1) with
  | error e =>
      rw [(decision_of_access accessed).2 (load_eq_error.1 loaded)]
      rfl
  | ok bytes =>
      obtain ⟨aligned, inside, rfl⟩ := load_eq_ok.1 loaded
      obtain ⟨d, decided, goesOn, changes⟩ :=
        decisionA_outcome x0 aligned inside op inst.rd (m.regs inst.rs2)
      have decides : decision inst 4#32 m = .ok d := by
        simp only [decision, isOp]
        exact decided
      rw [decides]
      refine congrArg Except.ok (Prod.ext goesOn.symm ?_)
      change _ = (m.retire d).hart
      rw [changes]
      exact (hart_afterAtomic x0 inst.rd inside _).symm

/-- A value for a register if there is one, another `mscratch`, and on. -/
theorem hartOutcome_csr (x0 : m.regs 0#5 = 0#32) (rd : Reg) (value : Option Word)
    (csrs : Zicsr.Csr) :
    m.hartOutcome { reg := value.map fun v => (rd, v), csrs := some csrs, nextPc := m.pc + size } =
      (.continue, ((value.elim m.hart (m.hart.put rd)).keep csrs.mscratch).goOn
        (m.hart.next size.toNat)) := by
  refine Prod.ext rfl ?_
  cases value with
  | none => exact Isa.Hart.ext (next_hart m size) (retire_x_none rfl) rfl rfl rfl rfl
  | some v => exact Isa.Hart.ext (next_hart m size) (retire_x_some x0 rfl) rfl rfl rfl rfl

/-- **The accesses of a CSR instruction.** -/
theorem hart_executeCsr (x0 : m.regs 0#5 = 0#32) {op : Zicsr.Opcode} (isOp : inst.op = .csr op) :
    Isa.executeCsr op inst size.toNat m.hart = (decision inst size m).map m.hartOutcome := by
  have decides : decision inst size m = decisionCsr op inst.rd inst.rs1 (m.regs inst.rs1)
      inst.csrAddr (m.pc + size) m := by
    simp only [decision, isOp]
  have same : Zicsr.Csr.value { mscratch := m.hart.mscratch } m.hart.cycles inst.csrAddr =
      m.csrs.value m.cycleCount inst.csrAddr := rfl
  rw [decides, decisionCsr, Zicsr.Csr.execute_eq]
  simp only [Isa.executeCsr, same, hart_x x0]
  by_cases unreadable :
      op.reads inst.rd ∧ m.csrs.value m.cycleCount inst.csrAddr = none
  · rw [if_pos unreadable, if_pos (.inl unreadable)]
    rfl
  rw [if_neg unreadable]
  -- what is read, if anything, is there
  have reads : (if op.reads inst.rd then
      m.hart.put inst.rd ((m.csrs.value m.cycleCount inst.csrAddr).getD 0#32) else m.hart) =
      (if op.reads inst.rd then m.csrs.value m.cycleCount inst.csrAddr else none).elim m.hart
        (m.hart.put inst.rd) := by
    by_cases reads : op.reads inst.rd
    · rw [if_pos reads, if_pos reads]
      cases old : m.csrs.value m.cycleCount inst.csrAddr with
      | none => exact absurd ⟨reads, old⟩ unreadable
      | some word => rfl
    · rw [if_neg reads, if_neg reads]
      rfl
  rw [reads]
  by_cases writes : op.writes inst.rs1
  · by_cases scratch : inst.csrAddr = 0x340#12
    · have accepted : ¬(op.reads inst.rd ∧ m.csrs.value m.cycleCount inst.csrAddr = none ∨
          op.writes inst.rs1 ∧ inst.csrAddr ≠ 0x340#12) := by tauto
      have old : (m.csrs.value m.cycleCount inst.csrAddr).getD 0#32 = m.hart.mscratch := by
        rw [scratch]
        rfl
      rw [if_neg accepted, if_pos writes, if_pos writes, if_pos scratch, old]
      exact congrArg Except.ok (hartOutcome_csr x0 inst.rd _ _).symm
    · rw [if_pos (.inr ⟨writes, scratch⟩), if_pos writes, if_neg scratch]
      rfl
  · have accepted : ¬(op.reads inst.rd ∧ m.csrs.value m.cycleCount inst.csrAddr = none ∨
        op.writes inst.rs1 ∧ inst.csrAddr ≠ 0x340#12) := by tauto
    rw [if_neg accepted, if_neg writes, if_neg writes]
    exact congrArg Except.ok (hartOutcome_csr x0 inst.rd _ _).symm

/-- **The architecture allows exactly what the machine decides.** -/
theorem executes_iff (x0 : m.regs 0#5 = 0#32) (full : inst.op.isExtension → size = 4#32)
    {outcome : Except StepError (StepResult × Isa.Hart)} :
    Isa.Executes inst size.toNat m.hart outcome ↔
      outcome = (decision inst size m).map m.hartOutcome := by
  have bits (isBits : inst.op.isBitManipulation = true) :
      (∃ value, inst.op.Defines (m.hart.x inst.rs1) (Isa.secondOperand inst m.hart) value ∧
        outcome = .ok (.continue, (m.hart.put inst.rd value).goOn (m.hart.next size.toNat))) ↔
        outcome = (decision inst size m).map m.hartOutcome := by
    have operand : Isa.secondOperand inst m.hart =
        if inst.op.format = .R then m.regs inst.rs2 else inst.imm := by
      rw [Isa.secondOperand, hart_x x0]
    rw [decision_bits isBits, operand, hart_x x0]
    simp only [Opcode.defines_iff isBits, exists_eq_left, Except.map, hartOutcome_write x0]
  unfold Isa.Executes
  cases isOp : inst.op with
  | i op =>
      cases width : op.width with
      | none => rw [← hart_computes x0 isOp width]
      | some k => rw [← hart_accesses x0 isOp width]
  | m op =>
      have decides : decision inst size m = .ok (write inst.rd (m.pc + size)
          (Rv32m.execute op (m.regs inst.rs1) (m.regs inst.rs2))) := by
        simp only [decision, isOp]
      rw [decides, Rv32m.execute_eq_value]
      simp only [Except.map, hartOutcome_write x0, hart_x x0]
  | a op =>
      have four := full (by rw [isOp]; trivial)
      subst four
      exact Eq.congr_right (hart_executeA x0 isOp)
  | csr op => rw [← hart_executeCsr x0 isOp]
  | zba op | zbb op | zbs op =>
      rw [isOp] at bits
      exact bits rfl

/-! ## Steps -/

/-- The length of the instruction with these bits. -/
theorem toNat_instSize (raw : Word) : (instSize raw).toNat = Isa.lengthOf raw := by
  rw [instSize, isCompressed_eq, Isa.lengthOf]
  by_cases full : raw.toNat % 4 = 3
  · simp [full]
  · simp [full]

/-- The extensions have no compressed instructions. -/
theorem instSize_of_extension {raw : Word} (decoded : decode raw = .ok inst)
    (extension : inst.op.isExtension) : instSize raw = 4#32 := by
  rw [instSize, (entry_of_extension extension decoded).1]
  rfl

/-- **A machine steps as its hart does, and in no other way.** -/
theorem step_isa (m : Machine n) (result : Except StepError StepResult) (h' : Isa.Hart) :
    Isa.Step m.hart result h' ↔
      result = answer (stepWith decode m) ∧ h' = (stateAfter (stepWith decode m)).hart := by
  simp only [stepWith, bind_apply, reads, execute_eq]
  have zero : m.zeroX0.regs 0#5 = 0#32 := zeroX0_regs m 0#5
  cases fetched : m.fetch with
  | error e => exact Isa.step_unfetched (m.hart_fetch.trans fetched)
  | ok raw =>
      have fetches : m.hart.fetch = .ok raw := m.hart_fetch.trans fetched
      dsimp only
      cases decoded : decode raw with
      | error e =>
          cases e
          exact Isa.step_illegal fetches decoded
      | ok inst =>
          have executes (outcome : Except StepError (StepResult × Isa.Hart)) :
              Isa.Executes inst (Isa.lengthOf raw) m.hart outcome ↔
                outcome = (decision inst (instSize raw) m.zeroX0).map m.zeroX0.hartOutcome := by
            rw [← toNat_instSize, ← hart_zeroX0]
            exact executes_iff zero (instSize_of_extension decoded)
          rw [Isa.step_decoded fetches decoded]
          simp only [executes, liftDecode]
          cases decision inst (instSize raw) m.zeroX0 with
          | error e =>
              rw [answer_error, stateAfter_error, hart_zeroX0]
              simp [Except.map]
          | ok d =>
              simp [Except.map, hartOutcome, and_comm]

end Machine

namespace Vm

/-! ## Runs -/

variable {maxCycles : Option Count}

/-- The hart of a VM. -/
def hart (vm : Vm o n) : Isa.Hart := vm.toMachine.hart

theorem hart_limit (vm : Vm o n) :
    limitReached maxCycles vm = true ↔ ∃ l, maxCycles = some l ∧ l ≤ vm.hart.cycles := by
  cases maxCycles with
  | none => simp [limitReached]
  | some l =>
      simp only [limitReached, ge_iff_le, decide_eq_true_iff, Option.some.injEq, exists_eq_left']
      exact Iff.rfl

theorem hart_below (vm : Vm o n) :
    limitReached maxCycles vm = false ↔ ∀ l, maxCycles = some l → vm.hart.cycles < l := by
  rw [← Bool.not_eq_true, hart_limit]
  simp

theorem step_hart (default : o.decode = Determinant.decode) {vm : Vm o n}
    (coherent : Coherent o.decode vm.decodeCache) (result : Except StepError StepResult)
    (h' : Isa.Hart) :
    Isa.Step vm.hart result h' ↔
      result = answer (step vm) ∧ h' = (stateAfter (step vm)).hart := by
  obtain ⟨answers, machines⟩ := step_of_coherent coherent
  rw [default] at answers machines
  rw [hart, Machine.step_isa, answers, hart, machines]

theorem coherent_stepped (default : o.decode = Determinant.decode) {vm : Vm o n}
    (coherent : Coherent o.decode vm.decodeCache) :
    Coherent o.decode (stateAfter (step vm)).decodeCache := by
  refine coherent_step (fun raw inst decoded => ?_) coherent
  rw [default] at decoded
  exact (decode_decoded decoded).raw

/-- Every run of the hart is one of the VM. -/
theorem runs_of_isa (default : o.decode = Determinant.decode) {h h' : Isa.Hart}
    {result : Except StepError StepResult} (runs : Isa.Runs maxCycles h result h') {vm : Vm o n}
    (coherent : Coherent o.decode vm.decodeCache) (start : vm.hart = h) :
    ∃ outcome, Runs maxCycles vm outcome ∧ answer outcome = result ∧
      (stateAfter outcome).hart = h' := by
  induction runs generalizing vm with
  | limit given reached =>
      subst start
      have reached' : limitReached maxCycles vm = true := vm.hart_limit.2 ⟨_, given, reached⟩
      refine ⟨.ok .continue vm, runs_iff.2 ?_, rfl, rfl⟩
      rw [if_pos reached']
  | stops below steps stopped =>
      subst start
      have below' : limitReached maxCycles vm = false := vm.hart_below.2 below
      obtain ⟨rfl, rfl⟩ := (step_hart default coherent _ _).1 steps
      refine ⟨step vm, runs_iff.2 ?_, rfl, rfl⟩
      simp only [below', Bool.false_eq_true, if_false]
      cases stepped : step vm with
      | error e vm' => rfl
      | ok stop vm' =>
          rw [stepped] at stopped
          cases stop with
          | «continue» => exact absurd rfl stopped
          | ecall | ebreak => rfl
  | goesOn below steps onward ih =>
      subst start
      have below' : limitReached maxCycles vm = false := vm.hart_below.2 below
      obtain ⟨answers, rfl⟩ := (step_hart default coherent _ _).1 steps
      obtain ⟨outcome, runs, same⟩ := ih (coherent_stepped default coherent) rfl
      refine ⟨outcome, runs_iff.2 ?_, same⟩
      simp only [below', Bool.false_eq_true, if_false]
      cases stepped : step vm with
      | error e vm' =>
          rw [stepped] at answers
          cases answers
      | ok stop vm' =>
          rw [stepped] at answers runs
          cases answers
          exact runs

section

variable {vm vm' : Vm o n}

theorem runTurn_eq_error {e : StepError} :
    runTurn maxCycles vm = .error e vm' ↔
      limitReached maxCycles vm = false ∧ step vm = .error e vm' := by
  rw [runTurn_apply]
  cases limitReached maxCycles vm with
  | true => simp
  | false => cases step vm <;> simp

theorem runTurn_eq_again :
    runTurn maxCycles vm = .ok none vm' ↔
      limitReached maxCycles vm = false ∧ step vm = .ok .continue vm' := by
  rw [runTurn_apply]
  cases limitReached maxCycles vm with
  | true => simp
  | false => cases step vm <;> simp

theorem runTurn_eq_leave {result : StepResult} :
    runTurn maxCycles vm = .ok (some result) vm' ↔
      limitReached maxCycles vm = true ∧ result = .continue ∧ vm = vm' ∨
        limitReached maxCycles vm = false ∧ result ≠ .continue ∧ step vm = .ok result vm' := by
  rw [runTurn_apply]
  cases limitReached maxCycles vm with
  | true => simp [eq_comm]
  | false =>
      cases step vm with
      | error e t => simp
      | ok stop t =>
          by_cases goesOn : stop = .continue
          · grind
          · grind

end

/-- Every run of the VM is one of its hart. -/
theorem isa_of_runs (default : o.decode = Determinant.decode) {vm : Vm o n}
    (coherent : Coherent o.decode vm.decodeCache) {outcome : Outcome o n StepResult}
    (runs : Runs maxCycles vm outcome) :
    Isa.Runs maxCycles vm.hart (answer outcome) (stateAfter outcome).hart := by
  have loops : Behaviour.Loops (.lift (runTurn maxCycles)) vm outcome := runs_iff_loop.1 runs
  clear runs
  induction loops with
  | @leave vm vm' result left =>
      rcases runTurn_eq_leave.1 left with ⟨reached, rfl, rfl⟩ | ⟨below, stopped, stepped⟩
      · obtain ⟨l, given, reached⟩ := vm.hart_limit.1 reached
        exact .limit given reached
      · have steps := (step_hart default coherent _ _).2 ⟨rfl, rfl⟩
        rw [stepped] at steps
        exact .stops (vm.hart_below.1 below) steps fun same => stopped (Except.ok.inj same)
  | @fail vm vm' e failed =>
      obtain ⟨below, stepped⟩ := runTurn_eq_error.1 failed
      have steps := (step_hart default coherent _ _).2 ⟨rfl, rfl⟩
      rw [stepped] at steps
      exact .stops (vm.hart_below.1 below) steps (by simp)
  | @again vm vm' outcome turn rest ih =>
      obtain ⟨below, stepped⟩ := runTurn_eq_again.1 turn
      have steps := (step_hart default coherent _ _).2 ⟨rfl, rfl⟩
      have coherent' := coherent_stepped default coherent
      rw [stepped] at steps coherent'
      exact .goesOn (vm.hart_below.1 below) steps (ih coherent')

/-- **The VM implements the architecture.** A VM with the default decoder and a coherent cache,
in any state and with a memory of any size, runs as its hart does: an outcome of a run, with the
hart behind it, is one that the architecture allows, and every outcome that the architecture
allows is one of the run. So a run of the VM ends exactly when the run of the hart does. -/
theorem runs_isa (default : o.decode = Determinant.decode) {vm : Vm o n}
    (coherent : Coherent o.decode vm.decodeCache) (maxCycles : Option Count)
    (result : Except StepError StepResult) (h' : Isa.Hart) :
    Isa.Runs maxCycles vm.hart result h' ↔
      ∃ outcome, Runs maxCycles vm outcome ∧ answer outcome = result ∧
        (stateAfter outcome).hart = h' := by
  constructor
  · intro runs
    exact runs_of_isa default runs coherent rfl
  · rintro ⟨outcome, runs, rfl, rfl⟩
    exact isa_of_runs default coherent runs

/-- ADDI x1, x0, 1 and ECALL. -/
theorem runs_isa_counting :
    ∃ h', Isa.Runs none countThenCall.hart (.ok .ecall) h' ∧ h'.x 1#5 = 1#32 ∧ h'.pc = 8#32 := by
  have runs : Runs none countThenCall (.ok .ecall _) := runs_iff_loop.2 (.again rfl (.leave rfl))
  exact ⟨_, (runs_isa rfl (.empty _) none (.ok .ecall) _).2 ⟨_, runs, rfl, rfl⟩, rfl, rfl⟩

end Vm

end Determinant
