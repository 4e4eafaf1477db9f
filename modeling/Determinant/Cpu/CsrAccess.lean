import Determinant.Cpu.Ready
import Determinant.Decoders.ExtensionWords

/-!
# Access to the control and status registers

Whether a CSR instruction reads and whether it writes is a matter of its opcode and of two of
its fields, not of any value. It is refused when it reads a register that is not there or writes
one that cannot be written, and then changes nothing; otherwise everything it computes comes
from the state before it (`Vm.csr_access_exact`).
-/

set_option autoImplicit false

namespace Determinant

open Foundations

variable {n : MemSize} {o : Options}

namespace Zicsr

/-- Whether the register is replaced, and not only some of its bits. -/
def Opcode.swaps : Opcode → Bool
  | .csrrw | .csrrwi => true
  | .csrrs | .csrrc | .csrrsi | .csrrci => false

/-- A replacement without a destination does not read. -/
def Opcode.reads (op : Opcode) (rd : Reg) : Prop := ¬(op.swaps = true ∧ rd = 0#5)

/-- A change of bits with a zero field, which is not a zero value, does not write. -/
def Opcode.writes (op : Opcode) (rs1Field : Reg) : Prop := op.swaps = true ∨ rs1Field ≠ 0#5

instance (op : Opcode) (rd : Reg) : Decidable (op.reads rd) := inferInstanceAs (Decidable (¬_))

instance (op : Opcode) (field : Reg) : Decidable (op.writes field) :=
  inferInstanceAs (Decidable (_ ∨ _))

/-- What is written over the old value. -/
def Opcode.newValue (op : Opcode) (old source : Word) : Word :=
  match op with
  | .csrrw | .csrrwi => source
  | .csrrs | .csrrsi => old ||| source
  | .csrrc | .csrrci => old &&& ~~~source

/-- The numbers of the registers: `cycle`, `instret`, their upper halves, and `mscratch`. -/
def Csr.value (csr : Csr) (cycleCount : Count) (addr : BitVec 12) : Option Word :=
  if addr = 0xC00#12 ∨ addr = 0xC02#12 then some (BitVec.ofNat 32 (cycleCount.toNat % 2 ^ 32))
  else if addr = 0xC80#12 ∨ addr = 0xC82#12 then some (BitVec.ofNat 32 (cycleCount.toNat / 2 ^ 32))
  else if addr = 0x340#12 then some csr.mscratch
  else none

theorem Csr.read_eq (csr : Csr) (cycleCount : Count) (addr : BitVec 12) :
    csr.read cycleCount addr = match csr.value cycleCount addr with
      | some word => .ok word
      | none => .error .illegalInstruction := by
  have low : cycleCount.setWidth 32 = BitVec.ofNat 32 (cycleCount.toNat % 2 ^ 32) := by
    apply BitVec.eq_of_toNat_eq
    simp
  have high : (cycleCount >>> 32).setWidth 32 = BitVec.ofNat 32 (cycleCount.toNat / 2 ^ 32) := by
    apply BitVec.eq_of_toNat_eq
    simp [Nat.shiftRight_eq_div_pow]
  unfold value
  fun_cases Csr.read csr cycleCount addr <;> simp_all

/-- The registers that can be read, and the one that can be written. -/
def readable : List (BitVec 12) := [0xC00#12, 0xC02#12, 0xC80#12, 0xC82#12, 0x340#12]

theorem Csr.value_eq_none_iff (csr : Csr) (cycleCount : Count) (addr : BitVec 12) :
    csr.value cycleCount addr = none ↔ addr ∉ readable := by
  simp only [value, readable, List.mem_cons, List.mem_nil_iff, or_false]
  split_ifs <;> simp only [false_iff, true_iff, not_not] <;> tauto

section

variable {csr : Csr} {op : Opcode} {cycleCount : Count} {addr : BitVec 12} {rd rs1Field : Reg}

/-- The six instructions in one form: read, if the instruction reads, and then write, if it
writes. -/
theorem Csr.execute_eq (source : Word) :
    execute op cycleCount addr source (rd ≠ 0#5) (rs1Field ≠ 0#5) csr =
      if op.reads rd ∧ csr.value cycleCount addr = none then .error .illegalInstruction csr
      else if op.writes rs1Field then
        if addr = 0x340#12 then
          .ok (if op.reads rd then csr.value cycleCount addr else none)
            { csr with mscratch :=
                op.newValue ((csr.value cycleCount addr).getD 0#32) source }
        else .error .illegalInstruction csr
      else .ok (if op.reads rd then csr.value cycleCount addr else none) csr := by
  cases present : csr.value cycleCount addr with
  | none =>
      have absent : csr.read cycleCount addr = .error .illegalInstruction := by
        rw [read_eq, present]
      have other : ¬addr = 0x340#12 := by
        rintro rfl
        cases present
      cases op with
      | csrrw | csrrwi =>
          by_cases discards : rd = 0#5 <;>
            simp [discards, other, absent, Opcode.reads, Opcode.writes, Opcode.swaps, execute,
              bind_apply, map_apply, Foundations.reads, write_apply]
      | csrrs | csrrsi | csrrc | csrrci =>
          simp [absent, Opcode.reads, Opcode.swaps, execute, bind_apply, Foundations.reads]
  | some old =>
      have read : csr.read cycleCount addr = .ok old := by rw [read_eq, present]
      have written (value : Word) (rdVal : Option Word) :
          ((fun _ => rdVal) <$> write addr value) csr =
            if addr = 0x340#12 then .ok rdVal { csr with mscratch := value }
            else .error .illegalInstruction csr := by
        rw [map_apply, write_apply]
        by_cases scratch : addr = 0x340#12 <;> simp [scratch]
      cases op with
      | csrrw | csrrwi =>
          by_cases discards : rd = 0#5 <;>
            simp [discards, read, written, Opcode.reads, Opcode.writes, Opcode.swaps,
              Opcode.newValue, execute, bind_apply, Foundations.reads]
      | csrrs | csrrsi | csrrc | csrrci =>
          by_cases keeps : rs1Field = 0#5 <;>
            simp [keeps, read, written, Opcode.reads, Opcode.writes, Opcode.swaps,
              Opcode.newValue, execute, bind_apply, Foundations.reads]

end

end Zicsr

/-! ## The step -/

namespace Machine

/-- The CSR instruction with these bits is refused. -/
def CsrRefused (op : Zicsr.Opcode) (raw : Word) : Prop :=
  op.reads (Bitfields.rd raw) ∧ Bitfields.funct12 raw ∉ Zicsr.readable ∨
    op.writes (Bitfields.rs1 raw) ∧ Bitfields.funct12 raw ≠ 0x340#12

/-- The machine behind a CSR instruction that is not refused. -/
def afterCsr (m : Machine n) (op : Zicsr.Opcode) (raw : Word) : Machine n :=
  let rd := Bitfields.rd raw
  let rs1 := Bitfields.rs1 raw
  let old := (m.csrs.value m.cycleCount (Bitfields.funct12 raw)).getD 0#32
  { m with
    pc := m.pc + 4#32
    cycleCount := m.cycleCount + 1
    regs := if op.reads rd then m.setReg rd old else m.regs
    csrs :=
      if op.writes rs1 then
        { mscratch := op.newValue m.csrs.mscratch (csrSrcVal op rs1 (m.regs rs1)) }
      else m.csrs }

theorem decisionCsr_refused {op : Zicsr.Opcode} {raw : Word} (refused : CsrRefused op raw)
    (rs1Val next : Word) (m : Machine n) :
    decisionCsr op (Bitfields.rd raw) (Bitfields.rs1 raw) rs1Val (Bitfields.funct12 raw) next m =
      .error .illegalInstruction := by
  rw [decisionCsr, Zicsr.Csr.execute_eq]
  simp only [Zicsr.Csr.value_eq_none_iff]
  rcases refused with unreadable | ⟨writes, other⟩
  · rw [if_pos unreadable]
    rfl
  · split_ifs
    all_goals rfl

theorem decisionCsr_accepted {op : Zicsr.Opcode} {raw : Word} (accepted : ¬CsrRefused op raw)
    (rs1Val next : Word) (m : Machine n) :
    decisionCsr op (Bitfields.rd raw) (Bitfields.rs1 raw) rs1Val (Bitfields.funct12 raw) next m =
      .ok { reg := if op.reads (Bitfields.rd raw) then
              some (Bitfields.rd raw,
                (m.csrs.value m.cycleCount (Bitfields.funct12 raw)).getD 0#32)
              else none,
            csrs := some (if op.writes (Bitfields.rs1 raw) then
              { mscratch := op.newValue m.csrs.mscratch
                  (csrSrcVal op (Bitfields.rs1 raw) rs1Val) }
              else m.csrs),
            nextPc := next } := by
  obtain ⟨readable, writable⟩ := not_or.1 accepted
  rw [decisionCsr, Zicsr.Csr.execute_eq, if_neg]
  · have register : (if op.reads (Bitfields.rd raw) then
        m.csrs.value m.cycleCount (Bitfields.funct12 raw) else none).map
          (fun value => (Bitfields.rd raw, value)) =
        if op.reads (Bitfields.rd raw) then
          some (Bitfields.rd raw,
            (m.csrs.value m.cycleCount (Bitfields.funct12 raw)).getD 0#32)
        else none := by
      by_cases reads : op.reads (Bitfields.rd raw)
      · cases present : m.csrs.value m.cycleCount (Bitfields.funct12 raw) with
        | none => exact absurd ⟨reads, (Zicsr.Csr.value_eq_none_iff ..).1 present⟩ readable
        | some old => simp [reads]
      · simp [reads]
    by_cases writes : op.writes (Bitfields.rs1 raw)
    · have scratch : Bitfields.funct12 raw = 0x340#12 := by
        by_contra other
        exact writable ⟨writes, other⟩
      have old : (m.csrs.value m.cycleCount (Bitfields.funct12 raw)).getD 0#32 =
          m.csrs.mscratch := by
        rw [scratch]
        rfl
      simp only [if_pos writes, if_pos scratch, old, register]
    · simp only [if_neg writes, register]
  · rwa [Zicsr.Csr.value_eq_none_iff]

/-- The number of the register comes through the sign-extended immediate. -/
theorem csrAddr_immI (raw : Word) : (Bitfields.immI raw).setWidth 12 = Bitfields.funct12 raw := by
  have piece := Registry.piece_immI raw
  rwa [field_zero] at piece

end Machine

namespace Vm

variable {vm : Vm o n} {raw : Word} {inst : Instruction} {op : Zicsr.Opcode}

/-- **CSR instructions follow the access rules.** A VM whose next word decodes to a CSR
instruction, whatever the register numbers and the immediate and whatever the registers and the
counter hold, stops with an illegal instruction exactly when the instruction reads a register
other than the counters and `mscratch`, or writes one other than `mscratch`; nothing has changed
then. Otherwise `rd`, when the instruction reads and it is not x0, has the old value, `mscratch`,
when the instruction writes, has the new one, both from the state before the step, and nothing
else but `pc` and the cycle counter has changed. -/
theorem csr_access_exact (standard : o.decode = decode)
    (coherent : Coherent o.decode vm.decodeCache)
    (x0 : vm.regs 0#5 = 0#32) (fetched : vm.fetch = .ok raw) (decoded : decode raw = .ok inst)
    (isOp : inst.op = .csr op) :
    (answer (step vm) = .error .illegalInstruction ↔ Machine.CsrRefused op raw) ∧
      (Machine.CsrRefused op raw → (stateAfter (step vm)).toMachine = vm.toMachine) ∧
      (¬Machine.CsrRefused op raw → answer (step vm) = .ok .continue ∧
        (stateAfter (step vm)).toMachine = vm.afterCsr op raw) := by
  have ready : vm.Ready raw inst := ⟨coherent, fetched, standard ▸ decoded⟩
  obtain ⟨full, same⟩ := csr_word isOp decoded
  have decides : Machine.decision inst (Machine.instSize raw) vm.toMachine =
      Machine.decisionCsr op (Bitfields.rd raw) (Bitfields.rs1 raw) (vm.regs (Bitfields.rs1 raw))
        (Bitfields.funct12 raw) (vm.pc + Machine.instSize raw) vm.toMachine := by
    rw [isOp] at same
    rw [same]
    simp only [Machine.decision, immInstruction, Instruction.csrAddr, Instruction.immUnsigned,
      Machine.csrAddr_immI]
  have refuses (refused : Machine.CsrRefused op raw) :=
    ready.refused_zero x0 (decides.trans (Machine.decisionCsr_refused refused _ _ _))
  have retires (accepted : ¬Machine.CsrRefused op raw) :
      answer (step vm) = .ok .continue ∧
        (stateAfter (step vm)).toMachine = vm.afterCsr op raw := by
    obtain ⟨answers, changes⟩ :=
      ready.retires_zero x0 (decides.trans (Machine.decisionCsr_accepted accepted _ _ _))
    have size : Machine.instSize raw = 4#32 := by simp [Machine.instSize, full]
    refine ⟨answers, changes.trans ?_⟩
    apply Machine.ext
    case pc => exact congrArg (vm.pc + ·) size
    case regs =>
      simp only [Machine.retire, Machine.afterCsr]
      by_cases reads : op.reads (Bitfields.rd raw)
      · simp only [if_pos reads]
        exact Machine.writeReg_regs x0 _ _
      · simp only [if_neg reads]
    all_goals rfl
  refine ⟨⟨fun illegal => ?_, fun refused => (refuses refused).1⟩,
    fun refused => (refuses refused).2, retires⟩
  by_contra accepted
  rw [(retires accepted).1] at illegal
  cases illegal

/-- CSRRS x1, cycle, x0 with 2^32 + 5 in the cycle counter. -/
def readCycle : Vm Options.uncached .four :=
  { (reset : Vm Options.uncached .four) with
    cycleCount := 0x100000005#64
    memory := patch (fun _ => 0#8) 0 (writeInt 4 (encodeCsr 0b010#3 1#5 0#5 0xC00#12)) }

theorem csr_access_exact_cycle : (stateAfter (step readCycle)).regs 1#5 = 5#32 := by
  have fetched : readCycle.fetch = .ok (encodeCsr 0b010#3 1#5 0#5 0xC00#12) := rfl
  have decoded : decode (encodeCsr 0b010#3 1#5 0#5 0xC00#12) =
      .ok (immInstruction (.csr .csrrs) (encodeCsr 0b010#3 1#5 0#5 0xC00#12) 0xFFFFFC00#32) := rfl
  obtain ⟨_, _, retires⟩ := csr_access_exact rfl (.empty _) rfl fetched decoded rfl
  rw [(retires (by unfold Machine.CsrRefused; decide)).2]
  decide

end Vm

end Determinant
