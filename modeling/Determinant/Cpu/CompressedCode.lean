import Determinant.Cpu.Effects
import Determinant.Decoders.CompressedForms

/-!
# Compressed code

A compressed instruction has a full-size form with the same opcode and operands, so the two
can only differ by their size. The size is in two places: in the address behind the
instruction, and in the link that JAL and JALR write. `decision_size` says so for every
instruction of the machine, and `execute_size` for the states after it. So a halfword that
decodes executes as some full-size word does (`compressed_equivalent`).
-/

set_option autoImplicit false

namespace Determinant

open Foundations

variable {n : MemSize}

namespace Machine

/-- Where a jump, or a branch that is taken, goes. -/
def target (inst : Instruction) (m : Machine n) : Option Word :=
  let rs1Val := m.readReg inst.rs1
  let rs2Val := m.readReg inst.rs2
  let branch (taken : Bool) : Option Word := if taken then some (m.pc + inst.imm) else none
  match inst.op with
  | .i .beq => branch (rs1Val = rs2Val)
  | .i .bne => branch (rs1Val ≠ rs2Val)
  | .i .blt => branch (rs1Val.slt rs2Val)
  | .i .bge => branch (rs2Val.sle rs1Val)
  | .i .bltu => branch (rs1Val < rs2Val)
  | .i .bgeu => branch (rs1Val ≥ rs2Val)
  | .i .jal => some (m.pc + inst.imm)
  | .i .jalr => some ((rs1Val + inst.imm) &&& 0xFFFFFFFE#32)
  | _ => none

/-- The instructions that write the address behind them to a register. -/
def links (inst : Instruction) : Bool := inst.op = .i .jal ∨ inst.op = .i .jalr

/-- The decision of the same instruction with another size. -/
def Decision.resize (inst : Instruction) (m : Machine n) (size : Word) (d : Decision) : Decision :=
  { d with
    nextPc := (target inst m).getD (m.pc + size)
    reg := if links inst then some (inst.rd, m.pc + size) else d.reg }

/-- **The size of an instruction matters in two places only.** -/
theorem decision_size (inst : Instruction) (m : Machine n) (size size' : Word) :
    decision inst size m.zeroX0 =
      (decision inst size' m.zeroX0).map (Decision.resize inst m size) := by
  obtain ⟨op, rd, rs1, rs2, imm, raw, compressedOp⟩ := inst
  cases op with
  | i op =>
      cases op with
      | beq | bne | blt | bge | bltu | bgeu =>
          simp only [decision, decisionI, Except.map, Decision.resize, links, target, zeroX0_regs]
          split <;> simp_all <;> rfl
      | lb | lbu =>
          simp only [decision, decisionI]
          cases m.zeroX0.readByte _ <;> rfl
      | lh | lhu =>
          simp only [decision, decisionI]
          cases m.zeroX0.readHalfword _ <;> rfl
      | lw =>
          simp only [decision, decisionI]
          cases m.zeroX0.readWord _ <;> rfl
      | sb | sh | sw =>
          simp only [decision, decisionI, storing]
          cases access n _ _ <;> rfl
      | jalr =>
          simp only [decision, decisionI, Except.map, Decision.resize, links, target, zeroX0_regs]
          rfl
      | _ => rfl
  | a op =>
      simp only [decision, decisionA]
      by_cases lr : op = .lrW
      · simp only [lr, dif_pos]
        cases m.zeroX0.readWord _ <;> rfl
      · by_cases sc : op = .scW
        · simp only [sc, reduceCtorEq, dite_false, dite_true]
          cases access n 4 _ with
          | error e => rfl
          | ok _ =>
              simp only [bind, Except.bind]
              split <;> rfl
        · simp only [lr, sc, dite_false]
          cases m.zeroX0.readWord _ <;> rfl
  | csr op =>
      simp only [decision, decisionCsr]
      cases Zicsr.Csr.execute _ _ _ _ _ _ _ <;> rfl
  | m | zba | zbb | zbs => rfl

/-- The bits of an instruction do not matter once it is decoded. -/
theorem decision_congr {inst inst' : Instruction} (op : inst'.op = inst.op)
    (rd : inst'.rd = inst.rd)
    (rs1 : inst'.rs1 = inst.rs1) (rs2 : inst'.rs2 = inst.rs2) (imm : inst'.imm = inst.imm)
    (size : Word) (m : Machine n) : decision inst' size m = decision inst size m := by
  obtain ⟨⟩ := inst
  obtain ⟨⟩ := inst'
  cases op
  cases rd
  cases rs1
  cases rs2
  cases imm
  rfl

/-- The outcomes of an instruction as a halfword and as a word: everything is the same, except
that what is behind the instruction is 2 bytes away or 4, where it goes on there and where
that address is the link. -/
def SameButSize (inst : Instruction) (m : Machine n) :
    EStateM.Result StepError (Machine n) StepResult →
      EStateM.Result StepError (Machine n) StepResult → Prop
  | .ok result m₂, .ok result' m₄ =>
      result = result' ∧ m₂.memory = m₄.memory ∧ m₂.reservation = m₄.reservation ∧
        m₂.csrs = m₄.csrs ∧ m₂.cycleCount = m₄.cycleCount ∧ m₂.stopPc = m₄.stopPc ∧
        m₂.pc = (target inst m).getD (m.pc + 2#32) ∧ m₄.pc = (target inst m).getD (m.pc + 4#32) ∧
        if links inst then
          m₂.regs = (m.writeReg inst.rd (m.pc + 2#32)).regs ∧
            m₄.regs = (m.writeReg inst.rd (m.pc + 4#32)).regs
        else m₂.regs = m₄.regs
  | .error e m₂, .error e' m₄ => e = e' ∧ m₂ = m₄
  | _, _ => False

/-- **An instruction executes the same at both sizes.** -/
theorem execute_size {inst inst' : Instruction} (op : inst'.op = inst.op) (rd : inst'.rd = inst.rd)
    (rs1 : inst'.rs1 = inst.rs1) (rs2 : inst'.rs2 = inst.rs2) (imm : inst'.imm = inst.imm)
    (m : Machine n) : SameButSize inst m (execute inst 2#32 m) (execute inst' 4#32 m) := by
  rw [execute_eq, execute_eq, decision_congr op rd rs1 rs2 imm, decision_size inst m 2#32 0#32,
    decision_size inst m 4#32 0#32]
  cases decision inst 0#32 m.zeroX0 with
  | error e => exact ⟨rfl, rfl⟩
  | ok d =>
      refine ⟨rfl, rfl, rfl, rfl, rfl, rfl, rfl, rfl, ?_⟩
      cases link : links inst with
      | true =>
          simp only [retire, Decision.resize, link, if_true, zeroX0_writeReg, and_self]
      | false =>
          simp only [retire, Decision.resize, link, Bool.false_eq_true, if_false]

end Machine

/-! ## Halfwords and words -/

/-- A halfword that is not the start of a word is decoded as a compressed instruction. -/
theorem decode_half {half : Half} (compressed : half.setWidth 2 ≠ 0b11#2) :
    isCompressed (half.setWidth 32) = true ∧
      decode (half.setWidth 32) = expandCompressed (half.setWidth 32) := by
  have short : isCompressed (half.setWidth 32) = true := by
    rw [isCompressed_iff, BitVec.setWidth_setWidth_of_le half (by decide)]
    exact compressed
  exact ⟨short, if_pos short⟩

/-- **Compressed code behaves like its full-size equivalent.** For every halfword that decodes
as a compressed instruction there is a full-size word that decodes to the same opcode and
operands. From every state the two give the same result, or the same error, and the same
state, except that the halfword goes on and links 2 bytes behind `pc` where the word goes on
and links 4 bytes behind it. -/
theorem compressed_equivalent {half : Half} (compressed : half.setWidth 2 ≠ 0b11#2)
    {inst : Instruction} (accepted : decode (half.setWidth 32) = .ok inst) :
    ∃ w inst', w &&& 0b11#32 = 0b11#32 ∧ decode w = .ok inst' ∧
      inst'.op = inst.op ∧ inst'.rd = inst.rd ∧ inst'.rs1 = inst.rs1 ∧ inst'.rs2 = inst.rs2 ∧
      inst'.imm = inst.imm ∧
      ∀ (n : MemSize) (m : Machine n),
        Machine.SameButSize inst m (Machine.execute inst (Machine.instSize (half.setWidth 32)) m)
          (Machine.execute inst' (Machine.instSize w) m) := by
  obtain ⟨short, expands⟩ := decode_half compressed
  rw [expands] at accepted
  obtain ⟨exp, expanded, same⟩ := bind_eq_ok.1 accepted
  cases same
  obtain ⟨op, _, expandedOp⟩ := bind_eq_ok.1 expanded
  obtain ⟨w, full, decoded⟩ := Rv32c.expandOp_hasWord expandedOp
  refine ⟨w, _, ?_, decoded, rfl, rfl, rfl, rfl, rfl, fun n m => ?_⟩
  · simpa [isCompressed] using full
  · rw [Machine.instSize, Machine.instSize, if_pos short, full]
    exact Machine.execute_size rfl rfl rfl rfl rfl m

/-- C.JALR x5, as JALR x1, 0(x5). -/
theorem compressed_equivalent_jalr :
    ∃ w inst', w &&& 0b11#32 = 0b11#32 ∧ decode w = .ok inst' ∧ inst'.op = .i .jalr ∧
      inst'.rd = 1#5 ∧ inst'.rs1 = 5#5 := by
  have compressed : (0x9282#16 : Half).setWidth 2 ≠ 0b11#2 := by decide
  have accepted : decode ((0x9282#16 : Half).setWidth 32) = .ok _ := rfl
  obtain ⟨w, inst', low, decoded, op, rd, rs1, _⟩ := compressed_equivalent compressed accepted
  exact ⟨w, inst', low, decoded, op, rd, rs1⟩

end Determinant
