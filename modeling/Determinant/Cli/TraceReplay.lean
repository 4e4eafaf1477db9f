import Determinant.Cli.TraceInvisible
import Determinant.Cli.TraceLine
import Determinant.Cpu.Accesses
import Determinant.Foundations.WriteLogs

/-!
# Replaying a trace

The trace is replayed by writing, line by line, what its reader takes from the line. An
instruction writes at most one register, or it stores, and its format says which: so its line
names everything that it changed. The atomic instructions are the exception. They are of the
format R, and their lines name the register only, though an SC.W and an AMO store a word too
(`ChangesWord`). A line names what its instruction changed exactly when the instruction is not
an atomic one that changes a word, and a run without those is reproduced by its trace
(`trace_records`).
-/

set_option autoImplicit false

namespace Determinant

open Foundations Report

variable {n : MemSize} {o : Options}

/-- The x registers, as they are read, and the memory. -/
@[ext]
structure Contents (n : MemSize) where
  regs : Reg → Word
  memory : Fin n.bytes → Byte

def Machine.contents (m : Machine n) : Contents n := { regs := m.readReg, memory := m.memory }

/-- Write what a line of the trace names. -/
def Contents.replayLine (c : Contents n) (line : List Byte) : Contents n :=
  match readTraceLine line with
  | some (.register reg value) => { c with regs := Function.update c.regs reg value }
  | some (.memory addr bytes) => { c with memory := patch c.memory addr.toNat bytes }
  | none => c

def Contents.replay (c : Contents n) (lines : List (List Byte)) : Contents n :=
  lines.foldl replayLine c

/-- The line names every x register and every location in memory that are not as before, with
the values they have now. -/
structure NamesChanges (line : List Byte) (m m' : Machine n) : Prop where
  registers : ∀ reg, m'.readReg reg ≠ m.readReg reg →
    readTraceLine line = some (.register reg (m'.readReg reg))
  memory : ∀ i, m'.memory i ≠ m.memory i →
    ∃ addr bytes, readTraceLine line = some (.memory addr bytes) ∧
      written (addr.toNat, bytes) i.val = some (m'.memory i)

namespace Machine

/-- The instruction is an SC.W that holds its reservation and stores another word than there is
at the address, or an AMO whose result is another word than the one it reads. -/
def ChangesWord (inst : Instruction) (m : Machine n) : Prop :=
  ∃ op, inst.op = .a op ∧
    (op = .scW ∧ m.reservation = some (m.readReg inst.rs1) ∧
        m.readWord (m.readReg inst.rs1) ≠ .ok (m.readReg inst.rs2) ∨
      ∃ (amo : op.isAmo) (old : Word), m.readWord (m.readReg inst.rs1) = .ok old ∧
        Rv32a.execute op amo old (m.readReg inst.rs2) ≠ old)

/-! ## What a decision writes -/

section

variable {m : Machine n} {inst : Instruction} {instSize : Word} {d : Decision}

theorem readReg_retire_none (unwritten : d.reg = none) :
    (m.zeroX0.retire d).readReg = m.readReg := by
  funext reg
  have regs : (m.zeroX0.retire d).regs = m.zeroX0.regs := by simp only [retire, unwritten]
  by_cases zero : reg = 0#5
  · simp only [readReg, if_pos zero]
  · rw [readReg, if_neg zero, regs, zeroX0_regs]

theorem readReg_retire_some {rd : Reg} {value : Word} (written : d.reg = some (rd, value)) :
    (m.zeroX0.retire d).readReg =
      if rd = 0#5 then m.readReg else Function.update m.readReg rd value := by
  have regs : (m.zeroX0.retire d).regs = (m.writeReg rd value).regs := by
    simp only [retire, written, zeroX0_writeReg]
  funext reg
  by_cases zero : reg = 0#5
  · subst zero
    by_cases discarded : rd = 0#5
    · rw [if_pos discarded]
      rfl
    · rw [if_neg discarded, Function.update_of_ne (Ne.symm discarded)]
      rfl
  · have value : (m.zeroX0.retire d).readReg reg = Function.update m.regs rd value reg := by
      rw [readReg, if_neg zero, regs]
      exact Function.update_of_ne zero _ _
    rw [value]
    by_cases same : reg = rd
    · subst same
      rw [if_neg zero, Function.update_self, Function.update_self]
    · rw [Function.update_of_ne same]
      by_cases discarded : rd = 0#5
      · rw [if_pos discarded, readReg, if_neg zero]
      · rw [if_neg discarded, Function.update_of_ne same, readReg, if_neg zero]

/-- A store writes what its line shows. -/
theorem decision_of_S (format : inst.op.format = .S)
    (decided : decision inst instSize m.zeroX0 = .ok d) :
    d.reg = none ∧ d.store = some (m.readReg inst.rs1 + inst.imm,
      shownBytes inst.op (m.readReg inst.rs2)) := by
  obtain ⟨op, rd, rs1, rs2, imm, raw, compressedOp⟩ := inst
  cases op with
  | i op =>
      cases op with
      | sb =>
          simp only [decision, decisionI, zeroX0_regs, ← writeInt_byte] at decided
          obtain ⟨_, _, rest⟩ := bind_eq_ok.1 decided
          cases rest
          exact ⟨rfl, rfl⟩
      | sh | sw =>
          simp only [decision, decisionI, zeroX0_regs] at decided
          obtain ⟨_, _, rest⟩ := bind_eq_ok.1 decided
          cases rest
          exact ⟨rfl, rfl⟩
      | _ => cases format
  | zbb op => cases op <;> cases format
  | zbs op => cases op <;> cases format
  | m | a | csr | zba => cases format

theorem decision_of_B (format : inst.op.format = .B)
    (decided : decision inst instSize m.zeroX0 = .ok d) : d.reg = none ∧ d.store = none := by
  obtain ⟨op, rd, rs1, rs2, imm, raw, compressedOp⟩ := inst
  cases op with
  | i op =>
      cases op with
      | beq | bne | blt | bge | bltu | bgeu =>
          cases decided
          exact ⟨rfl, rfl⟩
      | _ => cases format
  | zbb op => cases op <;> cases format
  | zbs op => cases op <;> cases format
  | m | a | csr | zba => cases format

/-- No other instruction stores, unless it is atomic; and if it writes a register then `rd`. -/
theorem decision_of_other (notAtomic : ∀ op, inst.op ≠ .a op) (notStore : inst.op.format ≠ .S)
    (decided : decision inst instSize m.zeroX0 = .ok d) :
    d.store = none ∧ (d.reg = none ∨ ∃ value, d.reg = some (inst.rd, value)) := by
  obtain ⟨op, rd, rs1, rs2, imm, raw, compressedOp⟩ := inst
  cases op with
  | i op =>
      cases op with
      | sb | sh | sw => exact absurd rfl notStore
      | lb | lbu | lh | lhu | lw =>
          obtain ⟨_, _, rest⟩ := bind_eq_ok.1 decided
          cases rest
          exact ⟨rfl, .inr ⟨_, rfl⟩⟩
      | beq | bne | blt | bge | bltu | bgeu | fence | fenceI | ecall | ebreak =>
          cases decided
          exact ⟨rfl, .inl rfl⟩
      | _ =>
          cases decided
          exact ⟨rfl, .inr ⟨_, rfl⟩⟩
  | a op => exact absurd rfl (notAtomic op)
  | csr op =>
      simp only [decision, decisionCsr] at decided
      split at decided
      · rename_i value _ _
        cases decided
        cases value with
        | none => exact ⟨rfl, .inl rfl⟩
        | some value => exact ⟨rfl, .inr ⟨value, rfl⟩⟩
      · cases decided
  | m op | zba op | zbb op | zbs op =>
      cases decided
      exact ⟨rfl, .inr ⟨_, rfl⟩⟩

theorem readWord_of_access {addr : Word} (permitted : access n 4 addr = .ok ()) :
    ∃ old, m.readWord addr = .ok old := by
  obtain ⟨aligned, inside⟩ := access_eq_ok.1 permitted
  rw [readWord_eq, load_eq_ok.2 ⟨aligned, inside, rfl⟩]
  exact ⟨_, rfl⟩

/-- An atomic instruction writes `rd`, and perhaps the word at its address. -/
theorem decision_of_atomic {op : Rv32a.Opcode} (atomic : inst.op = .a op)
    (decided : decision inst instSize m.zeroX0 = .ok d) :
    (∃ value, d.reg = some (inst.rd, value)) ∧
      (d.store = none ∧ ¬ChangesWord inst m ∨
        ∃ word old, d.store = some (m.readReg inst.rs1, writeInt 4 word) ∧
          m.readWord (m.readReg inst.rs1) = .ok old ∧ (ChangesWord inst m ↔ old ≠ word)) := by
  obtain ⟨op', rd, rs1, rs2, imm, raw, compressedOp⟩ := inst
  cases atomic
  have sameWord : m.zeroX0.readWord = m.readWord := rfl
  have sameReservation : m.zeroX0.reservation = m.reservation := rfl
  simp only [decision, decisionA, zeroX0_regs, sameWord, sameReservation] at decided
  split at decided
  · rename_i lr
    obtain ⟨_, _, rest⟩ := bind_eq_ok.1 decided
    cases rest
    refine ⟨⟨_, rfl⟩, .inl ⟨rfl, ?_⟩⟩
    rintro ⟨op, ⟨⟩, ⟨sc, _⟩ | ⟨amo, _⟩⟩
    · exact absurd (lr.symm.trans sc) (by decide)
    · exact amo.1 lr
  · split at decided
    · rename_i sc
      obtain ⟨_, permitted, rest⟩ := bind_eq_ok.1 decided
      split at rest
      · rename_i reserved
        cases rest
        obtain ⟨old, read⟩ := readWord_of_access permitted
        refine ⟨⟨_, rfl⟩, .inr ⟨_, old, rfl, read, ?_⟩⟩
        constructor
        · rintro ⟨op, ⟨⟩, ⟨_, _, other⟩ | ⟨amo, _⟩⟩
          · exact fun same => other (same ▸ read)
          · exact absurd sc amo.2
        · intro other
          exact ⟨op, rfl, .inl ⟨sc, reserved, fun same => other (Except.ok.inj (read ▸ same))⟩⟩
      · rename_i unreserved
        cases rest
        refine ⟨⟨_, rfl⟩, .inl ⟨rfl, ?_⟩⟩
        rintro ⟨op, ⟨⟩, ⟨_, reserved, _⟩ | ⟨amo, _⟩⟩
        · exact unreserved reserved
        · exact amo.2 sc
    · rename_i lr sc
      obtain ⟨old, read, rest⟩ := bind_eq_ok.1 decided
      cases rest
      refine ⟨⟨_, rfl⟩, .inr ⟨_, old, rfl, read, ?_⟩⟩
      constructor
      · rintro ⟨op, ⟨⟩, ⟨isSc, _⟩ | ⟨amo, old', read', other⟩⟩
        · exact absurd isSc sc
        · cases read.symm.trans read'
          exact other.symm
      · exact fun other => ⟨op, rfl, .inr ⟨⟨lr, sc⟩, old, read, other.symm⟩⟩

/-- Writing a word changes nothing exactly when it is the word that is there. -/
theorem patch_word_eq {addr word old : Word} (read : m.readWord addr = .ok old) :
    patch m.memory addr.toNat (writeInt 4 word) = m.memory ↔ old = word := by
  rw [readWord_eq] at read
  cases loaded : m.load 4 addr with
  | error e =>
      rw [loaded] at read
      cases read
  | ok bytes =>
      rw [loaded] at read
      cases read
      obtain ⟨_, inside, rfl⟩ := load_eq_ok.1 loaded
      constructor
      · intro unchanged
        have stored := slice_patch_field m.memory addr.toNat (length_writeInt 4 word) inside
        rw [unchanged] at stored
        rw [stored, readInt_writeInt (by decide)]
      · rintro rfl
        rw [writeInt_readInt (by decide) (length_slice ..), patch_slice_self]

end

end Machine

/-! ## A line and its instruction -/

section

variable {m m' : Machine n} {line : List Byte}

/-- A line that replays the changes names them. -/
theorem NamesChanges.of_replay (replays : m.contents.replayLine line = m'.contents) :
    NamesChanges line m m' := by
  have regs := congrArg Contents.regs replays
  have memory := congrArg Contents.memory replays
  unfold Contents.replayLine at regs memory
  cases read : readTraceLine line with
  | none =>
      rw [read] at regs memory
      exact ⟨fun reg changed => absurd (congrFun regs reg).symm changed,
        fun i changed => absurd (congrFun memory i).symm changed⟩
  | some note =>
      rw [read] at regs memory
      cases note with
      | register rd value =>
          refine ⟨fun reg changed => ?_, fun i changed => absurd (congrFun memory i).symm changed⟩
          have now : Function.update m.readReg rd value reg = m'.readReg reg := congrFun regs reg
          by_cases same : reg = rd
          · subst same
            rw [Function.update_self] at now
            rw [read, now]
          · rw [Function.update_of_ne same] at now
            exact absurd now.symm changed
      | memory addr bytes =>
          refine ⟨fun reg changed => absurd (congrFun regs reg).symm changed, fun i changed => ?_⟩
          have now : patch m.memory addr.toNat bytes i = m'.memory i := congrFun memory i
          rw [patch_apply] at now
          refine ⟨addr, bytes, read, ?_⟩
          cases put : written (addr.toNat, bytes) i.val with
          | some x =>
              rw [put] at now
              exact congrArg some now
          | none =>
              rw [put] at now
              exact absurd now.symm changed

variable {raw instSize : Word} {inst : Instruction} {d : Machine.Decision}

/-- What a line says of an instruction that stores nothing, or nothing new, and writes `rd` if
it writes a register. -/
theorem replay_register (decoded : decode raw = .ok inst) (notStore : inst.op.format ≠ .S)
    (notBranch : inst.op.format ≠ .B) (after : m' = m.zeroX0.retire d)
    (reg : d.reg = none ∨ ∃ value, d.reg = some (inst.rd, value)) (memory : m'.memory = m.memory)
    (cycle : Count) (pc : Word) :
    m.contents.replayLine (printTraceLine cycle pc raw m') = m'.contents := by
  have note : noted raw m' =
      if inst.rd ≠ 0#5 then some (.register inst.rd (m'.readReg inst.rd)) else none := by
    simp only [noted, decoded]
  have regs : (if inst.rd ≠ 0#5 then Function.update m.readReg inst.rd (m'.readReg inst.rd)
      else m.readReg) = m'.readReg := by
    subst after
    rcases reg with unwritten | ⟨value, written⟩
    · rw [Machine.readReg_retire_none unwritten, Function.update_eq_self, ite_self]
    · rw [Machine.readReg_retire_some written]
      by_cases zero : inst.rd = 0#5
      · rw [if_neg (not_not.2 zero), if_pos zero]
      · rw [if_pos zero, if_neg zero, Function.update_self]
  rw [Contents.replayLine, readTraceLine_printTraceLine, note]
  by_cases zero : inst.rd = 0#5
  · rw [if_neg (not_not.2 zero)] at regs ⊢
    exact Contents.ext regs memory.symm
  · rw [if_pos zero] at regs ⊢
    exact Contents.ext regs memory.symm

/-- **The line of an instruction replays it**, unless it is an atomic one that changes a word. -/
theorem replayLine_printTraceLine (decoded : decode raw = .ok inst)
    (decided : Machine.decision inst instSize m.zeroX0 = .ok d) (after : m' = m.zeroX0.retire d)
    (quiet : ¬Machine.ChangesWord inst m) (cycle : Count) (pc : Word) :
    m.contents.replayLine (printTraceLine cycle pc raw m') = m'.contents := by
  by_cases atomic : ∃ op, inst.op = .a op
  · obtain ⟨op, atomic⟩ := atomic
    have format : inst.op.format = .R := by rw [atomic]; rfl
    obtain ⟨reg, stored⟩ := Machine.decision_of_atomic atomic decided
    refine replay_register decoded (by rw [format]; decide) (by rw [format]; decide) after
      (.inr reg) ?_ cycle pc
    rcases stored with ⟨nothing, _⟩ | ⟨word, old, stored, read, changes⟩
    · rw [after, Machine.retire, nothing]
      rfl
    · rw [after, Machine.retire, stored]
      exact (Machine.patch_word_eq read).2 (not_not.1 (mt changes.2 quiet))
  · have notAtomic : ∀ op, inst.op ≠ .a op := fun op same => atomic ⟨op, same⟩
    cases format : inst.op.format with
    | S =>
        obtain ⟨unwritten, stored⟩ := Machine.decision_of_S format decided
        have regs : m'.readReg = m.readReg := by rw [after, Machine.readReg_retire_none unwritten]
        have memory : m'.memory = patch m.memory (m.readReg inst.rs1 + inst.imm).toNat
            (shownBytes inst.op (m.readReg inst.rs2)) := by
          rw [after, Machine.retire, stored]
          rfl
        have note : noted raw m' = some (.memory (m.readReg inst.rs1 + inst.imm)
            (shownBytes inst.op (m.readReg inst.rs2))) := by
          simp only [noted, decoded, format, regs, Instruction.immUnsigned]
        rw [Contents.replayLine, readTraceLine_printTraceLine, note]
        exact Contents.ext regs.symm memory.symm
    | B =>
        obtain ⟨unwritten, nothing⟩ := Machine.decision_of_B format decided
        have regs : m'.readReg = m.readReg := by rw [after, Machine.readReg_retire_none unwritten]
        have memory : m'.memory = m.memory := by
          rw [after, Machine.retire, nothing]
          rfl
        have note : noted raw m' = none := by simp only [noted, decoded, format]
        rw [Contents.replayLine, readTraceLine_printTraceLine, note]
        exact Contents.ext regs.symm memory.symm
    | R | I | U | J =>
        have notStore : inst.op.format ≠ .S := by rw [format]; decide
        have notBranch : inst.op.format ≠ .B := by rw [format]; decide
        obtain ⟨nothing, reg⟩ := Machine.decision_of_other notAtomic notStore decided
        refine replay_register decoded notStore notBranch after reg ?_ cycle pc
        rw [after, Machine.retire, nothing]
        rfl

/-- The line of an atomic instruction that changes a word does not name it. -/
theorem not_namesChanges (decoded : decode raw = .ok inst)
    (decided : Machine.decision inst instSize m.zeroX0 = .ok d) (after : m' = m.zeroX0.retire d)
    (changes : Machine.ChangesWord inst m) (cycle : Count) (pc : Word) :
    ¬NamesChanges (printTraceLine cycle pc raw m') m m' := by
  intro names
  obtain ⟨op, atomic, _⟩ := id changes
  have format : inst.op.format = .R := by rw [atomic]; rfl
  obtain ⟨_, stored⟩ := Machine.decision_of_atomic atomic decided
  obtain ⟨word, old, stored, there, other⟩ :=
    stored.resolve_left fun nothing => nothing.2 changes
  have memory : m'.memory ≠ m.memory := by
    intro same
    rw [after, Machine.retire, stored] at same
    exact other.1 changes ((Machine.patch_word_eq there).1 same)
  obtain ⟨i, changed⟩ := Function.ne_iff.1 memory
  obtain ⟨addr, bytes, read, _⟩ := names.memory i changed
  rw [readTraceLine_printTraceLine] at read
  simp only [noted, decoded, format] at read
  split at read <;> cases read

end

/-! ## Steps and runs -/

namespace Cli

/-- A step that does not fail makes the changes decided for the instruction of its bits. -/
theorem step_retires {vm vm' : Vm o n} (standard : o.decode = decode)
    (coherent : Coherent o.decode vm.decodeCache) {raw : Word} (fetched : vm.fetch = .ok raw)
    {result : StepResult} (stepped : Vm.step vm = .ok result vm') :
    ∃ inst d, decode raw = .ok inst ∧
      Machine.decision inst (Machine.instSize raw) vm.toMachine.zeroX0 = .ok d ∧
      vm'.toMachine = vm.toMachine.zeroX0.retire d := by
  obtain ⟨answers, machines⟩ := Vm.step_of_coherent coherent
  rw [stepped, standard] at answers machines
  cases outcome : Machine.stepWith decode vm.toMachine with
  | error e m =>
      rw [outcome] at answers
      cases answers
  | ok result' m =>
      rw [outcome] at machines
      obtain ⟨raw', inst, d, retires, _, rfl⟩ := Machine.stepWith_eq_ok.1 outcome
      cases fetched.symm.trans retires.fetched
      exact ⟨inst, d, retires.decoded, retires.decided, machines⟩

theorem coherent_traced {vm vm' : Vm o n} (standard : o.decode = decode)
    (coherent : Coherent o.decode vm.decodeCache) {lines : List (List Byte)} {result : StepResult}
    (traced : Traced vm lines result vm') : Coherent o.decode vm'.decodeCache := by
  have faithful : ∀ raw inst, o.decode raw = .ok inst → inst.raw = raw := by
    rw [standard]
    exact fun _ _ decoded => (decode_decoded decoded).raw
  induction traced with
  | zero => exact coherent
  | succ _ _ stepped ih =>
      have next := Vm.coherent_step faithful ih
      rwa [stepped] at next

/-- No instruction of the first `count` steps is an atomic one that changes a word. -/
def Quiet (vm : Vm o n) (count : Nat) : Prop :=
  ∀ k < count, ∀ vm' raw inst, Vm.Steps k vm .continue vm' → vm'.fetch = .ok raw →
    decode raw = .ok inst → ¬vm'.toMachine.ChangesWord inst

/-- **A run without atomic instructions that change a word is reproduced by its lines**, by
induction on the run. -/
theorem replay_traced {vm vm' : Vm o n} (standard : o.decode = decode)
    (coherent : Coherent o.decode vm.decodeCache) {lines : List (List Byte)} {result : StepResult}
    (traced : Traced vm lines result vm') (quiet : Quiet vm lines.length) :
    vm.toMachine.contents.replay lines = vm'.toMachine.contents := by
  induction traced with
  | zero => rfl
  | succ traced fetched stepped ih =>
      have before := coherent_traced standard coherent traced
      rw [List.length_append] at quiet
      have earlier := ih fun k small => quiet k (Nat.lt_succ_of_lt small)
      obtain ⟨inst, d, decoded, decided, after⟩ := step_retires standard before fetched stepped
      have now := quiet _ (Nat.lt_succ_self _) _ _ _ traced.steps fetched decoded
      have replayed := replayLine_printTraceLine decoded decided after now
      rw [Contents.replay, List.foldl_append] at *
      rw [earlier]
      exact replayed _ _

/-- **What a trace records.** The line of an instruction that retires names every x register and
every location in memory that it changed, exactly when it is not an atomic instruction that
changes a word. Replaying the lines of a run in which no step is one reproduces the registers and
the memory after it, and so after every step of it. The lines are those that the trace prints,
however long the run is: up to the VM that it ends with, or to the one whose step fails. -/
theorem trace_records (standard : o.decode = decode) {vm : Vm o n}
    (coherent : Coherent o.decode vm.decodeCache) :
    (∀ raw inst result vm', vm.fetch = .ok raw → decode raw = .ok inst →
        Vm.step vm = .ok result vm' →
        (NamesChanges (printTraceLine vm.cycleCount vm.pc raw vm'.toMachine) vm.toMachine
            vm'.toMachine ↔ ¬vm.toMachine.ChangesWord inst)) ∧
      (∀ lines result vm', Traced vm lines result vm' → Quiet vm lines.length →
        vm.toMachine.contents.replay lines = vm'.toMachine.contents) ∧
      ∀ (s : Session o n) maxCycles r, s.vm = vm → traceRun maxCycles s r →
        match r with
        | .ok result t =>
            ∃ lines, Traced vm lines result t.vm ∧ t = { s.printLines lines with vm := t.vm }
        | .error e t =>
            ∃ lines vm', Traced vm lines .continue vm' ∧ Vm.step vm' = .error e t.vm ∧
              t = { s.printLines lines with vm := t.vm } := by
  refine ⟨?_, ?_, ?_⟩
  · intro raw inst result vm' fetched decoded stepped
    obtain ⟨inst', d, decoded', decided, after⟩ := step_retires standard coherent fetched stepped
    cases decoded.symm.trans decoded'
    constructor
    · intro names changes
      exact not_namesChanges decoded decided after changes _ _ names
    · intro quiet
      exact .of_replay (replayLine_printTraceLine decoded decided after quiet _ _)
  · intro lines result vm' traced quiet
    exact replay_traced standard coherent traced quiet
  · rintro s maxCycles r rfl runs
    have printed := traceRun_lines maxCycles s rfl runs
    cases r with
    | ok result t => exact printed
    | error e t => exact printed

/-- A VM at an instruction, with 1 in x5 and the address 4 in x10. -/
def atInstruction (raw : Word) : Vm Options.uncached .eight :=
  { (Vm.reset : Vm Options.uncached .eight) with
    regs := fun reg => if reg = 5#5 then 1#32 else if reg = 10#5 then 4#32 else 0#32
    memory := patch (fun _ => 0#8) 0 (writeInt 4 raw) }

/-- The line of SW x5, 0(x10) names the word. -/
theorem trace_records_sw :
    NamesChanges
      (printTraceLine 0#64 0#32 0x00552023#32
        (stateAfter (Vm.step (atInstruction 0x00552023#32))).toMachine)
      (atInstruction 0x00552023#32).toMachine
      (stateAfter (Vm.step (atInstruction 0x00552023#32))).toMachine := by
  have quiet : ¬(atInstruction 0x00552023#32).toMachine.ChangesWord
      { op := .i .sw, rs1 := 10#5, rs2 := 5#5, raw := 0x00552023#32 } := by
    rintro ⟨op, ⟨⟩, _⟩
  have coherent : Coherent Options.uncached.decode (atInstruction 0x00552023#32).decodeCache :=
    .empty _
  exact ((trace_records rfl coherent).1 0x00552023#32 _ .continue _ rfl rfl rfl).2 quiet

/-- The line of AMOADD.W x0, x5, (x10) does not. -/
theorem line_without_word :
    ¬∀ (vm vm' : Vm Options.uncached .eight) (raw : Word) (result : StepResult),
      Coherent Options.uncached.decode vm.decodeCache → vm.fetch = .ok raw →
      Vm.step vm = .ok result vm' →
      NamesChanges (printTraceLine vm.cycleCount vm.pc raw vm'.toMachine) vm.toMachine
        vm'.toMachine := by
  intro named
  have fetched : (atInstruction 0x0055202F#32).fetch = .ok 0x0055202F#32 := rfl
  have stepped : Vm.step (atInstruction 0x0055202F#32) =
      .ok .continue (stateAfter (Vm.step (atInstruction 0x0055202F#32))) := rfl
  have names := named _ _ _ _ (.empty _) fetched stepped
  have changed : (stateAfter (Vm.step (atInstruction 0x0055202F#32))).memory ⟨4, by decide⟩ ≠
      (atInstruction 0x0055202F#32).memory ⟨4, by decide⟩ := by decide +kernel
  obtain ⟨addr, bytes, read, _⟩ := names.memory _ changed
  have silent : noted 0x0055202F#32
      (stateAfter (Vm.step (atInstruction 0x0055202F#32))).toMachine = none := rfl
  rw [readTraceLine_printTraceLine, silent] at read
  cases read

end Cli

end Determinant
