import Determinant.Cpu.Computation
import Determinant.Cpu.LoadsStores
import Determinant.Cpu.Atomics
import Determinant.Cpu.CsrAccess
import Determinant.Foundations.PartialMaps
import Determinant.Instructions.BitManipulation
import Determinant.Instructions.Multiplication

/-!
# The instruction set architecture

What the instructions mean, with no machine in mind. A hart has 32 registers of which x0 is
zero, a memory that is a partial map of bytes, a counter, a reservation and `mscratch`
(`Hart`). An instruction computes on the integers that the words stand for, and a
bit-manipulation instruction on strings of bits (`Executes`). A step fetches, decodes and
executes one instruction (`Step`); it fails with an error, and then the hart is as before, or
it goes on, or it stops at an environment call or a breakpoint. A run is steps until one of
them fails or stops, or until the counter is at a limit (`Runs`).

There are no caches, no sizes of arrays and no wrapping sums here. Where memory ends is where
the map is not defined.
-/

set_option autoImplicit false

namespace Determinant

open Foundations

/-! ## Values -/

/-- The product or the quotient that an instruction of the M extension puts in `rd`, modulo
`2 ^ 32`. A signed quotient rounds towards zero, and a division by zero has a value too. -/
def Rv32m.Opcode.value (op : Rv32m.Opcode) (x y : Word) : Int :=
  match op with
  | .mul => x.toNat * y.toNat
  | .mulh => x.toInt * y.toInt / 2 ^ 32
  | .mulhsu => x.toInt * y.toNat / 2 ^ 32
  | .mulhu => x.toNat * y.toNat / 2 ^ 32
  | .div => if y.toInt = 0 then -1 else x.toInt.tdiv y.toInt
  | .divu => if y.toNat = 0 then 2 ^ 32 - 1 else x.toNat / y.toNat
  | .rem => if y.toInt = 0 then x.toInt else x.toInt.tmod y.toInt
  | .remu => if y.toNat = 0 then x.toNat else x.toNat % y.toNat

/-- The value for `rd` of an instruction of `length` bytes; a jump links the address behind it. -/
def Rv32i.Opcode.result (op : Rv32i.Opcode) (pc x y : Word) (imm : Int) (length : Nat) :
    Option Int :=
  match op with
  | .jal | .jalr => some (pc.toNat + length)
  | _ => (op.outcome pc x y imm).value

/-- Where an instruction of `length` bytes goes on. -/
def Rv32i.Opcode.goesTo (op : Rv32i.Opcode) (pc x y : Word) (imm : Int) (length : Nat) : Int :=
  let branch (taken : Bool) : Int := if taken then pc.toNat + imm else pc.toNat + length
  match op with
  | .beq => branch (x.toNat = y.toNat)
  | .bne => branch (x.toNat ≠ y.toNat)
  | .blt => branch (x.toInt < y.toInt)
  | .bge => branch (y.toInt ≤ x.toInt)
  | .bltu => branch (x.toNat < y.toNat)
  | .bgeu => branch (y.toNat ≤ x.toNat)
  | .jal => pc.toNat + imm
  | .jalr => (x.toNat + imm) / 2 * 2
  | _ => pc.toNat + length

/-- The instructions that stop a run. -/
def Rv32i.Opcode.stop : Rv32i.Opcode → StepResult
  | .ecall => .ecall
  | .ebreak => .ebreak
  | _ => .continue

namespace Isa

/-! ## Harts -/

/-- The state of a hart. -/
@[ext]
structure Hart where
  pc : Word
  x : Reg → Word
  zero : x 0#5 = 0#32
  memory : Nat → Option Byte
  cycles : Count
  reservation : Option Word
  mscratch : Word

namespace Hart

variable (h : Hart)

/-- A register takes a value, except x0. -/
def put (rd : Reg) (value : Word) : Hart :=
  { h with
    x := fun reg => if reg = rd ∧ rd ≠ 0#5 then value else h.x reg
    zero := by rw [if_neg fun both => both.2 both.1.symm, h.zero] }

/-- `mscratch` takes a value. -/
def keep (word : Word) : Hart := { h with mscratch := word }

/-- One instruction more, and where to go on. -/
def goOn (target : Int) : Hart :=
  { h with pc := BitVec.ofInt 32 target, cycles := h.cycles + 1 }

/-- Behind an instruction of `length` bytes. -/
def next (length : Nat) : Int := h.pc.toNat + length

/-- The bytes of an access: its address is a multiple of its width, and there is memory. -/
def access (width addr : Nat) : Except StepError (List Byte) :=
  if ¬width ∣ addr then .error .misalignedAccess
  else
    match cellsAt h.memory addr width with
    | some bytes => .ok bytes
    | none => .error .addressOutOfBounds

/-- Bytes take the place of others, and a reservation of their word is lost. -/
def store (addr : Nat) (bytes : List Byte) : Hart :=
  { h with
    memory := overwrite h.memory addr bytes
    reservation := h.reservation.filter fun res => res.toNat ≠ addr / 4 * 4 }

/-- The outcome of an atomic instruction: a value for a register, and the word and the
reservation that it leaves. -/
def combine (rd : Reg) (addr : Nat) (outcome : Rv32a.Outcome) : Hart :=
  { h.put rd (BitVec.ofInt 32 outcome.value) with
    memory := match outcome.store with
      | some v => overwrite h.memory addr (writeInt 4 (BitVec.ofInt 32 v))
      | none => h.memory
    reservation := outcome.reservation }

/-- The instruction at `pc`: a halfword, or a word when the low two bits are ones. -/
def fetch : Except StepError Word :=
  if h.pc.toNat % 2 = 1 then .error .misalignedPC
  else
    match cellsAt h.memory h.pc.toNat 2 with
    | none => .error .pcOutOfBounds
    | some half =>
        if ofLeBytes half % 4 ≠ 3 then .ok (BitVec.ofNat 32 (ofLeBytes half))
        else
          match cellsAt h.memory h.pc.toNat 4 with
          | none => .error .pcOutOfBounds
          | some word => .ok (BitVec.ofNat 32 (ofLeBytes word))

end Hart

/-- The number of bytes of the instruction with these bits. -/
def lengthOf (raw : Word) : Nat := if raw.toNat % 4 = 3 then 4 else 2

/-! ## Instructions -/

/-- The base instructions, on the values of `rs1` and `rs2`. -/
def executeI (op : Rv32i.Opcode) (inst : Instruction) (length : Nat) (h : Hart) :
    Except StepError (StepResult × Hart) :=
  let x := h.x inst.rs1
  let y := h.x inst.rs2
  let imm := inst.imm.toInt
  match op.width with
  | none =>
      let written := match op.result h.pc x y imm length with
        | some v => h.put inst.rd (BitVec.ofInt 32 v)
        | none => h
      .ok (op.stop, written.goOn (op.goesTo h.pc x y imm length))
  | some width =>
      let addr := ((x.toNat + imm) % (2 ^ 32 : Nat)).toNat
      (h.access width addr).map fun bytes =>
        let accessed := match op.loaded (ofLeBytes bytes) with
          | some v => h.put inst.rd (BitVec.ofInt 32 v)
          | none => h.store addr (leBytes width y.toNat)
        (.continue, accessed.goOn (h.next length))

/-- The atomic instructions, at the address in `rs1`. -/
def executeA (op : Rv32a.Opcode) (inst : Instruction) (length : Nat) (h : Hart) :
    Except StepError (StepResult × Hart) :=
  let addr := h.x inst.rs1
  (h.access 4 addr.toNat).map fun bytes =>
    let outcome := op.outcome addr (readInt 32 bytes) (h.x inst.rs2) h.reservation
    (.continue, (h.combine inst.rd addr.toNat outcome).goOn (h.next length))

/-- The CSR instructions. -/
def executeCsr (op : Zicsr.Opcode) (inst : Instruction) (length : Nat) (h : Hart) :
    Except StepError (StepResult × Hart) :=
  let number := inst.csrAddr
  let old := Zicsr.Csr.value { mscratch := h.mscratch } h.cycles number
  if op.reads inst.rd ∧ old = none ∨ op.writes inst.rs1 ∧ number ≠ 0x340#12 then
    .error .illegalInstruction
  else
    let read := if op.reads inst.rd then h.put inst.rd (old.getD 0#32) else h
    let scratch := if op.writes inst.rs1 then
      op.newValue h.mscratch (Machine.csrSrcVal op inst.rs1 (h.x inst.rs1))
      else h.mscratch
    .ok (.continue, (read.keep scratch).goOn (h.next length))

/-- The second operand of a bit-manipulation instruction: a register, or the immediate. -/
def secondOperand (inst : Instruction) (h : Hart) : Word :=
  if inst.op.format = .R then h.x inst.rs2 else inst.imm

/-- An instruction of `length` bytes may have this outcome: an error, or the hart behind it. -/
def Executes (inst : Instruction) (length : Nat) (h : Hart)
    (outcome : Except StepError (StepResult × Hart)) : Prop :=
  match inst.op with
  | .i op => outcome = executeI op inst length h
  | .m op =>
      let value := op.value (h.x inst.rs1) (h.x inst.rs2)
      outcome = .ok (.continue, (h.put inst.rd (BitVec.ofInt 32 value)).goOn (h.next length))
  | .a op => outcome = executeA op inst length h
  | .csr op => outcome = executeCsr op inst length h
  | .zba _ | .zbb _ | .zbs _ =>
      ∃ value, inst.op.Defines (h.x inst.rs1) (secondOperand inst h) value ∧
        outcome = .ok (.continue, (h.put inst.rd value).goOn (h.next length))

/-! ## Steps and runs -/

/-- One step of a hart. -/
inductive Step (h : Hart) : Except StepError StepResult → Hart → Prop
  | unfetched {e : StepError} (fetched : h.fetch = .error e) : Step h (.error e) h
  | illegal {raw : Word} {e : DecodeError} (fetched : h.fetch = .ok raw)
      (decoded : decode raw = .error e) : Step h (.error .illegalInstruction) h
  | refused {raw : Word} {inst : Instruction} {e : StepError} (fetched : h.fetch = .ok raw)
      (decoded : decode raw = .ok inst) (executes : Executes inst (lengthOf raw) h (.error e)) :
      Step h (.error e) h
  | retires {raw : Word} {inst : Instruction} {result : StepResult} {h' : Hart}
      (fetched : h.fetch = .ok raw) (decoded : decode raw = .ok inst)
      (executes : Executes inst (lengthOf raw) h (.ok (result, h'))) : Step h (.ok result) h'

section

variable {h h' : Hart} {result : Except StepError StepResult} {raw : Word} {inst : Instruction}

theorem step_unfetched {e : StepError} (fetched : h.fetch = .error e) :
    Step h result h' ↔ result = .error e ∧ h' = h := by
  constructor
  · intro steps
    cases steps with
    | unfetched fetched' =>
        cases fetched'.symm.trans fetched
        exact ⟨rfl, rfl⟩
    | illegal fetched' | refused fetched' | retires fetched' => cases fetched'.symm.trans fetched
  · rintro ⟨rfl, rfl⟩
    exact .unfetched fetched

theorem step_illegal (fetched : h.fetch = .ok raw) {e : DecodeError}
    (decoded : decode raw = .error e) :
    Step h result h' ↔ result = .error .illegalInstruction ∧ h' = h := by
  constructor
  · intro steps
    cases steps with
    | unfetched fetched' => cases fetched'.symm.trans fetched
    | illegal => exact ⟨rfl, rfl⟩
    | refused fetched' decoded' | retires fetched' decoded' =>
        cases fetched'.symm.trans fetched
        cases decoded'.symm.trans decoded
  · rintro ⟨rfl, rfl⟩
    exact .illegal fetched decoded

/-- What a decoded instruction does is all that matters. -/
theorem step_decoded (fetched : h.fetch = .ok raw) (decoded : decode raw = .ok inst) :
    Step h result h' ↔
      (∃ e, Executes inst (lengthOf raw) h (.error e) ∧ result = .error e ∧ h' = h) ∨
        ∃ stop, Executes inst (lengthOf raw) h (.ok (stop, h')) ∧ result = .ok stop := by
  constructor
  · intro steps
    cases steps with
    | unfetched fetched' => cases fetched'.symm.trans fetched
    | illegal fetched' decoded' =>
        cases fetched'.symm.trans fetched
        cases decoded'.symm.trans decoded
    | refused fetched' decoded' executes =>
        cases fetched'.symm.trans fetched
        cases decoded'.symm.trans decoded
        exact .inl ⟨_, executes, rfl, rfl⟩
    | retires fetched' decoded' executes =>
        cases fetched'.symm.trans fetched
        cases decoded'.symm.trans decoded
        exact .inr ⟨_, executes, rfl⟩
  · rintro (⟨e, executes, rfl, rfl⟩ | ⟨stop, executes, rfl⟩)
    · exact .refused fetched decoded executes
    · exact .retires fetched decoded executes

end

/-- A run of a hart to a limit on its counter, if there is one. -/
inductive Runs (maxCycles : Option Count) : Hart → Except StepError StepResult → Hart → Prop
  | limit {h : Hart} {l : Count} (given : maxCycles = some l) (reached : l ≤ h.cycles) :
      Runs maxCycles h (.ok .continue) h
  | stops {h h' : Hart} {result : Except StepError StepResult}
      (below : ∀ l, maxCycles = some l → h.cycles < l) (steps : Step h result h')
      (stopped : result ≠ .ok .continue) : Runs maxCycles h result h'
  | goesOn {h h' h'' : Hart} {result : Except StepError StepResult}
      (below : ∀ l, maxCycles = some l → h.cycles < l) (steps : Step h (.ok .continue) h')
      (onward : Runs maxCycles h' result h'') : Runs maxCycles h result h''

end Isa

end Determinant
