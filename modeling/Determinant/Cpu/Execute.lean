import Determinant.Cpu.Machine

/-!
# One step

`step` fetches the bits at `pc`, decodes them through the cache, and executes the
instruction. `execute` is everything after decoding: it reads the registers, performs the
instruction, and then moves `pc` and counts the cycle. Nothing here restores the state when
an instruction fails; that a fault changes nothing is a property of the order of the checks
and the writes.
-/

set_option autoImplicit false

namespace Determinant

open Foundations

/-- How a step that did not fail ended. -/
inductive StepResult where
  | continue
  | ecall
  | ebreak
deriving DecidableEq, Repr

variable {n : MemSize}

namespace Machine

/-! ## The instruction classes -/

/-- An RV32I instruction. The source changes the next `pc` in place; here it is returned
with the result. -/
def executeI (op : Rv32i.Opcode) (rd : Reg) (imm rs1Val rs2Val instSize nextPc : Word) :
    EStateM StepError (Machine n) (StepResult × Word) := do
  let immU := imm
  let mut nextPc := nextPc
  match op with
  -- Register-register
  | .add => modify (writeReg · rd (rs1Val + rs2Val))
  | .sub => modify (writeReg · rd (rs1Val - rs2Val))
  | .sll => modify (writeReg · rd (rs1Val <<< (rs2Val &&& 0x1F#32)))
  | .slt => modify (writeReg · rd (if rs1Val.slt rs2Val then 1#32 else 0#32))
  | .sltu => modify (writeReg · rd (if rs1Val < rs2Val then 1#32 else 0#32))
  | .xor => modify (writeReg · rd (rs1Val ^^^ rs2Val))
  | .srl => modify (writeReg · rd (rs1Val >>> (rs2Val &&& 0x1F#32)))
  | .sra => modify (writeReg · rd (rs1Val.sshiftRight (rs2Val &&& 0x1F#32).toNat))
  | .or => modify (writeReg · rd (rs1Val ||| rs2Val))
  | .and => modify (writeReg · rd (rs1Val &&& rs2Val))
  -- Register-immediate
  | .addi => modify (writeReg · rd (rs1Val + immU))
  | .slti => modify (writeReg · rd (if rs1Val.slt imm then 1#32 else 0#32))
  | .sltiu => modify (writeReg · rd (if rs1Val < immU then 1#32 else 0#32))
  | .xori => modify (writeReg · rd (rs1Val ^^^ immU))
  | .ori => modify (writeReg · rd (rs1Val ||| immU))
  | .andi => modify (writeReg · rd (rs1Val &&& immU))
  | .slli => modify (writeReg · rd (rs1Val <<< (immU &&& 0x1F#32)))
  | .srli => modify (writeReg · rd (rs1Val >>> (immU &&& 0x1F#32)))
  | .srai => modify (writeReg · rd (rs1Val.sshiftRight (immU &&& 0x1F#32).toNat))
  -- Loads
  | .lb =>
      let addr := rs1Val + immU
      let byte ← reads (readByte · addr)
      modify (writeReg · rd (byte.signExtend 32))
  | .lh =>
      let addr := rs1Val + immU
      let half ← reads (readHalfword · addr)
      modify (writeReg · rd (half.signExtend 32))
  | .lw =>
      let addr := rs1Val + immU
      let word ← reads (readWord · addr)
      modify (writeReg · rd word)
  | .lbu =>
      let addr := rs1Val + immU
      let byte ← reads (readByte · addr)
      modify (writeReg · rd (byte.setWidth 32))
  | .lhu =>
      let addr := rs1Val + immU
      let half ← reads (readHalfword · addr)
      modify (writeReg · rd (half.setWidth 32))
  -- Stores
  | .sb =>
      let addr := rs1Val + immU
      writeByte addr (rs2Val.setWidth 8)
  | .sh =>
      let addr := rs1Val + immU
      writeHalfword addr (rs2Val.setWidth 16)
  | .sw =>
      let addr := rs1Val + immU
      writeWord addr rs2Val
  -- Branches
  | .beq => if rs1Val = rs2Val then nextPc := (← get).pc + immU
  | .bne => if rs1Val ≠ rs2Val then nextPc := (← get).pc + immU
  | .blt => if rs1Val.slt rs2Val then nextPc := (← get).pc + immU
  | .bge => if rs2Val.sle rs1Val then nextPc := (← get).pc + immU
  | .bltu => if rs1Val < rs2Val then nextPc := (← get).pc + immU
  | .bgeu => if rs1Val ≥ rs2Val then nextPc := (← get).pc + immU
  -- Upper immediates
  | .lui => modify (writeReg · rd immU)
  | .auipc => modify fun m => m.writeReg rd (m.pc + immU)
  -- Jumps
  | .jal =>
      modify fun m => m.writeReg rd (m.pc + instSize)
      nextPc := (← get).pc + immU
  | .jalr =>
      let returnAddr := (← get).pc + instSize
      nextPc := (rs1Val + immU) &&& 0xFFFFFFFE#32
      modify (writeReg · rd returnAddr)
  -- One hart: the fences do nothing.
  | .fence | .fenceI => pure ()
  | .ecall => return (.ecall, nextPc)
  | .ebreak => return (.ebreak, nextPc)
  return (.continue, nextPc)

def executeM (op : Rv32m.Opcode) (rd : Reg) (rs1Val rs2Val : Word) (m : Machine n) : Machine n :=
  m.writeReg rd (Rv32m.execute op rs1Val rs2Val)

def executeA (op : Rv32a.Opcode) (rd : Reg) (rs1Val rs2Val : Word) :
    EStateM StepError (Machine n) Unit := do
  let addr := rs1Val
  if lr : op = .lrW then
    let val ← reads (readWord · addr)
    modify (writeReg · rd val)
    modify fun m => { m with reservation := some addr }
  else if sc : op = .scW then
    -- The checks come first: SC.W faults whether or not it would succeed.
    reads fun _ => checkWordAccess n addr
    if (← get).reservation = some addr then
      writeWord addr rs2Val
      modify (writeReg · rd 0#32)
    else
      modify (writeReg · rd 1#32)
    modify fun m => { m with reservation := none }
  else
    let old ← reads (readWord · addr)
    writeWord addr (Rv32a.execute op (Rv32a.Opcode.isAmo_intro lr sc) old rs2Val)
    modify (writeReg · rd old)

def executeZba (op : Zba.Opcode) (rd : Reg) (rs1Val rs2Val : Word) (m : Machine n) : Machine n :=
  m.writeReg rd (Zba.execute op rs1Val rs2Val)

def executeZbb (op : Zbb.Opcode) (rd : Reg) (rs1Val rs2Val imm : Word) (m : Machine n) :
    Machine n :=
  let src2 := if op.format = .R then rs2Val else imm
  m.writeReg rd (Zbb.execute op rs1Val src2)

def executeZbs (op : Zbs.Opcode) (rd : Reg) (rs1Val rs2Val imm : Word) (m : Machine n) :
    Machine n :=
  let src2 := if op.format = .R then rs2Val else imm
  m.writeReg rd (Zbs.execute op rs1Val src2)

/-- The operand of a CSR instruction: its `rs1` field is a register number or a five-bit
immediate. -/
def csrSrcVal (op : Zicsr.Opcode) (rs1Field : Reg) (rs1Val : Word) : Word :=
  match op with
  | .csrrw | .csrrs | .csrrc => rs1Val
  | .csrrwi | .csrrsi | .csrrci => rs1Field.setWidth 32

def executeCsr (op : Zicsr.Opcode) (rd rs1Field : Reg) (rs1Val : Word) (csrAddr : BitVec 12) :
    EStateM StepError (Machine n) Unit := do
  let srcVal := csrSrcVal op rs1Field rs1Val
  let cycleCount := (← get).cycleCount
  let rdVal ← EStateM.adaptExcept DecodeError.toStepError
    (onPart Machine.csrs (fun csrs m => { m with csrs := csrs })
      (Zicsr.Csr.execute op cycleCount csrAddr srcVal (rd ≠ 0#5) (rs1Field ≠ 0#5)))
  match rdVal with
  | some val => modify (writeReg · rd val)
  | none => pure ()

/-! ## After decoding -/

/-- Execute a decoded instruction of `instSize` bytes: the step after decoding. -/
def execute (inst : Instruction) (instSize : Word) : EStateM StepError (Machine n) StepResult := do
  modify fun m => { m with regs := Function.update m.regs 0#5 0#32 }
  let rs1Val := (← get).regs inst.rs1
  let rs2Val := (← get).regs inst.rs2
  let mut result := StepResult.continue
  let mut nextPc := (← get).pc + instSize
  match inst.op with
  | .i op =>
      (result, nextPc) ← executeI op inst.rd inst.imm rs1Val rs2Val instSize nextPc
  | .m op => modify (executeM op inst.rd rs1Val rs2Val)
  | .a op => executeA op inst.rd rs1Val rs2Val
  | .csr op => executeCsr op inst.rd inst.rs1 rs1Val inst.csrAddr
  | .zba op => modify (executeZba op inst.rd rs1Val rs2Val)
  | .zbb op => modify (executeZbb op inst.rd rs1Val rs2Val inst.immUnsigned)
  | .zbs op => modify (executeZbs op inst.rd rs1Val rs2Val inst.immUnsigned)
  if result ≠ .continue then
    modify fun m => { m with stopPc := m.pc }
  modify fun m => { m with pc := nextPc }
  modify fun m => { m with cycleCount := m.cycleCount + 1 }
  return result

/-- The size of the instruction with these bits. -/
def instSize (raw : Word) : Word := if isCompressed raw then 2#32 else 4#32

end Machine

/-! ## The step of the VM -/

namespace Vm

variable {o : Options}

/-- The slot of the decode cache for an address. -/
def slot (enabled : o.decodeCacheEntries ≠ 0#32) (pc : Word) : Fin o.decodeCacheEntries.toNat :=
  ⟨((pc >>> 1) &&& (o.decodeCacheEntries - 1#32)).toNat, by
    have positive : 0 < o.decodeCacheEntries.toNat := by
      rw [Nat.pos_iff_ne_zero]
      exact fun zero => enabled (BitVec.eq_of_toNat_eq zero)
    have le : 1#32 ≤ o.decodeCacheEntries := positive
    have last : (o.decodeCacheEntries - 1#32).toNat < o.decodeCacheEntries.toNat := by
      rw [BitVec.toNat_sub_of_le le]
      exact Nat.sub_lt positive Nat.one_pos
    rw [BitVec.toNat_and]
    exact Nat.lt_of_le_of_lt Nat.and_le_right last⟩

/-- Decode the fetched bits, or take the instruction from the slot if it was decoded from
exactly these bits. -/
def decodeCached (raw : Word) : EStateM DecodeError (Vm o n) Instruction := do
  if enabled : o.decodeCacheEntries = 0#32 then
    reads fun _ => o.decode raw
  else
    let slot := slot enabled (← get).pc
    if ((← get).decodeCache slot).raw ≠ raw then
      let inst ← reads fun _ => o.decode raw
      modify fun vm => { vm with decodeCache := Function.update vm.decodeCache slot inst }
    return (← get).decodeCache slot

/-- Fetch, decode and execute one instruction. -/
def step : EStateM StepError (Vm o n) StepResult := do
  let raw ← reads fun vm => vm.fetch
  let inst ← EStateM.adaptExcept DecodeError.toStepError (decodeCached raw)
  onMachine (Machine.execute inst (Machine.instSize raw))

end Vm

end Determinant
