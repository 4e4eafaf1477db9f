import Determinant.Cli.Disasm
import Determinant.Cpu.DescribeFault

/-!
# The report

The texts of the report: how a program stopped, a fault, the registers, and the line of the
trace for an instruction that retired. The line of the trace is one line, whatever the
instruction did (`printTraceLine_line`).
-/

set_option autoImplicit false

namespace Determinant

open Foundations

variable {n : MemSize} {o : Options}

/-! ## Quantities -/

namespace Units

/-- A number and its noun, plural unless the number is 1. -/
def count (k : Nat) (noun : String) : List Byte :=
  decimal k ++ ascii " " ++ ascii noun ++ if k = 1 then [] else ascii "s"

def cycles (k : Count) : List Byte := count k.toNat "cycle"

/-- A memory size, exactly. -/
def memSize (bytes : Nat) : List Byte :=
  if bytes ≠ 0 ∧ bytes % (1024 * 1024 * 1024) = 0 then
    decimal (bytes / (1024 * 1024 * 1024)) ++ ascii " GiB"
  else if bytes ≠ 0 ∧ bytes % (1024 * 1024) = 0 then
    decimal (bytes / (1024 * 1024)) ++ ascii " MiB"
  else if bytes ≠ 0 ∧ bytes % 1024 = 0 then decimal (bytes / 1024) ++ ascii " KiB"
  else count bytes "byte"

end Units

namespace Report

/-- Where to look when something does not fit in memory. -/
def memoryHint : List Byte := ascii " (see --memory)"

/-- A word as `0x` and 8 digits. -/
def wordText (w : Word) : List Byte := ascii "0x" ++ hex 8 w.toNat

/-! ## Stops and registers -/

/-- How a run ended, unless it faulted. -/
inductive Stop where
  | ebreak
  /-- An ECALL that is not a host call: the value of `a7`. -/
  | ecall (number : Word)
  | cycleLimit
  /-- The program called exit with this status. -/
  | exit (status : Word)
deriving DecidableEq, Repr

def printStop (m : Machine n) (stop : Stop) : List Byte :=
  let cycles := Units.cycles m.cycleCount
  match stop with
  | .ebreak => ascii "Stopped at EBREAK (" ++ wordText m.stopPc ++ ascii ") after " ++ cycles ++
      [newline]
  | .ecall a7 => ascii "Stopped at ECALL (" ++ wordText m.stopPc ++ ascii ") after " ++ cycles ++
      ascii ": a7 = " ++ decimal a7.toNat ++ ascii " is not a host call" ++ [newline]
  | .cycleLimit => ascii "Cycle limit reached after " ++ cycles ++ [newline]
  | .exit status => ascii "Program exited with status " ++ signedDecimal status.toInt ++
      ascii " after " ++ cycles ++ [newline]

/-- The line of a register, if the register is not zero. -/
def registerLine (m : Machine n) (i : Nat) : List Byte :=
  let reg := BitVec.ofNat 5 i
  let val := m.readReg reg
  if val ≠ 0#32 then
    ascii "  x" ++ (decimal i).rightpad 2 space ++ ascii "  " ++
      (Disasm.reg reg).rightpad 4 space ++ ascii " " ++ wordText val ++ ascii "  " ++
      signedDecimal val.toInt ++ [newline]
  else []

/-- `pc`, and then the registers that are not zero. -/
def printRegisters (m : Machine n) : List Byte :=
  [newline] ++ ascii "Registers:" ++ [newline] ++ ascii "  pc        " ++ wordText m.pc ++
    [newline] ++ (List.range' 1 31).flatMap (registerLine m)

/-! ## Faults -/

def faultText : StepError → String
  | .illegalInstruction => "illegal instruction"
  | .misalignedPC => "misaligned pc"
  | .pcOutOfBounds => "pc out of bounds"
  | .misalignedAccess => "misaligned memory access"
  | .addressOutOfBounds => "memory access out of bounds"

/-- The name of the error in the source. -/
def errorName : StepError → String
  | .illegalInstruction => "IllegalInstruction"
  | .misalignedPC => "MisalignedPC"
  | .pcOutOfBounds => "PCOutOfBounds"
  | .misalignedAccess => "MisalignedAccess"
  | .addressOutOfBounds => "AddressOutOfBounds"

/-- Where an address outside memory is not. -/
def outsideText (n : MemSize) : List Byte :=
  ascii ", not inside the " ++ Units.memSize n.bytes ++ ascii " of VM memory" ++ memoryHint

/-- A fault that just happened: the error, the instruction and the address. -/
def printFault (vm : Vm o n) (err : StepError) : List Byte :=
  let fault := vm.describeFault err
  ascii "Fault after " ++ Units.cycles vm.cycleCount ++ ascii ": " ++ ascii (faultText err) ++
    ascii " (" ++ ascii (errorName err) ++ ascii ")" ++ [newline] ++
    ascii "  instruction at " ++ wordText fault.pc ++
    match fault.raw with
    | none => (if err = .pcOutOfBounds then outsideText n else []) ++ [newline]
    | some raw =>
        ascii ": " ++ Disasm.bits raw false ++ ascii "  " ++
          (match decode raw with
          | .ok inst => Disasm.printInstruction inst (some fault.pc)
          | .error _ => ascii "(does not decode)") ++
          [newline] ++
          match fault.addr with
          | none => []
          | some addr =>
              ascii "  data address " ++ wordText addr ++
                (if err = .addressOutOfBounds then outsideText n else []) ++ [newline]

/-! ## The trace -/

/-- The line for an instruction that just retired: the cycle, the line of a listing, and the
register or memory that it wrote. The line of the listing goes through a buffer of 128 bytes. -/
def printTraceLine (cycle : Count) (pc raw : Word) (m : Machine n) : List Byte :=
  let line := (Disasm.printLine pc raw).take 128
  (decimal cycle.toNat).leftpad 8 space ++ ascii "  " ++
    match decode raw with
    | .error _ => line ++ [newline]
    | .ok inst =>
        match inst.op.format with
        | .S =>
            let addr := m.readReg inst.rs1 + inst.immUnsigned
            let val := m.readReg inst.rs2
            line.rightpad 46 space ++ ascii "  mem[" ++ wordText addr ++ ascii "] = " ++
              (match inst.op with
              | .i .sb => ascii "0x" ++ hex 2 (val.setWidth 8).toNat
              | .i .sh => ascii "0x" ++ hex 4 (val.setWidth 16).toNat
              | _ => wordText val) ++
              [newline]
        | .B => line ++ [newline]
        | _ =>
            if inst.rd ≠ 0#5 then
              line.rightpad 46 space ++ ascii "  " ++ Disasm.reg inst.rd ++ ascii " = " ++
                wordText (m.readReg inst.rd) ++ [newline]
            else line ++ [newline]

/-- **The line of the trace is one line**, with its newline at the end. -/
theorem printTraceLine_line (cycle : Count) (pc raw : Word) (m : Machine n) :
    IsLine (printTraceLine cycle pc raw m) := by
  have listed : OneLine ((Disasm.printLine pc raw).take 128) :=
    (Disasm.printLine_short pc raw).2.take 128
  have column : OneLine (((Disasm.printLine pc raw).take 128).rightpad 46 space) :=
    listed.rightpad 46 (by decide)
  have word : ∀ w, OneLine (wordText w) := fun w => oneLine_append.2 ⟨by decide, oneLine_hex 8 _⟩
  have gap : OneLine (ascii "  ") := by decide
  have memory : OneLine (ascii "  mem[") := by decide
  have becomes : OneLine (ascii "] = ") := by decide
  have radix : OneLine (ascii "0x") := by decide
  have equals : OneLine (ascii " = ") := by decide
  have front : OneLine ((decimal cycle.toNat).leftpad 8 space ++ ascii "  ") :=
    oneLine_append.2 ⟨(oneLine_decimal _).leftpad 8 (by decide), gap⟩
  refine front.append ?_
  cases decode raw with
  | error _ => exact listed.isLine
  | ok inst =>
      dsimp only
      split
      · -- A store: the value is shown in the width that was stored.
        refine OneLine.isLine ?_
        simp only [oneLine_append, column, memory, word, becomes, true_and]
        split <;> simp [radix, word]
      · exact listed.isLine
      · split
        · refine OneLine.isLine ?_
          simp only [oneLine_append, column, gap, (Disasm.reg_clear .newline inst.rd).short.2,
            equals, word,
            and_self]
        · exact listed.isLine

end Report

end Determinant
