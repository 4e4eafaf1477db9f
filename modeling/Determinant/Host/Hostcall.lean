import Determinant.Cpu.Machine
import Determinant.Foundations.Streams
import Determinant.Foundations.Traps

/-!
# The host-call ABI

`handle` performs the host call of the ECALL that stopped a run: `read`, `write`, `exit` and
`exit_group`, by their Linux numbers in `a7`. Its state is the machine and the host's side of
the run, `Env`. It fails when a writer fails; the ranges it takes of the input and the copy
into memory are checked when they are executed, and failing them is a trap.
-/

set_option autoImplicit false

namespace Determinant

open Foundations

variable {n : MemSize}

namespace Hostcall

/-- The calls that are handled. -/
inductive Call where
  | read
  | write
  | exit
  | exitGroup
  | other
deriving DecidableEq, Repr

/-- The call with a number in `a7`. -/
def Call.ofNumber (number : Word) : Call :=
  match number with
  | 63#32 => .read
  | 64#32 => .write
  | 93#32 => .exit
  | 94#32 => .exitGroup
  | _ => .other

/-- Error results in `a0`: negative errno values. -/
def ebadf : Word := BitVec.ofInt 32 (-9)

def efault : Word := BitVec.ofInt 32 (-14)

/-- The host side of a run: the input, how much of it has been read, and the two outputs. -/
structure Env where
  input : List Byte := []
  inputPos : Nat := 0
  stdout : Writer
  stderr : Writer

inductive Outcome where
  | resumed
  | exit (status : Word)
  | unknown (number : Word)
deriving DecidableEq, Repr

/-- The guest bytes `[addr, addr + len)`, if they lie inside memory. -/
def guestBytes (m : Machine n) (addr len : Word) : Option (List Byte) :=
  let start := addr.toNat
  let k := len.toNat
  if outside : k > n.bytes ∨ start > n.bytes - k then none
  else some (slice m.memory start k (by omega))

/-- A handler's computation: it changes the machine and the environment, and fails with a
writer's error or with a trap. -/
abbrev Handling (n : MemSize) (α : Type) :=
  EStateM (Failure WriteError) (Machine n × Env) α

def setResult (a0 : Word) : Handling n Outcome := do
  modify fun s => (s.1.writeReg 10#5 a0, s.2)
  return .resumed

/-- Write to one of the two outputs. -/
def toStdout (bytes : List Byte) : Handling n Unit :=
  EStateM.adaptExcept .returned
    (onPart (fun s => s.2.stdout) (fun w s => (s.1, { s.2 with stdout := w }))
      (Writer.writeAll bytes))

def toStderr (bytes : List Byte) : Handling n Unit :=
  EStateM.adaptExcept .returned
    (onPart (fun s => s.2.stderr) (fun w s => (s.1, { s.2 with stderr := w }))
      (Writer.writeAll bytes))

/-- `loadProgram(...) catch unreachable`. -/
def loadProgramOrTrap {ε : Type} (program : List Byte) (offset : Word) :
    EStateM (Failure ε) (Machine n) Unit :=
  EStateM.adaptExcept (fun _ => .trapped .reachedUnreachable) (Machine.loadProgram program offset)

/-- Handle the ECALL that just stopped the machine. -/
def handle : Handling n Outcome := do
  let (vm, env) ← get
  let number := vm.readReg 17#5
  let a0 := vm.readReg 10#5
  let a1 := vm.readReg 11#5
  let a2 := vm.readReg 12#5
  match Call.ofNumber number with
  | .exit | .exitGroup => return .exit a0
  | .write =>
      let out : Option (List Byte → Handling n Unit) :=
        match a0 with
        | 1#32 => some toStdout
        | 2#32 => some toStderr
        | _ => none
      match out with
      | none => setResult ebadf
      | some out =>
        match guestBytes vm a1 a2 with
        | none => setResult efault
        | some bytes => do
            out bytes
            setResult a2
  | .read =>
      if a0 ≠ 0#32 then setResult ebadf
      else
        match guestBytes vm a1 a2 with
        | none => setResult efault
        | some _ => do
            let left ← reads fun _ => checkedSub env.input.length env.inputPos
            let k ← reads fun _ => checkedCast 32 (min a2.toNat left)
            let program ← reads fun _ => checkedRange env.input env.inputPos k.toNat
            -- `loadProgram` drops a reservation on any word it overwrites.
            onPart Prod.fst (fun vm s => (vm, s.2)) (loadProgramOrTrap program a1)
            modify fun s => (s.1, { s.2 with inputPos := s.2.inputPos + k.toNat })
            setResult k
  | .other => return .unknown number

end Hostcall

/-- Handle the ECALL that just stopped the VM; the cache is not its concern. -/
def Vm.handle {o : Options} :
    EStateM (Failure WriteError) (Vm o n × Hostcall.Env) Hostcall.Outcome :=
  onPart (fun s => (s.1.toMachine, s.2)) (fun m s => ({ s.1 with toMachine := m.1 }, m.2))
    Hostcall.handle

end Determinant
