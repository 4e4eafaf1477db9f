import Determinant.Cli.Dump
import Determinant.Cpu.Machine

/-!
# The configuration of a run

What the arguments of the CLI say: a program to run or to list, and how. The memory size is
valid, since that is checked when the arguments are parsed.
-/

set_option autoImplicit false

namespace Determinant

open Foundations

/-- The path of a file, as the arguments give it. -/
abbrev Path := List Byte

namespace Args

structure Range where
  start : Word
  len : Word
deriving DecidableEq, Repr

structure Dump where
  format : Dump.Format := .hexdump
  /-- All of memory if there is none. -/
  range : Option Range := none
deriving DecidableEq, Repr

inductive Program where
  | demo
  | file (path : Path)
deriving DecidableEq, Repr

inductive Input where
  | stdin
  | file (path : Path)
deriving DecidableEq, Repr

def defaultMemory : MemSize := ⟨64 * 1024, by decide⟩

/-- A program to run (or list) and how. What was not given is `none`. -/
structure Config where
  program : Program
  memory : MemSize := defaultMemory
  disassemble : Bool := false
  maxCycles : Option Count := none
  input : Option Input := none
  /-- Where a flat binary goes: at 0 if not given. -/
  loadAddr : Option Word := none
  dump : Option Dump := none
  digest : Bool := false
  trace : Bool := false
  quiet : Bool := false
deriving DecidableEq

end Args

end Determinant
