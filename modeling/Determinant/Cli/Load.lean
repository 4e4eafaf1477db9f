import Determinant.Cli.Args
import Determinant.Cli.Execute
import Determinant.Cli.Listing
import Determinant.Host.Loader

/-!
# Loading a program

The program is the built-in demo, a flat binary or an ELF executable. What the CLI gets from
outside, memory and files, is a parameter (`Outside`): any request may fail, and a file may give
less than its size says. A usage or I/O error is reported on stderr, and then the CLI stops
(`userError`).
-/

set_option autoImplicit false

namespace Determinant

open Foundations Hostcall

variable {n : MemSize} {o : Options} {α ε : Type}

/-! ## What is outside -/

inductive IoError where
  | fileNotFound
  | isDir
  | notDir
  | accessDenied
  | permissionDenied
  | streamTooLong
  | fileTooBig
  | nameTooLong
  | symLinkLoop
  | outOfMemory
  | readFailed
  | other (name : String)
deriving DecidableEq, Repr

/-- What memory is allocated for. -/
inductive Allocation where
  | memory
  | vm
  | image
  | code
deriving DecidableEq, Repr

/-- An open file: its size, its first bytes, and what it gives to a buffer of some length. -/
structure File where
  stat : Except IoError Nat
  magic : Except IoError (List Byte)
  contents : Nat → Except IoError (List Byte)

/-- What the CLI gets from outside, the bytes that a header's buffer holds before they are
written, and the hash function. -/
structure Outside where
  allocates : Allocation → Bool
  openFile : Path → Except IoError File
  readFile : Path → Except IoError (List Byte)
  stdin : Except IoError (List Byte)
  header : Snapshot.Header
  sha256 : List Byte → List Byte

namespace Report

/-- An I/O error in words. -/
def ioText : IoError → String
  | .fileNotFound => "no such file"
  | .isDir => "is a directory"
  | .notDir => "a part of the path is not a directory"
  | .accessDenied | .permissionDenied => "permission denied"
  | .streamTooLong | .fileTooBig => "too large"
  | .nameTooLong => "name too long"
  | .symLinkLoop => "too many symbolic links"
  | .outOfMemory => "out of memory"
  | .readFailed => "ReadFailed"
  | .other name => name

end Report

namespace Cli

/-! ## Failures -/

/-- How a command of the CLI fails. -/
inductive CommandError where
  /-- It is reported already. -/
  | userError
  | writeFailed
  | io (e : IoError)
deriving DecidableEq, Repr

/-- A part of a command, which works on the session. -/
abbrev Command (o : Options) (n : MemSize) (α : Type) :=
  EStateM (Failure CommandError) (Session o n) α

/-- Report a usage or I/O error. -/
def userError (text : List Byte) : Command o n α := do
  modify (Session.print .stderr (ascii "Error: " ++ text ++ [newline]))
  throw (.returned .userError)

/-- `if (c) return userError(...)`. -/
def rejectIf (c : Prop) [Decidable c] (text : List Byte) : Command o n Unit :=
  if c then userError text else pure ()

/-- `x catch |err| return userError(...)`. -/
def orReport (text : ε → List Byte) : Except ε α → Command o n α
  | .ok a => pure a
  | .error e => userError (text e)

/-- `try gpa.alloc(...)`; nothing has to be allocated for an empty list. -/
def allocate (outside : Outside) (what : Allocation) (empty : Bool := false) : Command o n Unit :=
  if empty ∨ outside.allocates what then pure () else throw (.returned (.io .outOfMemory))

end Cli

namespace Load

open Cli Report

/-! ## Programs -/

/-- The built-in demo: ADDI x1, x0, 100; ADDI x2, x0, 10; ADD x3, x1, x2; SW x3, 0(x1); ECALL. -/
def demoProgram : List Byte :=
  [0x93#8, 0x00#8, 0x40#8, 0x06#8,
    0x13#8, 0x01#8, 0xA0#8, 0x00#8,
    0xB3#8, 0x81#8, 0x20#8, 0x00#8,
    0x23#8, 0xA0#8, 0x30#8, 0x00#8,
    0x73#8, 0x00#8, 0x00#8, 0x00#8]

/-- Address the demo stores its result to. -/
def demoStoreAddr : Word := 100#32

/-- Largest ELF file accepted. -/
def maxElf : Nat := 1 <<< 30

inductive Source where
  | demo
  | flat (path : Path) (size : Word)
  | elf (path : Path)
deriving DecidableEq, Repr

/-- A program in the VM. -/
structure Loaded where
  source : Source
  entry : Word
  /-- The whole flat binary, or the ELF file's executable segments. -/
  code : List Args.Range
deriving DecidableEq, Repr

/-- "hello.bin (42 bytes at 0x00000000)". -/
def Loaded.format (loaded : Loaded) : List Byte :=
  let sized (size : Nat) : List Byte :=
    ascii " (" ++ Units.count size "byte" ++ ascii " at " ++ wordText loaded.entry ++ ascii ")"
  match loaded.source with
  | .demo => ascii "the demo" ++ sized demoProgram.length
  | .flat path size => path ++ sized size.toNat
  | .elf path => path ++ ascii " (ELF executable, entry " ++ wordText loaded.entry ++ ascii ")"

/-! ## Files -/

def quoted (path : Path) : List Byte := ascii "'" ++ path ++ ascii "'"

def cannotRead (path : Path) (e : IoError) : List Byte :=
  ascii "cannot read " ++ quoted path ++ ascii ": " ++ ascii (ioText e)

/-- The first `len` bytes of a file. -/
def readExactly (file : File) (path : Path) (len : Nat) : Command o n (List Byte) := do
  let bytes := (← orReport (cannotRead path) (file.contents len)).take len
  rejectIf (bytes.length ≠ len)
    (ascii "cannot read " ++ quoted path ++ ascii ": it ended after " ++ decimal bytes.length ++
      ascii " of its " ++ decimal len ++ ascii " bytes")
  return bytes

/-- Work on the VM, and report its error. -/
def onVm (report : ε → Command o n α) (x : EStateM ε (Vm o n) α) : Command o n α := fun s =>
  match x s.vm with
  | .ok a vm => .ok a { s with vm := vm }
  | .error e vm => report e { s with vm := vm }

/-- The flag of an executable segment. -/
def pfX : Word := 1#32

/-- Append the executable segments of an image to a list. -/
def appendCode (image : List Byte) :
    EStateM (Failure Loader.LoadError) (List Args.Range) Unit := do
  let segments ← reads fun _ => Loader.segments image
  segments.forEach fun s =>
    if s.flags &&& pfX ≠ 0#32 then
      modify fun code => code ++ [{ start := s.vaddr, len := s.filesz }]
    else pure ()

/-- Where the code of an image is, which the loader has accepted. -/
def codeOf (image : List Byte) : Command o n (List Args.Range) := fun s =>
  match appendCode image [] with
  | .ok _ code => .ok code s
  | .error (.returned _) _ => .error (.trapped .reachedUnreachable) s
  | .error (.trapped t) _ => .error (.trapped t) s

/-- An error of the ELF loader, for the report. -/
def reportElf (path : Path) : Failure Loader.LoadError → Command o n α
  | .returned .invalidElf =>
      userError (quoted path ++ ascii " is not a RISC-V ELF32 little-endian executable")
  | .returned .addressOutOfBounds =>
      userError (quoted path ++ ascii " has a segment that is not inside the " ++
        Units.memSize n.bytes ++ ascii " of VM memory" ++ memoryHint)
  | .trapped t => throw (.trapped t)

def loadElf (outside : Outside) (file : File) (path : Path) (size : Nat)
    (loadAddr : Option Word) : Command o n Loaded := do
  rejectIf (loadAddr.isSome)
    (ascii "--load-addr is for flat binaries, and " ++ quoted path ++
      ascii " is an ELF executable, which says where it goes")
  rejectIf (size > maxElf)
    (quoted path ++ ascii " is too large for an ELF executable (" ++ decimal size ++
      ascii " bytes)")
  allocate outside .image
  let image ← readExactly file path size
  let entry ← onVm (reportElf path) (Vm.loadElf image)
  let code ← codeOf image
  allocate outside .code code.isEmpty
  return { source := .elf path, entry, code }

/-- The bytes go straight into memory. -/
def loadFlat (outside : Outside) (file : File) (path : Path) (size : Nat)
    (loadAddr : Option Word) : Command o n Loaded := do
  let addr := loadAddr.getD 0#32
  let room ← reads fun _ => checkedSub n.bytes addr.toNat
  rejectIf (size > room)
    (quoted path ++ ascii " is too large: " ++ decimal size ++ ascii " bytes, and " ++
      decimal room ++ ascii " fit at " ++ wordText addr ++ ascii " in the " ++
      Units.memSize n.bytes ++ ascii " of VM memory" ++ memoryHint)
  let size ← reads fun _ => checkedCast 32 size
  let _ ← reads fun s => Disasm.wholeMemory s.vm.toMachine addr.toNat size.toNat
  let bytes ← readExactly file path size.toNat
  modify fun s => { s with vm.memory := patch s.vm.memory addr.toNat bytes }
  modify fun s => { s with vm.toMachine := s.vm.clearReservation }
  allocate outside .code
  return { source := .flat path size, entry := addr, code := [{ start := addr, len := size }] }

def loadFile (outside : Outside) (path : Path) (loadAddr : Option Word) :
    Command o n Loaded := do
  let file ← orReport (fun e => ascii "cannot open " ++ quoted path ++ ascii ": " ++
    ascii (ioText e)) (outside.openFile path)
  let size ← orReport (cannotRead path) file.stat
  let magic ← orReport (cannotRead path) file.magic
  rejectIf (size = 0) (quoted path ++ ascii " is empty")
  if Loader.isElf (magic.take 4) then loadElf outside file path size loadAddr
  else loadFlat outside file path size loadAddr

/-- Load the program that the configuration names. -/
def load (outside : Outside) (config : Args.Config) : Command o n Loaded :=
  match config.program with
  | .demo => do
      onVm (fun _ => userError (ascii "the demo program needs " ++ decimal demoProgram.length ++
          ascii " bytes of VM memory, and there are " ++ Units.memSize n.bytes ++ memoryHint))
        (Vm.onMachine (Machine.loadProgram demoProgram 0#32))
      allocate outside .code
      return { source := .demo
               entry := 0#32
               code := [{ start := 0#32, len := BitVec.ofNat 32 demoProgram.length }] }
  | .file path => loadFile outside path config.loadAddr

end Load

end Determinant
