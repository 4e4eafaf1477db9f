import Determinant.Host.Hostcall

/-!
# The ELF loader

`loadElf` parses an image of arbitrary bytes and copies its PT_LOAD segments into memory. All
offsets are 64-bit integers. The sums and products, the reads of the image, the range of
memory that is zeroed and the copy that cannot fail are checked when they are executed, so
that a missing check of the source would show as a trap. The segments are enumerated three
times with the same cursor, by `parse`, by the check against the size of the memory, and by
the loop that loads.
-/

set_option autoImplicit false

namespace Determinant

open Foundations

namespace Loader

inductive LoadError where
  /-- Not a RISC-V ELF32 little-endian executable, or a malformed one. -/
  | invalidElf
  /-- A segment does not fit inside the VM's memory. -/
  | addressOutOfBounds
deriving DecidableEq, Repr

/-- A function of the loader that returns no machine. -/
abbrev Parsing (α : Type) := Except (Failure LoadError) α

def elfHeaderLen : Nat := 52
def programHeaderLen : Nat := 32
def elfclass32 : Nat := 1
def elfdata2lsb : Nat := 1
def evCurrent : Nat := 1
def etExec : Nat := 2
def emRiscv : Nat := 243
def ptLoad : Nat := 1

/-- `"\x7fELF"`. -/
def magic : List Byte := [0x7F#8, 0x45#8, 0x4C#8, 0x46#8]

/-! ## Reading the image -/

/-- Whether the image starts with the ELF magic. -/
def isElf (image : List Byte) : Bool := 4 ≤ image.length ∧ image.take 4 = magic

def byteAt (image : List Byte) (offset : Nat) : Parsing Byte := do
  let bytes ← checkedRange image offset 1
  return readInt 8 bytes

def u16At (image : List Byte) (offset : Nat) : Parsing Half := do
  let bytes ← checkedRange image offset 2
  return readInt 16 bytes

def u32At (image : List Byte) (offset : Nat) : Parsing Word := do
  let bytes ← checkedRange image offset 4
  return readInt 32 bytes

/-! ## Segments -/

/-- A PT_LOAD segment: `filesz` bytes at `offset` in the file go to `vaddr`, and the rest of
`memsz` is zero-filled. -/
structure Segment where
  offset : Word
  vaddr : Word
  filesz : Word
  memsz : Word
  flags : Word
deriving DecidableEq, Repr

/-- The PT_LOAD segment described at `offset`, or nothing for other segment types. -/
def segment (image : List Byte) (offset : Nat) : Parsing (Option Segment) := do
  if (← u32At image offset).toNat ≠ ptLoad then return none
  return some
    { offset := ← u32At image (← checkedAdd 64 offset 4)
      vaddr := ← u32At image (← checkedAdd 64 offset 8)
      filesz := ← u32At image (← checkedAdd 64 offset 16)
      memsz := ← u32At image (← checkedAdd 64 offset 20)
      flags := ← u32At image (← checkedAdd 64 offset 24) }

/-- The PT_LOAD segments of an image, in the order of the program headers: a cursor. -/
structure Segments where
  image : List Byte
  phoff : Nat
  phentsize : Nat
  phnum : Nat
  index : Nat := 0
deriving DecidableEq, Repr

namespace Segments

/-- The next segment, and the cursor behind it. -/
def next (s : Segments) : Parsing (Option Segment × Segments) :=
  if s.index < s.phnum then do
    let ph ← checkedAdd 64 s.phoff (← checkedMul 64 s.index s.phentsize)
    let _ ← checkedAdd 64 s.index 1
    let rest := { s with index := s.index + 1 }
    match ← segment s.image ph with
    | some found => return (some found, rest)
    | none => rest.next
  else return (none, s)
termination_by s.phnum - s.index

/-- A cursor that has found a segment has moved. -/
theorem next_decreases {s rest : Segments} {found : Segment}
    (moved : s.next = .ok (some found, rest)) :
    rest.phnum - rest.index < s.phnum - s.index := by
  induction steps : s.phnum - s.index generalizing s with
  | zero =>
      have atEnd : ¬s.index < s.phnum := by omega
      rw [next, if_neg atEnd] at moved
      cases moved
  | succ k ih =>
      have before : s.index < s.phnum := by omega
      rw [next, if_pos before] at moved
      obtain ⟨_, _, moved⟩ := bind_eq_ok.1 moved
      obtain ⟨_, _, moved⟩ := bind_eq_ok.1 moved
      obtain ⟨_, _, moved⟩ := bind_eq_ok.1 moved
      obtain ⟨header, _, moved⟩ := bind_eq_ok.1 moved
      cases header with
      | some _ =>
          cases moved
          dsimp only
          omega
      | none =>
          have later := ih moved (by dsimp only; omega)
          omega

/-- `while (segments.next()) |segment|` with this body. -/
def forEach {m : Type → Type} [Monad m] [MonadExceptOf (Failure LoadError) m]
    (body : Segment → m Unit) (s : Segments) : m Unit :=
  match _moved : s.next with
  | .error e => throw e
  | .ok (none, _) => pure ()
  | .ok (some found, rest) => do
      body found
      rest.forEach body
termination_by s.phnum - s.index
decreasing_by exact next_decreases _moved

end Segments

/-! ## Parsing -/

/-- The entry point and the segments of a valid image. -/
structure Elf where
  entry : Word
  segments : Segments
deriving DecidableEq, Repr

/-- Everything is checked except where the segments go in memory. -/
def parse (image : List Byte) : Parsing Elf := do
  refuseIf .invalidElf (image.length < elfHeaderLen ∨ ¬isElf image)
  refuseIf .invalidElf ((← byteAt image 4).toNat ≠ elfclass32)
  refuseIf .invalidElf ((← byteAt image 5).toNat ≠ elfdata2lsb)
  refuseIf .invalidElf ((← byteAt image 6).toNat ≠ evCurrent)
  refuseIf .invalidElf ((← u16At image 16).toNat ≠ etExec)
  refuseIf .invalidElf ((← u16At image 18).toNat ≠ emRiscv)
  refuseIf .invalidElf ((← u32At image 20).toNat ≠ evCurrent)
  let entry ← u32At image 24
  let phoff := (← u32At image 28).toNat
  let phentsize := (← u16At image 42).toNat
  let phnum := (← u16At image 44).toNat
  refuseIf .invalidElf (entry % 2#32 ≠ 0#32)
  refuseIf .invalidElf (phnum ≠ 0 ∧ phentsize < programHeaderLen)
  refuseIf .invalidElf
    ((← checkedAdd 64 phoff (← checkedMul 64 phentsize phnum)) > image.length)
  let all : Segments := { image := image, phoff := phoff, phentsize := phentsize, phnum := phnum }
  all.forEach fun s => do
    refuseIf .invalidElf ((← checkedAdd 64 s.offset.toNat s.filesz.toNat) > image.length)
    refuseIf .invalidElf (s.filesz > s.memsz)
  return { entry := entry, segments := all }

/-- The PT_LOAD segments of an executable. Whether they fit in a memory is not checked. -/
def segments (image : List Byte) : Parsing Segments := do
  return (← parse image).segments

/-! ## Loading -/

variable {n : MemSize}

/-- A function of the loader that changes the machine. -/
abbrev Loading (n : MemSize) (α : Type) := EStateM (Failure LoadError) (Machine n) α

/-- `@memset(vm.memory[start..stop], 0)`. -/
def zeroFill (start stop : Nat) : Loading n Unit := do
  if ¬(start ≤ stop ∧ stop ≤ n.bytes) then throw (.trapped .outOfRange)
  modify fun m => { m with memory := patch m.memory start (List.replicate (stop - start) 0#8) }

/-- Load every PT_LOAD segment and return the entry point. -/
def loadElf (image : List Byte) : Loading n Word := do
  let elf ← reads fun _ => parse image
  let memSize := n.bytes
  elf.segments.forEach fun s => reads fun _ => do
    refuseIf .addressOutOfBounds ((← checkedAdd 64 s.vaddr.toNat s.memsz.toNat) > memSize)
  elf.segments.forEach fun s => do
    let program ← reads fun _ => checkedRange image s.offset.toNat s.filesz.toNat
    Hostcall.loadProgramOrTrap program s.vaddr
    let bssStart ← reads fun _ => checkedAdd 64 s.vaddr.toNat s.filesz.toNat
    let bssEnd ← reads fun _ => checkedAdd 64 s.vaddr.toNat s.memsz.toNat
    if bssEnd > bssStart then
      zeroFill bssStart bssEnd
      modify Machine.clearReservation
  return elf.entry

end Loader

/-- Load an executable into the VM; the cache is not its concern. -/
def Vm.loadElf {o : Options} {n : MemSize} (image : List Byte) :
    EStateM (Failure Loader.LoadError) (Vm o n) Word :=
  onMachine (Loader.loadElf image)

end Determinant
