import Determinant.Cpu.Execute
import Determinant.Foundations.Streams

/-!
# Snapshots

A snapshot is a header of fixed size and the image of the memory. `encodeHeader` writes the
fields into a buffer that the source leaves undefined, so the buffer's old contents are a
parameter here. `restoreSnapshot` validates the whole header before it sets any field, and
then reads the image straight into the memory: a reader that fails there leaves the machine
partly restored. `memorySize` parses the first fields a third time, for a host that has to
allocate the memory first.
-/

set_option autoImplicit false

namespace Determinant

open Foundations

namespace Snapshot

/-- `"DTRM"`. -/
def magic : List Byte := [0x44#8, 0x54#8, 0x52#8, 0x4D#8]

def version : Word := 1#32

/-- The length of the header. The fields are the magic at 0, the version at 4, the memory size
at 8, `pc` at 12, the registers from 16, `cycle_count` at 144, whether there is a reservation
at 152, its address at 156 and `mscratch` at 160. -/
def headerLen : Nat := 164

/-- The bytes of a buffer for the header. -/
abbrev Header := Fin headerLen → Byte

/-- Errors of `restoreSnapshot`. -/
inductive RestoreError where
  | invalidSnapshot
  | read (e : ReadError)
deriving DecidableEq, Repr

variable {n : MemSize}

/-! ## Writing -/

/-- Everything except the memory, in the header; `buf` is what the buffer holds before. -/
def encodeHeader (buf : Header) (m : Machine n) : Header :=
  let buf := patch buf 0 magic
  let buf := patch buf 4 (writeInt 4 version)
  let buf := patch buf 8 (writeInt 4 n.toWord)
  let buf := patch buf 12 (writeInt 4 m.pc)
  let buf := patchChunks buf 16 4 (fun i => writeInt 4 (m.regs (BitVec.ofNat 5 i))) 32
  let buf := patch buf 144 (writeInt 8 m.cycleCount)
  let buf := patch buf 152 (writeInt 4 (if m.reservation.isSome then 1#32 else 0#32))
  let buf := patch buf 156 (writeInt 4 (m.reservation.getD 0#32))
  patch buf 160 (writeInt 4 m.csrs.mscratch)

/-- Write the header and then the memory. -/
def writeSnapshot (buf : Header) (m : Machine n) : EStateM WriteError Writer Unit := do
  Writer.writeAll (slice (encodeHeader buf m) 0 headerLen (whole_inside _))
  Writer.writeAll (slice m.memory 0 n.bytes (whole_inside _))

/-! ## Reading -/

/-- The word at an offset of the header. -/
def readU32 (hdr : Header) (offset : Nat) (inside : offset + 4 ≤ headerLen := by decide) : Word :=
  readInt 32 (slice hdr offset 4 inside)

/-- The checks that `restoreSnapshot` makes before it changes anything. -/
def checkHeader (n : MemSize) (hdr : Header) : Except RestoreError Unit := do
  if slice hdr 0 4 (by decide) ≠ magic then throw .invalidSnapshot
  if readU32 hdr 4 ≠ version then throw .invalidSnapshot
  if readU32 hdr 8 ≠ n.toWord then throw .invalidSnapshot
  if readU32 hdr 16 ≠ 0#32 then throw .invalidSnapshot
  let resValid := readU32 hdr 152
  let resAddr := readU32 hdr 156
  match resValid with
  | 0#32 => if resAddr ≠ 0#32 then throw .invalidSnapshot
  | 1#32 => if resAddr % 4#32 ≠ 0#32 ∨ resAddr > n.toWord - 4#32 then throw .invalidSnapshot
  | _ => throw .invalidSnapshot

/-- What can be wrong with a header: the magic, the version, the memory size, a nonzero
`regs[0]`, a flag that is none, an address without a reservation, or a reservation that is not
of a word in memory. -/
def Malformed (n : MemSize) (hdr : Header) : Prop :=
  slice hdr 0 4 (by decide) ≠ magic ∨ readU32 hdr 4 ≠ version ∨ readU32 hdr 8 ≠ n.toWord ∨
    readU32 hdr 16 ≠ 0#32 ∨ (readU32 hdr 152 ≠ 0#32 ∧ readU32 hdr 152 ≠ 1#32) ∨
    (readU32 hdr 152 = 0#32 ∧ readU32 hdr 156 ≠ 0#32) ∨
    (readU32 hdr 152 = 1#32 ∧
      ((readU32 hdr 156).toNat % 4 ≠ 0 ∨ n.bytes - 4 < (readU32 hdr 156).toNat))

/-- The machine with the fields of a header. -/
def setHeader (hdr : Header) (m : Machine n) : Machine n :=
  { m with
    pc := readU32 hdr 12
    regs := fun reg => readU32 hdr (16 + 4 * reg.toNat) (by
      have := reg.isLt
      unfold headerLen
      omega)
    cycleCount := readInt 64 (slice hdr 144 8 (by decide))
    reservation := if readU32 hdr 152 = 1#32 then some (readU32 hdr 156) else none
    csrs := { mscratch := readU32 hdr 160 } }

/-- Restore the machine from a stream; the result is what is left of the stream. -/
def restoreSnapshot (buf : Header) (r : Reader) : EStateM RestoreError (Machine n) Reader := do
  let (delivered, rest) := r.readSliceAll headerLen
  let r ← EStateM.adaptExcept RestoreError.read (reads fun _ => rest)
  let hdr := patch buf 0 delivered
  reads fun _ => checkHeader n hdr
  modify (setHeader hdr)
  let (delivered, rest) := r.readSliceAll n.bytes
  modify fun m => { m with memory := patch m.memory 0 delivered }
  EStateM.adaptExcept RestoreError.read (reads fun _ => rest)

/-- The memory size in the header, from the first bytes of a snapshot. -/
def memorySize (start : List Byte) : Except RestoreError Word := do
  if start.length < 12 then throw .invalidSnapshot
  if start.take 4 ≠ magic then throw .invalidSnapshot
  if (readInt 32 ((start.drop 4).take 4) : Word) ≠ version then throw .invalidSnapshot
  let size : Word := readInt 32 ((start.drop 8).take 4)
  if size < 4#32 ∨ size % 4#32 ≠ 0#32 then throw .invalidSnapshot
  return size

end Snapshot

/-! ## The methods of the VM -/

namespace Vm

variable {o : Options} {n : MemSize}

/-- The size of a snapshot. -/
def snapshotSize (_ : Vm o n) : Nat := Snapshot.headerLen + n.bytes

def writeSnapshot (buf : Snapshot.Header) (vm : Vm o n) : EStateM WriteError Writer Unit :=
  Snapshot.writeSnapshot buf vm.toMachine

/-- Restoring also empties the decode cache and forgets the last stop, unless it fails. -/
def restoreSnapshot (buf : Snapshot.Header) (r : Reader) :
    EStateM Snapshot.RestoreError (Vm o n) Reader := do
  let rest ← onMachine (Snapshot.restoreSnapshot buf r)
  modify fun vm => { vm with decodeCache := fun _ => emptySlot }
  modify fun vm => { vm with stopPc := 0#32 }
  return rest

end Vm

/-- The memory size that a snapshot holds. -/
def snapshotMemorySize (start : List Byte) : Except Snapshot.RestoreError Word :=
  Snapshot.memorySize start

end Determinant
