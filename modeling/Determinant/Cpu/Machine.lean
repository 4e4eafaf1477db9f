import Determinant.Decoders.Branch
import Determinant.Foundations.Regions
import Mathlib.Logic.Function.Basic

/-!
# The state of the virtual machine

A machine is the program counter, the registers, the memory and the other fields of the VM
except its decode cache; a `Vm` adds the cache. The size of the memory is a type parameter
that carries the proof that it is valid, so that a bounds check of the source is all that a
read of memory needs: `slice` asks for the proof that the region is inside, and
`MemSize.inside_of_le` gives it.

Methods that cannot fail are functions on machines. Methods that only look are functions to
`Except`. Methods that write and may fail are computations that keep their state when they
fail, so that a write made before an error would show.
-/

set_option autoImplicit false

namespace Determinant

open Foundations

/-! ## Sizes and options -/

/-- Whether a VM can have `len` bytes of memory. -/
def validMemorySize (len : Nat) : Prop := 4 ≤ len ∧ len % 4 = 0 ∧ len ≤ 0xFFFFFFFF

instance (len : Nat) : Decidable (validMemorySize len) := by
  unfold validMemorySize
  infer_instance

/-- A size that a memory can have. -/
@[ext]
structure MemSize where
  bytes : Nat
  valid : validMemorySize bytes
deriving DecidableEq

namespace MemSize

variable {n : MemSize}

/-- The size as a word: `memSize()`. -/
def toWord (n : MemSize) : Word := BitVec.ofNat 32 n.bytes

@[simp] theorem toNat_toWord (n : MemSize) : n.toWord.toNat = n.bytes := by
  have := n.valid.2.2
  rw [toWord, BitVec.toNat_ofNat]
  omega

/-- The bounds checks subtract at most 4 from the size, which does not wrap. -/
theorem le_sub_iff {k : Word} (small : k ≤ 4#32) (addr : Word) :
    addr ≤ n.toWord - k ↔ addr.toNat + k.toNat ≤ n.bytes := by
  have large := n.valid.1
  have small' : k.toNat ≤ 4 := small
  have le : k ≤ n.toWord := by
    rw [BitVec.le_def, toNat_toWord]
    omega
  rw [BitVec.le_def, BitVec.toNat_sub_of_le le, toNat_toWord]
  omega

theorem inside_of_le {k : Word} (small : k ≤ 4#32) {addr : Word}
    (checked : ¬addr > n.toWord - k) : addr.toNat + k.toNat ≤ n.bytes := by
  rw [← le_sub_iff small]
  exact BitVec.not_lt.1 checked

theorem inside_of_lt {addr : Word} (checked : ¬addr ≥ n.toWord) : addr.toNat < n.bytes := by
  rw [← toNat_toWord]
  exact BitVec.lt_def.1 (BitVec.not_le.1 checked)

end MemSize

/-- The smallest memory, and one of two words, for small programs. -/
def MemSize.four : MemSize := ⟨4, by decide⟩

def MemSize.eight : MemSize := ⟨8, by decide⟩

/-- The configuration of a VM type that is fixed when it is compiled. -/
structure Options where
  decode : Word → Except DecodeError Instruction := Determinant.decode
  decodeCacheEntries : Word := 4096#32
  /-- The compile-time check: the cache is off, or its size is a power of two. -/
  valid : decodeCacheEntries = 0#32 ∨ ∃ k, decodeCacheEntries.toNat = 2 ^ k

/-- The default decoder without a cache. -/
def Options.uncached : Options := { decodeCacheEntries := 0#32, valid := .inl rfl }

/-! ## The state -/

/-- The VM without its decode cache. -/
@[ext]
structure Machine (n : MemSize) where
  pc : Word
  regs : Reg → Word
  memory : Fin n.bytes → Byte
  cycleCount : Count
  reservation : Option Word
  csrs : Zicsr.Csr
  /-- The address of the ECALL or EBREAK that last stopped a step. -/
  stopPc : Word

/-- The whole VM. -/
@[ext]
structure Vm (o : Options) (n : MemSize) extends Machine n where
  decodeCache : Fin o.decodeCacheEntries.toNat → Instruction

/-- Marks an empty slot of the cache. -/
def emptySlot : Instruction := { op := .i .ecall, raw := 0xFFFFFFFC#32 }

variable {n : MemSize}

namespace Machine

/-- `reset`, except for the cache. -/
def reset : Machine n :=
  { pc := 0#32, regs := fun _ => 0#32, memory := fun _ => 0#8, cycleCount := 0#64,
    reservation := none, csrs := {}, stopPc := 0#32 }

/-- The states that the methods of the VM maintain: x0 is zero, and a reservation is on an
aligned word inside memory. -/
structure WellFormed (m : Machine n) : Prop where
  x0 : m.regs 0#5 = 0#32
  reserved : ∀ addr, m.reservation = some addr → addr.toNat % 4 = 0 ∧ addr.toNat + 4 ≤ n.bytes

/-! ## Registers -/

/-- Read a register; x0 is always 0. -/
def readReg (m : Machine n) (reg : Reg) : Word := if reg = 0#5 then 0#32 else m.regs reg

/-- Write a register, and then restore `regs[0] = 0`. -/
def writeReg (m : Machine n) (reg : Reg) (value : Word) : Machine n :=
  { m with regs := Function.update (Function.update m.regs reg value) 0#5 0#32 }

/-! ## The reservation -/

def clearReservation (m : Machine n) : Machine n := { m with reservation := none }

/-- Drop the reservation if a write at `addr` overlaps the reserved word. -/
def invalidateReservation (m : Machine n) (addr : Word) : Machine n :=
  match m.reservation with
  | some resAddr =>
      if addr &&& 0xFFFFFFFC#32 = resAddr then { m with reservation := none } else m
  | none => m

/-- Drop the reservation if the bytes `[start, start + len)` overlap the reserved word. -/
def invalidateReservationRange (m : Machine n) (start len : Nat) : Machine n :=
  match m.reservation with
  | some resAddr =>
      let res := resAddr.toNat
      if len ≠ 0 ∧ start < res + 4 ∧ res < start + len then { m with reservation := none } else m
  | none => m

/-- Both are filters on the reservation, and change nothing else. -/
theorem invalidateReservation_eq (m : Machine n) (addr : Word) :
    m.invalidateReservation addr =
      { m with reservation := m.reservation.filter fun res => addr &&& 0xFFFFFFFC#32 ≠ res } := by
  obtain ⟨pc, regs, memory, cycleCount, reservation, csrs, stopPc⟩ := m
  cases reservation with
  | none => rfl
  | some res => by_cases overlap : addr &&& 0xFFFFFFFC#32 = res <;>
      simp [invalidateReservation, Option.filter, overlap]

theorem invalidateReservationRange_eq (m : Machine n) (start len : Nat) :
    m.invalidateReservationRange start len =
      { m with
        reservation := m.reservation.filter fun res =>
          ¬(len ≠ 0 ∧ start < res.toNat + 4 ∧ res.toNat < start + len) } := by
  obtain ⟨pc, regs, memory, cycleCount, reservation, csrs, stopPc⟩ := m
  cases reservation with
  | none => rfl
  | some res =>
      by_cases overlap : len ≠ 0 ∧ start < res.toNat + 4 ∧ res.toNat < start + len <;>
        simp [invalidateReservationRange, Option.filter, overlap]

/-! ## Reading memory -/

/-- The instruction at `pc`: a 16-bit one zero-extended, or a 32-bit one. -/
def fetch (m : Machine n) : Except StepError Word :=
  if m.pc % 2#32 ≠ 0#32 then .error .misalignedPC
  else if low : m.pc > n.toWord - 2#32 then .error .pcOutOfBounds
  else
    let half : Half :=
      readInt 16 (slice m.memory m.pc.toNat 2 (MemSize.inside_of_le (k := 2#32) (by decide) low))
    if isCompressed (half.setWidth 32) then .ok (half.setWidth 32)
    else if high : m.pc > n.toWord - 4#32 then .error .pcOutOfBounds
    else
      .ok (readInt 32
        (slice m.memory m.pc.toNat 4 (MemSize.inside_of_le (k := 4#32) (by decide) high)))

/-- Alignment, and then bounds. -/
def checkWordAccess (n : MemSize) (addr : Word) : Except StepError Unit :=
  if addr % 4#32 ≠ 0#32 then .error .misalignedAccess
  else if addr > n.toWord - 4#32 then .error .addressOutOfBounds
  else .ok ()

theorem inside_of_check {addr : Word} (checked : checkWordAccess n addr = .ok ()) :
    addr.toNat + 4 ≤ n.bytes := by
  unfold checkWordAccess at checked
  split at checked
  · cases checked
  · split at checked
    · cases checked
    · rename_i high
      exact MemSize.inside_of_le (k := 4#32) (by decide) high

def readByte (m : Machine n) (addr : Word) : Except StepError Byte :=
  if high : addr ≥ n.toWord then .error .addressOutOfBounds
  else .ok (m.memory ⟨addr.toNat, MemSize.inside_of_lt high⟩)

def readHalfword (m : Machine n) (addr : Word) : Except StepError Half :=
  if addr % 2#32 ≠ 0#32 then .error .misalignedAccess
  else if high : addr > n.toWord - 2#32 then .error .addressOutOfBounds
  else
    .ok (readInt 16
      (slice m.memory addr.toNat 2 (MemSize.inside_of_le (k := 2#32) (by decide) high)))

def readWord (m : Machine n) (addr : Word) : Except StepError Word :=
  match checked : checkWordAccess n addr with
  | .error e => .error e
  | .ok () => .ok (readInt 32 (slice m.memory addr.toNat 4 (inside_of_check checked)))

/-! ## Writing memory -/

def writeByte (addr : Word) (value : Byte) : EStateM StepError (Machine n) Unit := do
  if addr ≥ n.toWord then throw .addressOutOfBounds
  modify fun m => { m with memory := patch m.memory addr.toNat [value] }
  modify fun m => m.invalidateReservation addr

def writeHalfword (addr : Word) (value : Half) : EStateM StepError (Machine n) Unit := do
  if addr % 2#32 ≠ 0#32 then throw .misalignedAccess
  if addr > n.toWord - 2#32 then throw .addressOutOfBounds
  modify fun m => { m with memory := patch m.memory addr.toNat (writeInt 2 value) }
  modify fun m => m.invalidateReservation addr

def writeWord (addr value : Word) : EStateM StepError (Machine n) Unit := do
  reads fun _ => checkWordAccess n addr
  modify fun m => { m with memory := patch m.memory addr.toNat (writeInt 4 value) }
  modify fun m => m.invalidateReservation addr

/-- Load program bytes into memory at an offset. -/
def loadProgram (program : List Byte) (offset : Word) : EStateM StepError (Machine n) Unit := do
  let off := offset.toNat
  if program.length > n.bytes ∨ off > n.bytes - program.length then throw .addressOutOfBounds
  modify fun m => { m with memory := patch m.memory off program }
  modify fun m => m.invalidateReservationRange off program.length

end Machine

namespace Vm

variable {o : Options}

/-- The power-on state. -/
def reset : Vm o n := { Machine.reset with decodeCache := fun _ => emptySlot }

/-- Run a method of the machine on the VM; the cache is not its concern. -/
def onMachine {ε α : Type} (x : EStateM ε (Machine n) α) : EStateM ε (Vm o n) α :=
  onPart Vm.toMachine (fun m vm => { vm with toMachine := m }) x

end Vm

end Determinant
