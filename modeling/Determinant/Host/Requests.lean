import Determinant.Cpu.Commit
import Determinant.Host.Hostcall

/-!
# What a host call asks, and what is done

The registers and the memory at the ECALL determine what the guest asks for (`request`), and
with the environment what is done (`handle_eq`): one equation, in which every outcome of
`handle` is a branch. A request that is refused changes only `a0`, a write that the writer
refuses changes nothing in the machine, and a read copies the next bytes of the input.
-/

set_option autoImplicit false

namespace Determinant

open Foundations

variable {n : MemSize}

namespace Machine

/-- The bytes copied into memory at an address, with the reservation dropped if they overlap
it. -/
def place (m : Machine n) (addr : Nat) (bytes : List Byte) : Machine n :=
  { m with memory := patch m.memory addr bytes }.invalidateReservationRange addr bytes.length

theorem loadProgram_apply (program : List Byte) (offset : Word) (m : Machine n) :
    loadProgram program offset m =
      if offset.toNat + program.length ≤ n.bytes then .ok () (m.place offset.toNat program)
      else .error .addressOutOfBounds m := by
  by_cases inside : offset.toNat + program.length ≤ n.bytes
  · have checks : ¬(program.length > n.bytes ∨ offset.toNat > n.bytes - program.length) := by omega
    simp [loadProgram, checks, inside, place]
  · have checks : program.length > n.bytes ∨ offset.toNat > n.bytes - program.length := by omega
    simp [loadProgram, bind_apply, checks, inside]

end Machine

namespace Hostcall

/-- The two outputs. -/
inductive Fd where
  | stdout
  | stderr
deriving DecidableEq, Repr

/-- The descriptor that can be written to. -/
def Fd.ofWord (a0 : Word) : Option Fd :=
  if a0 = 1#32 then some .stdout else if a0 = 2#32 then some .stderr else none

/-- The number of an output. -/
def Fd.toWord : Fd → Word
  | .stdout => 1#32
  | .stderr => 2#32

theorem Fd.ofWord_eq_some {a0 : Word} {fd : Fd} : Fd.ofWord a0 = some fd ↔ a0 = fd.toWord := by
  unfold Fd.ofWord
  by_cases one : a0 = 1#32
  · cases fd <;> simp [one, Fd.toWord]
  · by_cases two : a0 = 2#32
    · cases fd <;> simp [two, Fd.toWord]
    · cases fd <;> simp [one, two, Fd.toWord]

/-- What the guest asks for. -/
inductive Request where
  | exit (status : Word)
  | unknown (number : Word)
  /-- A read or a write of a descriptor that it does not have. -/
  | badFd
  /-- A read or a write of a buffer that does not lie inside memory. -/
  | badBuffer
  /-- A write of these bytes. -/
  | write (fd : Fd) (bytes : List Byte)
  /-- A read of at most `len` bytes into a buffer of that size. -/
  | read (addr len : Word)
deriving DecidableEq, Repr

/-- The request in the registers. -/
def request (m : Machine n) : Request :=
  let a0 := m.readReg 10#5
  let buffer := guestBytes m (m.readReg 11#5) (m.readReg 12#5)
  match Call.ofNumber (m.readReg 17#5) with
  | .exit | .exitGroup => .exit a0
  | .other => .unknown (m.readReg 17#5)
  | .write =>
      match Fd.ofWord a0, buffer with
      | some fd, some bytes => .write fd bytes
      | some _, none => .badBuffer
      | none, _ => .badFd
  | .read =>
      if a0 = 0#32 then
        match buffer with
        | some _ => .read (m.readReg 11#5) (m.readReg 12#5)
        | none => .badBuffer
      else .badFd

namespace Env

/-- The output of a descriptor. -/
def out (env : Env) : Fd → Writer
  | .stdout => env.stdout
  | .stderr => env.stderr

def setOut (env : Env) (w : Writer) : Fd → Env
  | .stdout => { env with stdout := w }
  | .stderr => { env with stderr := w }

/-- The next bytes of the input, at most `len`. -/
def next (env : Env) (len : Word) : List Byte :=
  (env.input.drop env.inputPos).take (min len.toNat (env.input.length - env.inputPos))

end Env

/-- A buffer is found when it lies inside memory. -/
theorem guestBytes_eq_some {m : Machine n} {addr len : Word} {bytes : List Byte} :
    guestBytes m addr len = some bytes ↔
      ∃ inside : addr.toNat + len.toNat ≤ n.bytes,
        slice m.memory addr.toNat len.toNat inside = bytes := by
  unfold guestBytes
  by_cases inside : addr.toNat + len.toNat ≤ n.bytes
  · have checks : ¬(len.toNat > n.bytes ∨ addr.toNat > n.bytes - len.toNat) := by omega
    simp [checks, inside]
  · have checks : len.toNat > n.bytes ∨ addr.toNat > n.bytes - len.toNat := by omega
    simp [checks, inside]

/-- The reads that are performed. -/
theorem request_eq_read {m : Machine n} {addr len : Word} :
    request m = .read addr len ↔
      Call.ofNumber (m.readReg 17#5) = .read ∧ m.readReg 10#5 = 0#32 ∧
        m.readReg 11#5 = addr ∧ m.readReg 12#5 = len ∧ addr.toNat + len.toNat ≤ n.bytes := by
  simp only [request]
  cases call : Call.ofNumber (m.readReg 17#5) with
  | exit | exitGroup | other => simp
  | write => cases Fd.ofWord (m.readReg 10#5) <;> cases guestBytes m _ _ <;> simp
  | read =>
      by_cases zero : m.readReg 10#5 = 0#32
      · cases buffer : guestBytes m (m.readReg 11#5) (m.readReg 12#5) with
        | none =>
            have outside : ¬(m.readReg 11#5).toNat + (m.readReg 12#5).toNat ≤ n.bytes := by
              intro inside
              rw [guestBytes_eq_some.2 ⟨inside, rfl⟩] at buffer
              cases buffer
            simp only [zero, if_true, reduceCtorEq, false_iff]
            rintro ⟨_, _, rfl, rfl, inside⟩
            exact outside inside
        | some bytes =>
            obtain ⟨inside, _⟩ := guestBytes_eq_some.1 buffer
            simp only [zero, if_true, Request.read.injEq, true_and]
            constructor
            · rintro ⟨rfl, rfl⟩
              exact ⟨rfl, rfl, inside⟩
            · rintro ⟨rfl, rfl, _⟩
              exact ⟨rfl, rfl⟩
      · simp [zero]

theorem Call.ofNumber_eq_write {number : Word} :
    Call.ofNumber number = .write ↔ number = 64#32 := by
  unfold Call.ofNumber
  split <;> simp_all

/-- The writes that are performed. -/
theorem request_eq_write {m : Machine n} {fd : Fd} {bytes : List Byte} :
    request m = .write fd bytes ↔
      Call.ofNumber (m.readReg 17#5) = .write ∧ Fd.ofWord (m.readReg 10#5) = some fd ∧
        guestBytes m (m.readReg 11#5) (m.readReg 12#5) = some bytes := by
  simp only [request]
  cases call : Call.ofNumber (m.readReg 17#5) with
  | exit | exitGroup | other => simp
  | write => cases Fd.ofWord (m.readReg 10#5) <;> cases guestBytes m _ _ <;> simp
  | read =>
      by_cases zero : m.readReg 10#5 = 0#32
      · cases guestBytes m (m.readReg 11#5) (m.readReg 12#5) <;> simp [zero]
      · simp [zero]

theorem Env.length_next_le (env : Env) (len : Word) : (env.next len).length ≤ len.toNat := by
  simp only [Env.next, List.length_take, List.length_drop]
  omega

/-- The copy of a read never fails: the buffer was checked. -/
theorem handle_read {m : Machine n} {env : Env} (call : Call.ofNumber (m.readReg 17#5) = .read)
    (fd : m.readReg 10#5 = 0#32) {bytes : List Byte}
    (buffer : guestBytes m (m.readReg 11#5) (m.readReg 12#5) = some bytes) :
    handle (m, env) =
      if env.inputPos ≤ env.input.length then
        .ok .resumed
          ((m.place (m.readReg 11#5).toNat (env.next (m.readReg 12#5))).writeReg 10#5
            (BitVec.ofNat 32 (env.next (m.readReg 12#5)).length),
            { env with inputPos := env.inputPos + (env.next (m.readReg 12#5)).length })
      else .error (.trapped .overflow) (m, env) := by
  obtain ⟨inside, _⟩ := guestBytes_eq_some.1 buffer
  simp only [handle, bind_apply, get_apply, call, fd, buffer, ne_eq, not_true_eq_false,
    if_false, reads]
  by_cases before : env.inputPos ≤ env.input.length
  · have taken : env.inputPos + min (m.readReg 12#5).toNat (env.input.length - env.inputPos) ≤
        env.input.length := by omega
    have long : min (m.readReg 12#5).toNat (env.input.length - env.inputPos) =
        (env.next (m.readReg 12#5)).length := by
      simp only [Env.next, List.length_take, List.length_drop]
      omega
    have short := Nat.lt_of_le_of_lt (env.length_next_le (m.readReg 12#5)) (m.readReg 12#5).isLt
    have number : (BitVec.ofNat 32 (env.next (m.readReg 12#5)).length).toNat =
        (env.next (m.readReg 12#5)).length := by
      rw [BitVec.toNat_ofNat, Nat.mod_eq_of_lt short]
    have chunk : (checkedRange env.input env.inputPos (env.next (m.readReg 12#5)).length :
        Except (Failure WriteError) (List Byte)) = .ok (env.next (m.readReg 12#5)) := by
      rw [← long]
      exact checkedRange_ok taken
    have copied := m.loadProgram_apply (env.next (m.readReg 12#5)) (m.readReg 11#5)
    rw [if_pos (by have := env.length_next_le (m.readReg 12#5); omega)] at copied
    rw [if_pos before, checkedSub_ok before]
    simp only [long, checkedCast_ok short, number, chunk, onPart, loadProgramOrTrap,
      adaptExcept_apply, copied]
    rfl
  · rw [if_neg before, checkedSub, if_neg before]

/-- **What handling a call does.** -/
theorem handle_eq (m : Machine n) (env : Env) :
    handle (m, env) =
      match request m with
      | .exit status => .ok (.exit status) (m, env)
      | .unknown number => .ok (.unknown number) (m, env)
      | .badFd => .ok .resumed (m.writeReg 10#5 ebadf, env)
      | .badBuffer => .ok .resumed (m.writeReg 10#5 efault, env)
      | .write fd bytes =>
          match Writer.writeAll bytes (env.out fd) with
          | .ok _ w => .ok .resumed (m.writeReg 10#5 (m.readReg 12#5), env.setOut w fd)
          | .error e w => .error (.returned e) (m, env.setOut w fd)
      | .read addr len =>
          if env.inputPos ≤ env.input.length then
            .ok .resumed
              ((m.place addr.toNat (env.next len)).writeReg 10#5
                (BitVec.ofNat 32 (env.next len).length),
                { env with inputPos := env.inputPos + (env.next len).length })
          else .error (.trapped .overflow) (m, env) := by
  cases call : Call.ofNumber (m.readReg 17#5) with
  | exit | exitGroup | other =>
      simp only [handle, request, bind_apply, get_apply, call]
      rfl
  | write =>
      simp only [handle, request, bind_apply, get_apply, call]
      by_cases one : m.readReg 10#5 = 1#32
      · have fd : Fd.ofWord 1#32 = some .stdout := rfl
        simp only [one, fd]
        cases guestBytes m (m.readReg 11#5) (m.readReg 12#5) with
        | none => rfl
        | some bytes =>
            simp only [bind_apply, toStdout, adaptExcept_apply, onPart, Env.out]
            cases Writer.writeAll bytes env.stdout <;> rfl
      · by_cases two : m.readReg 10#5 = 2#32
        · have fd : Fd.ofWord 2#32 = some .stderr := rfl
          simp only [two, fd]
          cases guestBytes m (m.readReg 11#5) (m.readReg 12#5) with
          | none => rfl
          | some bytes =>
              simp only [bind_apply, toStderr, adaptExcept_apply, onPart, Env.out]
              cases Writer.writeAll bytes env.stderr <;> rfl
        · simp only [Fd.ofWord, one, two, if_false]
          rfl
  | read =>
      by_cases zero : m.readReg 10#5 = 0#32
      · cases buffer : guestBytes m (m.readReg 11#5) (m.readReg 12#5) with
        | none =>
            simp only [handle, request, bind_apply, get_apply, call, zero, buffer, ne_eq,
              not_true_eq_false, if_false, if_true]
            rfl
        | some bytes =>
            rw [handle_read call zero buffer]
            simp only [request, call, zero, buffer, if_true]
      · simp only [handle, request, bind_apply, get_apply, call, zero, ne_eq, not_false_eq_true,
          if_true, if_false]
        rfl

end Hostcall

end Determinant
