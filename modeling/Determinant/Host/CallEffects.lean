import Determinant.Host.GuestIo
import Determinant.Host.Reservations

/-!
# What a host call touches

For each thing that a guest can ask for, everything that handling the call changes
(`Vm.CallEffects`): nothing for an exit or an unknown number, `a0` for a refused request and
for a write, and `a0`, the bytes of the buffer, and the reservation of a word that gets one of
them for a read. Writing `a0` puts zero in `regs[0]`, whatever a host has put there. None of the
checks of the handler fails as long as the position in the input is one (`Vm.call_effects`).
-/

set_option autoImplicit false

namespace Determinant

open Foundations Hostcall

variable {n : MemSize} {o : Options}

namespace Vm

/-- A result in `a0` is the only difference, but that `regs[0]` is zero. -/
structure Answered (vm vm' : Vm o n) (result : Word) : Prop where
  regs : vm'.regs = Function.update (Function.update vm.regs 10#5 result) 0#5 0#32
  rest : { vm' with regs := vm.regs } = vm

/-- Bytes stored at an address and their number in `a0` are the only difference, but that the
reservation of a word that got one of them is gone, and that `regs[0]` is zero. -/
structure Filled (vm vm' : Vm o n) (addr : Word) (bytes : List Byte) : Prop where
  regs : vm'.regs =
    Function.update (Function.update vm.regs 10#5 (BitVec.ofNat 32 bytes.length)) 0#5 0#32
  memory : vm'.memory = patch vm.memory addr.toNat bytes
  reservation : ∀ res, vm'.reservation = some res ↔
    vm.reservation = some res ∧ ¬Overlap addr.toNat bytes.length res.toNat 4
  rest : { vm' with regs := vm.regs, memory := vm.memory, reservation := vm.reservation } = vm

/-- The effects of handling the call in the registers `a7`, `a0`, `a1` and `a2`. -/
structure CallEffects (vm : Vm o n) (env : Env) : Prop where
  safe : ∀ t s, Vm.handle (vm, env) ≠ .error (.trapped t) s
  exit : vm.readReg 17#5 = 93#32 ∨ vm.readReg 17#5 = 94#32 →
    Vm.handle (vm, env) = .ok (.exit (vm.readReg 10#5)) (vm, env)
  unknown : vm.readReg 17#5 ∉ [63#32, 64#32, 93#32, 94#32] →
    Vm.handle (vm, env) = .ok (.unknown (vm.readReg 17#5)) (vm, env)
  badFd : vm.readReg 17#5 = 63#32 ∧ vm.readReg 10#5 ≠ 0#32 ∨
      vm.readReg 17#5 = 64#32 ∧ vm.readReg 10#5 ∉ [1#32, 2#32] →
    ∃ vm', Vm.handle (vm, env) = .ok .resumed (vm', env) ∧ vm.Answered vm' (BitVec.ofInt 32 (-9))
  badBuffer : vm.readReg 17#5 = 63#32 ∧ vm.readReg 10#5 = 0#32 ∨
      vm.readReg 17#5 = 64#32 ∧ vm.readReg 10#5 ∈ [1#32, 2#32] →
    n.bytes < (vm.readReg 11#5).toNat + (vm.readReg 12#5).toNat →
    ∃ vm', Vm.handle (vm, env) = .ok .resumed (vm', env) ∧ vm.Answered vm' (BitVec.ofInt 32 (-14))
  read : vm.readReg 17#5 = 63#32 → vm.readReg 10#5 = 0#32 →
    (vm.readReg 11#5).toNat + (vm.readReg 12#5).toNat ≤ n.bytes →
    let count := min (vm.readReg 12#5).toNat (env.input.length - env.inputPos)
    ∃ vm', Vm.handle (vm, env) =
        .ok .resumed (vm', { env with inputPos := env.inputPos + count }) ∧
      vm.Filled vm' (vm.readReg 11#5) ((env.input.drop env.inputPos).take count)
  write : ∀ fd : Fd, vm.readReg 17#5 = 64#32 → vm.readReg 10#5 = fd.toWord →
    ∀ inside : (vm.readReg 11#5).toNat + (vm.readReg 12#5).toNat ≤ n.bytes,
    match Writer.writeAll (slice vm.memory _ _ inside) (env.out fd) with
    | .ok _ w => ∃ vm', Vm.handle (vm, env) = .ok .resumed (vm', env.setOut w fd) ∧
        vm.Answered vm' (vm.readReg 12#5)
    | .error e w => Vm.handle (vm, env) = .error (.returned e) (vm, env.setOut w fd)

/-! ## The parts that change -/

variable {vm : Vm o n} {env env' : Env} {m : Machine n} {outcome : Hostcall.Outcome}

/-- The VM with its machine replaced; the cache takes no part in a call. -/
def withMachine (vm : Vm o n) (m : Machine n) : Vm o n := { vm with toMachine := m }

theorem answered (vm : Vm o n) (result : Word) :
    vm.Answered (vm.withMachine (vm.writeReg 10#5 result)) result where
  regs := rfl
  rest := rfl

theorem filled (vm : Vm o n) (addr : Word) (bytes : List Byte) :
    vm.Filled (vm.withMachine ((vm.place addr.toNat bytes).writeReg 10#5
      (BitVec.ofNat 32 bytes.length))) addr bytes where
  regs := by
    rw [withMachine, Machine.place, Machine.invalidateReservationRange_eq]
    rfl
  memory := Machine.memory_place vm.toMachine addr.toNat bytes
  reservation := (Machine.place_describes addr.toNat bytes).1
  rest := by
    rw [withMachine, Machine.place, Machine.invalidateReservationRange_eq]
    rfl

theorem handle_ok (handled : Hostcall.handle (vm.toMachine, env) = .ok outcome (m, env')) :
    Vm.handle (vm, env) = .ok outcome (vm.withMachine m, env') := by
  simp only [Vm.handle, onPart, handled]
  rfl

theorem handle_error {e : Failure WriteError}
    (failed : Hostcall.handle (vm.toMachine, env) = .error e (m, env')) :
    Vm.handle (vm, env) = .error e (vm.withMachine m, env') := by
  simp only [Vm.handle, onPart, failed]
  rfl

/-! ## The calls -/

theorem handle_badFd (asked : request vm.toMachine = .badFd) :
    ∃ vm', Vm.handle (vm, env) = .ok .resumed (vm', env) ∧
      vm.Answered vm' (BitVec.ofInt 32 (-9)) :=
  ⟨_, handle_ok (by rw [handle_eq, asked]), answered vm ebadf⟩

theorem handle_badBuffer (asked : request vm.toMachine = .badBuffer) :
    ∃ vm', Vm.handle (vm, env) = .ok .resumed (vm', env) ∧
      vm.Answered vm' (BitVec.ofInt 32 (-14)) :=
  ⟨_, handle_ok (by rw [handle_eq, asked]), answered vm efault⟩

/-- No check fails: the copy is of bytes that are there, into a buffer that was looked for. -/
theorem handle_never_traps (vm : Vm o n) {env : Env} (before : env.inputPos ≤ env.input.length)
    (t : Trap) (s : Vm o n × Env) : Vm.handle (vm, env) ≠ .error (.trapped t) s := by
  intro trapped
  have handled := handle_eq vm.toMachine env
  cases asked : request vm.toMachine with
  | exit | unknown | badFd | badBuffer =>
      rw [asked] at handled
      rw [handle_ok handled] at trapped
      cases trapped
  | read addr len =>
      rw [asked] at handled
      simp only [if_pos before] at handled
      rw [handle_ok handled] at trapped
      cases trapped
  | write fd bytes =>
      rw [asked] at handled
      cases written : Writer.writeAll bytes (env.out fd) with
      | ok _ w =>
          simp only [written] at handled
          rw [handle_ok handled] at trapped
          cases trapped
      | error e w =>
          simp only [written] at handled
          rw [handle_error handled] at trapped
          cases trapped

/-- **A host call touches what it says.** In every state of a VM, with any number, descriptor,
address and length in the argument registers, as long as the position of the environment lies
in its input: no check of the handler fails, and each call has exactly the effects that are
listed, the raw `regs[0]` included. -/
theorem call_effects (vm : Vm o n) (env : Env) (before : env.inputPos ≤ env.input.length) :
    vm.CallEffects env where
  safe := handle_never_traps vm before
  exit number := by
    have asked : request vm.toMachine = .exit (vm.readReg 10#5) := by
      rcases number with number | number <;> simp only [request, number] <;> rfl
    exact handle_ok (by rw [handle_eq, asked])
  unknown number := by
    have other : Call.ofNumber (vm.readReg 17#5) = .other := by
      unfold Call.ofNumber
      split <;> simp_all
    have asked : request vm.toMachine = .unknown (vm.readReg 17#5) := by
      simp only [request, other]
    exact handle_ok (by rw [handle_eq, asked])
  badFd refused := by
    refine handle_badFd ?_
    rcases refused with ⟨number, fd⟩ | ⟨number, fd⟩
    · have call : Call.ofNumber (vm.readReg 17#5) = .read := by rw [number]; rfl
      simp only [request, call, if_neg fd]
    · have call : Call.ofNumber (vm.readReg 17#5) = .write := by rw [number]; rfl
      have none : Fd.ofWord (vm.readReg 10#5) = none := by
        simp only [List.mem_cons, List.mem_nil_iff, or_false, not_or] at fd
        simp only [Fd.ofWord, if_neg fd.1, if_neg fd.2]
      simp only [request, call, none]
  badBuffer fd outside := by
    refine handle_badBuffer ?_
    have buffer : guestBytes vm.toMachine (vm.readReg 11#5) (vm.readReg 12#5) = none := by
      cases found : guestBytes vm.toMachine (vm.readReg 11#5) (vm.readReg 12#5) with
      | none => rfl
      | some bytes =>
          obtain ⟨inside, _⟩ := guestBytes_eq_some.1 found
          omega
    rcases fd with ⟨number, fd⟩ | ⟨number, fd⟩
    · have call : Call.ofNumber (vm.readReg 17#5) = .read := by rw [number]; rfl
      simp only [request, call, if_pos fd, buffer]
    · have call : Call.ofNumber (vm.readReg 17#5) = .write := by rw [number]; rfl
      obtain ⟨out, found⟩ : ∃ out, Fd.ofWord (vm.readReg 10#5) = some out := by
        simp only [List.mem_cons, List.mem_nil_iff, or_false] at fd
        rcases fd with one | two
        · exact ⟨.stdout, Fd.ofWord_eq_some.2 one⟩
        · exact ⟨.stderr, Fd.ofWord_eq_some.2 two⟩
      simp only [request, call, found, buffer]
  read number fd inside := by
    intro count
    have asked := request_eq_read.2 ⟨by rw [number]; rfl, fd, rfl, rfl, inside⟩
    have handled := handle_eq vm.toMachine env
    have long : (env.next (vm.readReg 12#5)).length = count := by
      rw [Env.next, List.length_take, List.length_drop]
      omega
    rw [asked] at handled
    simp only [if_pos before, long] at handled
    have stored := filled vm (vm.readReg 11#5) (env.next (vm.readReg 12#5))
    rw [long] at stored
    exact ⟨_, handle_ok handled, stored⟩
  write fd number isFd inside := by
    have asked := request_eq_write.2 ⟨by rw [number]; rfl, Fd.ofWord_eq_some.2 isFd,
      guestBytes_eq_some.2 ⟨inside, rfl⟩⟩
    have handled := handle_eq vm.toMachine env
    rw [asked] at handled
    cases written : Writer.writeAll (slice vm.memory _ _ inside) (env.out fd) with
    | ok _ w =>
        simp only [written] at handled
        exact ⟨_, handle_ok handled, answered vm _⟩
    | error e w =>
        simp only [written] at handled
        exact handle_error handled

/-- A read of four bytes, of which the input has three, stores three. -/
theorem call_effects_readFour :
    ∃ vm', Vm.handle (readFour, ⟨[7#8, 8#8, 9#8], 0, {}, {}⟩) =
        .ok .resumed (vm', ⟨[7#8, 8#8, 9#8], 3, {}, {}⟩) ∧
      vm'.readReg 10#5 = 3#32 ∧ vm'.memory = patch readFour.memory 4 [7#8, 8#8, 9#8] := by
  have effects := call_effects readFour ⟨[7#8, 8#8, 9#8], 0, {}, {}⟩ (by decide)
  obtain ⟨vm', handled, filled⟩ := effects.read rfl rfl (by decide)
  refine ⟨vm', handled, ?_, filled.memory⟩
  unfold Machine.readReg
  rw [filled.regs]
  rfl

/-- A write to no stream, by a VM that has a 5 in `regs[0]`. -/
def writePoked : Vm Options.uncached .four :=
  { (reset : Vm Options.uncached .four) with
    regs := fun reg => if reg = 0#5 then 5#32 else 64#32 }

/-- It is answered in `a0`, and the 5 is gone. -/
theorem call_effects_poked :
    ¬∀ (vm : Vm Options.uncached .four) (env : Env),
      vm.readReg 17#5 = 64#32 ∧ vm.readReg 10#5 ∉ [1#32, 2#32] →
        ∃ vm', Vm.handle (vm, env) = .ok .resumed (vm', env) ∧
          vm' = { vm with regs := Function.update vm.regs 10#5 (BitVec.ofInt 32 (-9)) } := by
  intro onlyA0
  obtain ⟨vm', handled, rfl⟩ := onlyA0 writePoked ⟨[], 0, {}, {}⟩ (by decide)
  have asked : request writePoked.toMachine = .badFd := rfl
  obtain ⟨other, answered, changed⟩ := @handle_badFd _ _ writePoked ⟨[], 0, {}, {}⟩ asked
  cases handled.symm.trans answered
  exact absurd (congrFun changed.regs 0#5) (by decide)

end Vm

end Determinant
