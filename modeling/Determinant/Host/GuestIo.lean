import Determinant.Cpu.Run
import Determinant.Foundations.Traces
import Determinant.Host.Requests

/-!
# Guest input and output

A round is a run to an ECALL and the handling of its call. What a round stored in the guest's
memory and what it wrote to an output are read off the machine before and after the call
(`Round.stored`, `Round.wrote`), not off the environment. Over any number of rounds, with any
guest code between them, the stored bytes make up the part of the input that has been read,
and the outputs hold the written bytes in order (`guest_io_exact`); the step of the proof is
what one call adds (`handle_adds`).
-/

set_option autoImplicit false

namespace Determinant

open Foundations

variable {n : MemSize} {o : Options}

namespace Machine

@[simp] theorem readReg_writeReg_self (m : Machine n) {reg : Reg} (named : reg ≠ 0#5)
    (value : Word) : (m.writeReg reg value).readReg reg = value := by
  simp [readReg, writeReg, named]

@[simp] theorem memory_writeReg (m : Machine n) (reg : Reg) (value : Word) :
    (m.writeReg reg value).memory = m.memory := rfl

@[simp] theorem memory_place (m : Machine n) (addr : Nat) (bytes : List Byte) :
    (m.place addr bytes).memory = patch m.memory addr bytes := by
  rw [place, invalidateReservationRange_eq]

end Machine

namespace Hostcall

/-! ## Rounds -/

/-- A round: the machine at the ECALL, what handling the call returned, and the machine
after it. -/
structure Round (n : MemSize) where
  before : Machine n
  outcome : Outcome
  after : Machine n

namespace Round

/-- The bytes that a read stored in the guest's buffer: as many as it returned in `a0`. -/
def stored (round : Round n) : List Byte :=
  match request round.before with
  | .read addr _ => (guestBytes round.after addr (round.after.readReg 10#5)).getD []
  | _ => []

/-- The bytes that a write to `fd` took from the guest's buffer. -/
def wrote (fd : Fd) (round : Round n) : List Byte :=
  match request round.before with
  | .write fd' bytes => if fd' = fd then bytes else []
  | _ => []

/-- The call was refused, with EBADF or EFAULT. -/
def Refused (round : Round n) : Prop :=
  request round.before = .badFd ∨ request round.before = .badBuffer

end Round

/-- Run until an ECALL, and handle its call. -/
def Plays (s : Vm o n × Env) (round : Round n) (s' : Vm o n × Env) : Prop :=
  ∃ maxCycles vm, Vm.Runs maxCycles s.1 (.ok .ecall vm) ∧
    vm.toMachine = round.before ∧
    Vm.handle (vm, s.2) = .ok round.outcome s' ∧ s'.1.toMachine = round.after

/-! ## What one call adds -/

/-- The part of the input that was read is inside it, and the writers take everything. -/
structure Ready (env : Env) : Prop where
  read : env.inputPos ≤ env.input.length
  unlimited : ∀ fd, (env.out fd).room = none

/-- What a round adds to the streams of the environment. -/
structure Adds (round : Round n) (env env' : Env) : Prop where
  ready : Ready env'
  input : env'.input = env.input
  forward : env.inputPos ≤ env'.inputPos
  consumed : env.input.take env'.inputPos = env.input.take env.inputPos ++ round.stored
  produced : ∀ fd, (env'.out fd).written = (env.out fd).written ++ round.wrote fd

/-- A call that moves no bytes. -/
theorem Adds.nothing {round : Round n} {env : Env} (ready : Ready env) (stored : round.stored = [])
    (wrote : ∀ fd, round.wrote fd = []) : Adds round env env where
  ready := ready
  input := rfl
  forward := Nat.le_refl _
  consumed := by rw [stored, List.append_nil]
  produced fd := by rw [wrote fd, List.append_nil]

variable {m m' : Machine n} {env env' : Env} {outcome : Outcome}

theorem adds_write {fd : Fd} {bytes : List Byte} (ready : Ready env)
    (asked : request m = .write fd bytes) :
    Adds ⟨m, outcome, m'⟩ env
      (env.setOut { env.out fd with written := (env.out fd).written ++ bytes } fd) := by
  have stored : Round.stored ⟨m, outcome, m'⟩ = [] := by simp only [Round.stored, asked]
  have wrote : ∀ fd', Round.wrote fd' ⟨m, outcome, m'⟩ = if fd = fd' then bytes else [] := by
    intro fd'
    simp only [Round.wrote, asked]
  cases fd with
  | stdout =>
      refine ⟨⟨ready.read, ?_⟩, rfl, Nat.le_refl _, ?_, ?_⟩
      · rintro (_ | _)
        · exact ready.unlimited .stdout
        · exact ready.unlimited .stderr
      · rw [stored, List.append_nil]
        rfl
      · intro fd'
        rw [wrote]
        cases fd' with
        | stdout => rfl
        | stderr => exact (List.append_nil _).symm
  | stderr =>
      refine ⟨⟨ready.read, ?_⟩, rfl, Nat.le_refl _, ?_, ?_⟩
      · rintro (_ | _)
        · exact ready.unlimited .stdout
        · exact ready.unlimited .stderr
      · rw [stored, List.append_nil]
        rfl
      · intro fd'
        rw [wrote]
        cases fd' with
        | stdout => exact (List.append_nil _).symm
        | stderr => rfl

/-- What a read stored is the next part of the input. -/
theorem stored_read {addr len : Word} (asked : request m = .read addr len) :
    Round.stored ⟨m, outcome, (m.place addr.toNat (env.next len)).writeReg 10#5
      (BitVec.ofNat 32 (env.next len).length)⟩ = env.next len := by
  obtain ⟨_, _, _, _, inside⟩ := request_eq_read.1 asked
  have short := env.length_next_le len
  have count : (BitVec.ofNat 32 (env.next len).length).toNat = (env.next len).length := by
    rw [BitVec.toNat_ofNat]
    exact Nat.mod_eq_of_lt (Nat.lt_of_le_of_lt short len.isLt)
  have found : guestBytes ((m.place addr.toNat (env.next len)).writeReg 10#5
      (BitVec.ofNat 32 (env.next len).length)) addr (BitVec.ofNat 32 (env.next len).length) =
        some (env.next len) := by
    refine guestBytes_eq_some.2 ⟨by omega, ?_⟩
    rw [Machine.memory_writeReg, Machine.memory_place]
    exact slice_patch_field _ _ count.symm _
  simp only [Round.stored, asked,
    Machine.readReg_writeReg_self _ (show (10#5 : Reg) ≠ 0#5 by decide)]
  rw [found, Option.getD_some]

theorem adds_read {addr len : Word} (ready : Ready env) (asked : request m = .read addr len) :
    Adds ⟨m, outcome, (m.place addr.toNat (env.next len)).writeReg 10#5
        (BitVec.ofNat 32 (env.next len).length)⟩ env
      { env with inputPos := env.inputPos + (env.next len).length } where
  ready := by
    refine ⟨?_, fun fd => ?_⟩
    · have := ready.read
      simp only [Env.next, List.length_take, List.length_drop]
      omega
    · cases fd with
      | stdout => exact ready.unlimited .stdout
      | stderr => exact ready.unlimited .stderr
  input := rfl
  forward := Nat.le_add_right _ _
  consumed := by
    rw [stored_read asked, List.take_add]
    congr 1
    simp [Env.next]
  produced fd := by
    have wrote : Round.wrote fd ⟨m, outcome, (m.place addr.toNat (env.next len)).writeReg 10#5
        (BitVec.ofNat 32 (env.next len).length)⟩ = [] := by
      simp only [Round.wrote, asked]
    rw [wrote, List.append_nil]
    cases fd <;> rfl

/-- **What one call adds to the streams.** -/
theorem handle_adds (ready : Ready env) (handled : handle (m, env) = .ok outcome (m', env')) :
    Adds ⟨m, outcome, m'⟩ env env' := by
  rw [handle_eq] at handled
  cases asked : request m with
  | exit status | unknown number =>
      simp only [asked] at handled
      cases handled
      exact .nothing ready (by simp only [Round.stored, asked])
        fun fd => by simp only [Round.wrote, asked]
  | badFd | badBuffer =>
      simp only [asked] at handled
      cases handled
      exact .nothing ready (by simp only [Round.stored, asked])
        fun fd => by simp only [Round.wrote, asked]
  | write fd bytes =>
      simp only [asked, Writer.writeAll_unlimited (ready.unlimited fd)] at handled
      cases handled
      exact adds_write ready asked
  | read addr len =>
      simp only [asked, if_pos ready.read] at handled
      cases handled
      exact adds_read ready asked

/-- A call is handled without a failure. -/
theorem handle_exists (ready : Ready env) (m : Machine n) :
    ∃ outcome s, handle (m, env) = .ok outcome s := by
  rw [handle_eq]
  cases request m with
  | exit | unknown | badFd | badBuffer => exact ⟨_, _, rfl⟩
  | write fd bytes =>
      simp only [Writer.writeAll_unlimited (ready.unlimited fd)]
      exact ⟨_, _, rfl⟩
  | read addr len =>
      simp only [if_pos ready.read]
      exact ⟨_, _, rfl⟩

/-! ## Rounds one after the other -/

/-- A round handles its call on the machine alone. -/
theorem Plays.handled {s s' : Vm o n × Env} {round : Round n} (plays : Plays s round s') :
    handle (round.before, s.2) = .ok round.outcome (round.after, s'.2) := by
  obtain ⟨_, vm, _, before, handled, after⟩ := plays
  simp only [Vm.handle, onPart, before] at handled
  cases outcome : handle (round.before, s.2) with
  | error e t => simp [outcome] at handled
  | ok result t =>
      rw [outcome] at handled
      cases handled
      exact congrArg _ (Prod.ext after rfl)

/-- A read returns the number of bytes it stored, and stores no others. -/
theorem handled_read {addr len : Word} (ready : Ready env)
    (handled : handle (m, env) = .ok outcome (m', env')) (asked : request m = .read addr len) :
    (m'.readReg 10#5).toNat = (Round.stored ⟨m, outcome, m'⟩).length ∧
      m'.memory = patch m.memory addr.toNat (Round.stored ⟨m, outcome, m'⟩) := by
  have short := env.length_next_le len
  rw [handle_eq] at handled
  simp only [asked, if_pos ready.read] at handled
  cases handled
  rw [stored_read asked, Machine.readReg_writeReg_self _ (by decide), BitVec.toNat_ofNat]
  refine ⟨Nat.mod_eq_of_lt (Nat.lt_of_le_of_lt short len.isLt), ?_⟩
  rw [Machine.memory_writeReg, Machine.memory_place]

/-- A call that is refused moves nothing. -/
theorem handled_refused (handled : handle (m, env) = .ok outcome (m', env'))
    (refused : Round.Refused ⟨m, outcome, m'⟩) :
    env' = env ∧ Round.stored ⟨m, outcome, m'⟩ = [] ∧
      (∀ fd, Round.wrote fd ⟨m, outcome, m'⟩ = []) ∧ m'.memory = m.memory ∧
      (m'.readReg 10#5 = ebadf ∨ m'.readReg 10#5 = efault) := by
  rw [handle_eq] at handled
  rcases refused with asked | asked
  · change request m = .badFd at asked
    simp only [asked] at handled
    cases handled
    refine ⟨rfl, by simp only [Round.stored, asked], fun fd => by simp only [Round.wrote, asked],
      rfl, .inl (Machine.readReg_writeReg_self _ (by decide) _)⟩
  · change request m = .badBuffer at asked
    simp only [asked] at handled
    cases handled
    refine ⟨rfl, by simp only [Round.stored, asked], fun fd => by simp only [Round.wrote, asked],
      rfl, .inr (Machine.readReg_writeReg_self _ (by decide) _)⟩

/-- A count of bytes is mistaken for an error only in a memory of almost 4 GiB. -/
theorem refused_of_error (ready : Ready env) (small : n.bytes < efault.toNat)
    (handled : handle (m, env) = .ok .resumed (m', env'))
    (error : m'.readReg 10#5 = ebadf ∨ m'.readReg 10#5 = efault) :
    Round.Refused ⟨m, .resumed, m'⟩ := by
  have large : efault.toNat ≤ (m'.readReg 10#5).toNat := by
    rcases error with same | same
    · rw [same]
      decide
    · rw [same]
  cases asked : request m with
  | badFd => exact .inl asked
  | badBuffer => exact .inr asked
  | exit | unknown =>
      rw [handle_eq] at handled
      simp [asked] at handled
  | write fd bytes =>
      obtain ⟨_, _, buffer⟩ := request_eq_write.1 asked
      obtain ⟨inside, _⟩ := guestBytes_eq_some.1 buffer
      rw [handle_eq] at handled
      simp only [asked, Writer.writeAll_unlimited (ready.unlimited fd)] at handled
      cases handled
      rw [Machine.readReg_writeReg_self _ (by decide)] at large
      omega
  | read addr len =>
      obtain ⟨_, _, _, _, inside⟩ := request_eq_read.1 asked
      have short := env.length_next_le len
      rw [handle_eq] at handled
      simp only [asked, if_pos ready.read] at handled
      cases handled
      rw [Machine.readReg_writeReg_self _ (by decide), BitVec.toNat_ofNat] at large
      have := Nat.mod_le (env.next len).length (2 ^ 32)
      omega

/-- What any number of rounds from `start` has moved. -/
structure Exact (start : Env) (rounds : List (Round n)) (s : Vm o n × Env) : Prop where
  ready : Ready s.2
  input : s.2.input = start.input
  consumed : (rounds.map Round.stored).flatten = start.input.take s.2.inputPos
  returned : ∀ round ∈ rounds, ∀ addr len, request round.before = .read addr len →
    (round.after.readReg 10#5).toNat = round.stored.length ∧
      round.after.memory = patch round.before.memory addr.toNat round.stored
  produced : ∀ fd, (s.2.out fd).written =
    (start.out fd).written ++ (rounds.map (Round.wrote fd)).flatten

theorem Exact.plays {start : Env} {rounds : List (Round n)} {s s' : Vm o n × Env}
    {round : Round n} (exact : Exact start rounds s) (plays : Plays s round s') :
    Exact start (rounds ++ [round]) s' := by
  have adds := handle_adds exact.ready plays.handled
  refine ⟨adds.ready, adds.input.trans exact.input, ?_, ?_, fun fd => ?_⟩
  · rw [List.map_append, List.flatten_append, exact.consumed, ← exact.input, adds.consumed]
    simp
  · intro other listed addr len asked
    rcases List.mem_append.1 listed with earlier | last
    · exact exact.returned other earlier addr len asked
    · cases List.mem_singleton.1 last
      exact handled_read exact.ready plays.handled asked
  · rw [adds.produced fd, exact.produced fd, List.map_append, List.flatten_append]
    simp

/-- **Guest input and output lose and duplicate nothing.** After any number of rounds that
start at the beginning of the input with writers that take everything, the bytes that the
reads stored, in order, are the input up to its position, each read returned the number of
bytes it stored and stored no others, and each output has received the buffers of the writes
to it, in order. The next call is handled without a failure, never moves the position back,
and moves nothing when it is refused with EBADF or EFAULT. -/
theorem guest_io_exact (vm : Vm o n) (env : Env) (start : env.inputPos = 0)
    (unlimited : ∀ fd, (env.out fd).room = none) (rounds : List (Round n)) (s : Vm o n × Env)
    (trace : Trace Plays (vm, env) rounds s) :
    s.2.input = env.input ∧ s.2.inputPos ≤ env.input.length ∧
    (rounds.map Round.stored).flatten = env.input.take s.2.inputPos ∧
    (∀ round ∈ rounds, ∀ addr len, request round.before = .read addr len →
      (round.after.readReg 10#5).toNat = round.stored.length ∧
        round.after.memory = patch round.before.memory addr.toNat round.stored) ∧
    (∀ fd, (s.2.out fd).written =
      (env.out fd).written ++ (rounds.map (Round.wrote fd)).flatten) ∧
    (∀ maxCycles vm', Vm.Runs maxCycles s.1 (.ok .ecall vm') →
      ∃ outcome s', Vm.handle (vm', s.2) = .ok outcome s') ∧
    ∀ round s', Plays s round s' →
      s.2.inputPos ≤ s'.2.inputPos ∧
      (round.Refused → s'.2 = s.2 ∧ round.stored = [] ∧ (∀ fd, round.wrote fd = []) ∧
        round.after.memory = round.before.memory ∧
        (round.after.readReg 10#5 = ebadf ∨ round.after.readReg 10#5 = efault)) ∧
      (round.outcome = .resumed →
        round.after.readReg 10#5 = ebadf ∨ round.after.readReg 10#5 = efault →
        n.bytes < efault.toNat → round.Refused) := by
  have ready : Ready env := ⟨by omega, unlimited⟩
  have exact : Exact env rounds s :=
    trace.history (Exact env) (fun _ _ _ _ plays exact => exact.plays plays)
      ⟨ready, rfl, by simp [start], by simp, by simp⟩
  refine ⟨exact.input, exact.input ▸ exact.ready.read, exact.consumed, exact.returned,
    exact.produced, fun maxCycles vm' _ => ?_, fun round s' plays => ⟨?_, ?_, ?_⟩⟩
  · obtain ⟨outcome, ⟨m, env'⟩, handled⟩ := handle_exists exact.ready vm'.toMachine
    simp only [Vm.handle, onPart, handled]
    exact ⟨_, _, rfl⟩
  · exact (handle_adds exact.ready plays.handled).forward
  · exact fun refused => handled_refused plays.handled refused
  · intro resumed error small
    obtain ⟨before, outcome, after⟩ := round
    cases resumed
    exact refused_of_error exact.ready small plays.handled error

/-- A program of one ECALL that asks for four bytes of the input at address 4. -/
def readFour : Vm Options.uncached .eight :=
  { (Vm.reset : Vm Options.uncached .eight) with
    memory := patch (fun _ => 0#8) 0 (writeInt 4 0x00000073#32)
    regs := fun reg =>
      if reg = 17#5 then 63#32 else if reg = 11#5 ∨ reg = 12#5 then 4#32 else 0#32 }

/-- With three bytes of input, one round stores all of them. -/
theorem guest_io_exact_readFour :
    ∃ rounds s, Trace Plays (readFour, ⟨[7#8, 8#8, 9#8], 0, {}, {}⟩) rounds s ∧
      (rounds.map Round.stored).flatten = [7#8, 8#8, 9#8] := by
  have plays : Plays (readFour, ⟨[7#8, 8#8, 9#8], 0, {}, {}⟩) ⟨_, .resumed, _⟩ (_, _) :=
    ⟨none, _, ⟨2, rfl⟩, rfl, rfl, rfl⟩
  have trace := Trace.snoc (.nil _) plays
  have exact := guest_io_exact _ _ rfl (fun fd => by cases fd <;> rfl) _ _ trace
  exact ⟨_, _, trace, exact.2.2.1⟩

end Hostcall

end Determinant
