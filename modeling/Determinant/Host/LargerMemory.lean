import Determinant.Cpu.Footprint
import Determinant.Host.ZeroRegister

/-!
# More memory does not change a run

A VM with more memory *widens* another when it agrees with it on everything, and has bytes of
its own above the memory of the other (`Widens`). An operation of the guest or of the host that
is not refused for an address outside the smaller memory fits it (`Fits`). Every operation that
fits does the same on the larger VM, replies the same, and leaves the bytes above alone
(`Widens.matched`); so a program that runs in some memory runs the same in any larger one
(`larger_memory_invisible`).
-/

set_option autoImplicit false

namespace Determinant

open Foundations

variable {n n' : MemSize} {o o' : Options}

/-! ## Operations on a larger VM -/

/-- The same operation of the host. -/
def HostOp.widen (le : n.bytes ≤ n'.bytes) : HostOp n → HostOp n'
  | .loadProgram program offset => .loadProgram program offset
  | .writeByte addr value => .writeByte addr value
  | .writeHalfword addr value => .writeHalfword addr value
  | .writeWord addr value => .writeWord addr value
  | .writeReg reg value => .writeReg reg value
  | .clearReservation => .clearReservation
  | .setPc value => .setPc value
  | .setReg reg value => .setReg reg value
  | .setByte addr value => .setByte (addr.castLE le) value
  | .setCycleCount value => .setCycleCount value
  | .setMscratch value => .setMscratch value

/-- The same operation. -/
def Call.widen (le : n.bytes ≤ n'.bytes) : Call n → Call n'
  | .step => .step
  | .run maxCycles => .run maxCycles
  | .readReg reg => .readReg reg
  | .describeFault err => .describeFault err
  | .handle env => .handle env
  | .fetch => .fetch
  | .readByte addr => .readByte addr
  | .readHalfword addr => .readHalfword addr
  | .readWord addr => .readWord addr
  | .host op => .host (op.widen le)

/-- Not an error for an address outside memory. -/
def InBounds {α : Type} (result : Except StepError α) : Prop :=
  result ≠ .error .pcOutOfBounds ∧ result ≠ .error .addressOutOfBounds

/-- The reply does not refuse an address outside memory; a fault is not one of a fetch there. -/
def Reply.InBounds : Reply → Prop
  | .stepped result => Determinant.InBounds result
  | .called result => Determinant.InBounds result
  | .byte result => Determinant.InBounds result
  | .half result => Determinant.InBounds result
  | .word result => Determinant.InBounds result
  | .fault described => described.raw = none → described.pc.toNat % 2 = 1
  | .reg _ => True
  | .handled _ _ => True

namespace Machine

variable {m : Machine n} {m' : Machine n'}

/-- An instruction that is not refused for its place lies inside memory. -/
theorem inside_of_fetches (fetched : m.fetch ≠ .error .pcOutOfBounds) {x : Nat}
    (fetches : m.Fetches x) : x < n.bytes := by
  obtain ⟨even, after, before⟩ := fetches
  by_contra outside
  exact fetched (fetch_outOfBounds even (by omega))

theorem inside_of_inAccess {k : Nat} {addr : Word}
    (permitted : access n k addr ≠ .error .addressOutOfBounds) {x : Nat}
    (accessed : InAccess (some (addr, k)) x) : x < n.bytes := by
  obtain ⟨_, _, same, aligned, after, before⟩ := accessed
  cases same
  by_contra outside
  exact permitted (access_eq_error.2 (.inr ⟨aligned, by omega, rfl⟩))

theorem SameAt.le (same : SameAt (· < n.bytes) m m') : n.bytes ≤ n'.bytes := by
  have large := n.valid.1
  have last := same.inside (n.bytes - 1) (by omega)
  omega

/-- A read that is not refused for its address. -/
theorem SameAt.load_low (same : SameAt (· < n.bytes) m m') {k : Nat} (positive : 0 < k)
    {addr : Word} {α : Type} {f : List Byte → α}
    (inBounds : InBounds ((m.load k addr).map f)) :
    (m.load k addr).map f = (m'.load k addr).map f := by
  refine congrArg _ (same.load_eq positive fun x accessed => inside_of_inAccess ?_ accessed)
  intro refused
  exact inBounds.2 (load_map_error.2 refused)

/-! ## Changes of memory -/

/-- The same bytes written at the same place. -/
theorem SameAt.patch {seen : Nat → Prop} (same : SameAt seen m m') (start : Nat)
    (bytes : List Byte) :
    SameAt seen { m with memory := patch m.memory start bytes }
      { m' with memory := Foundations.patch m'.memory start bytes } :=
  { same with
    memory := fun i j equal inSeen => by
      have before := same.memory i j equal inSeen
      simp only [Foundations.patch, equal, before] }

theorem SameAt.store {seen : Nat → Prop} (same : SameAt seen m m') (addr : Word)
    (bytes : List Byte) : SameAt seen (m.store addr bytes) (m'.store addr bytes) := by
  have written := same.patch addr.toNat bytes
  simp only [Machine.store, invalidateReservation_eq]
  exact { written with reservation := by simp only [same.reservation] }

theorem SameAt.place {seen : Nat → Prop} (same : SameAt seen m m') (addr : Nat)
    (bytes : List Byte) : SameAt seen (m.place addr bytes) (m'.place addr bytes) := by
  have written := same.patch addr bytes
  simp only [Machine.place, invalidateReservationRange_eq]
  exact { written with reservation := by simp only [same.reservation] }

theorem SameAt.writeReg {seen : Nat → Prop} (same : SameAt seen m m') (reg : Reg) (value : Word) :
    SameAt seen (m.writeReg reg value) (m'.writeReg reg value) :=
  { same with regs := by simp only [Machine.writeReg, same.regs] }

theorem SameAt.readReg {seen : Nat → Prop} (same : SameAt seen m m') (reg : Reg) :
    m.readReg reg = m'.readReg reg := by
  simp only [Machine.readReg, same.regs]

/-- The bytes of the larger memory above the smaller one. -/
def HasAbove (n : MemSize) (high : Fin n'.bytes → Byte) (m' : Machine n') : Prop :=
  ∀ j : Fin n'.bytes, n.bytes ≤ j.val → m'.memory j = high j

theorem HasAbove.patch {high : Fin n'.bytes → Byte} (above : HasAbove n high m') {start : Nat}
    {bytes : List Byte} (inside : start + bytes.length ≤ n.bytes) :
    HasAbove n high { m' with memory := Foundations.patch m'.memory start bytes } := by
  intro j higher
  exact (patch_outside _ _ _ _ (.inr (by omega))).trans (above j higher)

theorem HasAbove.store {high : Fin n'.bytes → Byte} (above : HasAbove n high m') {addr : Word}
    {bytes : List Byte} (inside : addr.toNat + bytes.length ≤ n.bytes) :
    HasAbove n high (m'.store addr bytes) := by
  simp only [Machine.store, invalidateReservation_eq]
  exact above.patch inside

theorem HasAbove.place {high : Fin n'.bytes → Byte} (above : HasAbove n high m') {addr : Nat}
    {bytes : List Byte} (inside : addr + bytes.length ≤ n.bytes) :
    HasAbove n high (m'.place addr bytes) := by
  simp only [Machine.place, invalidateReservationRange_eq]
  exact above.patch inside

end Machine

/-! ## Larger machines -/

namespace Machine

/-- The machine with the larger memory agrees with the other, and has the bytes `high` above
its memory. -/
structure Widens (high : Fin n'.bytes → Byte) (m : Machine n) (m' : Machine n') : Prop where
  low : SameAt (· < n.bytes) m m'
  above : HasAbove n high m'

variable {high : Fin n'.bytes → Byte} {m : Machine n} {m' : Machine n'}

/-- A method that checks an access and then stores. -/
theorem Widens.stores (widens : Widens high m m') {k : Nat} (positive : 0 < k) {addr : Word}
    {bytes : List Byte} (length : bytes.length = k) {x : EStateM StepError (Machine n) Unit}
    {x' : EStateM StepError (Machine n') Unit}
    (stores : x m = match access n k addr with
      | .ok () => .ok () (m.store addr bytes)
      | .error e => .error e m)
    (stores' : x' m' = match access n' k addr with
      | .ok () => .ok () (m'.store addr bytes)
      | .error e => .error e m') (inBounds : InBounds (answer (x m))) :
    answer (x m) = answer (x' m') ∧ Widens high (stateAfter (x m)) (stateAfter (x' m')) := by
  have permitted : access n k addr ≠ .error .addressOutOfBounds := by
    intro refused
    rw [stores, refused] at inBounds
    exact inBounds.2 rfl
  have checks := widens.low.access_eq positive fun x accessed =>
    inside_of_inAccess permitted accessed
  rw [stores, stores', ← checks]
  cases checked : access n k addr with
  | error e => exact ⟨rfl, widens⟩
  | ok _ =>
      have inside := inside_of_access checked
      exact ⟨rfl, widens.low.store addr bytes, widens.above.store (length ▸ inside)⟩

/-- **An operation of the host that fits does the same on the larger machine.** -/
theorem Widens.host (widens : Widens high m m') (le : n.bytes ≤ n'.bytes) (op : HostOp n)
    (inBounds : InBounds (answer (op.call m))) :
    answer (op.call m) = answer ((op.widen le).call m') ∧
      Widens high (stateAfter (op.call m)) (stateAfter ((op.widen le).call m')) := by
  have low := widens.low
  cases op with
  | loadProgram program offset =>
      simp only [HostOp.call, HostOp.widen, loadProgram_apply] at inBounds ⊢
      by_cases inside : offset.toNat + program.length ≤ n.bytes
      · have inside' := Nat.le_trans inside le
        rw [if_pos inside, if_pos inside']
        exact ⟨rfl, low.place _ _, widens.above.place inside⟩
      · rw [if_neg inside] at inBounds
        exact absurd rfl inBounds.2
  | writeByte addr value =>
      exact widens.stores (k := 1) (by decide) (List.length_singleton (a := value))
        (writeByte_apply addr value m) (writeByte_apply addr value m') inBounds
  | writeHalfword addr value =>
      exact widens.stores (k := 2) (by decide) (length_writeInt 2 value)
        (writeHalfword_apply addr value m) (writeHalfword_apply addr value m') inBounds
  | writeWord addr value =>
      exact widens.stores (k := 4) (by decide) (length_writeInt 4 value)
        (writeWord_apply addr value m) (writeWord_apply addr value m') inBounds
  | writeReg reg value => exact ⟨rfl, low.writeReg reg value, widens.above⟩
  | setReg reg value =>
      exact ⟨rfl, { low with
        regs := congrArg (fun regs : Reg → Word => Function.update regs reg value) low.regs },
        widens.above⟩
  | setByte addr value =>
      have written : SameAt (· < n.bytes)
          { m with memory := Function.update m.memory addr value }
          { m' with memory := Function.update m'.memory (addr.castLE le) value } :=
        { low with
          memory := fun i j equal below => by
            have before := low.memory i j equal below
            simp only [Function.update_apply, Fin.ext_iff, Fin.val_castLE, equal, before] }
      refine ⟨rfl, written, fun j higher => ?_⟩
      have other : j ≠ addr.castLE le := by
        rintro rfl
        exact absurd addr.isLt (Nat.not_lt.2 higher)
      exact (Function.update_of_ne other _ _).trans (widens.above j higher)
  | clearReservation => exact ⟨rfl, { low with reservation := rfl }, widens.above⟩
  | setPc value => exact ⟨rfl, { low with pc := rfl }, widens.above⟩
  | setCycleCount value => exact ⟨rfl, { low with cycleCount := rfl }, widens.above⟩
  | setMscratch value =>
      exact ⟨rfl, { low with csrs := congrArg ({ · with mscratch := value }) low.csrs },
        widens.above⟩

end Machine

/-! ## Host calls -/

namespace Hostcall

variable {high : Fin n'.bytes → Byte} {m : Machine n} {m' : Machine n'}

/-- A buffer inside the smaller memory is the same in the larger one. -/
theorem guestBytes_widens (widens : Machine.Widens high m m') {addr len : Word}
    {bytes : List Byte} (found : guestBytes m addr len = some bytes) :
    guestBytes m' addr len = some bytes := by
  obtain ⟨inside, rfl⟩ := guestBytes_eq_some.1 found
  have inside' := Nat.le_trans inside widens.low.le
  exact guestBytes_eq_some.2 ⟨inside', (widens.low.slice_eq (fun x _ before =>
    Nat.lt_of_lt_of_le before inside) inside inside').symm⟩

/-- **A request that is not for a buffer outside memory is the same request.** -/
theorem request_widens (widens : Machine.Widens high m m') (inside : request m ≠ .badBuffer) :
    request m' = request m := by
  unfold request at inside ⊢
  simp only [← widens.low.readReg]
  cases call : Call.ofNumber (m.readReg 17#5) with
  | exit | exitGroup | other => rfl
  | write =>
      simp only [call] at inside
      cases fd : Fd.ofWord (m.readReg 10#5) with
      | none => rfl
      | some out =>
          cases found : guestBytes m (m.readReg 11#5) (m.readReg 12#5) with
          | none => simp [fd, found] at inside
          | some bytes => simp only [guestBytes_widens widens found]
  | read =>
      simp only [call] at inside
      by_cases zero : m.readReg 10#5 = 0#32
      · cases found : guestBytes m (m.readReg 11#5) (m.readReg 12#5) with
        | none => simp [zero, found] at inside
        | some bytes => simp only [zero, guestBytes_widens widens found]
      · simp only [zero, if_false]

/-- **A host call with a buffer inside memory does the same.** -/
theorem Widens.handle (widens : Machine.Widens high m m') (inside : request m ≠ .badBuffer)
    (env : Env) :
    answer (handle (m, env)) = answer (handle (m', env)) ∧
      Machine.Widens high (stateAfter (handle (m, env))).1 (stateAfter (handle (m', env))).1 ∧
      (stateAfter (handle (m, env))).2 = (stateAfter (handle (m', env))).2 := by
  have low := widens.low
  have above := widens.above
  rw [handle_eq, handle_eq, request_widens widens inside]
  cases asked : request m with
  | exit | unknown => exact ⟨rfl, widens, rfl⟩
  | badFd => exact ⟨rfl, ⟨low.writeReg _ _, above⟩, rfl⟩
  | badBuffer => exact absurd asked inside
  | write fd bytes =>
      dsimp only
      cases Writer.writeAll bytes (env.out fd) with
      | ok =>
          refine ⟨rfl, ?_, rfl⟩
          rw [low.readReg]
          exact ⟨low.writeReg _ _, above⟩
      | error => exact ⟨rfl, widens, rfl⟩
  | read addr len =>
      obtain ⟨_, _, _, _, fits⟩ := request_eq_read.1 asked
      have short := env.length_next_le len
      dsimp only
      split
      · exact ⟨rfl, ⟨(low.place _ _).writeReg _ _, above.place (by omega)⟩, rfl⟩
      · exact ⟨rfl, widens, rfl⟩

end Hostcall

/-! ## Larger VMs -/

namespace Vm

/-- The VM with the larger memory agrees with the other, and has the bytes `high` above its
memory. -/
structure Widens (high : Fin n'.bytes → Byte) (vm : Vm o n) (vm' : Vm o' n') : Prop where
  low : SameAt (· < n.bytes) vm vm'
  above : Machine.HasAbove n high vm'.toMachine

variable {high : Fin n'.bytes → Byte} {vm : Vm o n} {vm' : Vm o' n'}

theorem Widens.machine (widens : Widens high vm vm') :
    Machine.Widens high vm.toMachine vm'.toMachine :=
  ⟨widens.low.machine, widens.above⟩

/-- Changes of the machines leave the caches alone. -/
theorem Widens.put (widens : Widens high vm vm') {m : Machine n} {m' : Machine n'}
    (machines : Machine.Widens high m m') :
    Widens high { vm with toMachine := m } { vm' with toMachine := m' } :=
  ⟨⟨machines.low, widens.low.coherent, widens.low.coherent'⟩, machines.above⟩

/-- Bytes above that were not touched. -/
theorem Widens.above_of_rest (widens : Widens high vm vm') {m' : Machine n'}
    {touched : Nat → Prop} (inside : ∀ x, touched x → x < n.bytes)
    (rest : ∀ j : Fin n'.bytes, ¬touched j → m'.memory j = vm'.memory j) :
    Machine.HasAbove n high m' := fun j higher =>
  (rest j fun counted => absurd (inside j counted) (Nat.not_lt.2 higher)).trans
    (widens.above j higher)

/-- The cache stays coherent on the way to every step of a run. -/
theorem StepsFrom.coherent (default : o.decode = Determinant.decode) {maxCycles : Option Count}
    {current : Vm o n} (reached : StepsFrom maxCycles vm current)
    (coherent : Coherent o.decode vm.decodeCache) : Coherent o.decode current.decodeCache := by
  obtain ⟨⟨k, turns⟩, _⟩ := reached
  have kept : ∀ s t : Vm o n × StepResult, runBody maxCycles s = .again t →
      Coherent o.decode s.1.decodeCache → Coherent o.decode t.1.decodeCache := by
    intro s t turn before
    obtain ⟨_, _, stepped⟩ := runBody_eq_again.1 turn
    have after := coherent_step (fun raw inst decoded => by
      rw [default] at decoded
      exact (decode_decoded decoded).raw) before
    rwa [stepped] at after
  exact turns.invariant kept coherent

/-- **A run that does not fail out of bounds touches only bytes of memory**: each of its steps
succeeds, or is the one it fails with. -/
theorem inside_of_runTouches (default : o.decode = Determinant.decode)
    (coherent : Coherent o.decode vm.decodeCache) {maxCycles : Option Count}
    {outcome : Outcome o n StepResult} (runs : Runs maxCycles vm outcome)
    (inBounds : InBounds (answer outcome)) {x : Nat} (touched : RunTouches maxCycles vm x) :
    x < n.bytes := by
  obtain ⟨current, reached, touched⟩ := touched
  have here : InBounds (answer (step current)) := by
    cases stepped : step current with
    | ok result next => exact ⟨nofun, nofun⟩
    | error e next =>
        obtain ⟨⟨k, turns⟩, below⟩ := reached
        have leaves : runBody maxCycles (current, .continue) = .done (.error e next) :=
          runBody_eq_done.2 (.inr ⟨rfl, below, e, next, stepped, rfl⟩)
        rw [Ends.unique runs (turns.ends (ends_of_done leaves))] at inBounds
        exact inBounds
  have answers := (step_of_coherent (reached.coherent default coherent)).1
  rw [answers] at here
  exact Machine.inside_of_touches here.1 here.2 touched

/-- **The operations that fit the memory**: they are not refused for an address outside it. -/
def Fits (vm : Vm o n) (label : Call n × Reply) (vm' : Vm o n) : Prop :=
  vm.Calls label vm' ∧ label.2.InBounds ∧
    ∀ env, label.1 = .handle env → Hostcall.request vm.toMachine ≠ .badBuffer

/-- A fetch that is not refused for its place. -/
theorem Widens.fetch (widens : Widens high vm vm') (inBounds : vm.fetch ≠ .error .pcOutOfBounds) :
    vm.fetch = vm'.fetch :=
  widens.low.machine.fetch_eq fun _ fetches => Machine.inside_of_fetches inBounds fetches

variable (default : o.decode = Determinant.decode) (default' : o'.decode = Determinant.decode)

include default default'

theorem Widens.step (widens : Widens high vm vm') (inBounds : InBounds (answer (Vm.step vm))) :
    answer (Vm.step vm) = answer (Vm.step vm') ∧
      Widens high (stateAfter (Vm.step vm)) (stateAfter (Vm.step vm')) := by
  have answers := (step_of_coherent widens.low.coherent).1
  rw [answers] at inBounds
  have inside : ∀ x, vm.toMachine.Touches o.decode x → x < n.bytes :=
    fun x touched => Machine.inside_of_touches inBounds.1 inBounds.2 touched
  obtain ⟨answers, low⟩ := widens.low.step default default' inside
  refine ⟨answers, low, widens.above_of_rest inside fun j untouched => ?_⟩
  have touches := widens.low.machine.touches_iff inside j
  rw [default, ← default'] at touches
  rw [default, ← default'] at untouched
  exact step_untouched widens.low.coherent' j (mt touches.2 untouched)

theorem Widens.run (widens : Widens high vm vm') {maxCycles : Option Count}
    {outcome : Outcome o n StepResult} (runs : Runs maxCycles vm outcome)
    (inBounds : InBounds (answer outcome)) :
    ∃ outcome', Runs maxCycles vm' outcome' ∧ answer outcome = answer outcome' ∧
      Widens high (stateAfter outcome) (stateAfter outcome') := by
  have inside : ∀ x, RunTouches maxCycles vm x → x < n.bytes :=
    fun x touched => inside_of_runTouches default widens.low.coherent runs inBounds touched
  obtain ⟨outcome', runs', answers, low, _, rest⟩ :=
    runs_sameAt default default' inside widens.low runs
  exact ⟨outcome', runs', answers, low, widens.above_of_rest inside rest⟩

theorem Widens.describeFault (widens : Widens high vm vm') {err : StepError}
    (fits : (Reply.fault (vm.describeFault err)).InBounds) :
    vm.describeFault err = vm'.describeFault err := by
  have low := widens.low.machine
  have inBounds : vm.fetch ≠ .error .pcOutOfBounds := by
    intro unfetched
    have odd : vm.pc.toNat % 2 = 1 := by
      have described := describeFault_unfetched unfetched err
      simpa only [Reply.InBounds, described, forall_const] using fits
    rw [Machine.fetch_misaligned odd] at unfetched
    cases unfetched
  unfold Vm.describeFault
  simp only [← widens.fetch inBounds, default, default', low.pc, low.readReg]

/-- **An operation that fits does the same on the larger VM**, which replies the same. -/
theorem Widens.matched (le : n.bytes ≤ n'.bytes) (widens : Widens high vm vm')
    {label : Call n × Reply} {next : Vm o n} (fits : vm.Fits label next) :
    ∃ next', vm'.Calls (label.1.widen le, label.2) next' ∧ Widens high next next' := by
  obtain ⟨call, reply⟩ := label
  obtain ⟨calls, inBounds, buffers⟩ := fits
  have low := widens.low.machine
  cases call with
  | step =>
      obtain ⟨rfl, rfl⟩ := calls
      obtain ⟨answers, after⟩ := widens.step default default' inBounds
      exact ⟨_, ⟨congrArg _ answers, rfl⟩, after⟩
  | run maxCycles =>
      obtain ⟨outcome, runs, rfl, rfl⟩ := calls
      obtain ⟨outcome', runs', answers, after⟩ := widens.run default default' runs inBounds
      exact ⟨_, ⟨outcome', runs', congrArg _ answers, rfl⟩, after⟩
  | host op =>
      obtain ⟨rfl, rfl⟩ := calls
      simp only [Reply.InBounds, onMachine, answer_onPart] at inBounds
      obtain ⟨answers, after⟩ := widens.machine.host le op inBounds
      refine ⟨_, ⟨?_, rfl⟩, ?_⟩
      · simp only [onMachine, answer_onPart, answers]
      · simp only [onMachine, stateAfter_onPart]
        exact widens.put after
  | handle env =>
      obtain ⟨rfl, rfl⟩ := calls
      obtain ⟨answers, machines, envs⟩ :=
        Hostcall.Widens.handle widens.machine (buffers env rfl) env
      refine ⟨_, ⟨?_, rfl⟩, ?_⟩
      · simp only [Vm.handle, answer_onPart, stateAfter_onPart, answers, envs]
      · simp only [Vm.handle, stateAfter_onPart]
        exact widens.put machines
  | readReg reg =>
      obtain ⟨rfl, rfl⟩ := calls
      exact ⟨vm', ⟨congrArg _ (low.readReg reg), rfl⟩, widens⟩
  | describeFault err =>
      obtain ⟨rfl, rfl⟩ := calls
      exact ⟨vm', ⟨congrArg _ (widens.describeFault default default' inBounds), rfl⟩, widens⟩
  | fetch =>
      obtain ⟨rfl, rfl⟩ := calls
      exact ⟨vm', ⟨congrArg _ (widens.fetch inBounds.1), rfl⟩, widens⟩
  | readByte addr =>
      obtain ⟨rfl, rfl⟩ := calls
      simp only [Reply.InBounds, Machine.readByte_eq] at inBounds
      have read := low.load_low (by decide) inBounds
      rw [← Machine.readByte_eq, ← Machine.readByte_eq] at read
      exact ⟨vm', ⟨congrArg _ read, rfl⟩, widens⟩
  | readHalfword addr =>
      obtain ⟨rfl, rfl⟩ := calls
      simp only [Reply.InBounds, Machine.readHalfword_eq] at inBounds
      have read := low.load_low (by decide) inBounds
      rw [← Machine.readHalfword_eq, ← Machine.readHalfword_eq] at read
      exact ⟨vm', ⟨congrArg _ read, rfl⟩, widens⟩
  | readWord addr =>
      obtain ⟨rfl, rfl⟩ := calls
      simp only [Reply.InBounds, Machine.readWord_eq] at inBounds
      have read := low.load_low (by decide) inBounds
      rw [← Machine.readWord_eq, ← Machine.readWord_eq] at read
      exact ⟨vm', ⟨congrArg _ read, rfl⟩, widens⟩

/-- **More memory does not change a run that fits in less.** Take two VMs with the default
decoder, coherent caches of any sizes and the same state, one with more memory, which holds the
bytes of the other and then any others. Every sequence of operations of the guest and the host
of which none is refused for an address outside the smaller memory does the same on the larger
VM: every operation replies the same, the states agree at the end, and the bytes above the
smaller memory are those from the start. -/
theorem larger_memory_invisible (le : n.bytes ≤ n'.bytes) (agree : SameAt (· < n.bytes) vm vm')
    {labels : List (Call n × Reply)} {last : Vm o n} (trace : Trace Fits vm labels last) :
    ∃ last',
      Trace (fun vm label next => Calls vm (label.1.widen le, label.2) next) vm' labels last' ∧
      SameAt (· < n.bytes) last last' ∧
      ∀ j : Fin n'.bytes, n.bytes ≤ j.val → last'.memory j = vm'.memory j := by
  have start : Widens vm'.memory vm vm' := ⟨agree, fun _ _ => rfl⟩
  have matched : ∀ (vm : Vm o n) (vm₁ : Vm o' n') label next, Widens vm'.memory vm vm₁ →
      Fits vm label next →
      ∃ next', Calls vm₁ (label.1.widen le, label.2) next' ∧ Widens vm'.memory next next' :=
    fun _ _ _ _ widens fits => widens.matched default default' le fits
  obtain ⟨last', trace', widens⟩ := trace.simulate (Widens vm'.memory) matched start
  exact ⟨last', trace', widens.low, widens.above⟩

omit default default'

/-- Two VMs that were just reset. The operations fit the smaller one: a step, which fails
because zeros are no instruction, and an assignment to its last byte. -/
theorem larger_memory_invisible_reset :
    let vm' : Vm Options.uncached .eight := reset
    ∃ last', Trace (fun (vm : Vm Options.uncached .eight) label next =>
        Calls vm (Call.widen (n := .four) (by decide) label.1, label.2) next) vm'
      [(.step, .stepped (.error .illegalInstruction)),
        (.host (.setByte ⟨3, by decide⟩ 1#8), .called (.ok ()))] last' := by
  intro vm'
  let vm : Vm Options.uncached .four := reset
  have agree : SameAt (· < MemSize.four.bytes) vm vm' :=
    ⟨⟨rfl, rfl, fun _ _ _ _ => rfl, rfl, rfl, rfl, rfl, fun x below =>
      ⟨fun _ => Nat.lt_of_lt_of_le below (by decide), fun _ => below⟩⟩, .empty _, .empty _⟩
  have failed : step (reset : Vm Options.uncached .four) = .error .illegalInstruction reset := rfl
  have stepped : Fits vm (.step, .stepped (.error .illegalInstruction)) vm :=
    ⟨⟨by rw [failed]; rfl, by rw [failed]; rfl⟩, ⟨nofun, nofun⟩, nofun⟩
  have trace : Trace Fits vm [(.step, .stepped (.error .illegalInstruction)),
      (.host (.setByte ⟨3, by decide⟩ 1#8), .called (.ok ()))] _ :=
    .snoc (.snoc (.nil vm) stepped) ⟨⟨rfl, rfl⟩, ⟨nofun, nofun⟩, nofun⟩
  obtain ⟨last', trace', _⟩ := larger_memory_invisible rfl rfl (by decide) agree trace
  exact ⟨last', trace'⟩

end Vm

end Determinant
