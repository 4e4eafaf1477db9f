import Determinant.Cpu.SnapshotCodec
import Determinant.Host.ZeroRegister

/-!
# Suspending and resuming

A snapshot holds neither the decode cache nor `stop_pc`, so a VM that was restored from one
differs from the VM that wrote it. Two VMs with the same state and coherent caches are *alike*
(`Alike`): no operation tells them apart (`Alike.matched`), and after the next ECALL or EBREAK
they also have the same `stop_pc`. So a VM may be written to a snapshot at any point and go on
elsewhere, with a cache of another size, in a VM that held anything before
(`resume_invisible`).
-/

set_option autoImplicit false

namespace Determinant

open Foundations Snapshot

variable {n : MemSize} {o o' : Options}

/-- A step or a run that an ECALL or EBREAK stopped. -/
def Stops (result : Except StepError StepResult) : Prop :=
  ∃ stop, result = .ok stop ∧ stop ≠ .continue

/-- The reply says so. -/
def Reply.Stopped : Reply → Prop
  | .stepped result => Stops result
  | _ => False

namespace Machine

/-- The machine with another `stop_pc`. -/
def withStop (m : Machine n) (stopPc : Word) : Machine n := { m with stopPc := stopPc }

variable {m m' : Machine n}

theorem sameState_withStop (m : Machine n) (stopPc : Word) : SameState m (m.withStop stopPc) :=
  ⟨rfl, rfl, rfl, rfl, rfl, rfl⟩

/-- Machines with the same state differ at most in `stop_pc`. -/
theorem withStop_of_sameState (same : SameState m m') : m' = m.withStop m'.stopPc := by
  apply Machine.ext
  · exact same.pc.symm
  · exact same.regs.symm
  · exact same.memory.symm
  · exact same.cycleCount.symm
  · exact same.reservation.symm
  · exact same.csrs.symm
  · rfl

/-! ## Methods of the machine -/

@[simp] theorem withStop_writeReg (m : Machine n) (stopPc : Word) (reg : Reg) (value : Word) :
    (m.withStop stopPc).writeReg reg value = (m.writeReg reg value).withStop stopPc := rfl

@[simp] theorem withStop_store (m : Machine n) (stopPc addr : Word) (bytes : List Byte) :
    (m.withStop stopPc).store addr bytes = (m.store addr bytes).withStop stopPc := by
  simp only [store, invalidateReservation_eq]
  rfl

@[simp] theorem withStop_place (m : Machine n) (stopPc : Word) (addr : Nat) (bytes : List Byte) :
    (m.withStop stopPc).place addr bytes = (m.place addr bytes).withStop stopPc := by
  simp only [place, invalidateReservationRange_eq]
  rfl

theorem decision_withStop (inst : Instruction) (size stopPc : Word) (m : Machine n) :
    decision inst size (m.withStop stopPc) = decision inst size m := by
  obtain ⟨op, rd, rs1, rs2, imm, raw, compressedOp⟩ := inst
  cases op with
  | i op => cases op <;> rfl
  | _ => rfl

/-- No operation of the host looks at `stop_pc`, or changes it. -/
theorem hostOp_withStop (op : HostOp n) (m : Machine n) (stopPc : Word) :
    answer (op.call (m.withStop stopPc)) = answer (op.call m) ∧
      stateAfter (op.call (m.withStop stopPc)) = (stateAfter (op.call m)).withStop stopPc := by
  cases op with
  | loadProgram program offset =>
      simp only [HostOp.call, loadProgram_apply, withStop_place]
      split <;> exact ⟨rfl, rfl⟩
  | writeByte addr value =>
      simp only [HostOp.call, writeByte_apply, withStop_store]
      cases access n 1 addr <;> exact ⟨rfl, rfl⟩
  | writeHalfword addr value =>
      simp only [HostOp.call, writeHalfword_apply, withStop_store]
      cases access n 2 addr <;> exact ⟨rfl, rfl⟩
  | writeWord addr value =>
      simp only [HostOp.call, writeWord_apply, withStop_store]
      cases access n 4 addr <;> exact ⟨rfl, rfl⟩
  | _ => exact ⟨rfl, rfl⟩

variable {decode : Word → Except DecodeError Instruction}

/-- **No step looks at `stop_pc`**, and one that stops sets it. -/
theorem stepWith_withStop (m : Machine n) (stopPc : Word) :
    answer (stepWith decode (m.withStop stopPc)) = answer (stepWith decode m) ∧
      SameState (stateAfter (stepWith decode m))
        (stateAfter (stepWith decode (m.withStop stopPc))) ∧
      (Stops (answer (stepWith decode m)) → (stateAfter (stepWith decode m)).stopPc =
        (stateAfter (stepWith decode (m.withStop stopPc))).stopPc) := by
  have fetches : (m.withStop stopPc).fetch = m.fetch := rfl
  have zeros : (m.withStop stopPc).zeroX0 = m.zeroX0.withStop stopPc := rfl
  simp only [stepWith, bind_apply, reads, execute_eq, fetches]
  cases m.fetch with
  | error e => exact ⟨rfl, sameState_withStop m stopPc, by rintro ⟨_, ⟨⟩, _⟩⟩
  | ok raw =>
      cases decoded : decode raw with
      | error e =>
          simp only [decoded, liftDecode]
          exact ⟨rfl, sameState_withStop m stopPc, by rintro ⟨_, ⟨⟩, _⟩⟩
      | ok inst =>
          simp only [decoded, liftDecode, zeros, decision_withStop]
          cases decision inst (instSize raw) m.zeroX0 with
          | error e =>
              exact ⟨rfl, sameState_withStop m.zeroX0 stopPc, by rintro ⟨_, ⟨⟩, _⟩⟩
          | ok d =>
              refine ⟨rfl, ⟨rfl, rfl, rfl, rfl, rfl, rfl⟩, ?_⟩
              rintro ⟨stop, returned, stops⟩
              cases returned
              simp only [stateAfter_ok, retire, if_neg stops]
              rfl

end Machine

/-- Handling a call does not look at `stop_pc`, or change it. -/
theorem Hostcall.handle_withStop (m : Machine n) (stopPc : Word) (env : Env) :
    answer (handle (m.withStop stopPc, env)) = answer (handle (m, env)) ∧
      stateAfter (handle (m.withStop stopPc, env)) =
        ((stateAfter (handle (m, env))).1.withStop stopPc, (stateAfter (handle (m, env))).2) := by
  have asks : request (m.withStop stopPc) = request m := rfl
  rw [handle_eq, handle_eq, asks]
  cases request m with
  | exit | unknown | badFd | badBuffer => exact ⟨rfl, rfl⟩
  | write fd bytes =>
      dsimp only
      cases Writer.writeAll bytes (env.out fd) <;> exact ⟨rfl, rfl⟩
  | read addr len =>
      dsimp only
      split
      · simp only [Machine.withStop_place, Machine.withStop_writeReg]
        exact ⟨rfl, rfl⟩
      · exact ⟨rfl, rfl⟩

/-! ## VMs that are alike -/

namespace Vm

/-- The VMs have the same state and coherent caches, and the same `stop_pc` if `known` says
that it is known. -/
structure Alike (known : Prop) (vm : Vm o n) (vm' : Vm o' n) : Prop where
  state : SameState vm.toMachine vm'.toMachine
  coherent : Coherent o.decode vm.decodeCache
  coherent' : Coherent o'.decode vm'.decodeCache
  stopPc : known → vm.stopPc = vm'.stopPc

variable {known : Prop} {vm : Vm o n} {vm' : Vm o' n}

theorem Alike.weaken {less : Prop} (alike : Alike known vm vm') (le : less → known) :
    Alike less vm vm' :=
  { alike with stopPc := fun holds => alike.stopPc (le holds) }

theorem Alike.machine_eq (alike : Alike known vm vm') :
    vm'.toMachine = vm.toMachine.withStop vm'.stopPc :=
  Machine.withStop_of_sameState alike.state

/-- When `stop_pc` is known, the machines are the same. -/
theorem Alike.same (alike : Alike known vm vm') (holds : known) : vm'.toMachine = vm.toMachine := by
  rw [alike.machine_eq, ← alike.stopPc holds]
  rfl

/-- What only looks at the state sees the same. -/
theorem Alike.sees {α : Type} (alike : Alike known vm vm') {f : Machine n → α}
    (blind : ∀ m stopPc, f (m.withStop stopPc) = f m) : f vm.toMachine = f vm'.toMachine := by
  rw [alike.machine_eq, blind]

/-- Changes that do not look at `stop_pc` keep the VMs alike. -/
theorem Alike.put (alike : Alike known vm vm') {f : Machine n → Machine n}
    (blind : ∀ m stopPc, f (m.withStop stopPc) = (f m).withStop stopPc) :
    Alike known { vm with toMachine := f vm.toMachine }
      { vm' with toMachine := f vm'.toMachine } where
  state := by
    have after := blind vm.toMachine vm'.stopPc
    rw [← alike.machine_eq] at after
    dsimp only
    rw [after]
    exact Machine.sameState_withStop _ _
  coherent := alike.coherent
  coherent' := alike.coherent'
  stopPc holds := by
    dsimp only
    rw [alike.same holds]

theorem Alike.describeFault (default : o.decode = Determinant.decode)
    (default' : o'.decode = Determinant.decode) (alike : Alike known vm vm') (err : StepError) :
    vm.describeFault err = vm'.describeFault err := by
  have fetch : vm.fetch = vm'.fetch := alike.sees fun _ _ => rfl
  have regs : ∀ reg, vm.readReg reg = vm'.readReg reg := fun reg =>
    alike.sees (f := fun m => m.readReg reg) fun _ _ => rfl
  unfold Vm.describeFault
  simp only [fetch, alike.state.pc, regs, default, default']

variable (default : o.decode = Determinant.decode) (default' : o'.decode = Determinant.decode)

include default default'

/-- **A step of one is matched by a step of the other**, and when it stops `stop_pc` is
known. -/
theorem Alike.step (alike : Alike known vm vm') :
    answer (Vm.step vm) = answer (Vm.step vm') ∧
      Alike (known ∨ Stops (answer (Vm.step vm))) (stateAfter (Vm.step vm))
        (stateAfter (Vm.step vm')) := by
  obtain ⟨answers, machines⟩ := step_of_coherent alike.coherent
  obtain ⟨answers', machines'⟩ := step_of_coherent alike.coherent'
  have faithful : ∀ raw inst, Determinant.decode raw = .ok inst → inst.raw = raw :=
    fun _ _ decoded => (decode_decoded decoded).raw
  have same := alike.machine_eq
  rw [default] at answers machines
  rw [default'] at answers' machines'
  obtain ⟨sameAnswer, state, stops⟩ :=
    @Machine.stepWith_withStop n Determinant.decode vm.toMachine vm'.stopPc
  rw [← same] at sameAnswer state stops
  refine ⟨answers.trans (sameAnswer.symm.trans answers'.symm), ?_,
    coherent_step (default ▸ faithful) alike.coherent,
    coherent_step (default' ▸ faithful) alike.coherent', ?_⟩
  · rwa [machines, machines']
  · rw [machines, machines', answers]
    rintro (holds | stopped)
    · rw [alike.same holds]
    · exact stops stopped

/-- **A run of one is matched by a run of the other.** -/
theorem Alike.run (alike : Alike known vm vm') {maxCycles : Option Count}
    {outcome : Outcome o n StepResult} (runs : Runs maxCycles vm outcome) :
    ∃ outcome', Runs maxCycles vm' outcome' ∧ answer outcome = answer outcome' ∧
      Alike (known ∨ Stops (answer outcome)) (stateAfter outcome) (stateAfter outcome') := by
  have limits : ∀ {known : Prop} {vm : Vm o n} {vm' : Vm o' n}, Alike known vm vm' →
      limitReached maxCycles vm' = limitReached maxCycles vm := by
    intro known vm vm' alike
    unfold limitReached
    rw [alike.state.cycleCount]
  refine Ends.simulate
    (fun s s' => Alike (known ∨ Stops (.ok s.2)) s.1 s'.1 ∧ s.2 = s'.2)
    (fun (r : Outcome o n StepResult) (r' : Outcome o' n StepResult) =>
      answer r = answer r' ∧ Alike (known ∨ Stops (answer r)) (stateAfter r) (stateAfter r'))
    ?_ ?_ runs ⟨alike.weaken ?_, rfl⟩
  · rintro ⟨vm, result⟩ ⟨vm', result'⟩ ⟨next, onward⟩ ⟨alike, rfl⟩ turn
    obtain ⟨goesOn, below, stepped⟩ := runBody_eq_again.1 turn
    obtain ⟨answers, after⟩ := alike.step default default'
    dsimp only at *
    rw [stepped] at answers after
    cases stepped' : Vm.step vm' with
    | error e next' => simp [stepped'] at answers
    | ok onward' next' =>
        rw [stepped'] at answers after
        cases answers
        exact ⟨(next', onward), runBody_eq_again.2 ⟨goesOn, (limits alike).trans below, stepped'⟩,
          after.weaken (Or.imp_left .inl), rfl⟩
  · rintro ⟨vm, result⟩ ⟨vm', result'⟩ outcome ⟨alike, rfl⟩ leaves
    rcases runBody_eq_done.1 leaves with ⟨reached, rfl⟩ | ⟨goesOn, below, e, next, failed, rfl⟩
    · exact ⟨.ok result vm',
        runBody_eq_done.2 (.inl ⟨fun goesOn => (limits alike).trans (reached goesOn), rfl⟩),
        rfl, alike⟩
    · obtain ⟨answers, after⟩ := alike.step default default'
      dsimp only at *
      rw [failed] at answers after
      cases failed' : Vm.step vm' with
      | ok result' next' => simp [failed'] at answers
      | error e' next' =>
          rw [failed'] at answers after
          cases answers
          exact ⟨.error e next', runBody_eq_done.2 (.inr ⟨goesOn, (limits alike).trans below,
            e, next', failed', rfl⟩), rfl, after.weaken (Or.imp_left .inl)⟩
  · rintro (holds | ⟨_, same, stops⟩)
    · exact holds
    · cases same
      exact absurd rfl stops

/-- **An operation on one is matched by the other**, which replies the same. -/
theorem Alike.matched (alike : Alike known vm vm') {label : Call n × Reply} {next : Vm o n}
    (calls : vm.Calls label next) :
    ∃ next', vm'.Calls label next' ∧ Alike (known ∨ label.2.Stopped) next next' := by
  obtain ⟨call, reply⟩ := label
  have unstopped : ∀ {reply : Reply} {vm : Vm o n} {vm' : Vm o' n}, ¬reply.Stopped →
      Alike known vm vm' → Alike (known ∨ reply.Stopped) vm vm' :=
    fun goesOn alike => alike.weaken fun holds => holds.resolve_right goesOn
  cases call with
  | step =>
      obtain ⟨rfl, rfl⟩ := calls
      obtain ⟨answers, after⟩ := alike.step default default'
      exact ⟨_, ⟨congrArg _ answers, rfl⟩, after⟩
  | run maxCycles =>
      obtain ⟨outcome, runs, rfl, rfl⟩ := calls
      obtain ⟨outcome', runs', answers, after⟩ := alike.run default default' runs
      exact ⟨_, ⟨outcome', runs', congrArg _ answers, rfl⟩, after⟩
  | host op =>
      obtain ⟨rfl, rfl⟩ := calls
      have blind := Machine.hostOp_withStop op
      have answers := alike.sees (f := fun m => answer (op.call m))
        fun m stopPc => (blind m stopPc).1
      refine ⟨_, ⟨?_, rfl⟩, unstopped (by rintro ⟨⟩) ?_⟩
      · simp only [onMachine, answer_onPart, answers]
      · simp only [onMachine, stateAfter_onPart]
        exact alike.put (f := fun m => stateAfter (op.call m)) fun m stopPc => (blind m stopPc).2
  | handle env =>
      obtain ⟨rfl, rfl⟩ := calls
      have blind := fun m stopPc => Hostcall.handle_withStop (n := n) m stopPc env
      have answers := alike.sees (f := fun m => answer (Hostcall.handle (m, env)))
        fun m stopPc => (blind m stopPc).1
      have envs := alike.sees (f := fun m => (stateAfter (Hostcall.handle (m, env))).2)
        fun m stopPc => by rw [(blind m stopPc).2]
      refine ⟨_, ⟨?_, rfl⟩, unstopped (by rintro ⟨⟩) ?_⟩
      · simp only [Vm.handle, answer_onPart, stateAfter_onPart, answers, envs]
      · simp only [Vm.handle, stateAfter_onPart]
        exact alike.put (f := fun m => (stateAfter (Hostcall.handle (m, env))).1)
          fun m stopPc => by rw [(blind m stopPc).2]
  | readReg reg =>
      obtain ⟨rfl, rfl⟩ := calls
      have read := alike.sees (f := fun m => m.readReg reg) fun _ _ => rfl
      exact ⟨vm', ⟨congrArg _ read, rfl⟩, unstopped (by rintro ⟨⟩) alike⟩
  | describeFault err =>
      obtain ⟨rfl, rfl⟩ := calls
      have described := alike.describeFault default default' err
      exact ⟨vm', ⟨congrArg _ described, rfl⟩, unstopped (by rintro ⟨⟩) alike⟩
  | fetch =>
      obtain ⟨rfl, rfl⟩ := calls
      have read := alike.sees (f := fun m => m.fetch) fun _ _ => rfl
      exact ⟨vm', ⟨congrArg _ read, rfl⟩, unstopped (by rintro ⟨⟩) alike⟩
  | readByte addr =>
      obtain ⟨rfl, rfl⟩ := calls
      have read := alike.sees (f := fun m => m.readByte addr) fun _ _ => rfl
      exact ⟨vm', ⟨congrArg _ read, rfl⟩, unstopped (by rintro ⟨⟩) alike⟩
  | readHalfword addr =>
      obtain ⟨rfl, rfl⟩ := calls
      have read := alike.sees (f := fun m => m.readHalfword addr) fun _ _ => rfl
      exact ⟨vm', ⟨congrArg _ read, rfl⟩, unstopped (by rintro ⟨⟩) alike⟩
  | readWord addr =>
      obtain ⟨rfl, rfl⟩ := calls
      have read := alike.sees (f := fun m => m.readWord addr) fun _ _ => rfl
      exact ⟨vm', ⟨congrArg _ read, rfl⟩, unstopped (by rintro ⟨⟩) alike⟩

/-- **What one does the other does too**, and after the first stop `stop_pc` is known. -/
theorem Alike.trace (alike : Alike known vm vm') {labels : List (Call n × Reply)} {last : Vm o n}
    (trace : Trace Calls vm labels last) :
    ∃ last', Trace Calls vm' labels last' ∧
      Alike (known ∨ ∃ label ∈ labels, label.2.Stopped) last last' := by
  induction trace with
  | nil => exact ⟨vm', .nil vm', alike.weaken fun holds => holds.resolve_right (by simp)⟩
  | snoc _ calls ih =>
      obtain ⟨t', trace', between⟩ := ih
      obtain ⟨last', calls', after⟩ := between.matched default default' calls
      refine ⟨last', .snoc trace' calls', after.weaken ?_⟩
      rintro (holds | ⟨label, listed, stopped⟩)
      · exact .inl (.inl holds)
      · rcases List.mem_append.1 listed with earlier | final
        · exact .inl (.inr ⟨label, earlier, stopped⟩)
        · cases List.mem_singleton.1 final
          exact .inr stopped

omit default default'

theorem Alike.symm (alike : Alike known vm vm') : Alike known vm' vm :=
  ⟨alike.state.symm, alike.coherent', alike.coherent, fun holds => (alike.stopPc holds).symm⟩

/-- VMs with the same state write the same snapshot. -/
theorem Writes.of_sameState {bytes : List Byte} (writes : vm.Writes bytes)
    (same : SameState vm.toMachine vm'.toMachine) : vm'.Writes bytes := by
  obtain ⟨hdr, header, rfl⟩ := writes.header
  have header' : HeaderOf hdr vm'.toMachine :=
    header.congr same.pc same.regs same.cycleCount same.reservation same.csrs
  rw [same.memory]
  exact writes_of_header header'

/-- **A program may be suspended and resumed anywhere.** Take a well-formed VM with the default
decoder and a coherent cache, at any point of a run, and the snapshot it writes. Every VM with
the default decoder, a cache of any size and a memory of the same size, whatever it holds,
restores the snapshot. Then every sequence of operations of the guest and the host that one of
the two carries out the other carries out too, with the same replies; the operations alone
determine the replies. At the end they have the same state, write the same snapshot, and have
the same `stop_pc` if a step or a run among the operations was stopped by an ECALL or EBREAK. -/
theorem resume_invisible (default : o.decode = Determinant.decode)
    (default' : o'.decode = Determinant.decode) {a : Vm o n} (wellFormed : a.WellFormed)
    (coherent : Coherent o.decode a.decodeCache) {bytes : List Byte} (writes : a.Writes bytes)
    (b : Vm o' n) (buf : Header) (ending : ReadError) :
    ∃ b', restoreSnapshot buf ⟨bytes, ending⟩ b = .ok ⟨[], ending⟩ b' ∧
      (∀ labels a₁, Trace Calls a labels a₁ → ∃ b₁, Trace Calls b' labels b₁) ∧
      (∀ labels b₁, Trace Calls b' labels b₁ → ∃ a₁, Trace Calls a labels a₁) ∧
      ∀ labels labels' a₁ b₁, Trace Calls a labels a₁ → Trace Calls b' labels' b₁ →
        labels.map Prod.fst = labels'.map Prod.fst →
          labels = labels' ∧ SameState a₁.toMachine b₁.toMachine ∧
            (∀ bytes', a₁.Writes bytes' ↔ b₁.Writes bytes') ∧
            ((∃ label ∈ labels, label.2.Stopped) → a₁.stopPc = b₁.stopPc) := by
  obtain ⟨b', restored, same⟩ := restore_written wellFormed writes b buf ending
  have emptied : Coherent o'.decode b'.decodeCache := by
    obtain ⟨m, _, rfl⟩ := restoreSnapshot_eq_ok.1 restored
    exact .empty _
  have alike : Alike False a b' := ⟨same.symm, coherent, emptied, False.elim⟩
  refine ⟨b', restored, fun labels a₁ trace => ?_, fun labels b₁ trace => ?_,
    fun labels labels' a₁ b₁ trace trace' ops => ?_⟩
  · obtain ⟨b₁, matched, _⟩ := alike.trace default default' trace
    exact ⟨b₁, matched⟩
  · obtain ⟨a₁, matched, _⟩ := alike.symm.trace default' default trace
    exact ⟨a₁, matched⟩
  · obtain ⟨b₂, matched, after⟩ := alike.trace default default' trace
    obtain ⟨rfl, rfl⟩ := matched.unique Prod.fst
      (fun _ _ _ _ _ calls calls' => calls.unique calls') trace' ops
    exact ⟨rfl, after.state, fun _ => ⟨fun written => written.of_sameState after.state,
      fun written => written.of_sameState after.state.symm⟩,
      fun stopped => after.stopPc (.inr stopped)⟩

/-- A VM at SC.W x1, x2, (x3), with a reservation of the word at its address, and a 7 in x1. -/
def reserved : Vm Options.uncached .eight :=
  { (reset : Vm Options.uncached .eight) with
    regs := fun reg => if reg = 1#5 then 7#32 else if reg = 3#5 then 4#32 else 0#32
    memory := patch (fun _ => 0#8) 0 (writeInt 4 0x1821A0AF#32)
    reservation := some 4#32 }

/-- Suspended and resumed with a cache of one slot, it stores and puts zero in x1. -/
theorem resume_invisible_reserved :
    ∃ bytes b' b₁, reserved.Writes bytes ∧
      restoreSnapshot (fun _ => 0#8) ⟨bytes, .endOfStream⟩ (reset : Vm oneSlot .eight) =
        .ok ⟨[], .endOfStream⟩ b' ∧
      Trace Calls b' [(.step, .stepped (.ok .continue)), (.readReg 1#5, .reg 0#32)] b₁ := by
  obtain ⟨bytes, writes, _⟩ := writes_exists reserved
  have wellFormed : reserved.WellFormed := ⟨rfl, fun addr held => by cases held; decide⟩
  have stepped : Calls reserved (.step, .stepped (.ok .continue)) (stateAfter (step reserved)) :=
    ⟨rfl, rfl⟩
  have read : Calls (stateAfter (step reserved)) (.readReg 1#5, .reg 0#32) _ := ⟨rfl, rfl⟩
  obtain ⟨b', restored, onward, _⟩ := resume_invisible rfl rfl wellFormed (.empty _) writes
    (reset : Vm oneSlot .eight) (fun _ => 0#8) .endOfStream
  obtain ⟨b₁, trace⟩ := onward _ _ (.snoc (.snoc (.nil _) stepped) read)
  exact ⟨bytes, b', b₁, writes, restored, trace⟩

end Vm

end Determinant
