import Determinant.Cpu.DescribeFault
import Determinant.Cpu.HostApi
import Determinant.Host.Requests

/-!
# Host-written x0 never leaks

A host can write `regs[0]` directly, and until the next write of a register the cell holds what
the host put there. Two machines that differ at most in this cell (`SameButX0`) are the same
once x0 is forced to zero, and every method either reads the registers through `readReg`, or
forces x0 to zero before it indexes them. So no operation tells the two apart
(`Call.matched`), and a step that retires leaves zero in the cell.
-/

set_option autoImplicit false

namespace Determinant

open Foundations

variable {n : MemSize} {o : Options}

namespace Machine

/-- The machines differ at most in the raw value of `regs[0]`. -/
structure SameButX0 (m m' : Machine n) : Prop where
  pc : m.pc = m'.pc
  regs : ∀ reg, reg ≠ 0#5 → m.regs reg = m'.regs reg
  memory : m.memory = m'.memory
  cycleCount : m.cycleCount = m'.cycleCount
  reservation : m.reservation = m'.reservation
  csrs : m.csrs = m'.csrs
  stopPc : m.stopPc = m'.stopPc

variable {m m' : Machine n}

theorem sameButX0_iff : m.SameButX0 m' ↔ m.zeroX0 = m'.zeroX0 := by
  constructor
  · intro same
    apply Machine.ext
    · exact same.pc
    · funext reg
      by_cases x0 : reg = 0#5
      · simp [zeroX0, x0]
      · simpa [zeroX0, x0] using same.regs reg x0
    · exact same.memory
    · exact same.cycleCount
    · exact same.reservation
    · exact same.csrs
    · exact same.stopPc
  · intro same
    refine ⟨(congrArg pc same :), fun reg notX0 => ?_, (congrArg memory same :),
      (congrArg cycleCount same :), (congrArg reservation same :), (congrArg csrs same :),
      (congrArg stopPc same :)⟩
    have cell := congrFun (congrArg regs same) reg
    simpa [zeroX0, notX0] using cell

/-- A register is read the same from both. -/
theorem SameButX0.readReg (same : m.SameButX0 m') (reg : Reg) : m.readReg reg = m'.readReg reg := by
  rw [← zeroX0_regs, ← zeroX0_regs, sameButX0_iff.1 same]

/-- A change that is the same, up to x0, whether x0 was forced to zero before or not. -/
def Blind (f : Machine n → Machine n) : Prop := ∀ m, (f m).zeroX0 = (f m.zeroX0).zeroX0

theorem Blind.same {f : Machine n → Machine n} (blind : Blind f) (same : m.SameButX0 m') :
    (f m).SameButX0 (f m') := by
  rw [sameButX0_iff, blind m, blind m', sameButX0_iff.1 same]

@[simp] theorem zeroX0_zeroX0 (m : Machine n) : m.zeroX0.zeroX0 = m.zeroX0 := by
  simp only [zeroX0, Function.update_idem]

theorem blind_writeReg (reg : Reg) (value : Word) : Blind (n := n) (writeReg · reg value) := by
  intro m
  simp only [zeroX0_writeReg]

/-- Changes of memory and of the reservation do not look at the registers. -/
theorem blind_place (addr : Nat) (bytes : List Byte) : Blind (n := n) (place · addr bytes) := by
  intro m
  simp only [place, invalidateReservationRange_eq, zeroX0, Function.update_idem]

theorem blind_store (addr : Word) (bytes : List Byte) : Blind (n := n) (store · addr bytes) := by
  intro m
  simp only [store, invalidateReservation_eq, zeroX0, Function.update_idem]

theorem blind_setReg (reg : Reg) (value : Word) :
    Blind (n := n) fun m => { m with regs := Function.update m.regs reg value } := by
  intro m
  have cells : Function.update (Function.update m.regs reg value) 0#5 0#32 =
      Function.update (Function.update (Function.update m.regs 0#5 0#32) reg value) 0#5 0#32 := by
    funext r
    simp only [Function.update_apply]
    split_ifs <;> rfl
  simp only [zeroX0, cells]

/-! ## Methods of the machine -/

theorem Blind.modify {f : Machine n → Machine n} (blind : Blind f) :
    Indistinguishable SameButX0 (modify f : EStateM StepError (Machine n) Unit) (modify f) :=
  .modify fun _ _ same => blind.same same

/-- A method that checks an access and then stores. -/
theorem indistinguishable_store {k : Nat} {addr : Word} {bytes : List Byte}
    {x : EStateM StepError (Machine n) Unit}
    (stores : ∀ m, x m = match access n k addr with
      | .ok () => .ok () (m.store addr bytes)
      | .error e => .error e m) : Indistinguishable SameButX0 x x := by
  intro m m' same
  rw [stores, stores]
  cases access n k addr with
  | ok => exact ⟨rfl, (blind_store addr bytes).same same⟩
  | error e => exact ⟨rfl, same⟩

/-- **No operation of the host tells the machines apart.** -/
theorem indistinguishable_hostOp (op : HostOp n) : Indistinguishable SameButX0 op.call op.call := by
  cases op with
  | loadProgram program offset =>
      intro m m' same
      simp only [HostOp.call, loadProgram_apply]
      split
      · exact ⟨rfl, (blind_place _ program).same same⟩
      · exact ⟨rfl, same⟩
  | writeByte addr value => exact indistinguishable_store (writeByte_apply addr value)
  | writeHalfword addr value => exact indistinguishable_store (writeHalfword_apply addr value)
  | writeWord addr value => exact indistinguishable_store (writeWord_apply addr value)
  | writeReg reg value => exact (blind_writeReg reg value).modify
  | setReg reg value => exact (blind_setReg reg value).modify
  | clearReservation | setPc | setByte | setCycleCount | setMscratch =>
      refine Blind.modify fun m => ?_
      simp only [clearReservation, zeroX0, Function.update_idem]

theorem indistinguishable_execute (inst : Instruction) (size : Word) :
    Indistinguishable (SameButX0 (n := n)) (execute inst size) (execute inst size) := by
  intro m m' same
  rw [execute_eq, execute_eq, sameButX0_iff.1 same]
  cases decision inst size m'.zeroX0 <;> exact ⟨rfl, sameButX0_iff.2 rfl⟩

end Machine

/-! ## The VM -/

namespace Vm

/-- The VMs differ at most in the raw value of `regs[0]`. -/
structure SameButX0 (vm vm' : Vm o n) : Prop where
  machine : vm.toMachine.SameButX0 vm'.toMachine
  decodeCache : vm.decodeCache = vm'.decodeCache

variable {vm vm' : Vm o n}

/-- What does not look at the registers is the same for both. -/
theorem SameButX0.sees {α : Type} (same : SameButX0 vm vm') {f : Machine n → α}
    (blind : ∀ m, f m.zeroX0 = f m) : f vm.toMachine = f vm'.toMachine := by
  rw [← blind vm.toMachine, ← blind vm'.toMachine, Machine.sameButX0_iff.1 same.machine]

theorem indistinguishable_onMachine {ε α : Type} {x : EStateM ε (Machine n) α}
    (part : Indistinguishable Machine.SameButX0 x x) :
    Indistinguishable (SameButX0 (o := o)) (onMachine x) (onMachine x) :=
  .onPart (fun _ _ same => same.machine)
    (fun _ _ _ _ machines same => ⟨machines, same.decodeCache⟩) part

/-- Decoding looks at `pc` and the cache, and fills the cache. -/
theorem indistinguishable_decodeCached (raw : Word) :
    Indistinguishable (SameButX0 (o := o) (n := n)) (decodeCached raw) (decodeCached raw) := by
  intro vm vm' same
  obtain ⟨machine, cache⟩ := same
  have pc := machine.pc
  by_cases off : o.decodeCacheEntries = 0#32
  · rw [decodeCached_off off, decodeCached_off off]
    cases o.decode raw <;> exact ⟨rfl, machine, cache⟩
  · by_cases hit : (vm.decodeCache (slot off vm.pc)).raw = raw
    · have hit' := hit
      rw [cache, pc] at hit'
      rw [decodeCached_hit off hit, decodeCached_hit off hit', cache, pc]
      exact ⟨rfl, machine, cache⟩
    · have miss' := hit
      rw [cache, pc] at miss'
      rw [decodeCached_miss off hit, decodeCached_miss off miss']
      cases o.decode raw with
      | error e => exact ⟨rfl, machine, cache⟩
      | ok inst =>
          refine ⟨rfl, machine, ?_⟩
          simp only [stateAfter_ok, fillSlot, cache, pc]

theorem indistinguishable_step :
    Indistinguishable (SameButX0 (o := o) (n := n)) step step :=
  .bind (.reads fun _ _ same => same.sees fun _ => rfl) fun raw =>
    .bind (.adaptExcept _ (indistinguishable_decodeCached raw)) fun inst =>
      indistinguishable_onMachine (Machine.indistinguishable_execute inst _)

end Vm

/-! ## Host calls -/

namespace Hostcall

/-- The states of the handler differ at most in the raw value of `regs[0]`. -/
def SameButX0 (s s' : Machine n × Env) : Prop := s.1.SameButX0 s'.1 ∧ s.2 = s'.2

/-- A guest asks the same. -/
theorem request_sameButX0 {m m' : Machine n} (same : m.SameButX0 m') : request m = request m' := by
  have memory := same.memory
  unfold request guestBytes
  simp only [same.readReg, memory]

theorem indistinguishable_handle : Indistinguishable (SameButX0 (n := n)) handle handle := by
  rintro ⟨m, env⟩ ⟨m', env'⟩ ⟨same, sameEnv⟩
  dsimp only at same sameEnv
  subst sameEnv
  rw [handle_eq, handle_eq, request_sameButX0 same]
  cases request m' with
  | exit | unknown => exact ⟨rfl, same, rfl⟩
  | badFd | badBuffer => exact ⟨rfl, (Machine.blind_writeReg _ _).same same, rfl⟩
  | write fd bytes =>
      dsimp only
      cases Writer.writeAll bytes (env.out fd) with
      | ok =>
          refine ⟨rfl, ?_, rfl⟩
          rw [same.readReg]
          exact (Machine.blind_writeReg _ _).same same
      | error => exact ⟨rfl, same, rfl⟩
  | read addr len =>
      dsimp only
      split
      · exact ⟨rfl, (Machine.blind_writeReg _ _).same ((Machine.blind_place _ _).same same), rfl⟩
      · exact ⟨rfl, same, rfl⟩

end Hostcall

/-! ## Sequences of operations -/

/-- An operation of the guest or of the host; a host call comes with its environment. -/
inductive Call (n : MemSize) where
  | step
  | run (maxCycles : Option Count)
  | readReg (reg : Reg)
  | describeFault (err : StepError)
  | handle (env : Hostcall.Env)
  | fetch
  | readByte (addr : Word)
  | readHalfword (addr : Word)
  | readWord (addr : Word)
  /-- `loadProgram`, `writeReg`, the methods that write memory, and assignments to fields. -/
  | host (op : HostOp n)

/-- What an operation returns; a host call returns the environment too. -/
inductive Reply where
  | stepped (result : Except StepError StepResult)
  | reg (value : Word)
  | fault (fault : Fault)
  | handled (result : Except (Failure WriteError) Hostcall.Outcome) (env : Hostcall.Env)
  | byte (result : Except StepError Byte)
  | half (result : Except StepError Half)
  | word (result : Except StepError Word)
  | called (result : Except StepError Unit)

/-- The operation leads from one VM to another, with a reply. A run without a limit may lead
nowhere. -/
def Call.Leads (vm : Vm o n) : Call n → Reply → Vm o n → Prop
  | .step, reply, vm' => reply = .stepped (answer (Vm.step vm)) ∧ vm' = stateAfter (Vm.step vm)
  | .run maxCycles, reply, vm' =>
      ∃ outcome, Vm.Runs maxCycles vm outcome ∧
        reply = .stepped (answer outcome) ∧ vm' = stateAfter outcome
  | .readReg reg, reply, vm' => reply = .reg (vm.readReg reg) ∧ vm' = vm
  | .describeFault err, reply, vm' => reply = .fault (vm.describeFault err) ∧ vm' = vm
  | .handle env, reply, vm' =>
      reply = .handled (answer (Vm.handle (vm, env))) (stateAfter (Vm.handle (vm, env))).2 ∧
        vm' = (stateAfter (Vm.handle (vm, env))).1
  | .fetch, reply, vm' => reply = .word vm.fetch ∧ vm' = vm
  | .readByte addr, reply, vm' => reply = .byte (vm.readByte addr) ∧ vm' = vm
  | .readHalfword addr, reply, vm' => reply = .half (vm.readHalfword addr) ∧ vm' = vm
  | .readWord addr, reply, vm' => reply = .word (vm.readWord addr) ∧ vm' = vm
  | .host op, reply, vm' =>
      reply = .called (answer (Vm.onMachine op.call vm)) ∧
        vm' = stateAfter (Vm.onMachine op.call vm)

namespace Vm

/-- The VM performs an operation and replies. -/
def Calls (vm : Vm o n) (label : Call n × Reply) (vm' : Vm o n) : Prop :=
  label.1.Leads vm label.2 vm'

/-- **An operation has at most one reply**, and leads to at most one VM. -/
theorem Calls.unique {vm next next' : Vm o n} {label label' : Call n × Reply}
    (calls : vm.Calls label next) (calls' : vm.Calls label' next') (same : label.1 = label'.1) :
    label = label' ∧ next = next' := by
  obtain ⟨call, reply⟩ := label
  obtain ⟨call', reply'⟩ := label'
  cases same
  cases call with
  | run maxCycles =>
      obtain ⟨outcome, runs, replies, rfl⟩ := calls
      obtain ⟨outcome', runs', replies', rfl⟩ := calls'
      cases Ends.unique runs runs'
      exact ⟨congrArg _ (replies.trans replies'.symm), rfl⟩
  | _ =>
      obtain ⟨replies, rfl⟩ := calls
      obtain ⟨replies', rfl⟩ := calls'
      exact ⟨congrArg _ (replies.trans replies'.symm), rfl⟩

variable {vm₁ vm₂ : Vm o n}

theorem SameButX0.describeFault (same : SameButX0 vm₁ vm₂) (err : StepError) :
    vm₁.describeFault err = vm₂.describeFault err := by
  have fetch : vm₁.fetch = vm₂.fetch := same.sees fun _ => rfl
  unfold Vm.describeFault
  simp only [fetch, same.machine.pc, same.machine.readReg]

/-- **No operation tells the VMs apart**: the other replies the same. -/
theorem SameButX0.matched (same : SameButX0 vm₁ vm₂) {label : Call n × Reply} {next : Vm o n}
    (calls : vm₁.Calls label next) : ∃ next', vm₂.Calls label next' ∧ SameButX0 next next' := by
  obtain ⟨call, reply⟩ := label
  cases call with
  | step =>
      obtain ⟨replies, rfl⟩ := calls
      obtain ⟨answers, states⟩ := indistinguishable_step same
      exact ⟨_, ⟨replies.trans (congrArg _ answers), rfl⟩, states⟩
  | run maxCycles =>
      obtain ⟨outcome, runs, replies, rfl⟩ := calls
      obtain ⟨outcome', runs', answers, states⟩ :=
        runs.simulate (fun _ _ same => same.machine.cycleCount) indistinguishable_step same
      exact ⟨_, ⟨outcome', runs', replies.trans (congrArg _ answers), rfl⟩, states⟩
  | host op =>
      obtain ⟨replies, rfl⟩ := calls
      obtain ⟨answers, states⟩ :=
        indistinguishable_onMachine (Machine.indistinguishable_hostOp op) same
      exact ⟨_, ⟨replies.trans (congrArg _ answers), rfl⟩, states⟩
  | handle env =>
      obtain ⟨replies, rfl⟩ := calls
      have handled : Indistinguishable (fun s s' : Vm o n × Hostcall.Env =>
          SameButX0 s.1 s'.1 ∧ s.2 = s'.2) Vm.handle Vm.handle :=
        .onPart (fun _ _ same => ⟨same.1.machine, same.2⟩)
          (fun _ _ _ _ machines same => ⟨⟨machines.1, same.1.decodeCache⟩, machines.2⟩)
          Hostcall.indistinguishable_handle
      have paired : SameButX0 (vm₁, env).1 (vm₂, env).1 ∧ (vm₁, env).2 = (vm₂, env).2 := ⟨same, rfl⟩
      obtain ⟨answers, states, envs⟩ := handled paired
      refine ⟨_, ⟨replies.trans ?_, rfl⟩, states⟩
      rw [answers, envs]
  | readReg reg =>
      obtain ⟨replies, rfl⟩ := calls
      exact ⟨vm₂, ⟨replies.trans (congrArg _ (same.machine.readReg reg)), rfl⟩, same⟩
  | describeFault err =>
      obtain ⟨replies, rfl⟩ := calls
      exact ⟨vm₂, ⟨replies.trans (congrArg _ (same.describeFault err)), rfl⟩, same⟩
  | fetch =>
      obtain ⟨replies, rfl⟩ := calls
      exact ⟨vm₂, ⟨replies.trans (congrArg _ (same.sees fun _ => rfl)), rfl⟩, same⟩
  | readByte addr =>
      obtain ⟨replies, rfl⟩ := calls
      have read := same.sees (f := fun m => m.readByte addr) fun _ => rfl
      exact ⟨vm₂, ⟨replies.trans (congrArg _ read), rfl⟩, same⟩
  | readHalfword addr =>
      obtain ⟨replies, rfl⟩ := calls
      have read := same.sees (f := fun m => m.readHalfword addr) fun _ => rfl
      exact ⟨vm₂, ⟨replies.trans (congrArg _ read), rfl⟩, same⟩
  | readWord addr =>
      obtain ⟨replies, rfl⟩ := calls
      have read := same.sees (f := fun m => m.readWord addr) fun _ => rfl
      exact ⟨vm₂, ⟨replies.trans (congrArg _ read), rfl⟩, same⟩

/-- **Host-written x0 never leaks.** Take two VMs that differ at most in the raw value of
`regs[0]`. Every sequence of operations that one carries out the other carries out too, with
the same replies, and then they still differ at most in this cell; the operations alone
determine the replies. A step that retires on one retires on the other with the same result,
and leaves zero in the cell of both. -/
theorem x0_never_leaks (same : SameButX0 vm₁ vm₂) :
    (∀ history vm₁', Trace Calls vm₁ history vm₁' →
      ∃ vm₂', Trace Calls vm₂ history vm₂' ∧ SameButX0 vm₁' vm₂') ∧
    (∀ history₁ history₂ vm₁' vm₂', Trace Calls vm₁ history₁ vm₁' →
      Trace Calls vm₂ history₂ vm₂' → history₁.map Prod.fst = history₂.map Prod.fst →
        history₁ = history₂ ∧ SameButX0 vm₁' vm₂') ∧
    ∀ result vm₁', step vm₁ = .ok result vm₁' →
      ∃ vm₂', step vm₂ = .ok result vm₂' ∧ vm₁'.regs 0#5 = 0#32 ∧ vm₂'.regs 0#5 = 0#32 := by
  have matched : ∀ (vm₁ vm₂ : Vm o n) label next, SameButX0 vm₁ vm₂ → Calls vm₁ label next →
      ∃ next', Calls vm₂ label next' ∧ SameButX0 next next' :=
    fun _ _ _ _ same calls => same.matched calls
  have simulated : ∀ history vm₁', Trace Calls vm₁ history vm₁' →
      ∃ vm₂', Trace Calls vm₂ history vm₂' ∧ SameButX0 vm₁' vm₂' :=
    fun _ _ trace => trace.simulate SameButX0 matched same
  refine ⟨simulated, fun history₁ history₂ vm₁' vm₂' trace₁ trace₂ ops => ?_,
    fun result vm₁' stepped => ?_⟩
  · obtain ⟨vm₂'', matched, after⟩ := simulated history₁ vm₁' trace₁
    obtain ⟨rfl, rfl⟩ := matched.unique Prod.fst
      (fun _ _ _ _ _ calls calls' => calls.unique calls') trace₂ ops
    exact ⟨rfl, after⟩
  · obtain ⟨answers, _⟩ := indistinguishable_step same
    rw [stepped, answer_ok] at answers
    cases stepped' : step vm₂ with
    | error e vm₂' => simp [stepped'] at answers
    | ok result' vm₂' =>
        simp only [stepped', answer_ok, Except.ok.injEq] at answers
        subst answers
        exact ⟨vm₂', rfl, step_ok_x0 stepped, step_ok_x0 stepped'⟩

/-- A VM at ADD x1, x0, x0. -/
def addZeros : Vm Options.uncached .four :=
  { (reset : Vm Options.uncached .four) with
    memory := patch (fun _ => 0#8) 0 (writeInt 4 0x000000B3#32) }

/-- With a value in its `regs[0]` it puts zero in x1 as well. -/
theorem x0_never_leaks_add :
    ∃ vm', Trace Calls
      { addZeros with regs := Function.update addZeros.regs 0#5 0xDEADBEEF#32 }
      [(.step, .stepped (.ok .continue)), (.readReg 1#5, .reg 0#32)] vm' := by
  have same : SameButX0 addZeros
      { addZeros with regs := Function.update addZeros.regs 0#5 0xDEADBEEF#32 } :=
    ⟨⟨rfl, fun reg notX0 => (Function.update_of_ne notX0 _ _).symm, rfl, rfl, rfl, rfl, rfl⟩, rfl⟩
  have stepped : Calls addZeros (.step, .stepped (.ok .continue)) (stateAfter (step addZeros)) :=
    ⟨rfl, rfl⟩
  have read : Calls (stateAfter (step addZeros)) (.readReg 1#5, .reg 0#32) _ := ⟨rfl, rfl⟩
  obtain ⟨vm', trace, _⟩ := (x0_never_leaks same).1 _ _ (.snoc (.snoc (.nil _) stepped) read)
  exact ⟨vm', trace⟩

end Vm

end Determinant
