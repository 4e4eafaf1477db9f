import Determinant.Cpu.Run
import Determinant.Cpu.Snapshot
import Determinant.Foundations.Traces

/-!
# The host's operations

What a host can do with a VM, as data: the methods that change it, and assignments to its
public fields. An operation is performed with an answer, the method's result or its error, and
leads to another VM. An event is an operation with its answer and with the machine after it,
which is all that a host can see; the decode cache is not part of it.
-/

set_option autoImplicit false

namespace Determinant

open Foundations

variable {n : MemSize} {o : Options}

/-- The operations on the machine alone. -/
inductive HostOp (n : MemSize) where
  | loadProgram (program : List Byte) (offset : Word)
  | writeByte (addr : Word) (value : Byte)
  | writeHalfword (addr : Word) (value : Half)
  | writeWord (addr value : Word)
  | writeReg (reg : Reg) (value : Word)
  | clearReservation
  | setPc (value : Word)
  | setReg (reg : Reg) (value : Word)
  | setByte (addr : Fin n.bytes) (value : Byte)
  | setCycleCount (value : Count)
  | setMscratch (value : Word)

/-- An operation on the machine, carried out. -/
def HostOp.call : HostOp n → EStateM StepError (Machine n) Unit
  | .loadProgram program offset => Machine.loadProgram program offset
  | .writeByte addr value => Machine.writeByte addr value
  | .writeHalfword addr value => Machine.writeHalfword addr value
  | .writeWord addr value => Machine.writeWord addr value
  | .writeReg reg value => modify (Machine.writeReg · reg value)
  | .clearReservation => modify Machine.clearReservation
  | .setPc value => modify fun m => { m with pc := value }
  | .setReg reg value => modify fun m => { m with regs := Function.update m.regs reg value }
  | .setByte addr value => modify fun m => { m with memory := Function.update m.memory addr value }
  | .setCycleCount value => modify fun m => { m with cycleCount := value }
  | .setMscratch value => modify fun m => { m with csrs := { m.csrs with mscratch := value } }

/-- An operation on the VM. -/
inductive Operation (n : MemSize) where
  | step
  | run (maxCycles : Option Count)
  | host (op : HostOp n)
  | reset
  | restoreSnapshot (buf : Snapshot.Header) (r : Reader)

/-- What an operation returns; a restored snapshot returns the rest of the stream. -/
inductive Answer where
  | stepped (result : Except StepError StepResult)
  | called (result : Except StepError Unit)
  | restored (result : Except Snapshot.RestoreError Reader)
  | silent

/-- The operation leads from one VM to another, with an answer. A run without a limit may
lead nowhere. -/
def Operation.Leads (vm : Vm o n) : Operation n → Answer → Vm o n → Prop
  | .step, result, vm' =>
      result = .stepped (answer (Vm.step vm)) ∧ vm' = stateAfter (Vm.step vm)
  | .run maxCycles, result, vm' =>
      ∃ outcome, Vm.Runs maxCycles vm outcome ∧
        result = .stepped (answer outcome) ∧ vm' = stateAfter outcome
  | .host op, result, vm' =>
      result = .called (answer (Vm.onMachine op.call vm)) ∧
        vm' = stateAfter (Vm.onMachine op.call vm)
  | .reset, result, vm' => result = .silent ∧ vm' = Vm.reset
  | .restoreSnapshot buf r, result, vm' =>
      result = .restored (answer (Vm.restoreSnapshot buf r vm)) ∧
        vm' = stateAfter (Vm.restoreSnapshot buf r vm)

/-- What a host sees of an operation. -/
structure Event (n : MemSize) where
  op : Operation n
  answer : Answer
  after : Machine n

/-- The VM performs the operation of the event, and the host sees the event. -/
def Vm.Performs (vm : Vm o n) (event : Event n) (vm' : Vm o n) : Prop :=
  event.op.Leads vm event.answer vm' ∧ vm'.toMachine = event.after

/-- **An operation has at most one answer**, and leads to at most one VM. -/
theorem Vm.Performs.unique {vm next next' : Vm o n} {event event' : Event n}
    (performs : vm.Performs event next) (performs' : vm.Performs event' next')
    (same : event.op = event'.op) : event = event' ∧ next = next' := by
  obtain ⟨op, result, after⟩ := event
  obtain ⟨op', result', after'⟩ := event'
  obtain ⟨leads, rfl⟩ := performs
  obtain ⟨leads', rfl⟩ := performs'
  cases same
  cases op with
  | run maxCycles =>
      obtain ⟨outcome, runs, rfl, rfl⟩ := leads
      obtain ⟨outcome', runs', rfl, rfl⟩ := leads'
      cases Ends.unique runs runs'
      exact ⟨rfl, rfl⟩
  | step | host | reset | restoreSnapshot =>
      obtain ⟨rfl, rfl⟩ := leads
      obtain ⟨rfl, rfl⟩ := leads'
      exact ⟨rfl, rfl⟩

end Determinant
