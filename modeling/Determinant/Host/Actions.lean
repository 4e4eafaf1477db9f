import Determinant.Cpu.HostApi
import Determinant.Host.LoaderSafety

/-!
# Actions of the guest and the host

What can happen to a VM in a session: the guest takes a step, or the host calls a method,
handles a host call, loads an executable or resets the VM. An action has an outcome in every
state, failed or not (`Action.act`), and what it does to the machine is what the method of the
machine does.
-/

set_option autoImplicit false

namespace Determinant

open Foundations

variable {n : MemSize} {o : Options}

/-- A step of the guest, or an operation of the host. -/
inductive Action (n : MemSize) where
  | step
  | host (op : HostOp n)
  | handle (env : Hostcall.Env)
  /-- Load an executable and set `pc` to its entry point. -/
  | loadElf (image : List Byte)
  | reset

namespace Action

/-- The VM after an action, whether it failed or not. -/
def act (vm : Vm o n) : Action n → Vm o n
  | .step => stateAfter (Vm.step vm)
  | .host op => stateAfter (Vm.onMachine op.call vm)
  | .handle env => (stateAfter (Vm.handle (vm, env))).1
  | .loadElf image =>
      match Vm.loadElf image vm with
      | .ok entry vm' => { vm' with pc := entry }
      | .error _ vm' => vm'
  | .reset => Vm.reset

/-- The action fails. -/
def Fails (vm : Vm o n) : Action n → Prop
  | .step => ∃ e vm', Vm.step vm = .error e vm'
  | .host op => ∃ e m', op.call vm.toMachine = .error e m'
  | .handle env => ∃ e s, Hostcall.handle (vm.toMachine, env) = .error e s
  | .loadElf image => ∃ e vm', Vm.loadElf image vm = .error e vm'
  | .reset => False

variable (vm : Vm o n)

theorem act_host (op : HostOp n) :
    act vm (.host op) = { vm with toMachine := stateAfter (op.call vm.toMachine) } :=
  stateAfter_onPart ..

theorem act_handle (env : Hostcall.Env) :
    act vm (.handle env) =
      { vm with toMachine := (stateAfter (Hostcall.handle (vm.toMachine, env))).1 } := by
  rw [act, Vm.handle, stateAfter_onPart]

/-- Loading is all or nothing. -/
theorem act_loadElf (image : List Byte) :
    act vm (.loadElf image) = match Loader.parse image with
      | .error _ => vm
      | .ok elf =>
          if ∀ s ∈ elf.segments.ahead, s.Fits n then
            { vm with
              toMachine :=
                { elf.segments.ahead.foldl (Loader.Segment.place image) vm.toMachine with
                  pc := elf.entry } }
          else vm := by
  simp only [act, Vm.loadElf, Vm.onMachine, onPart, Loader.loadElf_apply]
  cases Loader.parse image with
  | error f => rfl
  | ok elf =>
      by_cases fits : ∀ s ∈ elf.segments.ahead, s.Fits n
      · simp only [if_pos fits]
      · simp only [if_neg fits]

end Action

end Determinant
