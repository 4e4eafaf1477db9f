import Determinant.Cli.TraceInvisible
import Determinant.Foundations.NestedLoops

/-!
# What a program does

A program that runs has a machine, some input that is left, and what it wrote (`Guest`). It takes
one instruction after the other, and an ECALL is its call to the host; nothing else happens. There
is no decode cache, no buffer, no trace and no loop inside a loop.

The CLI carries programs out: its `execute` ends just when the program does, in the same way, and
has written to stdout what the program wrote (`execute_refines`). Without the trace this is so for
stderr too.
-/

set_option autoImplicit false

namespace Determinant

open Foundations Hostcall

variable {n : MemSize} {o : Options}

/-- A program that runs. -/
structure Guest (n : MemSize) where
  machine : Machine n
  /-- What is left of it. -/
  input : List Byte
  wrote : Fd → List Byte := fun _ => []

namespace Guest

open Report (Stop)

/-- The result of a call goes to `a0`. -/
def answered (g : Guest n) (result : Word) : Guest n :=
  { g with machine := g.machine.writeReg 10#5 result }

def hasWritten (g : Guest n) (fd : Fd) (bytes : List Byte) : Guest n :=
  { g with wrote := Function.update g.wrote fd (g.wrote fd ++ bytes) }

/-- The next bytes of the input go to memory. -/
def hasRead (g : Guest n) (addr len : Word) : Guest n :=
  { g with
    machine := g.machine.place addr.toNat (g.input.take len.toNat)
    input := g.input.drop len.toNat }

/-- The call that the program makes at an ECALL. -/
def call (g : Guest n) : Hostcall.Outcome × Guest n :=
  match request g.machine with
  | .exit status => (.exit status, g)
  | .unknown number => (.unknown number, g)
  | .badFd => (.resumed, g.answered ebadf)
  | .badBuffer => (.resumed, g.answered efault)
  | .write fd bytes => (.resumed, (g.hasWritten fd bytes).answered (g.machine.readReg 12#5))
  | .read addr len =>
      (.resumed,
        (g.hasRead addr len).answered (BitVec.ofNat 32 (g.input.take len.toNat).length))

/-- After a call the program goes on or stops. -/
def stopOf : Hostcall.Outcome → Option Stop
  | .resumed => none
  | .exit status => some (.exit status)
  | .unknown number => some (.ecall number)

/-- What comes after an instruction that did not fail. -/
def onward (g : Guest n) : StepResult → Option Stop × Guest n
  | .continue => (none, g)
  | .ebreak => (some .ebreak, g)
  | .ecall => (stopOf g.call.1, g.call.2)

/-- The limit on the instructions is reached. -/
def limitReached (maxCycles : Option Count) (g : Guest n) : Bool :=
  match maxCycles with
  | some limit => g.machine.cycleCount ≥ limit
  | none => false

/-- One instruction, and the call if it makes one, unless the limit is reached. -/
def turn (maxCycles : Option Count) : EStateM StepError (Guest n) (Option Stop) := fun g =>
  if g.limitReached maxCycles then .ok (some .cycleLimit) g
  else
    match Machine.stepWith Determinant.decode g.machine with
    | .error e m => .error e { g with machine := m }
    | .ok result m =>
        let next := { g with machine := m }.onward result
        .ok next.1 next.2

/-- The program runs until it stops or fails. It may do neither. -/
def Runs (maxCycles : Option Count) : Behaviour StepError (Guest n) Stop :=
  .loop (.lift (turn maxCycles))

end Guest

namespace Cli

/-! ## The CLI as one loop -/

/-- A turn of the run of the VM, with the trace or without it. -/
def vmTurn (trace : Bool) (maxCycles : Option Count) :
    EStateM StepError (Session o n) (Option StepResult) :=
  if trace then traceTurn maxCycles
  else onPart Session.vm (fun vm s => { s with vm := vm }) (Vm.runTurn maxCycles)

/-- One instruction, and the host call if it makes one. -/
def cliTurn (trace : Bool) (maxCycles : Option Count) :
    EStateM (Failure RunError) (Session o n) (Option Report.Stop) :=
  Behaviour.nestedTurn
    (EStateM.adaptExcept (fun e => .returned (.fault e)) (vmTurn trace maxCycles))
    (afterRun trace)

/-- **Executing is one loop over the instructions.** -/
theorem execute_eq_loop (trace : Bool) (maxCycles : Option Count) :
    execute (o := o) (n := n) trace maxCycles = .loop (.lift (cliTurn trace maxCycles)) := by
  have ran : (if trace then traceRun (o := o) (n := n) maxCycles else plainRun maxCycles) =
      .loop (.lift (vmTurn trace maxCycles)) := by
    cases trace with
    | true => rfl
    | false =>
        have loops : Vm.Runs (o := o) (n := n) maxCycles =
            Behaviour.loop (.lift (Vm.runTurn maxCycles)) := by
          funext vm outcome
          exact propext Vm.runs_iff_loop
        have turns := Behaviour.onPart_loop (Session.vm (o := o) (n := n))
          (fun vm s => { s with vm := vm }) (fun _ _ => rfl) (fun _ _ _ => rfl)
          (.lift (Vm.runTurn maxCycles))
        change plainRun maxCycles = _
        rw [plainRun, loops, turns, Behaviour.onPart_lift]
        rfl
  unfold execute executeTurn
  rw [ran, Behaviour.mapError_loop, Behaviour.mapError_lift, Behaviour.loop_nested,
    Behaviour.nested_lift]
  rfl

/-- A turn takes a step of the VM; with the trace it prints a line, which does not matter to the
program. -/
theorem vmTurn_apply (trace : Bool) (maxCycles : Option Count) (s : Session o n) :
    vmTurn trace maxCycles s =
      if Vm.limitReached maxCycles s.vm then .ok (some .continue) s
      else
        match Vm.step s.vm with
        | .error e vm => .error e { s with vm := vm }
        | .ok result vm =>
            .ok (if result = .continue then none else some result)
              (if trace then Session.print .stderr (traceLine s.vm vm) { s with vm := vm }
                else { s with vm := vm }) := by
  unfold vmTurn
  cases trace with
  | true => exact traceTurn_apply maxCycles s
  | false =>
      simp only [Bool.false_eq_true, if_false, onPart, Vm.runTurn_apply]
      by_cases reached : Vm.limitReached maxCycles s.vm
      · simp only [if_pos reached]
      · simp only [if_neg reached]
        cases Vm.step s.vm <;> rfl

/-! ## Sessions and programs -/

/-- The session has the state of the program, and was told what it wrote after what was written
before. With the trace that is known of stdout only. -/
structure CarriesOut (trace : Bool) (before : Fd → List Byte) (s : Session o n) (g : Guest n) :
    Prop where
  machine : s.vm.toMachine = g.machine
  coherent : Coherent o.decode s.vm.decodeCache
  left : InputLeft s
  input : s.input.drop s.inputPos = g.input
  written : ∀ fd, (trace = true → fd = .stdout) → s.terminal.written fd = before fd ++ g.wrote fd

namespace CarriesOut

variable {trace : Bool} {before : Fd → List Byte} {s : Session o n} {g : Guest n}

/-- A flush does not matter. -/
theorem flush (carries : CarriesOut trace before s g) (fd : Fd) :
    CarriesOut trace before (s.flush fd) g :=
  ⟨carries.machine, carries.coherent, carries.left, carries.input, carries.written⟩

theorem flushBeforeCall (carries : CarriesOut trace before s g) :
    CarriesOut trace before s.flushBeforeCall g := by
  unfold Session.flushBeforeCall
  split
  · split
    · exact carries.flush _
    · exact carries.flush _
    · exact carries
  · exact carries

/-- Neither does a line of the trace. -/
theorem print_trace (carries : CarriesOut true before s g) (line : List Byte) :
    CarriesOut true before (s.print .stderr line) g := by
  refine ⟨carries.machine, carries.coherent, carries.left, carries.input, fun fd known => ?_⟩
  rw [known rfl]
  exact (Streams.written_append_other (by decide) _).trans (carries.written .stdout fun _ => rfl)

/-- The machine may change in both. -/
theorem withMachine (carries : CarriesOut trace before s g) (m : Machine n) :
    CarriesOut trace before (withMachine s m) { g with machine := m } :=
  ⟨rfl, carries.coherent, carries.left, carries.input, carries.written⟩

theorem answered (carries : CarriesOut trace before s g) (result : Word) :
    CarriesOut trace before (Cli.withMachine s (s.vm.writeReg 10#5 result))
      (g.answered result) := by
  rw [carries.machine]
  exact carries.withMachine _

/-- What the program writes is delivered. -/
theorem deliver (carries : CarriesOut trace before s g) (fd : Fd) (bytes : List Byte) :
    CarriesOut trace before (s.deliver fd { written := bytes }) (g.hasWritten fd bytes) := by
  unfold Session.deliver
  by_cases empty : bytes = []
  · have same : g.hasWritten fd bytes = g := by
      simp only [Guest.hasWritten, empty, List.append_nil, Function.update_eq_self]
    rw [if_pos empty, same]
    exact carries
  · rw [if_neg empty]
    refine ⟨carries.machine, carries.coherent, carries.left, carries.input, fun fd' known => ?_⟩
    have earlier := carries.written fd' known
    by_cases same : fd' = fd
    · subst same
      simp only [Session.print, Streams.written_append_same, Guest.hasWritten,
        Function.update_self, earlier, List.append_assoc]
    · simp only [Session.print, Streams.written_append_other (Ne.symm same), Guest.hasWritten,
        Function.update_of_ne same, earlier]

end CarriesOut

section Refinement

variable {trace : Bool} {before : Fd → List Byte}

/-! ## One turn -/

/-- The next bytes of the input. -/
theorem CarriesOut.next {s : Session o n} {g : Guest n} (carries : CarriesOut trace before s g)
    (len : Word) (out err : Writer) :
    Env.next { input := s.input, inputPos := s.inputPos, stdout := out, stderr := err } len =
      g.input.take len.toNat := by
  rw [← carries.input, Env.next, ← List.length_drop]
  exact List.take_eq_take_iff.2 (by omega)

/-- **A call is handled as the program makes it.** -/
theorem handle_carriesOut :
    Indistinguishable (CarriesOut trace before) (handle (o := o) (n := n))
      fun g => .ok g.call.1 g.call.2 := by
  intro s g carries
  have asks : request s.vm.toMachine = request g.machine := by rw [carries.machine]
  simp only [handle_eq, Guest.call, asks]
  cases request g.machine with
  | exit | unknown => exact ⟨rfl, carries⟩
  | badFd | badBuffer => exact ⟨rfl, carries.answered _⟩
  | write fd bytes =>
      have sent := (carries.answered (s.vm.readReg 12#5)).deliver fd bytes
      rw [carries.machine] at sent ⊢
      exact ⟨rfl, sent⟩
  | read addr len =>
      have left : s.inputPos ≤ s.input.length := carries.left
      have long := congrArg List.length carries.input
      rw [List.length_drop] at long
      simp only [if_pos left, carries.next, carries.machine]
      refine ⟨rfl, rfl, carries.coherent, ?_, ?_, carries.written⟩
      · change s.inputPos + (g.input.take len.toNat).length ≤ s.input.length
        rw [List.length_take]
        omega
      · change s.input.drop (s.inputPos + (g.input.take len.toNat).length) =
          g.input.drop len.toNat
        rw [← List.drop_drop, carries.input, List.length_take]
        exact List.drop_eq_drop_min.symm

theorem performCall_carriesOut :
    Indistinguishable (CarriesOut trace before) (performCall (o := o) (n := n) trace)
      fun g => .ok (Guest.stopOf g.call.1) g.call.2 := by
  intro s g carries
  obtain ⟨answers, states⟩ := handle_carriesOut carries.flushBeforeCall
  simp only [performCall, bind_apply, modify_apply]
  cases handled : handle s.flushBeforeCall with
  | error f t =>
      rw [handled] at answers
      cases answers
  | ok outcome t =>
      rw [handled] at answers states
      cases answers
      cases called : g.call.1 with
      | resumed =>
          cases trace with
          | false => exact ⟨rfl, states⟩
          | true => exact ⟨rfl, states.flush .stdout⟩
      | exit status => exact ⟨rfl, states⟩
      | unknown number => exact ⟨rfl, states⟩

/-- A fault of the program is a failure of the CLI's loop. -/
def ofFault (e : StepError) : Failure RunError := .returned (.fault e)

/-- **A turn of the CLI is a turn of the program.** -/
theorem cliTurn_carriesOut (default : o.decode = Determinant.decode) (maxCycles : Option Count) :
    Indistinguishable (CarriesOut trace before) (cliTurn (o := o) (n := n) trace maxCycles)
      (EStateM.adaptExcept ofFault (Guest.turn maxCycles)) := by
  intro s g carries
  have limits : Vm.limitReached maxCycles s.vm = g.limitReached maxCycles := by
    cases maxCycles with
    | none => rfl
    | some l => exact congrArg (fun m : Machine n => decide (m.cycleCount ≥ l)) carries.machine
  simp only [cliTurn, Behaviour.nestedTurn, bind_apply, adaptExcept_apply, vmTurn_apply, limits,
    Guest.turn]
  cases g.limitReached maxCycles with
  | true => exact ⟨rfl, carries⟩
  | false =>
      obtain ⟨answers, machines⟩ := Vm.step_of_coherent carries.coherent
      have faithful : ∀ raw inst, o.decode raw = .ok inst → inst.raw = raw := by
        rw [default]
        exact fun _ _ decoded => (decode_decoded decoded).raw
      have coherent := Vm.coherent_step faithful carries.coherent
      rw [carries.machine, default] at answers machines
      simp only [Bool.false_eq_true, if_false]
      cases stepped : Vm.step s.vm with
      | error e vm =>
          rw [stepped] at answers machines coherent
          cases retired : Machine.stepWith Determinant.decode g.machine with
          | ok result m => simp [retired] at answers
          | error e' m =>
              rw [retired] at answers machines
              cases answers
              exact ⟨rfl, machines, coherent, carries.left, carries.input, carries.written⟩
      | ok result vm =>
          rw [stepped] at answers machines coherent
          cases retired : Machine.stepWith Determinant.decode g.machine with
          | error e m => simp [retired] at answers
          | ok result' m =>
              rw [retired] at answers machines
              cases answers
              have moved : CarriesOut trace before
                  (if trace then Session.print .stderr (traceLine s.vm vm) { s with vm := vm }
                    else { s with vm := vm }) { g with machine := m } := by
                have silent : CarriesOut trace before { s with vm := vm } { g with machine := m } :=
                  ⟨machines, coherent, carries.left, carries.input, carries.written⟩
                cases trace with
                | false => exact silent
                | true => exact silent.print_trace _
              cases result with
              | «continue» => exact ⟨rfl, moved⟩
              | ebreak => exact ⟨rfl, moved⟩
              | ecall => exact performCall_carriesOut moved

/-! ## The whole program -/

/-- The CLI's loop and the program end in the same way. -/
inductive EndsAs (trace : Bool) (before : Fd → List Byte) :
    EStateM.Result (Failure RunError) (Session o n) Report.Stop →
      EStateM.Result StepError (Guest n) Report.Stop → Prop where
  | stop {stop : Report.Stop} {s : Session o n} {g : Guest n}
      (carries : CarriesOut trace before s g) : EndsAs trace before (.ok stop s) (.ok stop g)
  | fault {e : StepError} {s : Session o n} {g : Guest n} (carries : CarriesOut trace before s g) :
      EndsAs trace before (.error (.returned (.fault e)) s) (.error e g)

/-- **Executing a program ends when the program does, and in the same way.** -/
theorem execute_endsAs (default : o.decode = Determinant.decode) (maxCycles : Option Count)
    {s : Session o n} {g : Guest n} (carries : CarriesOut trace before s g) :
    (∀ r, execute trace maxCycles s r →
      ∃ r', Guest.Runs maxCycles g r' ∧ EndsAs trace before r r') ∧
    ∀ r', Guest.Runs maxCycles g r' →
      ∃ r, execute trace maxCycles s r ∧ EndsAs trace before r r' := by
  have turns := @cliTurn_carriesOut n o trace before default maxCycles
  have program : Behaviour.loop (.lift (EStateM.adaptExcept ofFault (Guest.turn maxCycles))) =
      Behaviour.mapError ofFault (Guest.Runs (n := n) maxCycles) := by
    rw [Guest.Runs, Behaviour.mapError_loop, Behaviour.mapError_lift]
  rw [execute_eq_loop]
  constructor
  · intro r ends
    obtain ⟨r', ends', answers, states⟩ := Behaviour.Follows.loop (.lift turns) carries ends
    rw [program] at ends'
    obtain ⟨r', runs, rfl⟩ := ends'
    refine ⟨r', runs, ?_⟩
    cases r <;> cases r' <;> cases answers
    · exact .stop states
    · exact .fault states
  · intro r' runs
    have ends' : Behaviour.mapError ofFault (Guest.Runs maxCycles) g _ := ⟨r', runs, rfl⟩
    rw [← program] at ends'
    obtain ⟨r, ends, answers, states⟩ := Behaviour.Follows.loop (.lift turns.symm) carries ends'
    refine ⟨r, ends, ?_⟩
    cases r <;> cases r' <;> cases answers
    · exact .stop states
    · exact .fault states

end Refinement

end Cli

end Determinant
