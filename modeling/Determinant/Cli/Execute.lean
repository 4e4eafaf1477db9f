import Determinant.Cli.Report
import Determinant.Cpu.Run
import Determinant.Foundations.Behaviours
import Determinant.Foundations.BufferedStreams
import Determinant.Host.Requests

/-!
# Executing a program

The CLI runs the VM to an ECALL, performs the host call, and goes on, until the program stops.
Its standard streams are buffered and share one terminal. With `--trace` it runs the VM itself,
one step at a time, and prints a line for each instruction. A write never fails here; how the
buffers drain is arbitrary. A text that is put together from several writes to one stream is
written at once, since buffers may drain at any time.
-/

set_option autoImplicit false

namespace Determinant

open Foundations Hostcall

variable {n : MemSize} {o : Options}

instance : Inhabited Fd := ⟨.stdout⟩

/-! ## Sessions -/

/-- What the CLI runs a program with. -/
structure Session (o : Options) (n : MemSize) where
  vm : Vm o n
  input : List Byte := []
  inputPos : Nat := 0
  terminal : Streams Fd Byte := {}
  draining : Draining Fd Byte
  /-- Whether a section of the report was written. -/
  started : Bool := false

namespace Session

def print (fd : Fd) (text : List Byte) (s : Session o n) : Session o n :=
  { s with terminal := s.terminal.append s.draining fd text }

def flush (fd : Fd) (s : Session o n) : Session o n :=
  { s with terminal := s.terminal.flush fd }

def printLines (lines : List (List Byte)) (s : Session o n) : Session o n :=
  lines.foldl (fun s line => s.print .stderr line) s

theorem printLines_append (lines : List (List Byte)) (line : List Byte) (s : Session o n) :
    s.printLines (lines ++ [line]) = (s.printLines lines).print .stderr line := by
  simp [printLines]

/-- What a writer took goes to the terminal. -/
def deliver (fd : Fd) (w : Writer) (s : Session o n) : Session o n :=
  if w.written = [] then s else s.print fd w.written

/-- A write to one stream flushes the other first. -/
def flushBeforeCall (s : Session o n) : Session o n :=
  if s.vm.readReg 17#5 = 64#32 then
    match s.vm.readReg 10#5 with
    | 1#32 => s.flush .stderr
    | 2#32 => s.flush .stdout
    | _ => s
  else s

end Session

namespace Cli

/-- What running a program may fail with. -/
inductive RunError where
  | fault (e : StepError)
  | writeFailed
deriving DecidableEq, Repr

/-- The failures of a host call are among them. -/
def ofHandling : Failure WriteError → Failure RunError
  | .returned .writeFailed => .returned .writeFailed
  | .trapped t => .trapped t

/-- Perform the host call, with the streams of the terminal as its outputs. -/
def handle : EStateM (Failure RunError) (Session o n) Hostcall.Outcome :=
  EStateM.adaptExcept ofHandling
    (onPart
      (fun s => (s.vm, { input := s.input, inputPos := s.inputPos, stdout := {}, stderr := {} }))
      (fun r s => ({ s with vm := r.1, inputPos := r.2.inputPos }.deliver .stdout
        r.2.stdout).deliver .stderr r.2.stderr)
      Vm.handle)

/-! ## The loops -/

/-- One turn of the loop of `traceRun`. -/
def traceTurn (maxCycles : Option Count) : EStateM StepError (Session o n) (Option StepResult) := do
  let s ← get
  if Vm.limitReached maxCycles s.vm then return some .continue
  let cycle := s.vm.cycleCount
  let pc := s.vm.pc
  -- Before the step, since the instruction may overwrite itself.
  let raw ← reads fun s => s.vm.fetch
  let result ← onPart Session.vm (fun vm s => { s with vm := vm }) Vm.step
  modify fun s => s.print .stderr (Report.printTraceLine cycle pc raw s.vm.toMachine)
  return if result = .continue then none else some result

/-- The run of the VM, one step at a time, with a line of the trace for each instruction that
retires. -/
def traceRun (maxCycles : Option Count) : Behaviour StepError (Session o n) StepResult :=
  .loop (.lift (traceTurn maxCycles))

/-- The run of the VM. -/
def plainRun (maxCycles : Option Count) : Behaviour StepError (Session o n) StepResult :=
  .onPart Session.vm (fun vm s => { s with vm := vm }) (Vm.Runs maxCycles)

/-- After an ECALL: perform the host call, and go on or stop. -/
def performCall (trace : Bool) : EStateM (Failure RunError) (Session o n) (Option Report.Stop) := do
  modify Session.flushBeforeCall
  match ← handle with
  | .resumed =>
      -- Before the next line of the trace.
      if trace then modify (Session.flush .stdout)
      return none
  | .exit status => return some (.exit status)
  | .unknown number => return some (.ecall number)

/-- What `execute` does when the VM has stopped. -/
def afterRun (trace : Bool) :
    StepResult → EStateM (Failure RunError) (Session o n) (Option Report.Stop)
  | .continue => return some .cycleLimit
  | .ebreak => return some .ebreak
  | .ecall => performCall trace

/-- One turn of the loop of `execute`: to an ECALL, and through the host call. -/
def executeTurn (trace : Bool) (maxCycles : Option Count) :
    Behaviour (Failure RunError) (Session o n) (Option Report.Stop) := do
  let result ← Behaviour.mapError (fun e => .returned (.fault e))
    (if trace then traceRun maxCycles else plainRun maxCycles)
  .lift (afterRun trace result)

/-- Run the program, performing its host calls, until it stops. -/
def execute (trace : Bool) (maxCycles : Option Count) :
    Behaviour (Failure RunError) (Session o n) Report.Stop := .loop (executeTurn trace maxCycles)

/-! ## Host calls -/

/-- The session with another machine in its VM. -/
def withMachine (s : Session o n) (m : Machine n) : Session o n :=
  { s with vm := { s.vm with toMachine := m } }

/-- **What a host call does to the session.** -/
theorem handle_eq (s : Session o n) :
    handle s =
      let m := s.vm.toMachine
      match request m with
      | .exit status => .ok (.exit status) s
      | .unknown number => .ok (.unknown number) s
      | .badFd => .ok .resumed (withMachine s (m.writeReg 10#5 ebadf))
      | .badBuffer => .ok .resumed (withMachine s (m.writeReg 10#5 efault))
      | .write fd bytes =>
          .ok .resumed
            ((withMachine s (m.writeReg 10#5 (m.readReg 12#5))).deliver fd { written := bytes })
      | .read addr len =>
          let env : Env := { input := s.input, inputPos := s.inputPos, stdout := {}, stderr := {} }
          if s.inputPos ≤ s.input.length then
            .ok .resumed
              { withMachine s ((m.place addr.toNat (env.next len)).writeReg 10#5
                  (BitVec.ofNat 32 (env.next len).length)) with
                inputPos := s.inputPos + (env.next len).length }
          else .error (.trapped .overflow) s := by
  have nothing : ∀ (fd : Fd) (s : Session o n), s.deliver fd {} = s := fun _ _ => if_pos rfl
  simp only [handle, Vm.handle, adaptExcept_apply, onPart, Hostcall.handle_eq]
  cases request s.vm.toMachine with
  | exit | unknown => simp only [nothing]
  | badFd | badBuffer =>
      simp only [nothing]
      rfl
  | write fd bytes =>
      cases fd <;>
        simp only [Env.out, Env.setOut, Writer.writeAll, List.nil_append, nothing] <;> rfl
  | read addr len =>
      by_cases before : s.inputPos ≤ s.input.length
      · simp only [if_pos before, nothing]
        rfl
      · simp only [if_neg before, nothing]
        rfl

end Cli

end Determinant
