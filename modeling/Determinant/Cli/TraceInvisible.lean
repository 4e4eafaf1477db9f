import Determinant.Cli.Execute
import Determinant.Cpu.DecodeCache

/-!
# The trace does not show

With `--trace` the CLI runs the program by a loop of its own. Sessions that differ only in what
was written to stderr are the same to the program (`SameToProgram`): the two ways to run the VM
follow each other from one to the other, and so do the two ways to execute a program. The trace
has one line for each instruction that retired, in their order, and none for one that failed
(`Traced`, `traceRun_lines`).
-/

set_option autoImplicit false

namespace Determinant

open Foundations Hostcall

variable {n : MemSize} {o : Options}

namespace Cli

/-- The sessions differ only in the terminal, and not in what was written to stdout. -/
structure SameToProgram (s t : Session o n) : Prop where
  vm : s.vm = t.vm
  input : s.input = t.input
  inputPos : s.inputPos = t.inputPos
  stdout : s.terminal.written .stdout = t.terminal.written .stdout

namespace SameToProgram

variable {s t u : Session o n}

theorem refl (s : Session o n) : SameToProgram s s := ⟨rfl, rfl, rfl, rfl⟩

theorem symm (same : SameToProgram s t) : SameToProgram t s :=
  ⟨same.vm.symm, same.input.symm, same.inputPos.symm, same.stdout.symm⟩

theorem trans (first : SameToProgram s t) (second : SameToProgram t u) : SameToProgram s u :=
  ⟨first.vm.trans second.vm, first.input.trans second.input, first.inputPos.trans second.inputPos,
    first.stdout.trans second.stdout⟩

theorem flush (same : SameToProgram s t) (fd : Fd) : SameToProgram (s.flush fd) t :=
  ⟨same.vm, same.input, same.inputPos, same.stdout⟩

/-- What goes to stderr does not matter. -/
theorem print_stderr (s : Session o n) (text : List Byte) :
    SameToProgram s (s.print .stderr text) :=
  ⟨rfl, rfl, rfl, (Streams.written_append_other (by decide) text).symm⟩

theorem printLines (s : Session o n) (lines : List (List Byte)) :
    SameToProgram s (s.printLines lines) := by
  induction lines generalizing s with
  | nil => exact .refl s
  | cons line rest ih => exact (print_stderr s line).trans (ih _)

theorem deliver (same : SameToProgram s t) (fd : Fd) (w : Writer) :
    SameToProgram (s.deliver fd w) (t.deliver fd w) := by
  unfold Session.deliver
  split
  · exact same
  · cases fd with
    | stdout =>
        refine ⟨same.vm, same.input, same.inputPos, ?_⟩
        simp only [Session.print, Streams.written_append_same, same.stdout]
    | stderr => exact ((print_stderr s _).symm.trans same).trans (print_stderr t _)

theorem withMachine (same : SameToProgram s t) (m : Machine n) :
    SameToProgram (withMachine s m) (withMachine t m) := by
  obtain ⟨vm, input, inputPos, stdout⟩ := same
  refine ⟨?_, input, inputPos, stdout⟩
  simp only [Cli.withMachine, vm]

end SameToProgram

/-! ## Host calls -/

theorem handle_same : Indistinguishable SameToProgram (handle (o := o) (n := n)) handle := by
  intro s t same
  have sameMachine : s.vm.toMachine = t.vm.toMachine := by rw [same.vm]
  simp only [handle_eq, sameMachine]
  cases request t.vm.toMachine with
  | exit | unknown => exact ⟨rfl, same⟩
  | badFd | badBuffer => exact ⟨rfl, same.withMachine _⟩
  | write fd bytes => exact ⟨rfl, (same.withMachine _).deliver fd _⟩
  | read addr len =>
      simp only [same.input, same.inputPos]
      split
      · obtain ⟨vm, input, _, stdout⟩ := same.withMachine _
        exact ⟨rfl, vm, input, rfl, stdout⟩
      · exact ⟨rfl, same⟩

theorem flushBeforeCall_same (s : Session o n) : SameToProgram s.flushBeforeCall s := by
  unfold Session.flushBeforeCall
  split
  · split
    · exact (SameToProgram.refl s).flush .stderr
    · exact (SameToProgram.refl s).flush .stdout
    · exact .refl s
  · exact .refl s

/-- Performing a call is the same with the trace and without it. -/
theorem performCall_same (trace trace' : Bool) :
    Indistinguishable SameToProgram (performCall (o := o) (n := n) trace) (performCall trace') := by
  have flushed : ∀ s u : Session o n, SameToProgram s u →
      SameToProgram s.flushBeforeCall u.flushBeforeCall := fun s u same =>
    ((flushBeforeCall_same s).trans same).trans (flushBeforeCall_same u).symm
  refine (Indistinguishable.modify flushed).bind fun _ => handle_same.bind fun outcome => ?_
  cases outcome with
  | resumed =>
      intro s t same
      cases trace <;> cases trace'
      · exact ⟨rfl, same⟩
      · exact ⟨rfl, (same.symm.flush .stdout).symm⟩
      · exact ⟨rfl, same.flush .stdout⟩
      · exact ⟨rfl, ((same.flush .stdout).symm.flush .stdout).symm⟩
  | exit status => exact .pure _
  | unknown number => exact .pure _

/-! ## The two ways to run the VM -/

/-- The line of the trace for a step from one VM to another. -/
def traceLine (vm vm' : Vm o n) : List Byte :=
  match vm.fetch with
  | .ok raw => Report.printTraceLine vm.cycleCount vm.pc raw vm'.toMachine
  | .error _ => []

/-- A turn of the trace is a step, and prints its line if it did not fail. -/
theorem traceTurn_apply (maxCycles : Option Count) (s : Session o n) :
    traceTurn maxCycles s =
      if Vm.limitReached maxCycles s.vm then .ok (some .continue) s
      else
        match Vm.step s.vm with
        | .error e vm => .error e { s with vm := vm }
        | .ok result vm =>
            .ok (if result = .continue then none else some result)
              (Session.print .stderr (traceLine s.vm vm) { s with vm := vm }) := by
  unfold traceTurn
  simp only [bind_apply, get_apply, ite_apply_state, pure_apply, reads, onPart]
  split
  · rfl
  · cases fetched : s.vm.fetch with
    | error e => rw [Vm.step_unfetched fetched]
    | ok raw =>
        cases stepped : Vm.step s.vm with
        | error e vm => simp only [stepped]
        | ok result vm =>
            simp only [stepped, traceLine, fetched]
            rfl

/-- **A turn of the trace cannot be told from a turn of the run**, but for its line. -/
theorem turns_same (maxCycles : Option Count) (u : Session o n) :
    Indistinguishable (fun (s : Session o n) vm => SameToProgram s { u with vm := vm })
      (traceTurn maxCycles) (Vm.runTurn maxCycles) := by
  intro s vm same
  have start : s.vm = vm := same.vm
  subst start
  have moved : ∀ vm' : Vm o n, SameToProgram { s with vm := vm' } { u with vm := vm' } := fun _ =>
    ⟨rfl, same.input, same.inputPos, same.stdout⟩
  rw [traceTurn_apply, Vm.runTurn_apply]
  split
  · exact ⟨rfl, same⟩
  · cases Vm.step s.vm with
    | error e vm' => exact ⟨rfl, moved vm'⟩
    | ok result vm' => exact ⟨rfl, (SameToProgram.print_stderr _ _).symm.trans (moved vm')⟩

/-- The trace runs as the VM does. -/
theorem traceRun_follows (maxCycles : Option Count) :
    Behaviour.Follows SameToProgram (traceRun (o := o) (n := n) maxCycles)
      (plainRun maxCycles) := by
  intro s u r same traced
  have start : SameToProgram s { u with vm := u.vm } := same
  obtain ⟨outcome, runs, answers, states⟩ :=
    Behaviour.Follows.loop (.lift (turns_same maxCycles u)) start traced
  refine ⟨_, ⟨outcome, Vm.runs_iff_loop.2 runs, rfl⟩, ?_⟩
  cases outcome <;> exact ⟨answers, states⟩

/-- And the VM as the trace. -/
theorem plainRun_follows (maxCycles : Option Count) :
    Behaviour.Follows SameToProgram (plainRun (o := o) (n := n) maxCycles)
      (traceRun maxCycles) := by
  rintro u s r same ⟨outcome, runs, rfl⟩
  have start : SameToProgram s { u with vm := u.vm } := same.symm
  obtain ⟨r, traced, answers, states⟩ :=
    Behaviour.Follows.loop (.lift (turns_same maxCycles u).symm) start (Vm.runs_iff_loop.1 runs)
  refine ⟨r, traced, ?_⟩
  cases outcome <;> exact ⟨answers, states.symm⟩

/-! ## Executing -/

theorem afterRun_same (trace trace' : Bool) (result : StepResult) :
    Indistinguishable SameToProgram (afterRun (o := o) (n := n) trace result)
      (afterRun trace' result) := by
  cases result with
  | «continue» => exact .pure _
  | ebreak => exact .pure _
  | ecall => exact performCall_same trace trace'

theorem execute_follows (trace : Bool) (maxCycles : Option Count) :
    Behaviour.Follows SameToProgram (execute (o := o) (n := n) trace maxCycles)
      (execute (!trace) maxCycles) := by
  refine .loop (.andThen (.mapError _ ?_) fun result => .lift (afterRun_same _ _ result))
  cases trace with
  | false => exact plainRun_follows maxCycles
  | true => exact traceRun_follows maxCycles

theorem execute_deterministic (trace : Bool) (maxCycles : Option Count) :
    Behaviour.Deterministic (execute (o := o) (n := n) trace maxCycles) := by
  refine .loop (.andThen (.mapError _ ?_) fun result => .lift _)
  cases trace with
  | false => exact .onPart _ _ fun _ _ _ runs runs' => Ends.unique runs runs'
  | true => exact .loop (.lift _)

/-! ## The lines of the trace -/

/-- The lines of the instructions that retire on the way from one VM to another; `result` is
the last one's, and `continue` when there was none. -/
inductive Traced : Vm o n → List (List Byte) → StepResult → Vm o n → Prop where
  | zero (vm : Vm o n) : Traced vm [] .continue vm
  | succ {vm vm' vm'' : Vm o n} {lines : List (List Byte)} {raw : Word} {result : StepResult}
      (traced : Traced vm lines .continue vm') (fetched : vm'.fetch = .ok raw)
      (stepped : Vm.step vm' = .ok result vm'') :
      Traced vm (lines ++ [Report.printTraceLine vm'.cycleCount vm'.pc raw vm''.toMachine])
        result vm''

/-- One line for each step. -/
theorem Traced.steps {vm vm' : Vm o n} {lines : List (List Byte)} {result : StepResult}
    (traced : Traced vm lines result vm') : Vm.Steps lines.length vm result vm' := by
  induction traced with
  | zero => exact .zero _
  | succ _ fetched stepped ih =>
      rw [List.length_append]
      exact .succ ih stepped

theorem Traced.isLine {vm vm' : Vm o n} {lines : List (List Byte)} {result : StepResult}
    (traced : Traced vm lines result vm') : ∀ line ∈ lines, IsLine line := by
  induction traced with
  | zero => simp
  | succ _ _ _ ih =>
      intro line listed
      rcases List.mem_append.1 listed with earlier | last
      · exact ih line earlier
      · rw [List.mem_singleton.1 last]
        exact Report.printTraceLine_line ..

/-- From one session to another the trace has printed the lines of some instructions, and the
last of them had this result. -/
def HasTraced (s : Session o n) (result : StepResult) (t : Session o n) : Prop :=
  ∃ lines, Traced s.vm lines result t.vm ∧ t = { s.printLines lines with vm := t.vm }

/-- And then a step failed, and printed nothing. -/
def FailedTracing (s : Session o n) (e : StepError) (t : Session o n) : Prop :=
  ∃ lines vm, Traced s.vm lines .continue vm ∧ Vm.step vm = .error e t.vm ∧
    t = { s.printLines lines with vm := t.vm }

/-- One more line, if the step does not fail. -/
theorem traceTurn_lines (maxCycles : Option Count) (s : Session o n) :
    Behaviour.Meets (HasTraced s .continue) (.lift (traceTurn maxCycles))
      (Behaviour.Turned (HasTraced s .continue) (HasTraced s)) (FailedTracing s) := by
  refine .lift fun t start => ?_
  obtain ⟨lines, traced, same⟩ := start
  have moved : ∀ vm : Vm o n, { t with vm := vm } = { s.printLines lines with vm := vm } := by
    intro vm
    rw [same]
  rw [traceTurn_apply]
  cases reached : Vm.limitReached maxCycles t.vm with
  | true =>
      simp only [if_true]
      exact ⟨lines, traced, same⟩
  | false =>
      simp only [Bool.false_eq_true, if_false]
      cases stepped : Vm.step t.vm with
      | error e vm => exact ⟨lines, t.vm, traced, stepped, moved vm⟩
      | ok result vm =>
          cases fetched : t.vm.fetch with
          | error e =>
              rw [Vm.step_unfetched fetched] at stepped
              cases stepped
          | ok raw =>
              have next : HasTraced s result
                  (Session.print .stderr (traceLine t.vm vm) { t with vm := vm }) := by
                refine ⟨_, traced.succ fetched stepped, ?_⟩
                rw [Session.printLines_append, traceLine, fetched]
                exact congrArg (Session.print .stderr _) (moved vm)
              by_cases goesOn : result = .continue
              · subst goesOn
                exact next
              · simp only [if_neg goesOn]
                exact next

/-- **What the trace prints**: the lines of the instructions that retired, and nothing for one
that failed. -/
theorem traceRun_lines (maxCycles : Option Count) (s : Session o n) :
    Behaviour.Meets (· = s) (traceRun maxCycles) (HasTraced s) (FailedTracing s) := by
  have looped : Behaviour.Meets (HasTraced s .continue) (traceRun maxCycles) (HasTraced s)
      (FailedTracing s) := .loop (traceTurn_lines maxCycles s)
  refine looped.weaken ?_ (fun _ _ holds => holds) fun _ _ holds => holds
  rintro _ rfl
  exact ⟨[], .zero _, rfl⟩

/-! ## No traps -/

/-- The host has not read past the end of the input. -/
def InputLeft (s : Session o n) : Prop := s.inputPos ≤ s.input.length

/-- A failure that is a fault of the program. -/
def IsFault (f : Failure RunError) : Prop := ∃ e, f = .returned (.fault e)

theorem SameToProgram.inputLeft {s t : Session o n} (same : SameToProgram s t)
    (left : InputLeft s) : InputLeft t := by
  unfold InputLeft
  rw [← same.input, ← same.inputPos]
  exact left

theorem handle_inputLeft :
    Behaviour.Meets InputLeft (.lift (handle (o := o) (n := n))) (fun _ => InputLeft)
      (fun f _ => IsFault f) := by
  refine .lift fun s left => ?_
  simp only [handle_eq]
  cases request s.vm.toMachine with
  | exit | unknown | badFd | badBuffer => exact left
  | write fd bytes =>
      simp only [Session.deliver]
      split <;> exact left
  | read addr len =>
      have room : s.inputPos ≤ s.input.length := left
      simp only [if_pos room, InputLeft, withMachine, Env.next, List.length_take, List.length_drop]
      omega

theorem performCall_inputLeft (trace : Bool) :
    Behaviour.Meets InputLeft (.lift (performCall (o := o) (n := n) trace)) (fun _ => InputLeft)
      (fun f _ => IsFault f) := by
  have flushed : ∀ s : Session o n, InputLeft s → InputLeft s.flushBeforeCall := fun s left =>
    (flushBeforeCall_same s).symm.inputLeft left
  refine .lift_bind (.modify flushed) fun _ => .lift_bind handle_inputLeft fun outcome => ?_
  cases outcome with
  | resumed =>
      refine .lift fun s left => ?_
      cases trace <;> exact left
  | exit | unknown => exact .lift fun s left => left

/-- **Executing fails with a fault only.** -/
theorem execute_inputLeft (trace : Bool) (maxCycles : Option Count) :
    Behaviour.Meets InputLeft (execute (o := o) (n := n) trace maxCycles) (fun _ => InputLeft)
      (fun f _ => IsFault f) := by
  have traced : Behaviour.Meets InputLeft (traceRun (o := o) (n := n) maxCycles)
      (fun _ => InputLeft) (fun e _ => IsFault (.returned (.fault e))) := by
    intro s r left outcome
    have lines := traceRun_lines maxCycles s rfl outcome
    cases r with
    | error e t => exact ⟨e, rfl⟩
    | ok result t =>
        obtain ⟨lines, _, same⟩ := lines
        rw [same]
        exact (SameToProgram.printLines s lines).inputLeft left
  have plain : Behaviour.Meets InputLeft (plainRun (o := o) (n := n) maxCycles)
      (fun _ => InputLeft) (fun e _ => IsFault (.returned (.fault e))) := by
    rintro s r left ⟨outcome, _, rfl⟩
    cases outcome with
    | error e vm => exact ⟨e, rfl⟩
    | ok result vm => exact left
  have ran : Behaviour.Meets InputLeft
      (Behaviour.mapError (fun e => .returned (.fault e))
        (if trace then traceRun (o := o) (n := n) maxCycles else plainRun maxCycles))
      (fun _ => InputLeft) (fun f _ => IsFault f) := by
    refine .mapError ?_
    cases trace with
    | false => exact plain
    | true => exact traced
  have called : ∀ result,
      Behaviour.Meets InputLeft (.lift (afterRun (o := o) (n := n) trace result))
        (fun _ => InputLeft) (fun f _ => IsFault f) := by
    intro result
    cases result with
    | ecall => exact performCall_inputLeft trace
    | «continue» | ebreak => exact .lift fun s left => left
  exact .loop (.andThen ran fun result =>
    (called result).weaken (fun _ left => left) (fun a _ left => .const a left)
      fun _ _ fault => fault)

/-! ## The two modes together -/

/-- Two ways to end that are the same to the program. -/
def SameEnd (r r' : EStateM.Result (Failure RunError) (Session o n) Report.Stop) : Prop :=
  (∃ stop t t', r = .ok stop t ∧ r' = .ok stop t' ∧ SameToProgram t t') ∨
    ∃ e t t', r = .error (.returned (.fault e)) t ∧ r' = .error (.returned (.fault e)) t' ∧
      SameToProgram t t'

/-- Executing in one mode ends when it does in the other, and the same way. -/
theorem execute_sameEnd {trace : Bool} {maxCycles : Option Count} {s : Session o n}
    (left : InputLeft s) {r : EStateM.Result (Failure RunError) (Session o n) Report.Stop}
    (ends : execute trace maxCycles s r) :
    ∃ r', execute (!trace) maxCycles s r' ∧ SameEnd r r' := by
  obtain ⟨r', ends', answers, states⟩ := execute_follows trace maxCycles (.refl s) ends
  have fault := execute_inputLeft trace maxCycles left ends
  refine ⟨r', ends', ?_⟩
  cases r with
  | ok stop t =>
      cases r' with
      | error e' t' => cases answers
      | ok stop' t' =>
          cases answers
          exact .inl ⟨stop, t, t', rfl, rfl, states⟩
  | error f t =>
      cases r' with
      | ok stop' t' => cases answers
      | error f' t' =>
          cases answers
          obtain ⟨e, rfl⟩ := fault
          exact .inr ⟨e, t, t', rfl, rfl, states⟩

/-- **The trace does not change a run.** When executing a program ends with the trace or
without it, it ends in the other mode too, in one way only: with the same stop or the same
fault, and with the same VM, position in the input and bytes on stdout. A run of the trace
prints the lines of the instructions that retired, one for each step, and nothing for a step
that failed, and changes nothing else but the VM. -/
theorem trace_invisible (s : Session o n) (maxCycles : Option Count)
    (left : s.inputPos ≤ s.input.length) :
    (∀ trace r, execute trace maxCycles s r →
      (∃ r', execute (!trace) maxCycles s r' ∧ SameEnd r r') ∧
        ∀ r', execute trace maxCycles s r' → r' = r) ∧
    ∀ (t : Session o n) (limit : Option Count) r, traceRun limit t r →
      match r with
      | .ok result t' =>
          ∃ lines, Traced t.vm lines result t'.vm ∧ Vm.Steps lines.length t.vm result t'.vm ∧
            (∀ line ∈ lines, IsLine line) ∧ t' = { t.printLines lines with vm := t'.vm }
      | .error e t' =>
          ∃ lines vm, Traced t.vm lines .continue vm ∧ Vm.Steps lines.length t.vm .continue vm ∧
            (∀ line ∈ lines, IsLine line) ∧ Vm.step vm = .error e t'.vm ∧
            t' = { t.printLines lines with vm := t'.vm } := by
  refine ⟨fun trace r ends => ⟨execute_sameEnd left ends, fun r' ends' => ?_⟩,
    fun t limit r traced => ?_⟩
  · exact execute_deterministic trace maxCycles ends' ends
  · have printed := traceRun_lines limit t rfl traced
    cases r with
    | ok result t' =>
        obtain ⟨lines, retired, same⟩ := printed
        exact ⟨lines, retired, retired.steps, retired.isLine, same⟩
    | error e t' =>
        obtain ⟨lines, vm, retired, failed, same⟩ := printed
        exact ⟨lines, vm, retired, retired.steps, retired.isLine, failed, same⟩

/-- The program of two instructions, with buffers that keep everything. -/
def countingSession : Session Options.uncached .eight :=
  { vm := Vm.countThenCall, draining := fun _ => 0 }

theorem trace_invisible_counting :
    ∃ r r', execute false none countingSession r ∧ execute true none countingSession r' ∧
      SameEnd r r' := by
  have ran : plainRun none countingSession (.ok .ecall _) := ⟨_, ⟨3, rfl⟩, rfl⟩
  have ends : execute false none countingSession (.ok (.ecall 0#32) _) :=
    .leave ⟨_, ⟨_, ran, rfl⟩, rfl⟩
  obtain ⟨r', ends', same⟩ :=
    ((trace_invisible countingSession none (Nat.le_refl 0)).1 false _ ends).1
  exact ⟨_, r', ends, ends', same⟩

end Cli

end Determinant
