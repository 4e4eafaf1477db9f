import Determinant.Cli.GuestProgram
import Determinant.Cli.LoadedProgram
import Determinant.Cli.OutputOrder

/-!
# A whole run of the CLI

The CLI loads a program and reads its input, or reports that it cannot (`Starts`). What it starts
is a machine whose registers are zero but for the stack pointer, with the program in a memory of
zeros (`Guest.start`). Then it carries the program out: it ends just when the program does, its
exit status says how, and stdout has what the program wrote, whatever else is reported
(`run_carries_out`).
-/

set_option autoImplicit false

namespace Determinant

open Foundations Hostcall

variable {n : MemSize} {o : Options}

/-! ## Listings end -/

namespace Disasm

/-- A listing that starts before its end, which is inside memory, ends. -/
theorem listing_exists {m : Machine n} {stop : Word} (inMemory : stop.toNat ≤ n.bytes) {addr : Nat}
    (before : addr ≤ stop.toNat) (out : List Byte) :
    ∃ outcome : Except (Failure Empty) (List Byte),
      Ends (listingBody (wholeMemory m) stop) (addr, out) outcome := by
  induction left : stop.toNat - addr using Nat.strongRecOn generalizing addr out with
  | _ left' ih =>
      have turn := listingBody_eq (reads_wholeMemory (ε := Empty) m addr _) inMemory (Nat.le_refl _)
        before out
      have long := m.instructionLength_cases addr
      split at turn
      · rename_i fits
        obtain ⟨outcome, ends⟩ := ih _ (by omega) fits _ rfl
        exact ⟨outcome, ends_of_again turn ends⟩
      · exact ⟨_, ends_of_done turn⟩

end Disasm

namespace Cli

/-- A listing prints a text. -/
theorem printListing_becomes (fd : Fd) (start : Word) {stop : Word}
    (ordered : start.toNat ≤ stop.toNat)
    (inMemory : stop.toNat ≤ n.bytes) (s : Session o n) :
    ∃ text, ∀ r, printListing fd start stop s r ↔ r = .ok () (s.print fd text) := by
  obtain ⟨outcome, ends⟩ := Disasm.listing_exists (m := s.vm.toMachine) inMemory ordered []
  obtain ⟨text, rfl⟩ := listing_ok start inMemory ends (Nat.le_refl _) ordered
  refine ⟨text, fun r => ⟨?_, ?_⟩⟩
  · rintro ⟨outcome', ends', rfl⟩
    cases ends.unique ends'
    rfl
  · rintro rfl
    exact ⟨_, ends, rfl⟩

/-! ## What is written before the program runs -/

theorem SameToProgram.section {s t : Session o n} (same : SameToProgram s t) (text : List Byte) :
    SameToProgram s (t.section text) := by
  have flushed : SameToProgram s (t.flush .stdout) := (same.symm.flush .stdout).symm
  have begun : ∀ u : Session o n, SameToProgram s u → SameToProgram s { u with started := true } :=
    fun _ same => ⟨same.vm, same.input, same.inputPos, same.stdout⟩
  unfold Session.section
  refine (begun _ ?_).trans (SameToProgram.print_stderr _ text)
  split
  · exact flushed.trans (SameToProgram.print_stderr _ _)
  · exact flushed

/-- **The preamble ends**, and does not matter to the program. -/
theorem preamble_becomes {config : Args.Config} (loaded : Load.Loaded)
    (demo : config.program = .demo → Load.demoProgram.length ≤ n.bytes) (s : Session o n) :
    ∃ t, (∀ r, preamble config loaded s r ↔ r = .ok () t) ∧ SameToProgram s t := by
  have lists : ∃ t, (∀ r, listDemo config.program s r ↔ r = .ok () t) ∧ SameToProgram s t := by
    unfold listDemo
    split
    · rename_i isDemo
      have inMemory : (BitVec.ofNat 32 Load.demoProgram.length).toNat ≤ n.bytes := by
        rw [toNat_demoLength]
        exact demo isDemo
      obtain ⟨text, becomes⟩ := printListing_becomes .stderr 0#32 (Nat.zero_le _)
        inMemory (s.section (ascii "Demo program:" ++ [newline]))
      refine ⟨_, fun r => Behaviour.lift_andThen.trans (becomes r), ?_⟩
      exact ((SameToProgram.refl s).section _).trans (SameToProgram.print_stderr _ text)
    · exact ⟨s, fun r => eq_comm, .refl s⟩
  unfold preamble
  split
  · exact ⟨s, fun r => eq_comm, .refl s⟩
  · obtain ⟨t, becomes, same⟩ := lists
    refine ⟨_, fun r => (Behaviour.andThen_of_becomes becomes).trans
      (Behaviour.lift_andThen.trans eq_comm), ?_⟩
    exact ((same.section _).symm.flush .stderr).symm

/-! ## Starting a program -/

/-- The input that is read. -/
def inputOf (outside : Outside) : Option Args.Input → Except IoError (List Byte)
  | none => .ok []
  | some (.file path) => outside.readFile path
  | some .stdin => outside.stdin

theorem orReport_eq_ok {ε α : Type} {text : ε → List Byte} {x : Except ε α} {a : α}
    {s t : Session o n} :
    (orReport text x : Command o n α) s = .ok a t ↔ x = .ok a ∧ s = t := by
  cases x <;> simp [orReport, userError, bind_apply]

theorem readInput_eq_ok {outside : Outside} {input : Option Args.Input} {bytes : List Byte}
    {s t : Session o n} :
    readInput outside input s = .ok bytes t ↔ inputOf outside input = .ok bytes ∧ s = t := by
  unfold readInput inputOf
  match input with
  | none => simp
  | some (.file path) => exact orReport_eq_ok
  | some .stdin => exact orReport_eq_ok

end Cli

/-- A program in a memory of zeros, before its first instruction. -/
def Guest.start (writes : List (Nat × List Byte)) (entry : Word) (input : List Byte) : Guest n where
  machine :=
    { (Machine.reset : Machine n) with
      memory := patchAll (fun _ => 0#8) writes
      pc := entry }.writeReg 2#5 (initialSp n.toWord)
  input := input

namespace Cli

/-- The programs that the CLI starts. -/
inductive Starts (outside : Outside) (config : Args.Config) : Guest n → Prop where
  | mk {loaded : Load.Loaded} {writes : List (Nat × List Byte)} {input : List Byte}
      (memory : outside.allocates .memory = true) (vm : outside.allocates .vm = true)
      (loads : Loads n outside config loaded writes)
      (given : inputOf outside config.input = .ok input) :
      Starts outside config (Guest.start writes loaded.entry input)

/-- A program that is loaded fits, also the demo. -/
theorem Loads.demo_fits {outside : Outside} {config : Args.Config} {loaded : Load.Loaded}
    {writes : List (Nat × List Byte)} (loads : Loads n outside config loaded writes)
    (named : config.program = .demo) : Load.demoProgram.length ≤ n.bytes := by
  cases loads with
  | demo _ fits _ => exact fits
  | flat other => simp [named] at other
  | elf other => simp [named] at other

/-- The session with a program in memory. -/
def placed (draining : Draining Fd Byte) (writes : List (Nat × List Byte)) : Session o n :=
  { (start draining : Session o n) with vm := loadedVm writes }

/-- **Everything up to the first instruction**: the session carries out the program from its
start. -/
theorem setUp_becomes {outside : Outside} {config : Args.Config} {loaded : Load.Loaded}
    {writes : List (Nat × List Byte)} {input : List Byte}
    (loads : Loads n outside config loaded writes)
    (given : inputOf outside config.input = .ok input) (draining : Draining Fd Byte) :
    ∃ (t : Session o n) (before : Fd → List Byte),
      (∀ r, setUp outside config loaded (placed draining writes) r ↔ r = .ok () t) ∧
      CarriesOut config.trace before t (Guest.start writes loaded.entry input) ∧
      before .stdout = [] := by
  obtain ⟨t, becomes, same⟩ := preamble_becomes loaded loads.demo_fits
    { (placed draining writes : Session o n) with input := input }
  refine ⟨t.launch config loaded, t.terminal.written, fun r => ?_, ?_, ?_⟩
  · refine Behaviour.lift_andThen.trans ?_
    rw [readInput_eq_ok.2 ⟨given, rfl⟩]
    exact Behaviour.lift_andThen.trans ((Behaviour.andThen_of_becomes becomes).trans eq_comm)
  · refine ⟨?_, ?_, ?_, ?_, fun fd _ => (List.append_nil _).symm⟩
    · rw [Session.launch, ← same.vm]
      rfl
    · rw [Session.launch, ← same.vm]
      exact .empty _
    · change t.inputPos ≤ t.input.length
      rw [← same.inputPos]
      exact Nat.zero_le _
    · change t.input.drop t.inputPos = input
      rw [← same.inputPos, ← same.input]
      rfl
  · rw [← same.stdout]
    rfl

/-! ## What is written after the program -/

theorem reportStop_same (config : Args.Config) (stop : Report.Stop) (s : Session o n) :
    SameToProgram s (s.reportStop config stop) := by
  have reported : SameToProgram s
      (((s.section []).print .stderr
        (Report.printStop (s.section []).vm.toMachine stop)).print .stderr
          (Report.printRegisters (s.section []).vm.toMachine)) :=
    (((SameToProgram.refl s).section []).trans (SameToProgram.print_stderr _ _)).trans
      (SameToProgram.print_stderr _ _)
  unfold Session.reportStop
  dsimp only
  split
  · split
    · exact reported.section _
    · exact reported
  · exact reported

theorem reportFault_same (e : StepError) (s : Session o n) :
    SameToProgram s (s.reportFault e) :=
  (((SameToProgram.refl s).section []).trans (SameToProgram.print_stderr _ _)).trans
    (SameToProgram.print_stderr _ _)

theorem printDump_becomes {dump : Option Args.Dump}
    (inside : ∀ d ∈ dump, ∀ range ∈ d.range, Inside n range) (s : Session o n) :
    ∃ t, printDump dump s = .ok () t ∧ SameToProgram s t := by
  cases dump with
  | none => exact ⟨s, rfl, .refl s⟩
  | some d =>
      have fits : Inside n (d.range.getD { start := 0#32, len := n.toWord }) := by
        cases given : d.range with
        | none => simp [Inside]
        | some range => exact inside d rfl range given
      unfold Inside at fits
      simp only [printDump, bind_apply, modify_apply, reads, Disasm.wholeMemory]
      rw [checkedRange_ok (by simpa using fits)]
      exact ⟨_, rfl, ((SameToProgram.refl s).section []).trans (SameToProgram.print_stderr _ _)⟩

theorem printDigest_becomes (outside : Outside) (digest : Bool) (s : Session o n) :
    ∃ t, printDigest outside digest s = .ok () t ∧ SameToProgram s t := by
  cases digest with
  | false => exact ⟨s, rfl, .refl s⟩
  | true => exact ⟨_, rfl, (SameToProgram.refl s).section _⟩

/-- The exit status of a program. -/
def exitStatus : EStateM.Result StepError (Guest n) Report.Stop → ExitStatus
  | .ok stop _ => statusOf stop
  | .error _ _ => .vmFault

/-- How a program ended is reported, which gives the exit status. -/
theorem reportEnd_becomes (config : Args.Config) {trace : Bool} {before : Fd → List Byte}
    {ended : EStateM.Result (Failure RunError) (Session o n) Report.Stop}
    {program : EStateM.Result StepError (Guest n) Report.Stop}
    (ends : EndsAs trace before ended program) :
    ∃ t, reportEnd config (answer ended) (stateAfter ended) = .ok (exitStatus program) t ∧
      SameToProgram (stateAfter ended) t := by
  cases ends with
  | @stop stop s g _ =>
      refine ⟨_, rfl, ?_⟩
      cases config.quiet with
      | true => exact .refl s
      | false => exact reportStop_same config stop s
  | @fault e s g _ => exact ⟨_, rfl, reportFault_same e s⟩

/-- The report of a program that has run, and the flushes at the end. -/
def wrapUp (outside : Outside) (config : Args.Config)
    (ended : Except (Failure RunError) Report.Stop) : Running o n ExitStatus := do
  let status ← .lift (reportEnd config ended)
  .lift (printDump config.dump)
  .lift (printDigest outside config.digest)
  return status

theorem wrapUp_becomes (outside : Outside) {config : Args.Config} {trace : Bool}
    (inside : ∀ d ∈ config.dump, ∀ range ∈ d.range, Inside n range) {before : Fd → List Byte}
    {ended : EStateM.Result (Failure RunError) (Session o n) Report.Stop}
    {program : EStateM.Result StepError (Guest n) Report.Stop}
    (ends : EndsAs trace before ended program) :
    ∃ t, (∀ r, wrapUp outside config (answer ended) (stateAfter ended) r ↔
        r = .ok (exitStatus program) t) ∧ SameToProgram (stateAfter ended) t := by
  obtain ⟨t, reported, same⟩ := reportEnd_becomes config ends
  obtain ⟨u, dumped, same'⟩ := printDump_becomes inside t
  obtain ⟨v, digested, same''⟩ := printDigest_becomes outside config.digest u
  refine ⟨v, fun r => ?_, (same.trans same').trans same''⟩
  refine Behaviour.lift_andThen.trans ?_
  rw [reported]
  refine Behaviour.lift_andThen.trans ?_
  rw [dumped]
  refine Behaviour.lift_andThen.trans ?_
  rw [digested]
  exact eq_comm

/-! ## The whole run -/

/-- The CLI has carried out a program that ended so: the exit status says how; the VM, what was
read of the input and what is on stdout are the program's; and everything was delivered. -/
structure CarriedOut (program : EStateM.Result StepError (Guest n) Report.Stop)
    (status : ExitStatus) (t : Session o n) : Prop where
  status : status = exitStatus program
  machine : t.vm.toMachine = (stateAfter program).machine
  input : t.input.drop t.inputPos = (stateAfter program).input
  stdout : t.terminal.written .stdout = (stateAfter program).wrote .stdout
  flushed : ∀ fd, t.terminal.buffer fd = []

theorem EndsAs.carriesOut {trace : Bool} {before : Fd → List Byte}
    {ended : EStateM.Result (Failure RunError) (Session o n) Report.Stop}
    {program : EStateM.Result StepError (Guest n) Report.Stop}
    (ends : EndsAs trace before ended program) :
    CarriesOut trace before (stateAfter ended) (stateAfter program) := by
  cases ends with
  | stop carries => exact carries
  | fault carries => exact carries

/-- Both flushes leave nothing in the buffers. -/
theorem buffer_flushed (s : Session o n) (fd : Fd) :
    ((s.flush .stdout).flush .stderr).terminal.buffer fd = [] := by
  cases fd with
  | stdout => exact Streams.flush_buffer_empty (Streams.flush_buffer_same _)
  | stderr => exact Streams.flush_buffer_same _

/-- After both flushes. -/
theorem carriedOut_flush {trace : Bool} {before : Fd → List Byte} (nothing : before .stdout = [])
    {ended : EStateM.Result (Failure RunError) (Session o n) Report.Stop}
    {program : EStateM.Result StepError (Guest n) Report.Stop}
    (ends : EndsAs trace before ended program) {t : Session o n}
    (same : SameToProgram (stateAfter ended) t) :
    CarriedOut program (exitStatus program) ((t.flush .stdout).flush .stderr) where
  status := rfl
  machine := by
    rw [← ends.carriesOut.machine, same.vm]
    rfl
  input := by
    rw [← ends.carriesOut.input, same.input, same.inputPos]
    rfl
  stdout := by
    have told := ends.carriesOut.written .stdout fun _ => rfl
    rw [nothing, List.nil_append, same.stdout] at told
    exact told
  flushed := buffer_flushed _

theorem run_eq {outside : Outside} {config : Args.Config} {draining : Draining Fd Byte}
    {r : EStateM.Result Trap (Session o config.memory) ExitStatus} :
    run outside config (start draining) r ↔
      ∃ middle, runProgram outside config (start draining) middle ∧
        conclude (answer middle) (stateAfter middle) = r :=
  Behaviour.attempt_andThen

/-- **Running a program that can be started** is executing it, and the report. -/
theorem run_started (default : o.decode = Determinant.decode) {outside : Outside}
    {config : Args.Config} (runs : config.disassemble = false)
    (inside : ∀ d ∈ config.dump, ∀ range ∈ d.range, Inside config.memory range)
    {g : Guest config.memory} (starts : Starts outside config g) (draining : Draining Fd Byte) :
    (∀ r, run outside config (start draining : Session o config.memory) r →
      ∃ program status t, Guest.Runs config.maxCycles g program ∧ r = .ok status t ∧
        CarriedOut program status t) ∧
    ∀ program, Guest.Runs config.maxCycles g program →
      ∃ status t, run outside config (start draining : Session o config.memory) (.ok status t) ∧
        CarriedOut program status t := by
  obtain ⟨memory, vm, loads, given⟩ := starts
  obtain ⟨s, before, setUp, carries, nothing⟩ := setUp_becomes (o := o) loads given draining
  obtain ⟨forward, backward⟩ := execute_endsAs default config.maxCycles carries
  have prepared : prepare outside config (start draining : Session o config.memory) =
      .ok _ (placed draining _) := prepare_eq_ok.2 ⟨memory, vm, _, loads, rfl⟩
  have program : ∀ middle, runProgram outside config (start draining) middle ↔
      ∃ ended, execute config.trace config.maxCycles s ended ∧
        wrapUp outside config (answer ended) (stateAfter ended) middle := by
    intro middle
    unfold runProgram
    refine Behaviour.lift_andThen.trans ?_
    rw [prepared]
    simp only [runs, Bool.false_eq_true, if_false]
    exact (Behaviour.andThen_of_becomes setUp).trans Behaviour.attempt_andThen
  constructor
  · intro r outcome
    obtain ⟨middle, ran, rfl⟩ := run_eq.1 outcome
    obtain ⟨ended, executed, wrapped⟩ := (program middle).1 ran
    obtain ⟨program, programRuns, ends⟩ := forward ended executed
    obtain ⟨t, becomes, same⟩ := wrapUp_becomes outside inside ends
    rw [(becomes middle).1 wrapped]
    exact ⟨program, _, _, programRuns, rfl, carriedOut_flush nothing ends same⟩
  · intro result programRuns
    obtain ⟨ended, executed, ends⟩ := backward result programRuns
    obtain ⟨t, becomes, same⟩ := wrapUp_becomes outside inside ends
    refine ⟨_, _, run_eq.2 ⟨_, (program _).2 ⟨ended, executed, (becomes _).2 rfl⟩, rfl⟩, ?_⟩
    exact carriedOut_flush nothing ends same

/-- A failure before the program runs ends in exit status 1 and one message. -/
theorem conclude_failed {s : Session o n} {f : Failure CommandError} (failed : Failed s f)
    (error : IsError f) :
    ∃ t text, conclude (.error f) s = .ok .usageOrIo t ∧ Said t text ∧
      ∀ fd, t.terminal.buffer fd = [] := by
  obtain ⟨e, rfl⟩ := error
  cases e with
  | userError =>
      obtain ⟨text, said⟩ := failed
      exact ⟨_, text, rfl, (said.flush .stdout).flush .stderr, buffer_flushed _⟩
  | writeFailed => exact absurd failed id
  | io e =>
      have said := said_print failed (ascii (Report.ioText e))
      exact ⟨_, _, rfl, (said.flush .stdout).flush .stderr, buffer_flushed _⟩

/-- Loading the program, and reading its input. -/
def begin (outside : Outside) (config : Args.Config) : Command o n (Load.Loaded × List Byte) := do
  let loaded ← prepare outside config
  let input ← readInput outside config.input
  return (loaded, input)

/-- It fails when the program cannot be started. -/
theorem begin_fails {outside : Outside} {config : Args.Config}
    (loadAddr : ∀ addr ∈ config.loadAddr, addr.toNat < n.bytes)
    (unstarted : ∀ g : Guest n, ¬Starts outside config g) (draining : Draining Fd Byte) :
    ∃ f s, begin outside config (start draining : Session o n) = .error f s ∧
      Failed s f ∧ IsError f := by
  have fresh : Session.Fresh (start draining : Session o n) := ⟨rfl, rfl⟩
  have reports : Reports (begin outside config : Command o n (Load.Loaded × List Byte)) :=
    .bind (prepare_reports outside config) fun _ =>
      .bind (readInput_reports outside config.input) fun _ => .pure _
  have safe : Safe (.lift (begin outside config : Command o n (Load.Loaded × List Byte)))
      fun _ => True :=
    .bind (prepare_safe outside loadAddr) fun _ _ =>
      .bind (readInput_safe outside config.input) fun _ _ => .pure trivial
  have reports := reports fresh rfl
  have safe := safe (s := start draining) rfl rfl
  cases outcome : begin outside config (start draining : Session o n) with
  | error f s =>
      rw [outcome] at reports safe
      exact ⟨f, s, rfl, reports, safe⟩
  | ok started s =>
      -- What was loaded and read would be a program that can be started.
      unfold begin at outcome
      rw [bind_apply] at outcome
      cases prepared : prepare outside config (start draining : Session o n) with
      | error f t => simp [prepared] at outcome
      | ok loaded t =>
          rw [prepared] at outcome
          obtain ⟨memory, vm, writes, loads, rfl⟩ := prepare_eq_ok.1 prepared
          dsimp only at outcome
          rw [bind_apply] at outcome
          cases read : readInput outside config.input (placed draining writes : Session o n) with
          | ok input t =>
              have given := (readInput_eq_ok.1 read).1
              exact absurd (.mk memory vm loads given) (unstarted _)
          | error f t =>
              unfold placed at read
              simp [read] at outcome

/-- And then nothing more is done. -/
theorem runProgram_of_begin_error {outside : Outside} {config : Args.Config}
    (runs : config.disassemble = false) {s t : Session o config.memory}
    {f : Failure CommandError} (fails : begin outside config s = .error f t)
    (middle : EStateM.Result (Failure CommandError) (Session o config.memory) ExitStatus) :
    runProgram outside config s middle ↔ middle = .error f t := by
  unfold begin at fails
  rw [bind_apply] at fails
  refine Behaviour.lift_andThen.trans ?_
  cases prepared : prepare outside config s with
  | error f' t' =>
      rw [prepared] at fails
      cases fails
      exact Iff.rfl
  | ok loaded u =>
      rw [prepared] at fails
      dsimp only at fails
      simp only [runs, Bool.false_eq_true, if_false]
      rw [bind_apply] at fails
      cases read : readInput outside config.input u with
      | ok input t' => simp [read] at fails
      | error f' t' =>
          rw [read] at fails
          cases fails
          constructor
          · rintro ⟨_, ⟨_, read', rest'⟩, rest⟩
            cases read'.symm.trans read
            cases rest'
            exact rest
          · rintro rfl
            exact ⟨.error f t, ⟨.error f t, read, rfl⟩, rfl⟩

theorem run_of_begin_error {outside : Outside} {config : Args.Config}
    (runs : config.disassemble = false) {draining : Draining Fd Byte}
    {s : Session o config.memory} {f : Failure CommandError}
    (fails : begin outside config (start draining) = .error f s)
    (r : EStateM.Result Trap (Session o config.memory) ExitStatus) :
    run outside config (start draining) r ↔ conclude (.error f) s = r := by
  refine run_eq.trans ⟨?_, fun concluded => ?_⟩
  · rintro ⟨middle, ran, rfl⟩
    rw [(runProgram_of_begin_error runs fails middle).1 ran]
    rfl
  · exact ⟨_, (runProgram_of_begin_error runs fails _).2 rfl, concluded⟩

/-- **A program that cannot be started** is reported in one message. -/
theorem run_unstarted {outside : Outside} {config : Args.Config}
    (runs : config.disassemble = false)
    (loadAddr : ∀ addr ∈ config.loadAddr, addr.toNat < config.memory.bytes)
    (unstarted : ∀ g : Guest config.memory, ¬Starts outside config g)
    (draining : Draining Fd Byte) :
    ∃ t text, (∀ r, run outside config (start draining : Session o config.memory) r ↔
      r = .ok .usageOrIo t) ∧ t.terminal.written .stderr = errorText text ∧
        t.terminal.written .stdout = [] ∧ ∀ fd, t.terminal.buffer fd = [] := by
  obtain ⟨f, s, fails, failed, error⟩ := begin_fails (o := o) loadAddr unstarted draining
  obtain ⟨t, text, concluded, said, delivered⟩ := conclude_failed failed error
  refine ⟨t, text, fun r => (run_of_begin_error runs fails r).trans ?_, said.stderr, said.stdout,
    delivered⟩
  rw [concluded]
  exact eq_comm

/-- What the parser has checked of the addresses. -/
theorem inside_of_accepted {args : List Args.Arg} {settings : Args.Settings}
    (accepted : Args.Parses args (.ok (.run settings))) {memory : MemSize}
    (allocated : initInPlace settings.memory.toNat = .ok memory) :
    (∀ addr ∈ settings.loadAddr, addr.toNat < memory.bytes) ∧
      ∀ d ∈ settings.dump, ∀ range ∈ d.range, Inside memory range := by
  have sound := Args.sound_of_parses accepted
  have size : settings.memory.toNat = memory.bytes := by
    unfold initInPlace at allocated
    split at allocated
    · cases allocated
      rfl
    · cases allocated
  constructor
  · intro addr given
    have bound := (sound.loadAddr addr given).2
    rwa [size] at bound
  · intro d given range named
    have bound := (sound.dump d given range named).2
    rwa [size] at bound

/-- **What the CLI does with a command line that says to run a program**, if no write fails. If the
program cannot be loaded, or its input cannot be read, it writes one message to stderr, and nothing
else, and ends with exit status 1. Otherwise
it carries the program out: it ends just when the program does, with the exit status that says
how, with the machine and the rest of the input that the program left, and with everything
delivered that the program wrote to stdout, and nothing else. The decode cache, the buffers, the
trace and the other reports do not show in this. -/
theorem run_carries_out (default : o.decode = Determinant.decode) {args : List Args.Arg}
    {settings : Args.Settings} (accepted : Args.Parses args (.ok (.run settings)))
    (runs : settings.disassemble = false) {memory : MemSize}
    (allocated : initInPlace settings.memory.toNat = .ok memory) (outside : Outside)
    (draining : Draining Fd Byte) :
    (∀ g : Guest memory, Starts outside (withMemory settings memory) g →
      (∀ r, run outside (withMemory settings memory) (start draining : Session o memory) r →
        ∃ program status t, Guest.Runs settings.maxCycles g program ∧ r = .ok status t ∧
          CarriedOut program status t) ∧
      ∀ program, Guest.Runs settings.maxCycles g program →
        ∃ status t, run outside (withMemory settings memory) (start draining : Session o memory)
            (.ok status t) ∧ CarriedOut program status t) ∧
    ((∀ g : Guest memory, ¬Starts outside (withMemory settings memory) g) →
      ∃ t text, (∀ r, run outside (withMemory settings memory)
          (start draining : Session o memory) r ↔ r = .ok .usageOrIo t) ∧
        t.terminal.written .stderr = errorText text ∧ t.terminal.written .stdout = [] ∧
        ∀ fd, t.terminal.buffer fd = []) := by
  obtain ⟨loadAddr, dump⟩ := inside_of_accepted accepted allocated
  exact ⟨fun g starts => run_started default runs dump starts draining,
    fun unstarted => run_unstarted runs loadAddr unstarted draining⟩

/-- A flat binary of two instructions, ADDI x1, x0, 1 and ECALL, in eight bytes of memory. -/
def countingSettings : Args.Settings := { program := .file (ascii "count"), memory := 8#32 }

theorem countingSettings_accepted :
    Args.Parses [ascii "determinant", ascii "count", ascii "--memory=8"]
      (.ok (.run countingSettings)) :=
  Args.parses_iff.2 (by decide +kernel)

theorem run_carries_out_counting :
    ∃ t, run countingFile (withMemory countingSettings .eight)
        (start (fun _ => 0) : Session Options.uncached .eight) (.ok .ok t) ∧
      t.terminal.written .stdout = [] := by
  have loads : Loads .eight countingFile (withMemory countingSettings .eight) _ _ :=
    .flat rfl rfl rfl rfl (by decide) rfl rfl (by decide) rfl (by decide) rfl
  have starts : Starts countingFile (withMemory countingSettings .eight) _ :=
    .mk rfl rfl loads rfl
  have default : Options.uncached.decode = Determinant.decode := rfl
  obtain ⟨_, carriedOut⟩ :=
    (run_carries_out default countingSettings_accepted rfl rfl countingFile fun _ => 0).1 _ starts
  -- Two instructions, and the call.
  obtain ⟨status, t, ran, reported⟩ :=
    carriedOut (.ok (.ecall 0#32) _) (.again rfl (.leave rfl))
  have ok : status = .ok := reported.status
  subst ok
  exact ⟨t, ran, reported.stdout⟩

end Cli

end Determinant
