import Determinant.Cli.LimitedRun

/-!
# Reporting options only report

Two command lines that name the same program, memory, limit and input may differ in what is
reported: the trace, the dump of memory, the digest, and whether there is a report at all. They do
the same to the program (`reports_only_report`): one ends when the other does, with the same exit
status and the same machine, and the program has written the same to stdout.
-/

set_option autoImplicit false

namespace Determinant

open Foundations Hostcall

variable {n : MemSize} {o : Options}

namespace Args

/-- The settings agree in what the program sees. -/
structure Settings.SameProgram (s t : Settings) : Prop where
  program : s.program = t.program
  memory : s.memory = t.memory
  maxCycles : s.maxCycles = t.maxCycles
  input : s.input = t.input
  loadAddr : s.loadAddr = t.loadAddr

theorem Settings.SameProgram.symm {s t : Settings} (same : s.SameProgram t) : t.SameProgram s :=
  ⟨same.program.symm, same.memory.symm, same.maxCycles.symm, same.input.symm, same.loadAddr.symm⟩

end Args

namespace Cli

variable {settings settings' : Args.Settings} {memory : MemSize}

/-- What can be loaded depends on the program and the load address. -/
theorem Loads.of_same {outside : Outside} {config config' : Args.Config}
    (program : config.program = config'.program) (loadAddr : config.loadAddr = config'.loadAddr)
    {loaded : Load.Loaded} {writes : List (Nat × List Byte)}
    (loads : Loads n outside config loaded writes) : Loads n outside config' loaded writes := by
  cases loads with
  | demo named fits code => exact .demo (program ▸ named) fits code
  | flat named opened sized started nonempty flat placed fits given whole code =>
      exact .flat (program ▸ named) opened sized started nonempty flat (loadAddr ▸ placed) fits
        given whole code
  | elf named opened sized started nonempty executable unplaced small image given whole parsed
      fits code =>
      exact .elf (program ▸ named) opened sized started nonempty executable
        (loadAddr ▸ unplaced) small image given whole parsed fits code

theorem Starts.of_same (same : settings.SameProgram settings') {outside : Outside}
    {g : Guest memory} (starts : Starts outside (withMemory settings memory) g) :
    Starts outside (withMemory settings' memory) g := by
  obtain ⟨allocated, vm, loads, given⟩ := starts
  have given' : inputOf outside settings.input = _ := given
  rw [same.input] at given'
  exact .mk allocated vm (loads.of_same same.program same.loadAddr) given'

/-- Loading and reading the input are the same for both. -/
theorem begin_same (same : settings.SameProgram settings') (outside : Outside) :
    (begin outside (withMemory settings memory) : Command o memory (Load.Loaded × List Byte)) =
      begin outside (withMemory settings' memory) := by
  simp only [begin, prepare, Load.load, withMemory, same.program, same.loadAddr, same.input]

/-- The program has ended in the same way, with the same machine, the same left of its input and
the same on stdout. -/
structure SameToUser (s t : Session o n) : Prop where
  machine : s.vm.toMachine = t.vm.toMachine
  input : s.input.drop s.inputPos = t.input.drop t.inputPos
  stdout : s.terminal.written .stdout = t.terminal.written .stdout

/-- **Reporting options only report**, if no write fails: a report that cannot be written ends a run
that would go on without it. -/
theorem reports_only_report (default : o.decode = Determinant.decode)
    {args args' : List Args.Arg} (accepted : Args.Parses args (.ok (.run settings)))
    (accepted' : Args.Parses args' (.ok (.run settings')))
    (same : settings.SameProgram settings') (runs : settings.disassemble = false)
    (runs' : settings'.disassemble = false)
    (allocated : initInPlace settings.memory.toNat = .ok memory) (outside : Outside)
    (draining : Draining Fd Byte) {status : ExitStatus} {t : Session o memory}
    (ran : run outside (withMemory settings memory) (start draining) (.ok status t)) :
    ∃ t', run outside (withMemory settings' memory) (start draining) (.ok status t') ∧
      (∀ r, run outside (withMemory settings' memory) (start draining) r → r = .ok status t') ∧
      SameToUser t t' := by
  have allocated' : initInPlace settings'.memory.toNat = .ok memory := same.memory ▸ allocated
  obtain ⟨loadAddr, dump⟩ := inside_of_accepted accepted allocated
  obtain ⟨_, dump'⟩ := inside_of_accepted accepted' allocated'
  have deterministic := run_deterministic (o := o) outside (withMemory settings' memory)
  have unique : ∀ {status t'}, run outside (withMemory settings' memory) (start draining)
      (.ok status t') → ∀ r, run outside (withMemory settings' memory) (start draining) r →
        r = .ok status t' := fun ran r ran' => deterministic ran' ran
  have plain : (withMemory settings memory).disassemble = false := runs
  have plain' : (withMemory settings' memory).disassemble = false := runs'
  by_cases startable : ∃ g : Guest memory, Starts outside (withMemory settings memory) g
  · obtain ⟨g, starts⟩ := startable
    obtain ⟨program, _, _, programRuns, ended, carried⟩ :=
      (run_started default plain dump starts draining).1 _ ran
    cases ended
    have limits : Guest.Runs settings'.maxCycles g program := same.maxCycles ▸ programRuns
    obtain ⟨status', t', ran', carried'⟩ :=
      (run_started default plain' dump' (starts.of_same same) draining).2 program limits
    have sameStatus : status' = status := carried'.status.trans carried.status.symm
    subst sameStatus
    exact ⟨t', ran', unique ran', carried.machine.trans carried'.machine.symm,
      carried.input.trans carried'.input.symm, carried.stdout.trans carried'.stdout.symm⟩
  · obtain ⟨f, s, fails, _⟩ := begin_fails (o := o) loadAddr
      (fun g starts => startable ⟨g, starts⟩) draining
    have concluded := (run_of_begin_error plain fails _).1 ran
    have fails' := fails
    rw [begin_same same] at fails'
    have ran' := (run_of_begin_error plain' fails' _).2 concluded
    exact ⟨t, ran', unique ran', rfl, rfl, rfl⟩

/-- The same program with everything that can be reported. -/
def reportingSettings : Args.Settings :=
  { countingSettings with
    dump := some {}
    digest := true
    trace := true }

theorem reports_only_report_counting :
    ∃ t t' : Session Options.uncached .eight,
      run countingFile (withMemory countingSettings .eight) (start fun _ => 0) (.ok .ok t) ∧
      run countingFile (withMemory reportingSettings .eight) (start fun _ => 0) (.ok .ok t') ∧
      SameToUser t t' := by
  have accepted : Args.Parses [ascii "determinant", ascii "count", ascii "--trace",
      ascii "--memory=8", ascii "--digest", ascii "--dump-memory"]
      (.ok (.run reportingSettings)) := Args.parses_iff.2 (by decide +kernel)
  have default : Options.uncached.decode = Determinant.decode := rfl
  have same : countingSettings.SameProgram reportingSettings := ⟨rfl, rfl, rfl, rfl, rfl⟩
  have loads : Loads .eight countingFile (withMemory countingSettings .eight) _ _ :=
    .flat rfl rfl rfl rfl (by decide) rfl rfl (by decide) rfl (by decide) rfl
  have starts : Starts countingFile (withMemory countingSettings .eight) _ :=
    .mk rfl rfl loads rfl
  have allocated : initInPlace countingSettings.memory.toNat = .ok .eight := rfl
  obtain ⟨_, dump⟩ := inside_of_accepted countingSettings_accepted allocated
  have plain : (withMemory countingSettings .eight).disassemble = false := rfl
  obtain ⟨status, t, ran, carried⟩ :=
    (run_started default plain dump starts fun _ => 0).2 (.ok (.ecall 0#32) _)
      (.again rfl (.leave rfl))
  have ok : status = .ok := carried.status
  subst ok
  obtain ⟨t', ran', _, sameEnd⟩ := reports_only_report default countingSettings_accepted accepted
    same rfl rfl rfl countingFile (fun _ => 0) ran
  exact ⟨t, t', ran, ran', sameEnd⟩

end Cli

end Determinant
