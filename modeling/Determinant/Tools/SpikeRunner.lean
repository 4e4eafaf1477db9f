import Determinant.Cli.RunProgram
import Determinant.Foundations.ParseInt
import Determinant.Isa.Refinement
import Determinant.Tools.VerifyDecoder

/-!
# The VM side of the comparison with a simulator

The tool that runs the jobs of a manifest and prints the state that each ends in. It runs every
job three times, with the decode cache and without it and with the memory in a buffer of the host,
and steps the VM itself. Its loop does what `run` does (`job_ends_iff`). So the tool comes to an
end on every manifest, the three lines of a job differ in the name of the configuration only, and
what they say is how the hart of the architecture ends (`compares`).
-/

set_option autoImplicit false

namespace Determinant

open Foundations
open VerifyDecoder (wordDigits)

namespace SpikeRunner

variable {o : Options} {n : MemSize}

/-! ## Jobs -/

/-- The configuration with the decode cache. -/
def cached : Options := { valid := .inr ⟨12, rfl⟩ }

/-- Memory [0, 0x50000): its top is that of the simulator's memory. -/
def memSize : MemSize := ⟨0x50000, by decide⟩

/-- A line of the manifest. -/
structure Job where
  path : Path
  load : Word
  entry : Word
  dumpLo : Word
  dumpHi : Word
  maxSteps : Count
  ordered : dumpLo.toNat ≤ dumpHi.toNat
  inside : dumpHi.toNat ≤ memSize.bytes

/-- How the tool fails. -/
inductive Error where
  | badManifest
  | parseInt (e : ParseIntError)
  | readFile (e : IoError)
  | loadProgram (e : StepError)
deriving DecidableEq, Repr

/-- The parts of a text between separators, without the empty ones. -/
def tokens (separators text : List Byte) : List (List Byte) :=
  (text.splitOnP fun c => separators.contains c).filter fun token => !token.isEmpty

/-- An integer without its sign, in some base. -/
def parseWithBase (bound base : Nat) (digits : List Byte) : Except ParseIntError Nat :=
  if digits = [] ∨ digits.head? = some underscore ∨ digits.getLast? = some underscore then
    .error .invalidCharacter
  else parseDigits bound base 0 digits

/-- `std.fmt.parseInt` to an unsigned integer of `w` bits, in a base that is given. -/
def parseInt (w base : Nat) (text : List Byte) : Except Error (BitVec w) :=
  ((match text with
    | 0x2B#8 :: rest => parseWithBase (2 ^ w) base rest
    | 0x2D#8 :: rest => parseWithBase 1 base rest
    | text => parseWithBase (2 ^ w) base text).map (BitVec.ofNat w)).mapError .parseInt

def nextToken : List (List Byte) → Except Error (List Byte × List (List Byte))
  | [] => .error .badManifest
  | token :: rest => .ok (token, rest)

def parseJob (line : List Byte) : Except Error Job := do
  let (path, rest) ← nextToken (tokens [space, 0x09#8] line)
  let (load, rest) ← nextToken rest
  let load ← parseInt 32 16 load
  let (entry, rest) ← nextToken rest
  let entry ← parseInt 32 16 entry
  let (lo, rest) ← nextToken rest
  let lo ← parseInt 32 16 lo
  let (hi, rest) ← nextToken rest
  let hi ← parseInt 32 16 hi
  let (max, rest) ← nextToken rest
  let max ← parseInt 64 10 max
  if fits : rest = [] ∧ lo.toNat ≤ hi.toNat ∧ hi.toNat ≤ memSize.bytes then
    .ok { path, load, entry, dumpLo := lo, dumpHi := hi, maxSteps := max, ordered := fits.2.1,
          inside := fits.2.2 }
  else .error .badManifest

/-! ## Running a job -/

/-- The name of what stopped a run. -/
def statusName : Except StepError StepResult → String
  | .ok .continue => "limit"
  | .ok .ecall => "ecall"
  | .ok .ebreak => "ebreak"
  | .error e => Report.errorName e

/-- One turn of the loop. The state is `epc` and the VM; at the end there is the status too. -/
def jobTurn (maxSteps : Count) : Word × Vm o n → Turn (Word × Vm o n) (String × Word × Vm o n)
  | (epc, vm) =>
      if vm.cycleCount < maxSteps then
        match Vm.step vm with
        | .error e vm' => .done (statusName (.error e), vm.pc, vm')
        | .ok .continue vm' => .again (vm'.pc, vm')
        | .ok result vm' => .done (statusName (.ok result), vm'.stopPc, vm')
      else .done ("limit", epc, vm)

def reservationText (reservation : Option Word) : List Byte :=
  reservation.elim (ascii "none") wordDigits

/-- The line of a job. -/
def jobLine (outside : Outside) (job : Job) (config status : String) (epc : Word)
    (vm : Vm o memSize) : List Byte :=
  let registers := (ascii ",").intercalate (List.ofFn fun i : Fin 31 =>
    wordDigits (vm.regs (BitVec.ofNat 5 (i + 1))))
  let dumped := slice vm.memory job.dumpLo.toNat (job.dumpHi.toNat - job.dumpLo.toNat)
    (by have := job.ordered; have := job.inside; omega)
  (ascii " ").intercalate [job.path, ascii config, ascii status, wordDigits epc,
    decimal vm.cycleCount.toNat, wordDigits vm.pc, wordDigits (vm.regs 0#5),
    reservationText vm.reservation, registers, wordDigits vm.csrs.mscratch,
    (vm.stateDigest outside).flatMap lowerHex, dumped.flatMap lowerHex] ++ [newline]

/-- The program is in memory, if it fits, and the VM at its entry. -/
def startVm (load entry : Word) (bin : List Byte) : Except Error (Vm o memSize) :=
  match Vm.onMachine (Machine.loadProgram bin load) (Vm.reset : Vm o memSize) with
  | .ok _ vm => .ok { vm with pc := entry }
  | .error e _ => .error (.loadProgram e)

/-- `runJob` prints a line, or fails. -/
def RunsJob (o : Options) (outside : Outside) (config : String) (bin : List Byte) (job : Job)
    (outcome : Except Error (List Byte)) : Prop :=
  match (startVm job.load job.entry bin : Except Error (Vm o memSize)) with
  | .error e => outcome = .error e
  | .ok vm => ∃ status epc vm', Ends (jobTurn job.maxSteps) (vm.pc, vm) (status, epc, vm') ∧
      outcome = .ok (jobLine outside job config status epc vm')

/-! ## The manifest -/

/-- A line of the manifest is run in the three configurations. -/
def RunsLine (outside : Outside) (line : List Byte) (outcome : Except Error (List Byte)) : Prop :=
  match parseJob line with
  | .error e => outcome = .error e
  | .ok job =>
      match outside.readFile job.path with
      | .error e => outcome = .error (.readFile e)
      | .ok bin => ∃ cache nocache runtime,
          RunsJob cached outside "cache" bin job cache ∧
            RunsJob Options.uncached outside "nocache" bin job nocache ∧
            RunsJob cached outside "runtime" bin job runtime ∧
            outcome = do return (← cache) ++ (← nocache) ++ (← runtime)

/-- The lines are run in order, up to the first that fails. -/
inductive RunsLines (outside : Outside) : List (List Byte) → Except Error (List Byte) → Prop
  | nil : RunsLines outside [] (.ok [])
  | fails {line : List Byte} {rest : List (List Byte)} {e : Error}
      (failed : RunsLine outside line (.error e)) : RunsLines outside (line :: rest) (.error e)
  | prints {line : List Byte} {rest : List (List Byte)} {text : List Byte}
      {others : Except Error (List Byte)} (printed : RunsLine outside line (.ok text))
      (onward : RunsLines outside rest others) :
      RunsLines outside (line :: rest) (others.map (text ++ ·))

/-- The tool on a manifest: what it prints, or why it fails. -/
def RunsManifest (outside : Outside) (manifest : Path) (outcome : Except Error (List Byte)) :
    Prop :=
  match outside.readFile manifest with
  | .error e => outcome = .error (.readFile e)
  | .ok text => RunsLines outside (tokens [0x0D#8, newline] text) outcome

/-! ## The loop and `run` -/

section Loop

variable {maxSteps : Count} {vm vm' : Vm o n} {outcome : Outcome o n StepResult}

/-- Where a run was stopped: `stop_pc` after an ECALL or EBREAK, and `pc` otherwise. -/
def epcOf (result : Except StepError StepResult) (m : Machine n) : Word :=
  match result with
  | .ok .ecall | .ok .ebreak => m.stopPc
  | _ => m.pc

theorem step_error_pc {e : StepError} (failed : Vm.step vm = .error e vm') : vm'.pc = vm.pc := by
  rcases Machine.stepWith_error (Vm.step_error_machine failed) with same | same <;> rw [same]
  rfl

theorem limitReached_true :
    Vm.limitReached (some maxSteps) vm = true ↔ ¬vm.cycleCount < maxSteps := by
  simp [Vm.limitReached]

theorem limitReached_false :
    Vm.limitReached (some maxSteps) vm = false ↔ vm.cycleCount < maxSteps := by
  simp [Vm.limitReached]

/-- **The loop ends as `run` does**, by induction on the turns of the run. -/
theorem ends_of_runs (runs : Vm.Runs (some maxSteps) vm outcome) :
    Ends (jobTurn maxSteps) (vm.pc, vm) (statusName (answer outcome),
      epcOf (answer outcome) (stateAfter outcome).toMachine, stateAfter outcome) := by
  have loops : Behaviour.Loops (.lift (Vm.runTurn (some maxSteps))) vm outcome :=
    Vm.runs_iff_loop.1 runs
  clear runs
  induction loops with
  | @leave vm vm' result left =>
      rcases Vm.runTurn_eq_leave.1 left with ⟨reached, rfl, rfl⟩ | ⟨below, stopped, stepped⟩
      · refine ends_of_done ?_
        rw [jobTurn, if_neg (limitReached_true.1 reached)]
        rfl
      · refine ends_of_done ?_
        rw [jobTurn, if_pos (limitReached_false.1 below), stepped]
        cases result with
        | «continue» => exact absurd rfl stopped
        | ecall | ebreak => rfl
  | @fail vm vm' e failed =>
      obtain ⟨below, stepped⟩ := Vm.runTurn_eq_error.1 failed
      refine ends_of_done ?_
      rw [jobTurn, if_pos (limitReached_false.1 below), stepped, ← step_error_pc stepped]
      rfl
  | @again vm vm' outcome turn rest ih =>
      obtain ⟨below, stepped⟩ := Vm.runTurn_eq_again.1 turn
      refine ends_of_again ?_ ih
      rw [jobTurn, if_pos (limitReached_false.1 below), stepped]

/-- The end of the loop is that of the only run. -/
theorem job_ends_iff (maxSteps : Count) (vm : Vm o n) (r : String × Word × Vm o n) :
    Ends (jobTurn maxSteps) (vm.pc, vm) r ↔ ∃ outcome, Vm.Runs (some maxSteps) vm outcome ∧
      r = (statusName (answer outcome), epcOf (answer outcome) (stateAfter outcome).toMachine,
        stateAfter outcome) := by
  constructor
  · intro ends
    obtain ⟨outcome, runs⟩ := Vm.runs_exists maxSteps vm
    exact ⟨outcome, runs, ends.unique (ends_of_runs runs)⟩
  · rintro ⟨outcome, runs, rfl⟩
    exact ends_of_runs runs

/-- A hart goes on from one state to another. -/
def GoesOnTo : Isa.Hart → Isa.Hart → Prop :=
  Relation.ReflTransGen fun h h' => Isa.Step h (.ok .continue) h'

/-- The hart ends a run at the instruction at `epc`: it reaches it, and then the limit is reached
or the instruction stops the hart or fails. -/
def EndsAt (h : Isa.Hart) (result : Except StepError StepResult) (h' : Isa.Hart) (epc : Word) :
    Prop :=
  ∃ before, GoesOnTo h before ∧ before.pc = epc ∧
    (result = .ok .continue ∧ h' = before ∨ result ≠ .ok .continue ∧ Isa.Step before result h')

theorem step_stopPc {result : StepResult} (stopped : result ≠ .continue)
    (stepped : Vm.step vm = .ok result vm') : vm'.stopPc = vm.pc := by
  obtain ⟨_, _, d, _, same, retired⟩ := Machine.stepWith_eq_ok.1 (Vm.step_ok_machine stepped)
  rw [← retired]
  subst same
  exact if_neg stopped

/-- **`epc` is where the hart ended**, by induction on the turns of the run. -/
theorem endsAt_of_runs (default : o.decode = Determinant.decode)
    (coherent : Coherent o.decode vm.decodeCache) (x0 : vm.regs 0#5 = 0#32)
    (runs : Vm.Runs (some maxSteps) vm outcome) :
    (stateAfter outcome).regs 0#5 = 0#32 ∧
      EndsAt vm.hart (answer outcome) (stateAfter outcome).hart
        (epcOf (answer outcome) (stateAfter outcome).toMachine) := by
  have loops : Behaviour.Loops (.lift (Vm.runTurn (some maxSteps))) vm outcome :=
    Vm.runs_iff_loop.1 runs
  clear runs
  induction loops with
  | @leave vm vm' result left =>
      rcases Vm.runTurn_eq_leave.1 left with ⟨_, rfl, rfl⟩ | ⟨_, stopped, stepped⟩
      · exact ⟨x0, vm.hart, .refl, rfl, .inl ⟨rfl, rfl⟩⟩
      · have steps := (Vm.step_hart default coherent _ _).2 ⟨rfl, rfl⟩
        rw [stepped] at steps
        refine ⟨Vm.step_ok_x0 stepped, vm.hart, .refl, ?_, .inr ⟨?_, steps⟩⟩
        · cases result with
          | «continue» => exact absurd rfl stopped
          | ecall | ebreak => exact (step_stopPc stopped stepped).symm
        · intro same
          exact stopped (Except.ok.inj same)
  | @fail vm vm' e failed =>
      obtain ⟨_, stepped⟩ := Vm.runTurn_eq_error.1 failed
      have steps := (Vm.step_hart default coherent _ _).2 ⟨rfl, rfl⟩
      rw [stepped] at steps
      have unchanged : vm'.toMachine = vm.toMachine := Vm.step_error_unchanged x0 stepped
      refine ⟨by rw [stateAfter_error, unchanged, x0], vm.hart, .refl,
        (step_error_pc stepped).symm, .inr ⟨?_, steps⟩⟩
      intro same
      cases same
  | @again vm vm' outcome turn rest ih =>
      obtain ⟨_, stepped⟩ := Vm.runTurn_eq_again.1 turn
      have steps := (Vm.step_hart default coherent _ _).2 ⟨rfl, rfl⟩
      have coherent' := Vm.coherent_stepped default coherent
      rw [stepped] at steps coherent'
      obtain ⟨zero, before, reaches, ends⟩ := ih coherent' (Vm.step_ok_x0 stepped)
      exact ⟨zero, before, .head steps reaches, ends⟩

end Loop

/-! ## The three configurations -/

/-- The hart that a program starts with: power-on, the program over zeros, and `pc` at its entry. -/
def startHart (load entry : Word) (bin : List Byte) : Isa.Hart where
  pc := entry
  x := fun _ => 0#32
  zero := rfl
  memory := overwrite (fun x => if x < memSize.bytes then some 0#8 else none) load.toNat bin
  cycles := 0#64
  reservation := none
  mscratch := 0#32

/-- The VM that a program starts with. -/
def started (load entry : Word) (bin : List Byte) : Vm o memSize :=
  { (Vm.reset : Vm o memSize) with
    memory := patch (fun _ => 0#8) load.toNat bin
    pc := entry }

theorem startVm_eq (load entry : Word) (bin : List Byte) :
    (startVm load entry bin : Except Error (Vm o memSize)) =
      if load.toNat + bin.length ≤ memSize.bytes then .ok (started load entry bin)
      else .error (.loadProgram .addressOutOfBounds) := by
  unfold startVm
  simp only [Vm.onMachine, onPart, Machine.loadProgram_apply]
  by_cases fits : load.toNat + bin.length ≤ memSize.bytes
  · rw [if_pos fits, if_pos fits]
    rfl
  · rw [if_neg fits, if_neg fits]

theorem started_hart {load : Word} (entry : Word) {bin : List Byte}
    (fits : load.toNat + bin.length ≤ memSize.bytes) :
    (started load entry bin : Vm o memSize).hart = startHart load entry bin := by
  apply Isa.Hart.ext
  case x =>
    funext reg
    change (if reg = 0#5 then 0#32 else 0#32) = 0#32
    rw [ite_self]
  case memory => exact (overwrite_ofCells (fun _ : Fin memSize.bytes => 0#8) fits).symm
  all_goals rfl

theorem started_agree (load entry : Word) (bin : List Byte) :
    Vm.Agree (started load entry bin : Vm o memSize)
      (started load entry bin : Vm Options.uncached memSize) :=
  ⟨rfl, .empty _, .empty _⟩

/-- A line says nothing about the cache. -/
theorem jobLine_congr {o' : Options} (outside : Outside) (job : Job) (config status : String)
    (epc : Word) {vm : Vm o memSize} {vm' : Vm o' memSize}
    (same : vm.toMachine = vm'.toMachine) :
    jobLine outside job config status epc vm = jobLine outside job config status epc vm' := by
  unfold jobLine Vm.stateDigest
  rw [same]

/-- **With any cache, a job prints the line of the only run of the VM without one.** -/
theorem runsJob_iff (default : o.decode = Determinant.decode) (outside : Outside)
    (config : String) {bin : List Byte} {job : Job}
    (fits : job.load.toNat + bin.length ≤ memSize.bytes)
    {reference : Outcome Options.uncached memSize StepResult}
    (runs : Vm.Runs (some job.maxSteps) (started job.load job.entry bin) reference)
    (outcome : Except Error (List Byte)) :
    RunsJob o outside config bin job outcome ↔
      outcome = .ok (jobLine outside job config (statusName (answer reference))
        (epcOf (answer reference) (stateAfter reference).toMachine) (stateAfter reference)) := by
  have faithful : ∀ raw inst, Determinant.decode raw = .ok inst → inst.raw = raw :=
    fun _ _ decoded => (decode_decoded decoded).raw
  obtain ⟨own, runsOwn⟩ :=
    Vm.runs_exists job.maxSteps (started job.load job.entry bin : Vm o memSize)
  obtain ⟨matched, runs', answers, agree⟩ :=
    (started_agree job.load job.entry bin).run default (default ▸ faithful) runsOwn
  cases Vm.runs_unique runs runs'
  have lines : jobLine outside job config (statusName (answer own))
      (epcOf (answer own) (stateAfter own).toMachine) (stateAfter own) =
      jobLine outside job config (statusName (answer reference))
        (epcOf (answer reference) (stateAfter reference).toMachine) (stateAfter reference) := by
    rw [answers, agree.machine]
    exact jobLine_congr outside job config _ _ agree.machine
  unfold RunsJob
  rw [startVm_eq, if_pos fits]
  dsimp only
  constructor
  · rintro ⟨status, epc, vm', ends, rfl⟩
    obtain ⟨outcome, runs, same⟩ := (job_ends_iff _ _ _).1 ends
    cases Vm.runs_unique runsOwn runs
    cases same
    rw [lines]
  · rintro rfl
    refine ⟨_, _, _, ends_of_runs runsOwn, ?_⟩
    rw [lines]

/-- What a line of the manifest is to print: the job's three lines, each with how the hart of the
architecture ends. -/
def Compared (outside : Outside) (line : List Byte) (outcome : Except Error (List Byte)) : Prop :=
  match parseJob line with
  | .error e => outcome = .error e
  | .ok job =>
      match outside.readFile job.path with
      | .error e => outcome = .error (.readFile e)
      | .ok bin =>
          if job.load.toNat + bin.length ≤ memSize.bytes then
            ∃ (result : Except StepError StepResult) (epc : Word)
              (vm : Vm Options.uncached memSize),
              Isa.Runs (some job.maxSteps) (startHart job.load job.entry bin) result vm.hart ∧
                EndsAt (startHart job.load job.entry bin) result vm.hart epc ∧ vm.regs 0#5 = 0#32 ∧
                outcome = .ok (["cache", "nocache", "runtime"].flatMap fun config =>
                  jobLine outside job config (statusName result) epc vm)
          else outcome = .error (.loadProgram .addressOutOfBounds)

/-- **A line has one outcome, and it is as it is to be.** -/
theorem line_compared (outside : Outside) (line : List Byte) :
    ∃ report, Compared outside line report ∧
      ∀ outcome, RunsLine outside line outcome ↔ outcome = report := by
  unfold Compared RunsLine
  cases parsed : parseJob line with
  | error e => exact ⟨_, rfl, fun _ => Iff.rfl⟩
  | ok job =>
      dsimp only
      cases read : outside.readFile job.path with
      | error e => exact ⟨_, rfl, fun _ => Iff.rfl⟩
      | ok bin =>
          dsimp only
          by_cases fits : job.load.toNat + bin.length ≤ memSize.bytes
          · obtain ⟨reference, runs⟩ :=
              Vm.runs_exists job.maxSteps
                (started job.load job.entry bin : Vm Options.uncached memSize)
            have isa := Vm.isa_of_runs rfl (Coherent.empty _) runs
            obtain ⟨x0, ends⟩ := endsAt_of_runs rfl (Coherent.empty _) rfl runs
            rw [started_hart job.entry fits] at isa ends
            simp only [if_pos fits]
            refine ⟨_, ⟨_, _, _, isa, ends, x0, rfl⟩, fun outcome => ?_⟩
            simp only [runsJob_iff (o := cached) rfl outside _ fits runs,
              runsJob_iff (o := Options.uncached) rfl outside _ fits runs, List.flatMap_cons,
              List.flatMap_nil, List.append_nil]
            constructor
            · rintro ⟨_, _, _, rfl, rfl, rfl, rfl⟩
              exact congrArg Except.ok (List.append_assoc _ _ _)
            · rintro rfl
              refine ⟨_, _, _, rfl, rfl, rfl, ?_⟩
              exact congrArg Except.ok (List.append_assoc _ _ _).symm
          · simp only [if_neg fits]
            refine ⟨_, rfl, fun outcome => ?_⟩
            simp only [RunsJob, startVm_eq, if_neg fits]
            constructor
            · rintro ⟨_, _, _, rfl, rfl, rfl, rfl⟩
              rfl
            · rintro rfl
              exact ⟨_, _, _, rfl, rfl, rfl, rfl⟩

/-- The texts of the lines one after the other, or the first failure. -/
def joined : List (Except Error (List Byte)) → Except Error (List Byte)
  | [] => .ok []
  | .error e :: _ => .error e
  | .ok text :: rest => (joined rest).map (text ++ ·)

/-- The lines have one outcome, by induction on them. -/
theorem lines_compared (outside : Outside) (lines : List (List Byte)) :
    ∃ reports, List.Forall₂ (Compared outside) lines reports ∧
      ∀ outcome, RunsLines outside lines outcome ↔ outcome = joined reports := by
  induction lines with
  | nil =>
      refine ⟨[], .nil, fun outcome => ⟨?_, ?_⟩⟩
      · intro runs
        cases runs
        rfl
      · rintro rfl
        exact .nil
  | cons line rest ih =>
      obtain ⟨reports, compared, onward⟩ := ih
      obtain ⟨report, first, only⟩ := line_compared outside line
      refine ⟨report :: reports, .cons first compared, fun outcome => ⟨?_, ?_⟩⟩
      · intro runs
        cases runs with
        | fails failed =>
            cases (only _).1 failed
            rfl
        | prints printed others =>
            cases (only _).1 printed
            cases (onward _).1 others
            rfl
      · rintro rfl
        cases report with
        | error e => exact .fails ((only _).2 rfl)
        | ok text => exact .prints ((only _).2 rfl) ((onward _).2 rfl)

/-- **The tool compares what it is to compare.** On every manifest it comes to an end, with one
outcome: whatever jobs were run before, every job prints three lines that differ in the name of the
configuration only, and they say how the hart of the architecture ends that starts with the job's
program, at which instruction, and with what state. The tool fails with the first line that names
no job, no readable file or no program that fits. -/
theorem compares (outside : Outside) (manifest : Path) :
    match outside.readFile manifest with
    | .error e => ∀ outcome, RunsManifest outside manifest outcome ↔ outcome = .error (.readFile e)
    | .ok text => ∃ reports,
        List.Forall₂ (Compared outside) (tokens [0x0D#8, newline] text) reports ∧
          ∀ outcome, RunsManifest outside manifest outcome ↔ outcome = joined reports := by
  unfold RunsManifest
  cases outside.readFile manifest with
  | error e => exact fun _ => Iff.rfl
  | ok text => exact lines_compared outside (tokens [0x0D#8, newline] text)

end SpikeRunner

end Determinant
