import Determinant.Cli.WholeRun

/-!
# Runs that end

With `--max-cycles` every program ends: an instruction counts a cycle, a call to the host counts
none, and nothing goes on past the limit (`Guest.runs_exists`). A listing ends as well, whatever
was loaded. So the CLI exits, in one way only (`limited_run_exits`).
-/

set_option autoImplicit false

namespace Determinant

open Foundations Hostcall

variable {n : MemSize} {o : Options}

/-! ## Programs with a limit -/

namespace Guest

open Report (Stop)

variable {limit : Count} {g g' : Guest n}

/-- A call counts no cycle. -/
theorem call_cycleCount (g : Guest n) : g.call.2.machine.cycleCount = g.machine.cycleCount := by
  unfold call
  cases request g.machine with
  | exit | unknown | badFd | badBuffer | write => rfl
  | read addr len =>
      simp only [answered, hasRead, Machine.place, Machine.invalidateReservationRange_eq]
      rfl

theorem onward_cycleCount (g : Guest n) (result : StepResult) :
    (g.onward result).2.machine.cycleCount = g.machine.cycleCount := by
  cases result with
  | «continue» => rfl
  | ebreak => rfl
  | ecall => exact g.call_cycleCount

/-- A turn counts a cycle below the limit, or leaves at once. -/
theorem turn_cycleCount {stop : Option Stop} (turned : turn (some limit) g = .ok stop g') :
    stop = some .cycleLimit ∧ g' = g ∨
      g.machine.cycleCount.toNat < limit.toNat ∧
        g'.machine.cycleCount.toNat = g.machine.cycleCount.toNat + 1 := by
  unfold turn at turned
  split at turned
  · cases turned
    exact .inl ⟨rfl, rfl⟩
  · rename_i below
    have small : g.machine.cycleCount.toNat < limit.toNat := by
      simpa [limitReached, BitVec.le_def] using below
    have bound := limit.isLt
    cases stepped : Machine.stepWith Determinant.decode g.machine with
    | error e m => simp [stepped] at turned
    | ok result m =>
        simp only [stepped, EStateM.Result.ok.injEq] at turned
        obtain ⟨_, rfl⟩ := turned
        obtain ⟨raw, inst, d, _, _, rfl⟩ := Machine.stepWith_eq_ok.1 stepped
        refine .inr ⟨small, ?_⟩
        rw [onward_cycleCount]
        change (g.machine.cycleCount + 1).toNat = _
        rw [BitVec.toNat_add]
        exact Nat.mod_eq_of_lt (by simp; omega)

/-- **A program with a limit ends.** -/
theorem runs_exists (limit : Count) (g : Guest n) : ∃ r, Runs (some limit) g r := by
  have halts : Behaviour.Halts (fun _ : Guest n => True) (Runs (some limit)) := by
    refine .loop (fun g => limit.toNat - g.machine.cycleCount.toNat) (.lift _) ?_
    intro g g' _ turned
    rcases turn_cycleCount turned with ⟨stopped, _⟩ | ⟨below, counted⟩
    · cases stopped
    · exact ⟨trivial, by omega⟩
  exact halts trivial

/-- **It executes no more instructions than the limit says.** -/
theorem runs_cycleCount {program : EStateM.Result StepError (Guest n) Stop}
    (runs : Runs (some limit) g program) (start : g.machine.cycleCount.toNat ≤ limit.toNat) :
    (stateAfter program).machine.cycleCount.toNat ≤ limit.toNat := by
  have meets : Behaviour.Meets (fun g : Guest n => g.machine.cycleCount.toNat ≤ limit.toNat)
      (Runs (some limit)) (fun _ g => g.machine.cycleCount.toNat ≤ limit.toNat)
      fun _ g => g.machine.cycleCount.toNat ≤ limit.toNat := by
    refine .loop (.lift fun g start => ?_)
    cases turned : turn (some limit) g with
    | ok stop g' =>
        refine .const stop ?_
        rcases turn_cycleCount turned with ⟨_, rfl⟩ | ⟨below, counted⟩
        · exact start
        · omega
    | error e g' =>
        unfold turn at turned
        split at turned
        · cases turned
        · cases stepped : Machine.stepWith Determinant.decode g.machine with
          | ok result m => simp [stepped] at turned
          | error e' m =>
              simp only [stepped, EStateM.Result.error.injEq] at turned
              obtain ⟨_, rfl⟩ := turned
              rcases Machine.stepWith_error stepped with rfl | rfl <;> exact start
  have holds := meets start runs
  cases program <;> exact holds

end Guest

namespace Cli

/-! ## One outcome -/

section Deterministic

open Behaviour (Deterministic)

theorem printListing_deterministic (fd : Fd) (start stop : Word) :
    Deterministic (printListing fd start stop : Running o n Unit) := by
  rintro s r r' ⟨outcome, ends, rfl⟩ ⟨outcome', ends', rfl⟩
  rw [ends.unique ends']

theorem listRange_deterministic (range : Args.Range) (i : Nat) :
    Deterministic (listRange range i : Running o n Unit) :=
  .andThen (.lift _) fun _ => .andThen (.lift _) fun _ => printListing_deterministic _ _ _

theorem listRanges_deterministic (code : List (Args.Range × Nat)) :
    Deterministic (forM code fun (range, i) => listRange range i : Running o n Unit) := by
  induction code with
  | nil => exact .lift _
  | cons range rest ih =>
      rw [List.forM_cons]
      exact .andThen (listRange_deterministic _ _) fun _ => ih

theorem preamble_deterministic (config : Args.Config) (loaded : Load.Loaded) :
    Deterministic (preamble config loaded : Running o n Unit) := by
  have lists : Deterministic (listDemo config.program : Running o n Unit) := by
    unfold listDemo
    split
    · exact .andThen (.lift _) fun _ => printListing_deterministic _ _ _
    · exact .lift _
  unfold preamble
  split
  · exact .lift _
  · exact .andThen lists fun _ => .andThen (.lift _) fun _ => .lift _

/-- **The CLI ends in one way at most.** -/
theorem run_deterministic (outside : Outside) (config : Args.Config) :
    Deterministic (run outside config : Behaviour Trap (Session o config.memory) ExitStatus) := by
  have loaded : ∀ loaded, Deterministic
      (runLoaded outside config loaded : Running o config.memory ExitStatus) := fun loaded =>
    .andThen
      (.andThen (.lift _) fun _ => .andThen (.lift _) fun _ =>
        .andThen (preamble_deterministic config loaded) fun _ => .lift _)
      fun _ => .andThen (.attempt (execute_deterministic _ _)) fun _ =>
        .andThen (.lift _) fun _ => .andThen (.lift _) fun _ => .andThen (.lift _) fun _ => .lift _
  refine .andThen (.attempt (.andThen (.lift _) fun program => ?_)) fun _ => .lift _
  split
  · exact .andThen (listRanges_deterministic _) fun _ => .lift _
  · exact loaded program

end Deterministic

/-! ## Listings -/

theorem listRange_becomes {range : Args.Range} (inside : Inside n range) (i : Nat)
    (s : Session o n) : ∃ t, ∀ r, listRange range i s r ↔ r = .ok () t := by
  have valid := n.valid
  unfold Inside at inside
  unfold validMemorySize at valid
  have small : range.start.toNat + range.len.toNat < 2 ^ 32 := by omega
  have stop : (BitVec.ofNat 32 (range.start.toNat + range.len.toNat)).toNat =
      range.start.toNat + range.len.toNat := by
    rw [BitVec.toNat_ofNat, Nat.mod_eq_of_lt small]
  have separated : ∃ t, separate i s = .ok () t := by
    unfold separate
    split
    · exact ⟨_, rfl⟩
    · exact ⟨_, rfl⟩
  obtain ⟨t, separated⟩ := separated
  obtain ⟨text, becomes⟩ := printListing_becomes .stdout range.start
    (by rw [stop]; exact Nat.le_add_right _ _) (by rw [stop]; exact inside) t
  refine ⟨t.print .stdout text, fun r => ?_⟩
  refine Iff.trans Behaviour.lift_andThen ?_
  rw [separated]
  refine Iff.trans Behaviour.lift_andThen ?_
  rw [reads_ok (f := fun _ => checkedAdd 32 range.start.toNat range.len.toNat)
    (checkedAdd_ok small)]
  exact becomes r

theorem listRanges_becomes {code : List Args.Range} (inside : ∀ range ∈ code, Inside n range)
    (i : Nat) (s : Session o n) :
    ∃ t, ∀ r, (forM (code.zipIdx i) fun (range, i) => listRange range i : Running o n Unit) s r ↔
      r = .ok () t := by
  induction code generalizing i s with
  | nil => exact ⟨s, fun r => eq_comm⟩
  | cons range rest ih =>
      obtain ⟨t, first⟩ := listRange_becomes (inside range (by simp)) i s
      obtain ⟨u, others⟩ := ih (fun range listed => inside range (by simp [listed])) (i + 1) t
      refine ⟨u, fun r => ?_⟩
      rw [List.zipIdx_cons, List.forM_cons]
      exact (Behaviour.andThen_of_becomes first).trans (others r)

/-- **A listing ends**, or one message says why there is none. -/
theorem listed_exists (outside : Outside) {config : Args.Config}
    (lists : config.disassemble = true)
    (loadAddr : ∀ addr ∈ config.loadAddr, addr.toNat < config.memory.bytes)
    (draining : Draining Fd Byte) :
    ∃ status t, run outside config (start draining : Session o config.memory) (.ok status t) := by
  have fresh : Session.Fresh (start draining : Session o config.memory) := ⟨rfl, rfl⟩
  have reports := @prepare_reports _ o outside config _ _ fresh rfl
  have safe := @prepare_safe _ o outside _ loadAddr (start draining) _ rfl rfl
  cases prepared : prepare outside config (start draining : Session o config.memory) with
  | error f s =>
      rw [prepared] at reports safe
      obtain ⟨t, _, concluded, _⟩ := conclude_failed reports safe
      have failed : runProgram outside config (start draining) (.error f s) := by
        refine Behaviour.lift_andThen.2 ?_
        rw [prepared]
      exact ⟨_, t, run_eq.2 ⟨_, failed, concluded⟩⟩
  | ok loaded s =>
      rw [prepared] at safe
      obtain ⟨t, becomes⟩ := listRanges_becomes safe.1.1 0 s
      have listed : runProgram outside config (start draining) (.ok .ok t) := by
        refine Behaviour.lift_andThen.2 ?_
        rw [prepared]
        simp only [lists, if_true]
        exact (Behaviour.andThen_of_becomes becomes).2 rfl
      exact ⟨_, _, run_eq.2 ⟨_, listed, rfl⟩⟩

/-! ## The CLI exits -/

/-- **A command line with a limit, or for a listing, ends**, if no write fails. Whatever program
there is, the CLI then exits, with one status and in one state. And no more instructions were
executed than the limit says. -/
theorem limited_run_exits (default : o.decode = Determinant.decode) {args : List Args.Arg}
    {settings : Args.Settings} (accepted : Args.Parses args (.ok (.run settings)))
    {memory : MemSize} (allocated : initInPlace settings.memory.toNat = .ok memory)
    (limited : settings.disassemble = true ∨ settings.maxCycles ≠ none) (outside : Outside)
    (draining : Draining Fd Byte) :
    ∃ status t, (∀ r, run outside (withMemory settings memory)
        (start draining : Session o memory) r ↔ r = .ok status t) ∧
      ∀ g : Guest memory, settings.disassemble = false →
        Starts outside (withMemory settings memory) g →
          ∀ limit ∈ settings.maxCycles, t.vm.cycleCount ≤ limit := by
  obtain ⟨loadAddr, dump⟩ := inside_of_accepted accepted allocated
  have deterministic := run_deterministic (o := o) outside (withMemory settings memory)
  have unique : ∀ {status t}, run outside (withMemory settings memory) (start draining)
      (.ok status t) → ∀ r, run outside (withMemory settings memory) (start draining) r ↔
        r = .ok status t := fun ran r =>
    ⟨fun ran' => deterministic ran' ran, fun same => same ▸ ran⟩
  cases lists : settings.disassemble with
  | true =>
      have lists' : (withMemory settings memory).disassemble = true := lists
      obtain ⟨status, t, ran⟩ := listed_exists (o := o) outside lists' loadAddr draining
      exact ⟨status, t, unique ran, nofun⟩
  | false =>
      have plain : (withMemory settings memory).disassemble = false := lists
      by_cases startable : ∃ g : Guest memory, Starts outside (withMemory settings memory) g
      · obtain ⟨g, starts⟩ := startable
        cases given : settings.maxCycles with
        | none => simp [given, lists] at limited
        | some limit =>
            obtain ⟨program, runs⟩ := g.runs_exists limit
            obtain ⟨status, t, ran, carried⟩ :=
              (run_started default plain dump starts draining).2 program
                (by rw [← given] at runs; exact runs)
            refine ⟨status, t, unique ran, fun _ _ _ limit' same => ?_⟩
            cases same
            rw [carried.machine]
            refine Guest.runs_cycleCount runs ?_
            cases starts
            exact Nat.zero_le _
      · obtain ⟨t, _, ran, _⟩ := run_unstarted (o := o) plain loadAddr
          (fun g starts => startable ⟨g, starts⟩) draining
        exact ⟨.usageOrIo, t, ran, fun g _ starts => absurd ⟨g, starts⟩ startable⟩

/-- JAL x0, 0: a loop without an end. -/
def loopFile : Outside where
  allocates _ := true
  openFile _ := .ok
    { stat := .ok 4
      magic := .ok [0x6F#8, 0x00#8, 0x00#8, 0x00#8]
      contents := fun _ => .ok [0x6F#8, 0x00#8, 0x00#8, 0x00#8] }
  readFile _ := .error .fileNotFound
  stdin := .ok []
  header _ := 0#8
  sha256 _ := []

def loopSettings : Args.Settings :=
  { program := .file (ascii "loop"), memory := 4#32, maxCycles := some 5#64 }

theorem limited_run_exits_loop :
    ∃ status t, ∀ r, run loopFile (withMemory loopSettings .four)
      (start (fun _ => 0) : Session Options.uncached .four) r ↔ r = .ok status t := by
  have accepted : Args.Parses [ascii "determinant", ascii "--max-cycles=5", ascii "--memory=4",
      ascii "loop"] (.ok (.run loopSettings)) := Args.parses_iff.2 (by decide +kernel)
  have default : Options.uncached.decode = Determinant.decode := rfl
  obtain ⟨status, t, ends, _⟩ := limited_run_exits default accepted rfl (.inr nofun) loopFile
    fun _ => 0
  exact ⟨status, t, ends⟩

end Cli

end Determinant
