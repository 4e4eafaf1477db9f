import Determinant.Cli.Reporting
import Determinant.Cli.TraceInvisible

/-!
# The order of the output

Whatever the CLI writes, the other stream's buffer is empty, so the terminal shows everything
in the order in which it was written. While a program executes this is an invariant of the
loops (`Executing`): with the trace, stderr can be written to at every turn. What is written in
all is described by `Output`: a message, the listings of the program, or the sections of the
report with what the program and its trace wrote in between.
-/

set_option autoImplicit false

namespace Determinant

open Foundations Hostcall

variable {n : MemSize} {o : Options}

namespace Cli

open Session

/-! ## Executing -/

/-- The session has been executing since another one: everything is in order, and what was
written is still there. -/
structure Continues (s t : Session o n) : Prop where
  ordered : t.terminal.InOrder
  log : s.terminal.log <+: t.terminal.log
  started : t.started = s.started

/-- And it can go on: with the trace, stderr can be written to. -/
structure Executing (trace : Bool) (s t : Session o n) : Prop extends Continues s t where
  alone : trace = true → t.terminal.Alone .stderr

namespace Continues

variable {s t : Session o n}

theorem print (continues : Continues s t) {fd : Fd} (alone : t.terminal.Alone fd)
    (text : List Byte) : Continues s (t.print fd text) :=
  ⟨(ReadyFor.print ⟨continues.ordered, alone⟩ text).ordered,
    continues.log.trans (List.prefix_append ..), continues.started⟩

theorem flush (continues : Continues s t) (fd : Fd) : Continues s (t.flush fd) :=
  ⟨continues.ordered.flush fd, continues.log, continues.started⟩

theorem deliver (continues : Continues s t) {fd : Fd} (alone : t.terminal.Alone fd)
    (bytes : List Byte) : Continues s (t.deliver fd { written := bytes }) := by
  unfold Session.deliver
  split
  · exact continues
  · exact continues.print alone bytes

/-- What the program does in the VM does not matter. -/
theorem withVm (continues : Continues s t) (vm : Vm o n) : Continues s { t with vm := vm } :=
  ⟨continues.ordered, continues.log, continues.started⟩

theorem withMachine (continues : Continues s t) (m : Machine n) :
    Continues s (Cli.withMachine t m) := continues.withVm _

end Continues

namespace Executing

variable {s t : Session o n} {trace : Bool}

theorem withVm (executing : Executing trace s t) (vm : Vm o n) :
    Executing trace s { t with vm := vm } :=
  ⟨executing.toContinues.withVm vm, executing.alone⟩

/-- The lines of the trace find the buffer of stdout empty. -/
theorem printLines (executing : Executing true s t) (lines : List (List Byte)) :
    Executing true s (t.printLines lines) := by
  induction lines generalizing t with
  | nil => exact executing
  | cons line rest ih =>
      have alone := executing.alone rfl
      exact ih ⟨executing.toContinues.print alone line, fun _ => alone.append line⟩

end Executing

section Loops

variable (s : Session o n) (trace : Bool) (maxCycles : Option Count)

/-- The trace writes to stderr only. -/
theorem traceTurn_executing :
    Behaviour.Meets (Executing true s) (.lift (traceTurn maxCycles))
      (Behaviour.Turned (Executing true s) fun _ => Executing true s)
        fun _ => Executing true s := by
  refine .lift fun t executing => ?_
  rw [traceTurn_apply]
  cases Vm.limitReached maxCycles t.vm with
  | true =>
      simp only [if_true]
      exact executing
  | false =>
      simp only [Bool.false_eq_true, if_false]
      cases Vm.step t.vm with
      | error e vm => exact executing.withVm vm
      | ok result vm =>
          exact .const _ ((executing.withVm vm).printLines [traceLine t.vm vm])

theorem traceRun_executing :
    Behaviour.Meets (Executing true s) (traceRun maxCycles) (fun _ => Executing true s)
      fun _ => Executing true s := .loop (traceTurn_executing s maxCycles)

/-- To the next ECALL. -/
theorem run_executing :
    Behaviour.Meets (Executing trace s)
      (if trace then traceRun maxCycles else plainRun maxCycles)
      (fun _ => Executing trace s) fun _ => Executing trace s := by
  cases trace with
  | true => exact traceRun_executing s maxCycles
  | false =>
      rintro t r executing ⟨outcome, _, rfl⟩
      cases outcome <;> exact executing.withVm _

/-- The stream that the program asks to write to can be written to. -/
def CanWrite (t : Session o n) : Prop :=
  ∀ fd bytes, request t.vm.toMachine = .write fd bytes → t.terminal.Alone fd

/-- **The flush before a host call anticipates what the call writes.** -/
theorem flushBeforeCall_canWrite (t : Session o n) : CanWrite t.flushBeforeCall := by
  intro fd bytes asked
  have same : t.flushBeforeCall.vm = t.vm := (flushBeforeCall_same t).vm
  rw [same] at asked
  obtain ⟨call, known, _⟩ := request_eq_write.1 asked
  have number : t.vm.readReg 17#5 = 64#32 := Call.ofNumber_eq_write.1 call
  have descriptor : t.vm.readReg 10#5 = fd.toWord := Fd.ofWord_eq_some.1 known
  unfold flushBeforeCall
  rw [if_pos number, descriptor]
  cases fd with
  | stdout => exact Streams.alone_flush fun fd other => by cases fd <;> trivial
  | stderr => exact Streams.alone_flush fun fd other => by cases fd <;> trivial

/-- How executing fails: everything is in order, and no write failed. -/
def Stopped (f : Failure RunError) (t : Session o n) : Prop :=
  f ≠ .returned .writeFailed ∧ Continues s t

/-- A host call writes to the stream that the program asks for. -/
theorem handle_continues :
    Behaviour.Meets (fun t => Continues s t ∧ CanWrite t) (.lift handle) (fun _ => Continues s)
      (Stopped s) := by
  refine .lift fun t start => ?_
  obtain ⟨continues, canWrite⟩ := start
  simp only [handle_eq]
  cases asked : request t.vm.toMachine with
  | exit | unknown => exact continues
  | badFd | badBuffer => exact continues.withMachine _
  | write fd bytes =>
      refine (continues.withMachine _).deliver ?_ bytes
      exact canWrite fd bytes asked
  | read addr len =>
      by_cases before : t.inputPos ≤ t.input.length
      · simp only [if_pos before]
        exact ⟨continues.ordered, continues.log, continues.started⟩
      · simp only [if_neg before]
        exact ⟨nofun, continues⟩

/-- And before the next line of the trace stdout is flushed. -/
theorem performCall_executing :
    Behaviour.Meets (Executing trace s) (.lift (performCall trace))
      (Behaviour.Turned (Executing trace s) fun _ => Continues s) (Stopped s) := by
  have flushed : ∀ t, Executing trace s t →
      Continues s t.flushBeforeCall ∧ CanWrite t.flushBeforeCall := by
    refine fun t executing => ⟨?_, flushBeforeCall_canWrite t⟩
    unfold flushBeforeCall
    split
    · split
      · exact executing.toContinues.flush .stderr
      · exact executing.toContinues.flush .stdout
      · exact executing.toContinues
    · exact executing.toContinues
  refine .lift_bind (.modify flushed) fun _ => .lift_bind (handle_continues s) fun outcome => ?_
  cases outcome with
  | exit | unknown => exact .lift fun t continues => continues
  | resumed =>
      refine .lift fun t continues => ?_
      cases trace with
      | false => exact ⟨continues, nofun⟩
      | true =>
          exact ⟨continues.flush .stdout,
            fun _ => (readyFor_flush_stdout continues.ordered).alone⟩

/-- **What every turn of the loop keeps.** -/
theorem executeTurn_executing :
    Behaviour.Meets (Executing trace s) (executeTurn trace maxCycles)
      (Behaviour.Turned (Executing trace s) fun _ => Continues s) (Stopped s) := by
  have ran : Behaviour.Meets (Executing trace s)
      (Behaviour.mapError (fun e => .returned (.fault e))
        (if trace then traceRun maxCycles else plainRun maxCycles))
      (fun _ => Executing trace s) (Stopped s) :=
    .mapError ((run_executing s trace maxCycles).weaken (fun _ start => start)
      (fun _ _ ended => ended) fun _ _ ended => ⟨nofun, ended.toContinues⟩)
  refine .andThen ran fun result => ?_
  cases result with
  | ecall => exact performCall_executing s trace
  | «continue» | ebreak => exact .lift fun t executing => executing.toContinues

theorem execute_continues :
    Behaviour.Meets (Executing trace s) (execute trace maxCycles) (fun _ => Continues s)
      (Stopped s) := .loop (executeTurn_executing s trace maxCycles)

end Loops

/-! ## The report -/

/-- Sections of the report, with a blank line before each unless it is the first ever. -/
def sectionsText : Bool → List (List Byte) → List Byte
  | _, [] => []
  | started, text :: rest => ((if started then [newline] else []) ++ text) ++ sectionsText true rest

theorem sectionsText_append (started : Bool) (texts texts' : List (List Byte)) :
    sectionsText started (texts ++ texts') =
      sectionsText started texts ++ sectionsText (started || !texts.isEmpty) texts' := by
  induction texts generalizing started with
  | nil => simp [sectionsText]
  | cons text rest ih => simp [sectionsText, ih]

/-- From one session to another these sections were written, and nothing else was done. -/
structure Reported (s : Session o n) (texts : List (List Byte)) (t : Session o n) : Prop where
  nothing : texts = [] → t = s
  ready : texts ≠ [] → s.terminal.InOrder → ReadyFor .stderr t
  output : t.output = s.output ++ sectionsText s.started texts
  started : t.started = (s.started || !texts.isEmpty)
  vm : t.vm = s.vm

namespace Reported

variable {s t u : Session o n} {text : List Byte} {texts texts' : List (List Byte)}

theorem refl (s : Session o n) : Reported s [] s :=
  ⟨fun _ => rfl, fun some => absurd rfl some, by simp [sectionsText], by simp, rfl⟩

theorem ofSection (s : Session o n) (text : List Byte) : Reported s [text] (s.section text) :=
  ⟨nofun, fun _ ordered => readyFor_section ordered text, by simp [sectionsText], by simp, by simp⟩

/-- More of the same section. -/
theorem print (reported : Reported s [text] t) (more : List Byte) :
    Reported s [text ++ more] (t.print .stderr more) where
  nothing := nofun
  ready some ordered := (reported.ready (by simp) ordered).print more
  output := by simp [reported.output, sectionsText]
  started := by simp [reported.started]
  vm := reported.vm

theorem ordered (reported : Reported s texts t) (start : s.terminal.InOrder) :
    t.terminal.InOrder := by
  by_cases some : texts = []
  · rw [reported.nothing some]
    exact start
  · exact (reported.ready some start).ordered

theorem append (reported : Reported s texts t) (reported' : Reported t texts' u) :
    Reported s (texts ++ texts') u where
  nothing empty := by
    obtain ⟨first, second⟩ := List.append_eq_nil_iff.1 empty
    rw [reported'.nothing second, reported.nothing first]
  ready some start := by
    by_cases last : texts' = []
    · subst last
      rw [reported'.nothing rfl]
      exact reported.ready (by simpa using some) start
    · exact reported'.ready last (reported.ordered start)
  output := by
    rw [reported'.output, reported.output, reported.started, sectionsText_append,
      List.append_assoc]
  started := by
    rw [reported'.started, reported.started]
    cases texts <;> simp
  vm := reported'.vm.trans reported.vm

end Reported

/-- How the program ended. -/
def endSections (config : Args.Config) (vm : Vm o n) :
    Except (Failure RunError) Report.Stop → List (List Byte)
  | .ok stop =>
      if config.quiet then []
      else
        (Report.printStop vm.toMachine stop ++ Report.printRegisters vm.toMachine) ::
          if config.program = .demo then
            match vm.readWord Load.demoStoreAddr with
            | .ok word => [Report.storedText word]
            | .error _ => []
          else []
  | .error (.returned (.fault e)) => [Report.printFault vm e ++ Report.printRegisters vm.toMachine]
  | .error _ => []

def endStatus : Except (Failure RunError) Report.Stop → ExitStatus
  | .ok stop => statusOf stop
  | .error _ => .vmFault

/-- The memory dump. -/
def dumpSections (vm : Vm o n) : Option Args.Dump → List (List Byte)
  | none => []
  | some dump =>
      let range := dump.range.getD { start := 0#32, len := n.toWord }
      let memory := whole vm.memory
      [Dump.dumpMemory ((memory.drop range.start.toNat).take range.len.toNat) range.start
        dump.format]

def digestSections (outside : Outside) (digest : Bool) (vm : Vm o n) : List (List Byte) :=
  if digest then [Report.digestText (vm.stateDigest outside)] else []

/-- The report after the program. -/
def closingSections (outside : Outside) (config : Args.Config) (vm : Vm o n)
    (ended : Except (Failure RunError) Report.Stop) : List (List Byte) :=
  endSections config vm ended ++ dumpSections vm config.dump ++
    digestSections outside config.digest vm

theorem reportStop_reported (config : Args.Config) (stop : Report.Stop) (s : Session o n)
    (loud : config.quiet = false) :
    Reported s (endSections config s.vm (.ok stop)) (s.reportStop config stop) := by
  have report := ((Reported.ofSection s []).print (Report.printStop s.vm.toMachine stop)).print
    (Report.printRegisters s.vm.toMachine)
  unfold Session.reportStop endSections
  simp only [vm_section, vm_print, loud, Bool.false_eq_true, if_false]
  by_cases demo : config.program = .demo
  · simp only [if_pos demo]
    cases s.vm.readWord Load.demoStoreAddr with
    | ok word => exact report.append (.ofSection _ _)
    | error e => exact report
  · simp only [if_neg demo]
    exact report

theorem reportFault_reported (config : Args.Config) (e : StepError) (s : Session o n) :
    Reported s (endSections config s.vm (.error (.returned (.fault e)))) (s.reportFault e) := by
  have report := ((Reported.ofSection s []).print (Report.printFault s.vm e)).print
    (Report.printRegisters s.vm.toMachine)
  unfold Session.reportFault
  simp only [vm_section, vm_print]
  exact report

section Closing

variable (outside : Outside) (config : Args.Config) {s : Session o n}

theorem reportEnd_reported (ordered : s.terminal.InOrder)
    {ended : Except (Failure RunError) Report.Stop}
    (written : ended ≠ .error (.returned .writeFailed)) :
    Behaviour.Meets (· = s) (.lift (reportEnd config ended))
      (fun status t => status = endStatus ended ∧ Reported s (endSections config s.vm ended) t)
      fun f t => Failed t f := by
  refine .lift ?_
  rintro s rfl
  cases ended with
  | ok stop =>
      refine ⟨rfl, ?_⟩
      cases loud : config.quiet with
      | false => simpa [loud] using reportStop_reported config stop s loud
      | true => simpa [loud, endSections] using Reported.refl s
  | error f =>
      cases f with
      | trapped t => exact ordered
      | returned e =>
          cases e with
          | fault e => exact ⟨rfl, reportFault_reported config e s⟩
          | writeFailed => exact absurd rfl written

theorem printDump_reported (ordered : s.terminal.InOrder) (dump : Option Args.Dump) :
    Behaviour.Meets (· = s) (.lift (printDump dump))
      (fun _ t => Reported s (dumpSections s.vm dump) t) fun f t => Failed t f := by
  refine .lift ?_
  rintro s rfl
  cases dump with
  | none => exact .refl s
  | some dump =>
      have begun := Reported.ofSection s []
      simp only [printDump, bind_apply, modify_apply, reads, vm_section, dumpSections,
        Disasm.wholeMemory, checkedRange]
      generalize dump.range.getD { start := 0#32, len := n.toWord } = range
      by_cases inside : range.start.toNat + range.len.toNat ≤
          (whole s.vm.memory).length
      · simp only [if_pos inside]
        exact begun.print _
      · simp only [if_neg inside]
        exact begun.ordered ordered

theorem printDigest_reported (digest : Bool) :
    Behaviour.Meets (· = s) (.lift (printDigest outside digest))
      (fun _ t => Reported s (digestSections outside digest s.vm) t) fun f t => Failed t f := by
  refine .lift ?_
  rintro s rfl
  cases digest with
  | false => exact .refl s
  | true => exact .ofSection s _

end Closing

/-! ## Listings -/

/-- The text of the listing of a part of memory. -/
def Lists (m : Machine n) (range : Args.Range) (text : List Byte) : Prop :=
  Disasm.PrintsListing (Disasm.wholeMemory m : Disasm.Reading Empty) range.start
    (BitVec.ofNat 32 (range.start.toNat + range.len.toNat)) text

theorem printListing_prints (fd : Fd) (start stop : Word) {s : Session o n}
    (ordered : s.terminal.InOrder) :
    Behaviour.Meets (· = s) (printListing fd start stop)
      (fun _ t => ∃ text, t = s.print fd text ∧
        Disasm.PrintsListing (Disasm.wholeMemory s.vm.toMachine : Disasm.Reading Empty) start stop
          text)
      fun f t => Failed t f := by
  rintro s r rfl ⟨outcome, ends, rfl⟩
  cases outcome with
  | ok text => exact ⟨text, rfl, ends⟩
  | error f =>
      cases f with
      | returned e => exact nomatch e
      | trapped t => exact ordered

theorem listRange_lists (range : Args.Range) (i : Nat) {s : Session o n}
    (ready : ReadyFor .stdout s) :
    Behaviour.Meets (· = s) (listRange range i)
      (fun _ t => ReadyFor .stdout t ∧ t.vm = s.vm ∧ ∃ text, Lists s.vm.toMachine range text ∧
        t.output = s.output ++ ((if decide (i > 0) then [newline] else []) ++ text))
      fun f t => Failed t f := by
  have separated : Behaviour.Meets (· = s) (.lift (separate i))
      (fun _ t => ReadyFor .stdout t ∧ t.vm = s.vm ∧
        t.output = s.output ++ if decide (i > 0) then [newline] else [])
      fun f t => Failed t f := by
    refine .lift ?_
    rintro s rfl
    unfold separate
    by_cases later : i > 0
    · simpa [later] using ready.print [newline]
    · simpa [later] using ready
  refine .andThen separated fun _ => .each ?_
  rintro t ⟨ready', sameVm, output⟩
  have summed : Behaviour.Meets (· = t)
      (.lift (reads fun _ => checkedAdd 32 range.start.toNat range.len.toNat))
      (fun stop u => stop = range.start.toNat + range.len.toNat ∧ u = t) fun f t => Failed t f := by
    refine .lift ?_
    rintro t rfl
    by_cases fits : range.start.toNat + range.len.toNat < 2 ^ 32
    · simp only [reads, checkedAdd, if_pos fits, and_self]
    · simp only [reads, checkedAdd, if_neg fits]
      exact ready'.ordered
  refine .andThen summed fun stop => .each ?_
  rintro _ ⟨rfl, rfl⟩
  refine (printListing_prints .stdout range.start _ ready'.ordered).weaken (fun _ same => same) ?_
    fun _ _ failed => failed
  rintro _ _ ⟨text, rfl, lists⟩
  rw [sameVm] at lists
  exact ⟨ready'.print text, sameVm, text, lists, by rw [output_print, output, List.append_assoc]⟩

/-- The listings are separated as sections are. -/
theorem listRanges_list (code : List Args.Range) (i : Nat) {s : Session o n}
    (ready : ReadyFor .stdout s) :
    Behaviour.Meets (· = s) (forM (code.zipIdx i) fun (range, i) => listRange range i)
      (fun _ t => ReadyFor .stdout t ∧ ∃ texts, List.Forall₂ (Lists s.vm.toMachine) code texts ∧
        t.output = s.output ++ sectionsText (decide (i > 0)) texts)
      fun f t => Failed t f := by
  induction code generalizing i s with
  | nil =>
      refine .lift ?_
      rintro s rfl
      exact ⟨ready, [], .nil, by simp [sectionsText]⟩
  | cons range rest ih =>
      rw [List.zipIdx_cons, List.forM_cons]
      refine .andThen (listRange_lists range i ready) fun _ => .each ?_
      rintro t ⟨ready', sameVm, text, lists, output⟩
      refine (ih (i + 1) ready').weaken (fun _ same => same) ?_ fun _ _ failed => failed
      rintro _ u ⟨ready'', texts, others, output'⟩
      rw [sameVm] at others
      refine ⟨ready'', text :: texts, .cons lists others, ?_⟩
      rw [output', output]
      simp [sectionsText]

/-! ## Before the program -/

/-- The program of the demo. -/
def demoSections (program : Args.Program) (listing : List Byte) : List (List Byte) :=
  if program = .demo then [ascii "Demo program:" ++ [newline] ++ listing] else []

/-- The report before the program. -/
def openingSections (config : Args.Config) (loaded : Load.Loaded) (n : MemSize)
    (listing : List Byte) : List (List Byte) :=
  if config.quiet then []
  else demoSections config.program listing ++ [Report.runningText loaded n config.maxCycles]

/-- The text is the listing of the demo, if that is listed. -/
def ListsDemo (config : Args.Config) (m : Machine n) (text : List Byte) : Prop :=
  config.quiet = false → config.program = .demo →
    Lists m { start := 0#32, len := BitVec.ofNat 32 Load.demoProgram.length } text

theorem listDemo_reported (program : Args.Program) {s : Session o n}
    (ordered : s.terminal.InOrder) :
    Behaviour.Meets (· = s) (listDemo program)
      (fun _ t => ∃ listing, Reported s (demoSections program listing) t ∧ (program = .demo →
        Lists s.vm.toMachine { start := 0#32, len := BitVec.ofNat 32 Load.demoProgram.length }
          listing))
      fun f t => Failed t f := by
  unfold listDemo demoSections
  by_cases demo : program = .demo
  · simp only [if_pos demo]
    have begun := Reported.ofSection s (ascii "Demo program:" ++ [newline])
    refine .andThen (.modifies _ s) fun _ => ?_
    refine (printListing_prints .stderr _ _ (begun.ordered ordered)).weaken (fun _ same => same) ?_
      fun _ _ failed => failed
    rintro _ _ ⟨text, rfl, lists⟩
    rw [vm_section] at lists
    exact ⟨text, begun.print text, fun _ => lists⟩
  · simp only [if_neg demo]
    refine .lift ?_
    rintro s rfl
    exact ⟨[], .refl s, fun is => absurd is demo⟩

theorem Reported.flush {s t : Session o n} {texts : List (List Byte)}
    (reported : Reported s texts t) (some : texts ≠ []) (fd : Fd) :
    Reported s texts (t.flush fd) where
  nothing empty := absurd empty some
  ready _ ordered := (reported.ready some ordered).flush fd
  output := reported.output
  started := reported.started
  vm := reported.vm

theorem preamble_reported (config : Args.Config) (loaded : Load.Loaded) {s : Session o n}
    (ordered : s.terminal.InOrder) :
    Behaviour.Meets (· = s) (preamble config loaded)
      (fun _ t => ∃ listing, Reported s (openingSections config loaded n listing) t ∧
        ListsDemo config s.vm.toMachine listing)
      fun f t => Failed t f := by
  unfold preamble openingSections
  cases loud : config.quiet with
  | true =>
      refine .lift ?_
      rintro s rfl
      exact ⟨[], .refl s, fun quiet => absurd quiet (by simp [loud])⟩
  | false =>
      refine .andThen (listDemo_reported config.program ordered) fun _ => .each ?_
      rintro t ⟨listing, demo, lists⟩
      refine .andThen (.modifies _ t) fun _ => (Behaviour.Meets.modifies _ _).weaken
        (fun _ same => same) ?_ fun _ _ failed => failed
      rintro _ _ rfl
      have running := demo.append
        (.ofSection t (Report.runningText loaded n config.maxCycles))
      exact ⟨listing, running.flush (by simp) .stderr, fun _ => lists⟩

/-- Reading the input changes nothing. -/
theorem readInput_same (outside : Outside) (input : Option Args.Input) {s t : Session o n}
    {bytes : List Byte} (read : readInput outside input s = .ok bytes t) : t = s := by
  have reported : ∀ {ε : Type} {text : ε → List Byte} {x : Except ε (List Byte)},
      orReport text x s = .ok bytes t → t = s := by
    intro ε text x succeeded
    cases x <;> cases succeeded
    rfl
  unfold readInput at read
  split at read
  · cases read
    rfl
  · exact reported read
  · exact reported read

/-- **When the program starts the preamble is written**, and nothing is in the way. -/
theorem setUp_executing (outside : Outside) (config : Args.Config) (loaded : Load.Loaded)
    {s : Session o n} (fresh : Fresh s) :
    Behaviour.Meets (· = s) (setUp outside config loaded)
      (fun _ t => Executing config.trace t t ∧ t.started = (!config.quiet || config.trace) ∧
        ∃ listing, t.output = sectionsText false (openingSections config loaded n listing) ∧
          ListsDemo config s.vm.toMachine listing)
      fun f t => Failed t f := by
  have read : Behaviour.Meets (· = s) (.lift (readInput outside config.input)) (fun _ t => t = s)
      fun f t => Failed t f := by
    rintro s r rfl outcome
    have reports := readInput_reports outside config.input fresh outcome
    cases r with
    | ok bytes t => exact readInput_same outside config.input outcome
    | error f t => exact reports
  refine .andThen read fun input => .andThen (.modifies _ s) fun _ => .each ?_
  rintro t same
  have fresh' : Fresh t := by
    rw [same]
    exact ⟨fresh.terminal, fresh.started⟩
  have sameVm : t.vm = s.vm := by rw [same]
  have ready := fresh'.readyFor .stderr
  refine .andThen (preamble_reported config loaded ready.ordered) fun _ => .each ?_
  rintro u ⟨listing, reported, lists⟩
  refine (Behaviour.Meets.modifies _ _).weaken (fun _ same => same) ?_ fun _ _ failed => failed
  rintro _ _ rfl
  have ready' : ReadyFor .stderr u := by
    by_cases some : openingSections config loaded n listing = []
    · rw [reported.nothing some]
      exact ready
    · exact reported.ready some ready.ordered
  rw [sameVm] at lists
  refine ⟨⟨⟨ready'.ordered, List.prefix_rfl, rfl⟩, fun _ => ready'.alone⟩, ?_, listing, ?_, lists⟩
  · have started : u.started = !config.quiet := by
      rw [reported.started, fresh'.started]
      unfold openingSections
      cases config.quiet <;> simp
    exact congrArg (· || config.trace) started
  · have output := reported.output
    rw [fresh'.started, fresh'.output, List.nil_append] at output
    exact output

/-! ## The whole output -/

/-- What the CLI writes in all, from a session in which nothing is written, and its exit
status. -/
inductive Output (outside : Outside) (config : Args.Config) (s : Session o config.memory) :
    ExitStatus → List Byte → Prop where
  /-- A message, when the program or its input cannot be loaded. -/
  | failed (text : List Byte) : Output outside config s .usageOrIo (errorText text)
  /-- The listings of the program, with blank lines between them. -/
  | listed {loaded : Load.Loaded} {t : Session o config.memory} {texts : List (List Byte)}
      (prepared : prepare outside config s = .ok loaded t)
      (lists : List.Forall₂ (Lists t.vm.toMachine) loaded.code texts) :
      Output outside config s .ok (sectionsText false texts)
  /-- The preamble, what was written while the program executed, and then the report or the
  fault, the dump and the digest. -/
  | ran {loaded : Load.Loaded} {t u : Session o config.memory} {listing : List Byte}
      {r : EStateM.Result (Failure RunError) (Session o config.memory) Report.Stop}
      {during : List (StreamWrite Fd Byte)}
      (prepared : prepare outside config s = .ok loaded t)
      (lists : ListsDemo config t.vm.toMachine listing)
      (started : setUp outside config loaded t (.ok () u))
      (before : u.output = sectionsText false (openingSections config loaded config.memory listing))
      (executed : execute config.trace config.maxCycles u r)
      (log : (stateAfter r).terminal.log = u.terminal.log ++ during) :
      Output outside config s (endStatus (answer r))
        (sectionsText false (openingSections config loaded config.memory listing) ++
          during.flatMap StreamWrite.items ++
          sectionsText (!config.quiet || config.trace)
            (closingSections outside config (stateAfter r).vm (answer r)))

section Whole

variable (outside : Outside) (config : Args.Config)

/-- The end of a run. -/
theorem closing_reported {s : Session o n} (ordered : s.terminal.InOrder)
    {ended : Except (Failure RunError) Report.Stop}
    (written : ended ≠ .error (.returned .writeFailed)) :
    Behaviour.Meets (· = s)
      (do
        let status ← .lift (reportEnd config ended)
        .lift (printDump config.dump)
        .lift (printDigest outside config.digest)
        return status)
      (fun status t => status = endStatus ended ∧
        Reported s (closingSections outside config s.vm ended) t)
      fun f t => Failed t f := by
  refine .andThen (reportEnd_reported config ordered written) fun status => .each ?_
  rintro t ⟨rfl, ended⟩
  have ordered' := ended.ordered ordered
  refine .andThen (printDump_reported ordered' config.dump) fun _ => .each ?_
  intro u dumped
  refine .andThen (printDigest_reported outside config.digest) fun _ =>
    .lift ?_
  intro v digested
  rw [dumped.vm, ended.vm] at digested
  rw [ended.vm] at dumped
  exact ⟨rfl, (ended.append dumped).append digested⟩

theorem runLoaded_output {s t : Session o config.memory} {loaded : Load.Loaded}
    (prepared : prepare outside config s = .ok loaded t) (fresh : Fresh t) :
    Behaviour.Meets (· = t) (runLoaded outside config loaded)
      (fun status u => u.terminal.InOrder ∧ Output outside config s status u.output)
      fun f u => Failed u f := by
  refine .andThen (setUp_executing outside config loaded fresh).remember fun _ => .each ?_
  rintro u ⟨setsUp, executing, started, listing, before, lists⟩
  have ran : Behaviour.Meets (· = u) (.attempt (execute config.trace config.maxCycles))
      (fun ended v => ∃ r, execute config.trace config.maxCycles u r ∧ ended = answer r ∧
        v = stateAfter r ∧ Continues u v ∧ ended ≠ .error (.returned .writeFailed))
      fun f v => Failed v f := by
    rintro u _ rfl ⟨r, executed, rfl⟩
    have kept := execute_continues u config.trace config.maxCycles executing executed
    cases r with
    | ok stop v => exact ⟨_, executed, rfl, rfl, kept, nofun⟩
    | error f v =>
        obtain ⟨written, continues⟩ := kept
        exact ⟨_, executed, rfl, rfl, continues, fun same => written (Except.error.inj same)⟩
  refine .andThen ran fun ended => .each ?_
  rintro _ ⟨r, executed, rfl, rfl, continues, written⟩
  refine (closing_reported outside config continues.ordered written).weaken (fun _ same => same) ?_
    fun _ _ failed => failed
  rintro _ v ⟨rfl, reported⟩
  refine ⟨reported.ordered continues.ordered, ?_⟩
  obtain ⟨during, log⟩ := continues.log
  have output : v.output =
      sectionsText false (openingSections config loaded config.memory listing) ++
      during.flatMap StreamWrite.items ++ sectionsText (!config.quiet || config.trace)
        (closingSections outside config (stateAfter r).vm (answer r)) := by
    rw [reported.output, continues.started, started, ← before]
    simp only [Session.output, Streams.output, ← log, List.flatMap_append]
  rw [output]
  exact .ran prepared lists setsUp before executed log.symm

theorem runProgram_output {s : Session o config.memory} (fresh : Fresh s) :
    Behaviour.Meets (· = s) (runProgram outside config)
      (fun status t => t.terminal.InOrder ∧ Output outside config s status t.output)
      fun f t => Failed t f := by
  have prepared : Behaviour.Meets (· = s) (.lift (prepare outside config)) (fun _ => Fresh)
      fun f t => Failed t f :=
    (prepare_reports outside config).weaken (fun t same => by rw [same]; exact fresh)
      (fun _ _ fresh => fresh) fun _ _ failed => failed
  refine .andThen prepared.remember fun loaded => .each ?_
  rintro t ⟨ended, fresh'⟩
  by_cases asked : config.disassemble
  · simp only [asked, if_true]
    refine .andThen (listRanges_list loaded.code 0 (fresh'.readyFor .stdout)) fun _ => .lift ?_
    rintro u ⟨ready, texts, lists, output⟩
    refine ⟨ready.ordered, ?_⟩
    rw [fresh'.output, List.nil_append] at output
    rw [output]
    exact .listed ended lists
  · simp only [asked, Bool.false_eq_true, if_false]
    exact runLoaded_output outside config ended fresh'

/-- Both buffers are empty. -/
structure Finished (s : Session o n) : Prop where
  ordered : s.terminal.InOrder
  empty : ∀ fd, s.terminal.buffer fd = []

theorem finish_finished (status : ExitStatus) {s : Session o n} (ordered : s.terminal.InOrder) :
    Behaviour.Meets (· = s) (.lift (finish status))
      (fun status' t => status' = status ∧ t.output = s.output ∧ Finished t)
      fun _ t => t.terminal.InOrder := by
  refine .lift ?_
  rintro s rfl
  refine ⟨rfl, rfl, (ordered.flush .stdout).flush .stderr, fun fd => ?_⟩
  cases fd with
  | stdout => exact Streams.flush_buffer_empty (Streams.flush_buffer_same _)
  | stderr => exact Streams.flush_buffer_same _

/-- What `run` makes of the end of `runProgram`. -/
theorem run_output {s : Session o config.memory} (fresh : Fresh s) :
    Behaviour.Meets (· = s) (run outside config)
      (fun status t => Finished t ∧ Output outside config s status t.output)
      fun _ t => t.terminal.InOrder := by
  have program : Behaviour.Meets (· = s) (.attempt (runProgram outside config))
      (fun outcome t => match outcome with
        | .ok status => t.terminal.InOrder ∧ Output outside config s status t.output
        | .error f => Failed t f)
      fun (_ : Trap) t => t.terminal.InOrder := .attempt (runProgram_output outside config fresh)
  refine .andThen program fun outcome => .each ?_
  intro t ended
  have finished : ∀ {status} {u : Session o config.memory}, u.terminal.InOrder →
      Output outside config s status u.output →
      Behaviour.Meets (· = u) (.lift (finish status))
        (fun status v => Finished v ∧ Output outside config s status v.output)
        fun _ v => v.terminal.InOrder := by
    intro status u ordered written
    refine (finish_finished status ordered).weaken (fun _ same => same) ?_ fun _ _ failed => failed
    rintro _ v ⟨rfl, same, finished⟩
    rw [same]
    exact ⟨finished, written⟩
  cases outcome with
  | ok status => exact finished ended.1 ended.2
  | error f =>
      cases f with
      | trapped trap =>
          refine .lift ?_
          rintro t rfl
          exact ended
      | returned e =>
          cases e with
          | userError =>
              obtain ⟨text, said⟩ := ended
              exact finished said.ready.ordered (said.output ▸ .failed text)
          | writeFailed => exact ended.elim
          | io e =>
              refine .lift_bind (.modifies _ t) fun _ => .each ?_
              rintro _ rfl
              have text := output_print (s := t) .stderr (errorText (ascii (Report.ioText e)))
              rw [ended.output, List.nil_append] at text
              exact finished ((ended.readyFor .stderr).print _).ordered (text ▸ .failed _)

/-- The sessions that a run passes while the program executes: at every turn of the loop of
`execute`, and of the loop of the trace inside it. Such a run need not end. -/
inductive Passed (s : Session o config.memory) : Session o config.memory → Prop where
  | started {loaded : Load.Loaded} {t u : Session o config.memory}
      (asked : config.disassemble = false) (prepared : prepare outside config s = .ok loaded t)
      (started : setUp outside config loaded t (.ok () u)) : Passed s u
  | traced {t u : Session o config.memory} (passed : Passed s t) (asked : config.trace = true)
      (turn : traceTurn config.maxCycles t = .ok none u) : Passed s u
  | turned {t u : Session o config.memory} (passed : Passed s t)
      (turn : executeTurn config.trace config.maxCycles t (.ok none u)) : Passed s u

variable {outside config} in
theorem Passed.executing {s t : Session o config.memory} (passed : Passed outside config s t)
    (fresh : Fresh s) : ∃ u, Executing config.trace u t := by
  induction passed with
  | started _ prepared started =>
      have fresh' := prepare_reports outside config fresh prepared
      exact ⟨_, (setUp_executing outside config _ fresh' rfl started).1⟩
  | traced _ asked turn ih =>
      obtain ⟨u, executing⟩ := ih
      rw [asked] at executing ⊢
      exact ⟨u, traceTurn_executing u config.maxCycles executing turn⟩
  | turned _ turn ih =>
      obtain ⟨u, executing⟩ := ih
      exact ⟨u, executeTurn_executing u config.trace config.maxCycles executing turn⟩

theorem fresh_start (draining : Draining Fd Byte) : Fresh (start draining : Session o n) :=
  ⟨rfl, rfl⟩

/-- **The order of the output is kept.** Whatever the program, its input and the options are, and
however the buffers drain: at the end of a run, and at every turn of its loops while the program
executes, no write has found anything in the buffer of the other stream, and but for the buffer
of one stream the terminal has received everything in order. At the end it has received
everything in order, which is what `Output` says. -/
theorem output_in_order (draining : Draining Fd Byte) :
    (∀ r : EStateM.Result Trap (Session o config.memory) ExitStatus,
      run outside config (start draining) r → (stateAfter r).terminal.InOrder ∧
        ∀ status t, r = .ok status t → t.terminal.sink = t.output ∧
          Output (o := o) outside config (start draining) status t.output) ∧
    ∀ t : Session o config.memory, Passed outside config (start draining) t →
      t.terminal.InOrder := by
  refine ⟨fun r ended => ?_, fun t passed => ?_⟩
  · have output := run_output outside config (fresh_start draining) rfl ended
    cases r with
    | ok status t =>
        obtain ⟨finished, written⟩ := output
        refine ⟨finished.ordered, ?_⟩
        rintro _ _ ⟨⟩
        exact ⟨finished.ordered.sink_eq finished.empty, written⟩
    | error trap t => exact ⟨output, nofun⟩
  · obtain ⟨u, executing⟩ := passed.executing (fresh_start draining)
    exact executing.ordered

end Whole

/-- A file of eight bytes. -/
def countingFile : Outside where
  allocates _ := true
  openFile _ := .ok
    { stat := .ok 8
      magic := .ok [0x93#8, 0x00#8, 0x10#8, 0x00#8]
      contents := fun _ => .ok [0x93#8, 0x00#8, 0x10#8, 0x00#8, 0x73#8, 0x00#8, 0x00#8, 0x00#8] }
  readFile _ := .error .fileNotFound
  stdin := .ok []
  header _ := 0#8
  sha256 _ := []

def countingConfig : Args.Config := { program := .file (ascii "count"), memory := .eight }

/-- A run that takes a known number of turns. -/
theorem plainRun_of_runFuel {maxCycles : Option Count} {s : Session o n} (fuel : Nat)
    {result : StepResult} {vm : Vm o n}
    (runs : runFuel (Vm.runBody maxCycles) fuel (s.vm, .continue) = some (.ok result vm)) :
    plainRun maxCycles s (.ok result { s with vm := vm }) := ⟨_, ⟨fuel, runs⟩, rfl⟩

theorem output_in_order_counting :
    ∃ t : Session Options.uncached .eight,
      run countingFile countingConfig (start fun _ => 0) (.ok .ok t) ∧
        t.terminal.sink = t.output := by
  have program : runProgram countingFile countingConfig (start (o := Options.uncached) fun _ => 0)
      (.ok .ok _) :=
    ⟨_, rfl,
      -- The input and the preamble, and the registers.
      ⟨_, ⟨_, rfl, _, rfl, _, ⟨_, rfl, _, rfl, rfl⟩, rfl⟩,
        -- Two instructions, and then the check that finds the call.
        ⟨_, ⟨_, .leave ⟨_, ⟨_, plainRun_of_runFuel 3 rfl, rfl⟩, rfl⟩, rfl⟩,
          -- The report.
          ⟨_, rfl, _, rfl, _, rfl, rfl⟩⟩⟩⟩
  have ends : run countingFile countingConfig (start (o := Options.uncached) fun _ => 0)
      (.ok .ok _) := ⟨_, ⟨_, program, rfl⟩, rfl⟩
  obtain ⟨same, _⟩ :=
    ((output_in_order countingFile countingConfig fun _ => 0).1 _ ends).2 _ _ rfl
  exact ⟨_, ends, same⟩

end Cli

end Determinant
