import Determinant.Cli.AcceptedConfig
import Determinant.Cli.Reporting
import Determinant.Cli.TraceInvisible
import Determinant.Host.LoaderSafety

/-!
# A configuration that was accepted runs safely

With a load address inside memory and a dump inside memory, nothing that `runProgram` does traps,
whatever file is loaded. Every part of it is safe (`Safe`): loading, which leaves code inside
memory (`load_safe`), and so the listings (`listRange_safe`); what comes before and after the
program (`setUp_safe`, `printDump_safe`); and the program itself fails with a fault only.
-/

set_option autoImplicit false

namespace Determinant

open Foundations Hostcall

variable {n : MemSize} {o : Options} {α β ε : Type}

namespace Cli

/-! ## Parts that do not trap -/

/-- The host has read nothing of the input. -/
def Unread (s : Session o n) : Prop := s.inputPos = 0

/-- A failure that is an error, and not a trap. -/
def IsError (f : Failure ε) : Prop := ∃ e, f = .returned e

/-- A part of `runProgram` that does not trap. What it returns has a property. -/
def Safe (x : Running o n α) (post : α → Prop) : Prop :=
  Behaviour.Meets Unread x (fun a s => post a ∧ Unread s) fun f _ => IsError f

namespace Safe

variable {p : α → Prop} {p' : β → Prop}

theorem andThen {x : Running o n α} {f : α → Running o n β} (first : Safe x p)
    (rest : ∀ a, p a → Safe (f a) p') : Safe (x >>= f) p' :=
  Behaviour.Meets.andThen first fun a _ _ start outcome => rest a start.1 start.2 outcome

theorem bind {x : Command o n α} {f : α → Command o n β} (first : Safe (.lift x) p)
    (rest : ∀ a, p a → Safe (.lift (f a)) p') : Safe (.lift (x >>= f)) p' :=
  Behaviour.Meets.lift_bind first fun a _ _ start outcome => rest a start.1 start.2 outcome

theorem pure {a : α} (holds : p a) : Safe (.lift (Pure.pure a : Command o n α)) p :=
  .lift fun _ unread => ⟨holds, unread⟩

theorem modify {f : Session o n → Session o n} (keeps : ∀ s, (f s).inputPos = s.inputPos) :
    Safe (.lift (modify f : Command o n PUnit)) fun _ => True :=
  Behaviour.Meets.modify fun s unread => ⟨trivial, (keeps s).trans unread⟩

theorem ite {c : Prop} [Decidable c] {x y : Running o n α} (first : c → Safe x p)
    (second : ¬c → Safe y p) : Safe (if c then x else y) p := by
  split
  · rename_i holds
    exact first holds
  · rename_i fails
    exact second fails

theorem reads {f : Session o n → Except (Failure CommandError) α}
    (passes : ∀ s, ∃ a, f s = .ok a ∧ p a) : Safe (.lift (reads f)) p := by
  refine .lift fun s unread => ?_
  obtain ⟨a, passed, holds⟩ := passes s
  rw [reads_ok passed]
  exact ⟨holds, unread⟩

theorem userError (text : List Byte) : Safe (.lift (userError text : Command o n α)) p :=
  .lift fun _ _ => ⟨_, rfl⟩

theorem rejectIf (c : Prop) [Decidable c] (text : List Byte) :
    Safe (.lift (rejectIf c text : Command o n Unit)) fun _ => ¬c := by
  unfold Cli.rejectIf
  split
  · exact userError text
  · rename_i passed
    exact pure passed

theorem orReport (text : ε → List Byte) (x : Except ε α) :
    Safe (.lift (orReport text x : Command o n α)) fun _ => True := by
  cases x with
  | ok a => exact pure trivial
  | error e => exact userError (text e)

theorem allocate (outside : Outside) (what : Allocation) (empty : Bool) :
    Safe (.lift (allocate outside what empty : Command o n Unit)) fun _ => True := by
  unfold Cli.allocate
  split
  · exact pure trivial
  · exact .lift fun _ _ => ⟨_, rfl⟩

theorem onVm {report : ε → Command o n α} {x : EStateM ε (Vm o n) α}
    (ended : ∀ vm a vm', x vm = .ok a vm' → p a)
    (failed : ∀ vm e vm', x vm = .error e vm' → Safe (.lift (report e)) p) :
    Safe (.lift (Load.onVm report x)) p := by
  refine .lift fun s unread => ?_
  unfold Load.onVm
  cases outcome : x s.vm with
  | ok a vm => exact ⟨ended _ _ _ outcome, unread⟩
  | error e vm => exact failed _ _ _ outcome (s := { s with vm }) unread rfl

end Safe

/-! ## Loading -/

/-- The code lies inside memory. -/
def Inside (n : MemSize) (range : Args.Range) : Prop :=
  range.start.toNat + range.len.toNat ≤ n.bytes

theorem readExactly_safe (file : File) (path : Path) (len : Nat) :
    Safe (.lift (Load.readExactly file path len : Command o n (List Byte))) fun _ => True :=
  .bind (.orReport _ _) fun _ _ => .bind (.rejectIf _ _) fun _ _ => .pure trivial

/-- The part of memory that holds the file bytes of an executable segment. -/
def codeRange (s : Loader.Segment) : Option Args.Range :=
  if s.flags &&& Load.pfX ≠ 0#32 then some { start := s.vaddr, len := s.filesz } else none

/-- The body of the loop of `appendCode`. -/
def appendSegment (s : Loader.Segment) :
    EStateM (Failure Loader.LoadError) (List Args.Range) Unit :=
  if s.flags &&& Load.pfX ≠ 0#32 then
    modify fun code => code ++ [{ start := s.vaddr, len := s.filesz }]
  else pure ()

theorem appendSegment_list (list : List Loader.Segment) (code : List Args.Range) :
    forM list appendSegment code = .ok () (code ++ list.filterMap codeRange) := by
  induction list generalizing code with
  | nil => simp
  | cons s rest ih =>
      rw [List.forM_cons, bind_apply, appendSegment]
      by_cases executable : s.flags &&& Load.pfX ≠ 0#32
      · have listed : codeRange s = some { start := s.vaddr, len := s.filesz } := if_pos executable
        simp only [if_pos executable, modify_apply, ih, List.filterMap_cons_some listed,
          List.append_assoc, List.singleton_append]
      · have skipped : codeRange s = none := if_neg executable
        simp only [if_neg executable, pure_apply, ih, List.filterMap_cons_none skipped]

/-- **The code of an image is its executable segments.** -/
theorem appendCode_eq {image : List Byte} {cursor : Loader.Segments}
    {list : List Loader.Segment} (found : Loader.segments image = .ok cursor)
    (yields : cursor.Yields list) (code : List Args.Range) :
    Load.appendCode image code = .ok () (code ++ list.filterMap codeRange) := by
  have loop : Load.appendCode image = reads (fun _ => Loader.segments image) >>= fun cursor =>
      cursor.forEach appendSegment := rfl
  rw [loop, bind_apply, reads_ok (f := fun _ => Loader.segments image) found,
    ← appendSegment_list]
  exact congrFun (yields.forEach_eq appendSegment) code

/-- The code of an image whose segments lie inside memory does too. -/
theorem codeOf_safe {image : List Byte} {cursor : Loader.Segments}
    {list : List Loader.Segment} (found : Loader.segments image = .ok cursor)
    (yields : cursor.Yields list)
    (inside : ∀ s ∈ list, s.filesz.toNat ≤ s.memsz.toNat ∧
      s.vaddr.toNat + s.memsz.toNat ≤ n.bytes) :
    Safe (.lift (Load.codeOf image : Command o n (List Args.Range)))
      fun code => ∀ range ∈ code, Inside n range := by
  refine .lift fun s unread => ?_
  unfold Load.codeOf
  rw [appendCode_eq found yields]
  refine ⟨fun range listed => ?_, unread⟩
  rw [List.nil_append] at listed
  obtain ⟨segment, member, ranged⟩ := List.mem_filterMap.1 listed
  obtain ⟨filesz, fits⟩ := inside segment member
  unfold codeRange at ranged
  split at ranged
  · cases ranged
    have bound : segment.vaddr.toNat + segment.filesz.toNat ≤ n.bytes := by omega
    exact bound
  · cases ranged

theorem loadElf_safe (outside : Outside) (file : File) (path : Path) (size : Nat)
    (loadAddr : Option Word) :
    Safe (.lift (Load.loadElf outside file path size loadAddr : Command o n Load.Loaded))
      fun loaded => ∀ range ∈ loaded.code, Inside n range := by
  refine .bind (.rejectIf _ _) fun _ _ => ?_
  refine .bind (.rejectIf _ _) fun _ _ => ?_
  refine .bind (.allocate _ _ _) fun _ _ => ?_
  refine .bind (readExactly_safe _ _ _) fun image _ => ?_
  have placed : Safe (.lift (Load.onVm (Load.reportElf path) (Vm.loadElf image) :
      Command o n Word)) fun _ => ∃ cursor list, Loader.segments image = .ok cursor ∧
        cursor.Yields list ∧ ∀ s ∈ list, s.filesz.toNat ≤ s.memsz.toNat ∧
          s.vaddr.toNat + s.memsz.toNat ≤ n.bytes := by
    refine .onVm (fun vm entry vm' loaded => ?_) fun vm f vm' failed => ?_
    · obtain ⟨_, cursor, list, found, _, yields, _, checked, _⟩ := Vm.loadElf_ok loaded
      exact ⟨cursor, list, found, yields, fun s listed => (checked s listed).2⟩
    · rcases (Vm.loadElf_error failed).1 with rfl | rfl
      · exact .userError _
      · exact .userError _
  refine .bind placed fun entry ⟨cursor, list, found, yields, inside⟩ => ?_
  refine .bind (codeOf_safe found yields inside) fun code inside => ?_
  exact .bind (.allocate _ _ _) fun _ _ => .pure inside

/-- A flat binary fits behind its address, so it is read into memory. -/
theorem loadFlat_safe (outside : Outside) (file : File) (path : Path) (size : Nat)
    {loadAddr : Option Word} (inside : ∀ addr ∈ loadAddr, addr.toNat < n.bytes) :
    Safe (.lift (Load.loadFlat outside file path size loadAddr : Command o n Load.Loaded))
      fun loaded => ∀ range ∈ loaded.code, Inside n range := by
  have valid := n.valid
  have start : (loadAddr.getD 0#32).toNat ≤ n.bytes := by
    cases loadAddr with
    | none => exact Nat.zero_le _
    | some addr => exact Nat.le_of_lt (inside addr rfl)
  unfold validMemorySize at valid
  refine .bind (.reads (p := (· = n.bytes - (loadAddr.getD 0#32).toNat)) fun _ =>
    ⟨_, checkedSub_ok start, rfl⟩) ?_
  rintro _ rfl
  refine .bind (.rejectIf _ _) fun _ fits => ?_
  have small : size < 2 ^ 32 := by omega
  refine .bind (.reads (p := (·.toNat = size)) fun _ => ⟨_, checkedCast_ok small, ?_⟩) ?_
  · rw [BitVec.toNat_ofNat, Nat.mod_eq_of_lt small]
  intro length same
  have room : (loadAddr.getD 0#32).toNat + length.toNat ≤ n.bytes := by omega
  refine .bind (.reads (p := fun _ => True) fun s =>
    ⟨_, checkedRange_ok (by simpa using room), trivial⟩) fun _ _ => ?_
  refine .bind (readExactly_safe _ _ _) fun _ _ => ?_
  refine .bind (.modify fun _ => rfl) fun _ _ => ?_
  refine .bind (.modify fun _ => rfl) fun _ _ => ?_
  refine .bind (.allocate _ _ _) fun _ _ => .pure ?_
  simpa [Inside] using room

theorem loadFile_safe (outside : Outside) (path : Path) {loadAddr : Option Word}
    (inside : ∀ addr ∈ loadAddr, addr.toNat < n.bytes) :
    Safe (.lift (Load.loadFile outside path loadAddr : Command o n Load.Loaded))
      fun loaded => ∀ range ∈ loaded.code, Inside n range := by
  refine .bind (.orReport _ _) fun file _ => ?_
  refine .bind (.orReport _ _) fun size _ => ?_
  refine .bind (.orReport _ _) fun magic _ => ?_
  refine .bind (.rejectIf _ _) fun _ _ => ?_
  split
  · exact loadElf_safe _ _ _ _ _
  · exact loadFlat_safe _ _ _ _ inside

theorem toNat_demoLength :
    (BitVec.ofNat 32 Load.demoProgram.length).toNat = Load.demoProgram.length := by decide

/-- The demo is loaded at address 0. -/
theorem demo_fits {vm vm' : Vm o n}
    (loaded : Vm.onMachine (Machine.loadProgram Load.demoProgram 0#32) vm = .ok () vm') :
    Load.demoProgram.length ≤ n.bytes := by
  simp only [Vm.onMachine, onPart, Machine.loadProgram_apply] at loaded
  by_cases fits : (0#32).toNat + Load.demoProgram.length ≤ n.bytes
  · simpa using fits
  · simp only [if_neg fits, reduceCtorEq] at loaded

/-- **Loading does not trap, and leaves the code inside memory.** -/
theorem load_safe (outside : Outside) {config : Args.Config}
    (inside : ∀ addr ∈ config.loadAddr, addr.toNat < n.bytes) :
    Safe (.lift (Load.load outside config : Command o n Load.Loaded)) fun loaded =>
      (∀ range ∈ loaded.code, Inside n range) ∧
        (config.program = .demo → Load.demoProgram.length ≤ n.bytes) := by
  unfold Load.load
  cases config.program with
  | demo =>
      refine .bind (.onVm (fun _ _ _ loaded => demo_fits loaded) fun _ _ _ _ => .userError _)
        fun _ fits => ?_
      have inside : Inside n { start := 0#32, len := BitVec.ofNat 32 Load.demoProgram.length } := by
        rw [Inside, toNat_demoLength]
        simpa using fits
      exact .bind (.allocate _ _ _) fun _ _ => .pure ⟨by simpa using inside, fun _ => fits⟩
  | file path =>
      have loads := loadFile_safe (o := o) outside path inside
      exact loads.weaken (fun _ start => start) (fun _ _ ended => ⟨⟨ended.1, nofun⟩, ended.2⟩)
        fun _ _ failed => failed

theorem prepare_safe (outside : Outside) {config : Args.Config}
    (inside : ∀ addr ∈ config.loadAddr, addr.toNat < n.bytes) :
    Safe (.lift (prepare outside config : Command o n Load.Loaded)) fun loaded =>
      (∀ range ∈ loaded.code, Inside n range) ∧
        (config.program = .demo → Load.demoProgram.length ≤ n.bytes) := by
  refine .bind (.rejectIf _ _) fun _ _ => ?_
  refine .bind (.allocate _ _ _) fun _ _ => ?_
  exact .bind (.modify fun _ => rfl) fun _ _ => load_safe outside inside

/-! ## Listings -/

/-- A listing that starts before its end, which is inside memory, reads nothing outside memory. -/
theorem listing_ok {m : Machine n} (start : Word) {stop : Word} (inMemory : stop.toNat ≤ n.bytes)
    {state : Nat × List Byte} {outcome : Except (Failure Empty) (List Byte)}
    (ends : Ends (Disasm.listingBody (Disasm.wholeMemory m) stop) state outcome)
    (after : start.toNat ≤ state.1) (before : state.1 ≤ stop.toNat) :
    ∃ text, outcome = .ok text := by
  induction ends using Ends.induct with
  | leave state outcome leaves =>
      obtain ⟨addr, out⟩ := state
      rw [Disasm.listingBody_eq (Disasm.reads_wholeMemory m start.toNat _) inMemory after before]
        at leaves
      split at leaves
      · cases leaves
      · cases leaves
        exact ⟨out, rfl⟩
  | round state next outcome turn _ ih =>
      obtain ⟨addr, out⟩ := state
      rw [Disasm.listingBody_eq (Disasm.reads_wholeMemory m start.toNat _) inMemory after before]
        at turn
      split at turn
      · rename_i fits
        cases turn
        exact ih (after.trans (Nat.le_add_right _ _)) fits
      · cases turn

theorem printListing_safe (fd : Fd) {start stop : Word} (ordered : start.toNat ≤ stop.toNat)
    (inMemory : stop.toNat ≤ n.bytes) :
    Safe (printListing fd start stop : Running o n Unit) fun _ => True := by
  rintro s r unread ⟨outcome, ends, rfl⟩
  obtain ⟨text, rfl⟩ := listing_ok start inMemory ends (Nat.le_refl _) ordered
  exact ⟨trivial, unread⟩

theorem listRange_safe {range : Args.Range} (inside : Inside n range) (i : Nat) :
    Safe (listRange range i : Running o n Unit) fun _ => True := by
  have valid := n.valid
  unfold validMemorySize at valid
  have small : range.start.toNat + range.len.toNat < 2 ^ 32 := by
    unfold Inside at inside
    omega
  have separated : Safe (.lift (separate i : Command o n Unit)) fun _ => True := by
    unfold separate
    split
    · exact .modify fun _ => rfl
    · exact .pure trivial
  refine .andThen separated fun _ _ => ?_
  refine .andThen (.reads (p := (· = range.start.toNat + range.len.toNat)) fun _ =>
    ⟨_, checkedAdd_ok small, rfl⟩) ?_
  rintro _ rfl
  have stop : (BitVec.ofNat 32 (range.start.toNat + range.len.toNat)).toNat =
      range.start.toNat + range.len.toNat := by
    rw [BitVec.toNat_ofNat, Nat.mod_eq_of_lt small]
  refine printListing_safe .stdout ?_ ?_
  · rw [stop]
    exact Nat.le_add_right _ _
  · rw [stop]
    exact inside

theorem listRanges_safe {code : List Args.Range} (inside : ∀ range ∈ code, Inside n range)
    (i : Nat) :
    Safe (forM (code.zipIdx i) fun (range, i) => listRange range i : Running o n Unit)
      fun _ => True := by
  induction code generalizing i with
  | nil => exact .pure trivial
  | cons range rest ih =>
      rw [List.zipIdx_cons, List.forM_cons]
      exact .andThen (listRange_safe (inside range (by simp)) i) fun _ _ =>
        ih (fun range listed => inside range (by simp [listed])) (i + 1)

/-! ## Running -/

theorem readInput_safe (outside : Outside) (input : Option Args.Input) :
    Safe (.lift (readInput outside input : Command o n (List Byte))) fun _ => True := by
  unfold readInput
  split
  · exact .pure trivial
  · exact .orReport _ _
  · exact .orReport _ _

@[simp] theorem inputPos_section (text : List Byte) (s : Session o n) :
    (s.section text).inputPos = s.inputPos := by
  unfold Session.section
  cases started : s.started <;> simp [started, Session.print, Session.flush]

theorem preamble_safe {config : Args.Config} (loaded : Load.Loaded)
    (demo : config.program = .demo → Load.demoProgram.length ≤ n.bytes) :
    Safe (preamble config loaded : Running o n Unit) fun _ => True := by
  have lists : Safe (listDemo config.program : Running o n Unit) fun _ => True := by
    unfold listDemo
    refine .ite (fun isDemo => ?_) fun _ => .pure trivial
    refine .andThen (.modify fun _ => inputPos_section _ _) fun _ _ => ?_
    refine printListing_safe .stderr (Nat.zero_le _) ?_
    rw [toNat_demoLength]
    exact demo isDemo
  refine .ite (fun _ => .pure trivial) fun _ => ?_
  refine .andThen lists fun _ _ => ?_
  refine .andThen (.modify fun _ => inputPos_section _ _) fun _ _ => ?_
  exact .modify fun _ => rfl

theorem setUp_safe (outside : Outside) {config : Args.Config} (loaded : Load.Loaded)
    (demo : config.program = .demo → Load.demoProgram.length ≤ n.bytes) :
    Safe (setUp outside config loaded : Running o n Unit) fun _ => True := by
  refine .andThen (readInput_safe _ _) fun _ _ => ?_
  refine .andThen (.modify fun _ => rfl) fun _ _ => ?_
  refine .andThen (preamble_safe loaded demo) fun _ _ => ?_
  exact .modify fun _ => rfl

/-- How a program ended: it stopped, or there was a fault. -/
def Ended (ended : Except (Failure RunError) Report.Stop) : Prop :=
  ∀ f, ended = .error f → IsFault f

/-- **The program fails with a fault only**, which is caught. -/
theorem execute_ended (trace : Bool) (maxCycles : Option Count) :
    Behaviour.Meets Unread (.attempt (execute trace maxCycles) : Running o n _)
      (fun ended _ => Ended ended) fun f _ => IsError f := by
  refine .attempt ((execute_inputLeft trace maxCycles).weaken (fun s unread => ?_)
    (fun _ _ _ _ => nofun) fun f _ fault => ?_)
  · have start : s.inputPos = 0 := unread
    unfold InputLeft
    omega
  · rintro _ ⟨⟩
    exact fault

theorem reportEnd_safe (config : Args.Config) {ended : Except (Failure RunError) Report.Stop}
    (ending : Ended ended) :
    Behaviour.Meets (fun _ => True) (.lift (reportEnd config ended : Command o n ExitStatus))
      (fun _ _ => True) fun f _ => IsError f := by
  cases ended with
  | ok stop => exact .lift fun _ _ => trivial
  | error f =>
      obtain ⟨e, rfl⟩ := ending f rfl
      exact .lift fun _ _ => trivial

theorem printDump_safe {dump : Option Args.Dump}
    (inside : ∀ d ∈ dump, ∀ range ∈ d.range, Inside n range) :
    Behaviour.Meets (fun _ => True) (.lift (printDump dump : Command o n Unit)) (fun _ _ => True)
      fun f _ => IsError f := by
  cases dump with
  | none => exact .lift fun _ _ => trivial
  | some d =>
      have fits : Inside n (d.range.getD { start := 0#32, len := n.toWord }) := by
        cases given : d.range with
        | none => simp [Inside]
        | some range => exact inside d rfl range given
      unfold Inside at fits
      refine .lift fun s _ => ?_
      simp only [printDump, bind_apply, modify_apply, reads, Disasm.wholeMemory]
      rw [checkedRange_ok (by simpa using fits)]
      trivial

theorem printDigest_safe (outside : Outside) (digest : Bool) :
    Behaviour.Meets (fun _ => True) (.lift (printDigest outside digest : Command o n Unit))
      (fun _ _ => True) fun f _ => IsError f := by
  cases digest <;> exact .lift fun _ _ => trivial

theorem runLoaded_safe (outside : Outside) {config : Args.Config} (loaded : Load.Loaded)
    (demo : config.program = .demo → Load.demoProgram.length ≤ n.bytes)
    (inside : ∀ d ∈ config.dump, ∀ range ∈ d.range, Inside n range) :
    Behaviour.Meets Unread (runLoaded outside config loaded : Running o n ExitStatus)
      (fun _ _ => True) fun f _ => IsError f := by
  have starts := (setUp_safe (o := o) outside loaded demo).weaken (fun _ start => start)
    (fun _ _ ended => ended.2) fun _ _ failed => failed
  refine .andThen starts fun _ => ?_
  refine .andThen (execute_ended config.trace config.maxCycles) fun ended => .each ?_
  intro s ending
  refine .andThen ((reportEnd_safe config ending).weaken (fun _ _ => trivial)
    (fun _ _ ended => ended) fun _ _ failed => failed) fun status => ?_
  refine .andThen (printDump_safe inside) fun _ => ?_
  refine .andThen (printDigest_safe outside config.digest) fun _ => ?_
  exact .lift fun _ _ => trivial

/-- **Nothing that `runProgram` does traps**, when the load address and the dump are inside
memory. -/
theorem runProgram_safe (outside : Outside) (config : Args.Config)
    (loadAddr : ∀ addr ∈ config.loadAddr, addr.toNat < config.memory.bytes)
    (dump : ∀ d ∈ config.dump, ∀ range ∈ d.range, Inside config.memory range) :
    Behaviour.Meets Unread (runProgram outside config : Running o config.memory ExitStatus)
      (fun _ _ => True) fun f _ => IsError f := by
  refine .andThen (prepare_safe outside loadAddr) fun loaded => .each ?_
  rintro s ⟨⟨inside, demo⟩, unread⟩
  have start : ∀ t, t = s → Unread t := by
    rintro _ rfl
    exact unread
  split
  · refine .andThen ((listRanges_safe inside 0).weaken start (fun _ _ _ => trivial)
      fun _ _ failed => failed) fun _ => ?_
    exact .lift fun _ _ => trivial
  · exact (runLoaded_safe outside loaded demo dump).weaken start (fun _ _ ended => ended)
      fun _ _ failed => failed

/-! ## From the arguments -/

/-- `vm.initInPlace(memory) catch unreachable`, with a buffer of some length. -/
def initInPlace (len : Nat) : Except (Failure CommandError) MemSize :=
  if valid : validMemorySize len then .ok ⟨len, valid⟩ else .error (.trapped .reachedUnreachable)

/-- The configuration with a memory that was initialised. -/
def withMemory (settings : Args.Settings) (memory : MemSize) : Args.Config where
  program := settings.program
  memory := memory
  disassemble := settings.disassemble
  maxCycles := settings.maxCycles
  input := settings.input
  loadAddr := settings.loadAddr
  dump := settings.dump
  digest := settings.digest
  trace := settings.trace
  quiet := settings.quiet

/-- **Every configuration that is accepted is safe to run.** Its settings are sound; the VM can
be initialised with a memory of their size; and whatever files there are, running the program
or listing it, and all that comes before and after, does not trap. -/
theorem accepted_config_safe {args : List Args.Arg} {settings : Args.Settings}
    (accepted : Args.Parses args (.ok (.run settings))) :
    settings.Sound ∧ ∃ memory, initInPlace settings.memory.toNat = .ok memory ∧
      ∀ (o : Options) (outside : Outside) (draining : Draining Fd Byte) t s,
        ¬(runProgram outside (withMemory settings memory) : Running o memory ExitStatus)
          (start draining) (.error (.trapped t) s) := by
  have sound := Args.sound_of_parses accepted
  refine ⟨sound, ⟨_, sound.memory⟩, dif_pos sound.memory, ?_⟩
  intro o outside draining t s trapped
  have safe := runProgram_safe (o := o) outside (withMemory settings ⟨_, sound.memory⟩)
    (fun addr given => (sound.loadAddr addr given).2)
    (fun d given range named => (sound.dump d given range named).2)
  obtain ⟨e, returned⟩ := safe (s := start draining) rfl trapped
  cases returned

/-- A range of the largest size that fits, in front of the size of the memory. -/
theorem accepted_config_safe_range :
    Args.Settings.Sound { program := .file (ascii "a.bin"), memory := 1024#32,
                          loadAddr := some 16#32,
                          dump := some { range := some { start := 0x3f0#32, len := 16#32 } } } := by
  have accepted : Args.Parses [ascii "determinant", ascii "--dump-range=0x3f0:16",
      ascii "--load-addr", ascii "0x10", ascii "a.bin", ascii "--memory", ascii "1KiB"]
      (.ok (.run { program := .file (ascii "a.bin"), memory := 1024#32,
                   loadAddr := some 16#32,
                   dump := some { range := some { start := 0x3f0#32, len := 16#32 } } })) :=
    Args.parses_iff.2 (by decide +kernel)
  exact (accepted_config_safe accepted).1

end Cli

end Determinant
