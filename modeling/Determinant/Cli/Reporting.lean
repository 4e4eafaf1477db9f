import Determinant.Cli.RunProgram

/-!
# What is written before a program runs

Loading a program and reading its input write nothing, unless they fail with a message
(`Reports`). The message is on stderr, where it may be: nothing is in the buffer of stdout
(`ReadyFor`). What they can fail with besides is a trap, or an error that is reported later
(`Failed`).
-/

set_option autoImplicit false

namespace Determinant

open Foundations Hostcall

variable {n : MemSize} {o : Options} {α β ε : Type}

namespace Session

variable {s : Session o n}

/-! ## Writing -/

/-- Everything that was written, in its order. -/
def output (s : Session o n) : List Byte := s.terminal.output

@[simp] theorem output_print (fd : Fd) (text : List Byte) :
    (s.print fd text).output = s.output ++ text := Streams.output_append ..

@[simp] theorem output_flush (fd : Fd) : (s.flush fd).output = s.output := rfl

@[simp] theorem vm_print (fd : Fd) (text : List Byte) : (s.print fd text).vm = s.vm := rfl

@[simp] theorem vm_flush (fd : Fd) : (s.flush fd).vm = s.vm := rfl

@[simp] theorem started_print (fd : Fd) (text : List Byte) :
    (s.print fd text).started = s.started := rfl

@[simp] theorem started_flush (fd : Fd) : (s.flush fd).started = s.started := rfl

@[simp] theorem vm_section (text : List Byte) : (s.section text).vm = s.vm := by
  unfold Session.section
  cases started : s.started <;> simp [started, print]

@[simp] theorem started_section (text : List Byte) : (s.section text).started = true := rfl

@[simp] theorem output_section (text : List Byte) :
    (s.section text).output = s.output ++ ((if s.started then [newline] else []) ++ text) := by
  unfold Session.section
  cases started : s.started <;> simp [started, output, print, flush]

/-! ## Order -/

/-- Everything is in order, and this stream can be written to. -/
structure ReadyFor (fd : Fd) (s : Session o n) : Prop where
  ordered : s.terminal.InOrder
  alone : s.terminal.Alone fd

theorem ReadyFor.print {fd : Fd} (ready : ReadyFor fd s) (text : List Byte) :
    ReadyFor fd (s.print fd text) :=
  ⟨ready.ordered.append ready.alone text, ready.alone.append text⟩

theorem ReadyFor.flush {fd : Fd} (ready : ReadyFor fd s) (fd' : Fd) :
    ReadyFor fd (s.flush fd') :=
  ⟨ready.ordered.flush fd', ready.alone.flush fd'⟩

/-- After a flush of stdout, stderr can be written to. -/
theorem readyFor_flush_stdout (ordered : s.terminal.InOrder) : ReadyFor .stderr (s.flush .stdout) :=
  ⟨ordered.flush _, Streams.alone_flush fun fd other => by cases fd <;> trivial⟩

/-- **A section can be written whenever everything is in order**, and stderr can be written to
after it. -/
theorem readyFor_section (ordered : s.terminal.InOrder) (text : List Byte) :
    ReadyFor .stderr (s.section text) := by
  have flushed : ReadyFor .stderr (s.flush .stdout) := readyFor_flush_stdout ordered
  have start : ∀ t : Session o n, ReadyFor .stderr t →
      ReadyFor .stderr { t with started := true } :=
    fun _ ready => ⟨ready.ordered, ready.alone⟩
  unfold Session.section
  refine (start _ ?_).print text
  split
  · exact flushed.print [newline]
  · exact flushed

/-- Nothing is written yet. -/
structure Fresh (s : Session o n) : Prop where
  terminal : s.terminal = {}
  started : s.started = false

theorem Fresh.readyFor (fresh : Fresh s) (fd : Fd) : ReadyFor fd s := by
  refine ⟨?_, ?_⟩
  · rw [fresh.terminal]
    exact Streams.inOrder_new
  · rw [fresh.terminal]
    exact fun _ _ => rfl

theorem Fresh.output (fresh : Fresh s) : s.output = [] := by
  unfold Session.output
  rw [fresh.terminal]
  rfl

end Session

namespace Cli

open Session

/-! ## Messages -/

/-- The text of an error message. -/
def errorText (text : List Byte) : List Byte := ascii "Error: " ++ text ++ [newline]

/-- One message was written, to stderr, and nothing else. -/
structure Said (s : Session o n) (text : List Byte) : Prop where
  ready : ReadyFor .stderr s
  output : s.output = errorText text
  stderr : s.terminal.written .stderr = errorText text
  stdout : s.terminal.written .stdout = []

theorem said_print {s : Session o n} (fresh : Fresh s) (text : List Byte) :
    Said (s.print .stderr (errorText text)) text where
  ready := (fresh.readyFor .stderr).print _
  output := by rw [output_print, fresh.output, List.nil_append]
  stderr := by
    refine (Streams.written_append_same Fd.stderr (errorText text)).trans ?_
    rw [fresh.terminal]
    rfl
  stdout := by
    refine (Streams.written_append_other (by decide) (errorText text)).trans ?_
    rw [fresh.terminal]
    rfl

theorem Said.flush {s : Session o n} {text : List Byte} (said : Said s text) (fd : Fd) :
    Said (s.flush fd) text :=
  ⟨said.ready.flush fd, said.output, said.stderr, said.stdout⟩

/-- A failure before the program runs: a message was written, or nothing. -/
def Failed (s : Session o n) : Failure CommandError → Prop
  | .trapped _ => s.terminal.InOrder
  | .returned .writeFailed => False
  | .returned .userError => ∃ text, Said s text
  | .returned (.io _) => Fresh s

/-- A part of a command that writes nothing, unless it fails. -/
def Reports (x : Command o n α) : Prop :=
  Behaviour.Meets Fresh (.lift x) (fun _ => Fresh) fun f s => Failed s f

namespace Reports

theorem pure (a : α) : Reports (Pure.pure a : Command o n α) := .lift fun _ fresh => fresh

theorem bind {x : Command o n α} {f : α → Command o n β} (first : Reports x)
    (rest : ∀ a, Reports (f a)) : Reports (x >>= f) := .lift_bind first rest

theorem setVm (f : Session o n → Vm o n) : Reports (modify fun s => { s with vm := f s }) :=
  Behaviour.Meets.modify fun _ fresh => ⟨fresh.terminal, fresh.started⟩

theorem ite {c : Prop} [Decidable c] {x y : Command o n α} (first : Reports x)
    (second : Reports y) : Reports (if c then x else y) := by
  split
  · exact first
  · exact second

theorem throw {f : Failure CommandError} (failed : ∀ s : Session o n, Fresh s → Failed s f) :
    Reports (throw f : Command o n α) := .lift failed

theorem trap (t : Trap) : Reports (MonadExcept.throw (.trapped t) : Command o n α) :=
  throw fun _ fresh => (fresh.readyFor .stderr).ordered

/-- What is looked up may fail with a trap. -/
theorem reads {f : Session o n → Except (Failure CommandError) α}
    (traps : ∀ s e, f s = .error e → ∃ t, e = .trapped t) : Reports (reads f) := by
  refine .lift fun s fresh => ?_
  unfold Foundations.reads
  cases looked : f s with
  | ok a => exact fresh
  | error e =>
      obtain ⟨t, rfl⟩ := traps s e looked
      exact (fresh.readyFor .stderr).ordered

/-- **A message can be written**, since nothing else is. -/
theorem userError (text : List Byte) : Reports (userError text : Command o n α) := by
  exact .lift fun s fresh => ⟨text, said_print fresh text⟩

theorem rejectIf (c : Prop) [Decidable c] (text : List Byte) :
    Reports (rejectIf c text : Command o n Unit) := ite (userError text) (pure ())

theorem orReport (text : ε → List Byte) (x : Except ε α) :
    Reports (orReport text x : Command o n α) := by
  cases x with
  | ok a => exact pure a
  | error e => exact userError (text e)

theorem allocate (outside : Outside) (what : Allocation) (empty : Bool) :
    Reports (allocate outside what empty : Command o n Unit) :=
  ite (pure ()) (throw fun _ fresh => fresh)

theorem onVm {report : ε → Command o n α} (reported : ∀ e, Reports (report e))
    (x : EStateM ε (Vm o n) α) : Reports (Load.onVm report x) := by
  refine .lift fun s fresh => ?_
  unfold Load.onVm
  cases x s.vm with
  | ok a vm => exact ⟨fresh.terminal, fresh.started⟩
  | error e vm => exact reported e (s := { s with vm }) ⟨fresh.terminal, fresh.started⟩ rfl

end Reports

/-! ## Loading -/

theorem readExactly_reports (file : File) (path : Path) (len : Nat) :
    Reports (Load.readExactly file path len : Command o n (List Byte)) :=
  .bind (.orReport _ _) fun _ => .bind (.rejectIf _ _) fun _ => .pure _

theorem codeOf_reports (image : List Byte) :
    Reports (Load.codeOf image : Command o n (List Args.Range)) := by
  refine .lift fun s fresh => ?_
  have ordered := (fresh.readyFor .stderr).ordered
  unfold Load.codeOf
  cases Load.appendCode image [] with
  | ok _ code => exact fresh
  | error f code =>
      cases f with
      | returned _ => exact ordered
      | trapped _ => exact ordered

theorem reportElf_reports (path : Path) (f : Failure Loader.LoadError) :
    Reports (Load.reportElf path f : Command o n α) := by
  unfold Load.reportElf
  split
  · exact .userError _
  · exact .userError _
  · exact .trap _

theorem loadElf_reports (outside : Outside) (file : File) (path : Path) (size : Nat)
    (loadAddr : Option Word) :
    Reports (Load.loadElf outside file path size loadAddr : Command o n Load.Loaded) :=
  .bind (.rejectIf _ _) fun _ => .bind (.rejectIf _ _) fun _ => .bind (.allocate _ _ _) fun _ =>
    .bind (readExactly_reports _ _ _) fun _ =>
      .bind (.onVm (fun f => reportElf_reports path f) _) fun _ =>
        .bind (codeOf_reports _) fun _ => .bind (.allocate _ _ _) fun _ => .pure _

theorem loadFlat_reports (outside : Outside) (file : File) (path : Path) (size : Nat)
    (loadAddr : Option Word) :
    Reports (Load.loadFlat outside file path size loadAddr : Command o n Load.Loaded) :=
  .bind (.reads fun _ _ => check_traps) fun _ => .bind (.rejectIf _ _) fun _ =>
    .bind (.reads fun _ _ => check_traps) fun _ =>
      .bind (.reads fun _ _ => check_traps) fun _ =>
        .bind (readExactly_reports _ _ _) fun _ => .bind (.setVm _) fun _ =>
          .bind (.setVm _) fun _ => .bind (.allocate _ _ _) fun _ => .pure _

theorem loadFile_reports (outside : Outside) (path : Path) (loadAddr : Option Word) :
    Reports (Load.loadFile outside path loadAddr : Command o n Load.Loaded) :=
  .bind (.orReport _ _) fun _ => .bind (.orReport _ _) fun _ => .bind (.orReport _ _) fun _ =>
    .bind (.rejectIf _ _) fun _ => .ite (loadElf_reports _ _ _ _ _) (loadFlat_reports _ _ _ _ _)

theorem load_reports (outside : Outside) (config : Args.Config) :
    Reports (Load.load outside config : Command o n Load.Loaded) := by
  unfold Load.load
  cases config.program with
  | demo =>
      exact .bind (.onVm (fun _ => .userError _) _) fun _ => .bind (.allocate _ _ _) fun _ =>
        .pure _
  | file path => exact loadFile_reports outside path _

/-- **Nothing is written until the program is loaded**, unless that fails. -/
theorem prepare_reports (outside : Outside) (config : Args.Config) :
    Reports (prepare outside config : Command o n Load.Loaded) :=
  .bind (.rejectIf _ _) fun _ => .bind (.allocate _ _ _) fun _ =>
    .bind (.setVm _) fun _ => load_reports outside config

theorem readInput_reports (outside : Outside) (input : Option Args.Input) :
    Reports (readInput outside input : Command o n (List Byte)) := by
  unfold readInput
  split
  · exact .pure _
  · exact .orReport _ _
  · exact .orReport _ _

end Cli

end Determinant
