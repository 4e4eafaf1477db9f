import Determinant.Cli.Listing
import Determinant.Cli.Load
import Determinant.Cpu.Snapshot

/-!
# Running a program from the command line

`runProgram` loads the program that the configuration names, and lists it, or runs it and
reports how it stopped. The report is on stderr, in sections with blank lines between them
(`Session.section`); each flushes stdout first. `run` reports what is left to report, flushes
both streams and gives the exit status.
-/

set_option autoImplicit false

namespace Determinant

open Foundations Hostcall

variable {n : MemSize} {o : Options}

/-- SHA-256 of the header followed by the whole memory image. -/
def Vm.stateDigest (outside : Outside) (vm : Vm o n) : List Byte :=
  outside.sha256
    (whole (Snapshot.encodeHeader outside.header vm.toMachine) ++ whole vm.memory)

/-- Exit statuses of the process, besides the one that the program passes to exit. -/
abbrev ExitStatus := Byte

namespace ExitStatus

def ok : ExitStatus := 0#8
def usageOrIo : ExitStatus := 1#8
def cycleLimit : ExitStatus := 2#8
def vmFault : ExitStatus := 3#8

end ExitStatus

/-- The stack pointer a program starts with: the top of memory, aligned to 16 bytes. -/
def initialSp (memory : Word) : Word := memory &&& ~~~15#32

/-! ## The report -/

namespace Report

/-- "no cycle limit" or "at most N cycles". -/
def limitText : Option Count → List Byte
  | none => ascii "no cycle limit"
  | some most => ascii "at most " ++ Units.cycles most

def runningText (loaded : Load.Loaded) (n : MemSize) (maxCycles : Option Count) : List Byte :=
  ascii "Running " ++ loaded.format ++ ascii " in " ++ Units.memSize n.bytes ++
    ascii " of VM memory, " ++ limitText maxCycles ++ [newline]

/-- What the demo stored. -/
def storedText (word : Word) : List Byte :=
  ascii "Memory at " ++ wordText Load.demoStoreAddr ++ ascii " (the demo's store): " ++
    wordText word ++ ascii "  " ++ decimal word.toNat ++ [newline]

def digestText (digest : List Byte) : List Byte :=
  ascii "State digest: " ++ digest.flatMap lowerHex ++ [newline]

end Report

namespace Session

/-- A section of the report begins with this text. -/
def «section» (text : List Byte) (s : Session o n) : Session o n :=
  let s := s.flush .stdout
  let s := if s.started then s.print .stderr [newline] else s
  { s with started := true }.print .stderr text

/-- The report of how the program stopped. -/
def reportStop (config : Args.Config) (stop : Report.Stop) (s : Session o n) : Session o n :=
  let s := s.section []
  let s := s.print .stderr (Report.printStop s.vm.toMachine stop)
  let s := s.print .stderr (Report.printRegisters s.vm.toMachine)
  if config.program = .demo then
    match s.vm.readWord Load.demoStoreAddr with
    | .ok word => s.section (Report.storedText word)
    | .error _ => s
  else s

/-- The report of a fault. -/
def reportFault (e : StepError) (s : Session o n) : Session o n :=
  let s := s.section []
  let s := s.print .stderr (Report.printFault s.vm e)
  s.print .stderr (Report.printRegisters s.vm.toMachine)

/-- The program is ready to run. The trace counts as a section. -/
def launch (config : Args.Config) (loaded : Load.Loaded) (s : Session o n) : Session o n :=
  { s with
    vm.toMachine := { s.vm.toMachine with pc := loaded.entry }.writeReg 2#5 (initialSp n.toWord)
    started := s.started || config.trace }

end Session

namespace Cli

/-! ## Listings -/

/-- A step of the CLI that may not end. -/
abbrev Running (o : Options) (n : MemSize) (α : Type) :=
  Behaviour (Failure CommandError) (Session o n) α

/-- Print a listing of the memory to a stream. -/
def printListing (fd : Fd) (start stop : Word) : Running o n Unit := fun s r =>
  ∃ outcome : Except (Failure Empty) (List Byte),
    Ends (Disasm.listingBody (Disasm.wholeMemory s.vm.toMachine) stop) (start.toNat, []) outcome ∧
      r = match outcome with
      | .ok text => .ok () (s.print fd text)
      | .error (.trapped t) => .error (.trapped t) s

/-- A blank line between listings. -/
def separate (i : Nat) : Command o n Unit :=
  if i > 0 then modify (Session.print .stdout [newline]) else pure ()

/-- The listing of a part of the program. -/
def listRange (range : Args.Range) (i : Nat) : Running o n Unit := do
  .lift (separate i)
  let stop ← .lift (reads fun _ => checkedAdd 32 range.start.toNat range.len.toNat)
  printListing .stdout range.start (BitVec.ofNat 32 stop)

/-! ## Running -/

/-- The bytes the program's read host call returns. -/
def readInput (outside : Outside) : Option Args.Input → Command o n (List Byte)
  | none => pure []
  | some (.file path) =>
      orReport (fun e => ascii "cannot read input " ++ Load.quoted path ++ ascii ": " ++
        ascii (Report.ioText e)) (outside.readFile path)
  | some .stdin =>
      orReport (fun e =>
        if e = .readFailed then ascii "cannot read input from stdin"
        else ascii "cannot read input from stdin: " ++ ascii (Report.ioText e)) outside.stdin

/-- The demo shows what it runs. -/
def listDemo (program : Args.Program) : Running o n Unit :=
  if program = .demo then do
    .lift (modify (Session.section (ascii "Demo program:" ++ [newline])))
    printListing .stderr 0#32 (BitVec.ofNat 32 Load.demoProgram.length)
  else pure ()

/-- What is written before the program runs; it is flushed at once. -/
def preamble (config : Args.Config) (loaded : Load.Loaded) : Running o n Unit :=
  if config.quiet then pure ()
  else do
    listDemo config.program
    .lift (modify (Session.section (Report.runningText loaded n config.maxCycles)))
    .lift (modify (Session.flush .stderr))

def statusOf : Report.Stop → ExitStatus
  | .ebreak | .ecall _ => .ok
  | .cycleLimit => .cycleLimit
  | .exit status => status.setWidth 8

/-- Report how the program ended. -/
def reportEnd (config : Args.Config) :
    Except (Failure RunError) Report.Stop → Command o n ExitStatus
  | .ok stop => do
      modify (if config.quiet then id else Session.reportStop config stop)
      return statusOf stop
  | .error (.returned (.fault e)) => do
      modify (Session.reportFault e)
      return .vmFault
  | .error (.returned .writeFailed) => throw (.returned .writeFailed)
  | .error (.trapped t) => throw (.trapped t)

/-- The memory dump, if it was asked for. -/
def printDump : Option Args.Dump → Command o n Unit
  | none => pure ()
  | some dump => do
      let range := dump.range.getD { start := 0#32, len := n.toWord }
      modify (Session.section [])
      let bytes ← reads fun s =>
        Disasm.wholeMemory s.vm.toMachine range.start.toNat range.len.toNat
      modify (Session.print .stderr (Dump.dumpMemory bytes range.start dump.format))

/-- The digest, if it was asked for. -/
def printDigest (outside : Outside) (digest : Bool) : Command o n Unit :=
  if digest then modify fun s => s.section (Report.digestText (s.vm.stateDigest outside))
  else pure ()

/-- Everything up to the first instruction. -/
def setUp (outside : Outside) (config : Args.Config) (loaded : Load.Loaded) :
    Running o n Unit := do
  let input ← .lift (readInput outside config.input)
  .lift (modify fun s => { s with input := input })
  preamble config loaded
  .lift (modify (Session.launch config loaded))

/-- Run a program that is in memory. -/
def runLoaded (outside : Outside) (config : Args.Config) (loaded : Load.Loaded) :
    Running o n ExitStatus := do
  setUp outside config loaded
  let ended ← .attempt (execute config.trace config.maxCycles)
  let status ← .lift (reportEnd config ended)
  .lift (printDump config.dump)
  .lift (printDigest outside config.digest)
  return status

/-- The VM, and the program in it. -/
def prepare (outside : Outside) (config : Args.Config) : Command o n Load.Loaded := do
  rejectIf (¬outside.allocates .memory)
    (ascii "cannot allocate " ++ Units.memSize n.bytes ++ ascii " of VM memory")
  allocate outside .vm
  modify fun s => { s with vm := Vm.reset }
  Load.load outside config

/-- List the program, or run it. -/
def runProgram (outside : Outside) (config : Args.Config) :
    Running o config.memory ExitStatus := do
  let loaded ← .lift (prepare outside config)
  if config.disassemble then
    forM loaded.code.zipIdx fun (range, i) => listRange range i
    return .ok
  else runLoaded outside config loaded

/-! ## The command -/

/-- Both streams are flushed at the end. A flush that fails would end in `outputFailed`, or without
it in the same exit status; as with every write to the terminal, this one does not fail. -/
def finish (status : ExitStatus) : EStateM Trap (Session o n) ExitStatus := do
  modify (Session.flush .stdout)
  modify (Session.flush .stderr)
  return status

def outputFailed : EStateM Trap (Session o n) ExitStatus := do
  modify (Session.print .stderr (ascii "Error: cannot write output" ++ [newline]))
  modify (Session.flush .stderr)
  return .usageOrIo

/-- Report a failure of the command, unless that was done already. -/
def conclude : Except (Failure CommandError) ExitStatus → EStateM Trap (Session o n) ExitStatus
  | .ok status => finish status
  | .error (.returned .userError) => finish .usageOrIo
  | .error (.returned .writeFailed) => outputFailed
  | .error (.returned (.io e)) => do
      modify (Session.print .stderr (ascii "Error: " ++ ascii (Report.ioText e) ++ [newline]))
      finish .usageOrIo
  | .error (.trapped t) => throw t

/-- The CLI, on arguments that say to run a program. -/
def run (outside : Outside) (config : Args.Config) :
    Behaviour Trap (Session o config.memory) ExitStatus := do
  let outcome ← .attempt (runProgram outside config)
  .lift (conclude outcome)

/-- What the CLI starts with, before there is a VM. -/
def start (draining : Draining Fd Byte) : Session o n := { vm := Vm.reset, draining }

end Cli

end Determinant
