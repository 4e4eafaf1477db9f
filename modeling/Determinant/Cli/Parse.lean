import Determinant.Cli.Args
import Determinant.Cli.Report
import Determinant.Foundations.ParseInt
import Determinant.Foundations.Traps
import Determinant.Foundations.WhileLoops
import Mathlib.Data.List.DropRight

/-!
# Command-line parsing

From the arguments of the process to a command. A usage error is its message, as it is written to
the diagnostics. The loop over the arguments has the index of the next argument in its state, and
reads arguments by their index; an argument that is not there, a value that is not there, and the
branch for the options that were handled before are traps.
-/

set_option autoImplicit false

namespace Determinant

open Foundations

namespace Args

abbrev Arg := List Byte

/-- The settings of a run as the arguments say them: the configuration, before its memory size is
known to be valid. -/
structure Settings where
  program : Program
  memory : Word := BitVec.ofNat 32 defaultMemory.bytes
  disassemble : Bool := false
  maxCycles : Option Count := none
  input : Option Input := none
  loadAddr : Option Word := none
  dump : Option Dump := none
  digest : Bool := false
  trace : Bool := false
  quiet : Bool := false
deriving DecidableEq

inductive Command where
  | help
  | version
  /-- No arguments at all: show the usage. -/
  | usage
  | run (settings : Settings)
deriving DecidableEq

/-- A part of the parser. What it returns as an error is the message of a usage error. -/
abbrev Parser (α : Type) := Except (Failure (List Byte)) α

variable {α : Type}

def fail (text : List Byte) : Parser α :=
  .error (.returned (ascii "Error: " ++ text ++ [newline]))

def failIf (c : Prop) [Decidable c] (text : List Byte) : Parser Unit :=
  if c then fail text else .ok ()

/-- `value.?` -/
def unwrap : Option α → Parser α
  | some a => .ok a
  | none => .error (.trapped .reachedUnreachable)

/-! ## The options -/

inductive Opt where
  | memory
  | maxCycles
  | input
  | loadAddr
  | dumpMemory
  | dumpRange
  | digest
  | trace
  | disassemble
  | quiet
  | demo
  | help
  | version
deriving DecidableEq, Repr

/-- Whether an option takes a value. -/
inductive Value where
  | none
  | required
  | optional
deriving DecidableEq, Repr

structure Spec where
  name : Arg
  short : Option Arg := .none
  opt : Opt
  value : Value := .none
deriving DecidableEq, Repr

def specs : List Spec :=
  [{ name := ascii "--memory", opt := .memory, value := .required },
    { name := ascii "--max-cycles", opt := .maxCycles, value := .required },
    { name := ascii "--input", opt := .input, value := .required },
    { name := ascii "--load-addr", opt := .loadAddr, value := .required },
    -- Its format only after '=', so that the next argument can be the program.
    { name := ascii "--dump-memory", opt := .dumpMemory, value := .optional },
    { name := ascii "--dump-range", opt := .dumpRange, value := .required },
    { name := ascii "--digest", opt := .digest },
    { name := ascii "--trace", opt := .trace },
    { name := ascii "--disassemble", opt := .disassemble },
    { name := ascii "--quiet", short := some (ascii "-q"), opt := .quiet },
    { name := ascii "--demo", opt := .demo },
    { name := ascii "--help", short := some (ascii "-h"), opt := .help },
    { name := ascii "--version", opt := .version }]

def lookup (name : Arg) : Option Spec :=
  specs.find? fun s => name = s.name ∨ s.short = some name

def dash : Byte := 0x2D#8

/-- Whether an argument is an option or `--`. A lone `-` is neither. -/
def isOption (arg : Arg) : Bool := 1 < arg.length ∧ arg.head? = some dash

/-- Behind it there are no options. -/
def endOfOptions : Arg := ascii "--"

/-- `std.mem.cutScalar`: what is before the first `c`, and what is after it. -/
def cutScalar (text : List Byte) (c : Byte) : Option (List Byte × List Byte) :=
  match text.dropWhile (· ≠ c) with
  | [] => none
  | _ :: rest => some (text.takeWhile (· ≠ c), rest)

/-- The name of an option, and its value if that comes after a `=`. -/
def cutOption (arg : Arg) : Arg × Option Arg :=
  match cutScalar arg equalsSign with
  | some (name, value) => (name, some value)
  | none => (arg, none)

/-! ## Values -/

/-- A number in decimal, or with a prefix for another base, with optional `_` separators. -/
def number (w : Nat) (text option : Arg) : Parser (BitVec w) :=
  let subject := option ++ ascii " '" ++ text
  if [dash].isPrefixOf text then fail (subject ++ ascii "' is negative")
  else match parseInt w text with
    | .ok k => .ok k
    | .error .overflow =>
        fail (subject ++ ascii "' is too large (at most " ++ decimal (2 ^ w - 1) ++ ascii ")")
    | .error .invalidCharacter => fail (subject ++ ascii "' is not a number")

def suffixes : List (List Byte × Nat) :=
  [(ascii "KiB", 1 <<< 10), (ascii "MiB", 1 <<< 20), (ascii "GiB", 1 <<< 30)]

/-- The number of a memory size, and the scale that its suffix stands for. -/
def cutSuffix (text : Arg) : List Byte × Nat :=
  suffixes.foldl
    (fun cut (suffix, scale) =>
      if suffix.isSuffixOf text then
        ((text.take (text.length - suffix.length)).rdropWhile (· = space), scale)
      else cut)
    (text, 1)

def notSize (text : Arg) : List Byte :=
  ascii "--memory '" ++ text ++ ascii "' is not a size (bytes, or a number with KiB, MiB or GiB)"

def sizeTooLarge (text : Arg) : List Byte :=
  ascii "--memory '" ++ text ++ ascii "' is too large: it must be less than 4 GiB"

/-- The number of a memory size, before its suffix. -/
def sizeNumber (text : Arg) (digits : List Byte) : Parser (BitVec 64) :=
  match parseInt 64 digits with
  | .ok n => .ok n
  | .error .overflow => fail (sizeTooLarge text)
  | .error .invalidCharacter => fail (notSize text)

/-- A memory size: bytes, or a number with a suffix, that a VM can have. -/
def memorySize (text : Arg) : Parser Word := do
  let cut := cutSuffix text
  failIf ([dash].isPrefixOf cut.1) (notSize text)
  let n ← sizeNumber text cut.1
  let bytes := n.toNat * cut.2
  -- The product has to be one of 64 bits first.
  failIf (2 ^ 64 ≤ bytes) (sizeTooLarge text)
  failIf (0xFFFFFFFF < bytes) (sizeTooLarge text)
  let size ← checkedCast 32 bytes
  failIf (¬validMemorySize size.toNat)
    (ascii "--memory '" ++ text ++ ascii "' must be a positive multiple of 4 bytes")
  return size

/-- An address and a length. -/
def parseRange (text : Arg) : Parser Range := do
  match cutScalar text 0x3A#8 with
  | none => fail (ascii "--dump-range '" ++ text ++ ascii "' is not ADDR:LEN")
  | some (startText, lenText) =>
      let start ← number 32 startText (ascii "--dump-range address")
      let len ← number 32 lenText (ascii "--dump-range length")
      failIf (len = 0#32) (ascii "--dump-range '" ++ text ++ ascii "' is empty")
      return { start, len }

/-- The format of a dump, by its name. -/
def dumpFormat : Option Arg → Parser Dump.Format
  | none => .ok .hexdump
  | some name =>
      if name = ascii "hexdump" then .ok .hexdump
      else if name = ascii "raw" then .ok .raw
      else fail (ascii "unknown --dump-memory format '" ++ name ++ ascii "' (hexdump or raw)")

/-! ## The loop over the arguments -/

/-- What the loop keeps. The texts are for the checks against the memory size, after all the
options. -/
structure Parsing where
  program : Option Arg := none
  demo : Bool := false
  config : Settings := { program := .demo }
  optionsEnded : Bool := false
  loadAddrText : Arg := []
  dumpRangeText : Arg := []
deriving DecidableEq

/-- `args[i]` -/
def argAt (args : List Arg) (i : Nat) : Parser Arg :=
  match args[i]? with
  | some arg => .ok arg
  | none => .error (.trapped .outOfRange)

/-- An argument that is not an option. -/
def positional (arg : Arg) (s : Parsing) : Parser Parsing :=
  match s.program with
  | some first =>
      fail (ascii "unexpected argument '" ++ arg ++ ascii "' after the program '" ++ first ++
        ascii "' (programs take no arguments)")
  | none => .ok { s with program := some arg }

/-- The value of the option at `args[i]`, and the index of the last argument it takes. -/
def takeValue (args : List Arg) (i : Nat) (spec : Spec) (inlineValue : Option Arg) :
    Parser (Option Arg × Nat) :=
  match spec.value with
  | .none =>
      if inlineValue.isSome then fail (spec.name ++ ascii " takes no value") else .ok (none, i)
  | .optional => .ok (inlineValue, i)
  | .required =>
      match inlineValue with
      | some value => .ok (some value, i)
      | none =>
          if i + 1 = args.length then fail (spec.name ++ ascii " needs a value")
          else do
            let value ← argAt args (i + 1)
            .ok (some value, i + 1)

/-- What an option sets. -/
def setOption (spec : Spec) (value : Option Arg) (s : Parsing) : Parser Parsing :=
  match spec.opt with
  | .memory => do
      let memory ← memorySize (← unwrap value)
      .ok { s with config.memory := memory }
  | .maxCycles => do
      let maxCycles ← number 64 (← unwrap value) spec.name
      .ok { s with config.maxCycles := some maxCycles }
  | .input => do
      let path ← unwrap value
      .ok { s with config.input := some (if path = [dash] then .stdin else .file path) }
  | .loadAddr => do
      let text ← unwrap value
      let addr ← number 32 text spec.name
      failIf (addr.toNat % 2 ≠ 0) (ascii "--load-addr '" ++ text ++ ascii "' must be even")
      .ok { s with config.loadAddr := some addr, loadAddrText := text }
  | .dumpMemory => do
      let format ← dumpFormat value
      .ok { s with config.dump := some { s.config.dump.getD {} with format := format } }
  | .dumpRange => do
      let text ← unwrap value
      let range ← parseRange text
      .ok { s with
            config.dump := some { s.config.dump.getD {} with range := some range }
            dumpRangeText := text }
  | .digest => .ok { s with config.digest := true }
  | .trace => .ok { s with config.trace := true }
  | .disassemble => .ok { s with config.disassemble := true }
  | .quiet => .ok { s with config.quiet := true }
  | .demo => .ok { s with demo := true }
  -- These were handled before the loop.
  | .help | .version => .error (.trapped .reachedUnreachable)

/-- The body of the loop, up to its `i += 1`. -/
def parseArg (args : List Arg) (i : Nat) (s : Parsing) : Parser (Nat × Parsing) := do
  let arg ← argAt args i
  if s.optionsEnded ∨ ¬isOption arg then
    let s ← positional arg s
    return (i, s)
  else if arg = endOfOptions then return (i, { s with optionsEnded := true })
  else
    let (name, inlineValue) := cutOption arg
    match lookup name with
    | none => fail (ascii "unknown option '" ++ arg ++ ascii "'")
    | some spec =>
        let (value, i) ← takeValue args i spec inlineValue
        let s ← setOption spec value s
        return (i, s)

/-- One turn of the loop. -/
def parseTurn (args : List Arg) : Nat × Parsing → Turn (Nat × Parsing) (Parser Parsing)
  | (i, s) =>
      if i < args.length then
        match parseArg args i s with
        | .ok (i, s) => .again (i + 1, s)
        | .error e => .done (.error e)
      else .done (.ok s)

/-! ## After all the options -/

def checkLoadAddr (s : Parsing) : Parser Unit :=
  match s.config.loadAddr with
  | some addr =>
      failIf (addr ≥ s.config.memory)
        (ascii "--load-addr '" ++ s.loadAddrText ++ ascii "' is not inside the " ++
          Units.memSize s.config.memory.toNat ++ ascii " of VM memory")
  | none => .ok ()

/-- The sum is one of 64 bits. -/
def checkDumpRange (s : Parsing) : Parser Unit :=
  match s.config.dump with
  | some { range := some r, .. } => do
      let stop ← checkedAdd 64 r.start.toNat r.len.toNat
      failIf (stop > s.config.memory.toNat)
        (ascii "--dump-range '" ++ s.dumpRangeText ++ ascii "' is not inside the " ++
          Units.memSize s.config.memory.toNat ++ ascii " of VM memory")
  | _ => .ok ()

def chooseProgram (s : Parsing) : Parser Program :=
  if s.demo then
    match s.program with
    | some path =>
        fail (ascii "--demo runs the built-in program, so it takes no program file ('" ++ path ++
          ascii "')")
    | none =>
        if s.config.loadAddr.isSome then fail (ascii "--load-addr does not apply to --demo")
        else .ok .demo
  else
    match s.program with
    | some path => .ok (.file path)
    | none => fail (ascii "no program to run (a file, or --demo)")

/-- The options of a run, and whether each was given. -/
def runOptions (config : Settings) : List (List Byte × Bool) :=
  [(ascii "--max-cycles", config.maxCycles.isSome),
    (ascii "--input", config.input.isSome),
    (ascii "--dump-memory or --dump-range", config.dump.isSome),
    (ascii "--digest", config.digest),
    (ascii "--trace", config.trace),
    (ascii "--quiet", config.quiet)]

def checkDisassemble (config : Settings) : Parser Unit :=
  if config.disassemble then
    forM (runOptions config) fun (option, given) =>
      failIf (given = true) (option ++ ascii
        " does not apply to --disassemble, which lists the program without running it")
  else .ok ()

/-- Everything behind the loop. -/
def finishParsing (s : Parsing) : Parser Command := do
  checkLoadAddr s
  checkDumpRange s
  let program ← chooseProgram s
  let config := { s.config with program := program }
  checkDisassemble config
  return .run config

/-! ## The parser -/

/-- `--help` and `--version` win wherever they are before a `--`, even after an invalid option. -/
def scanCommand : List Arg → Option Command
  | [] => none
  | arg :: rest =>
      if arg = endOfOptions then none
      else match (lookup arg).map Spec.opt with
        | some .help => some .help
        | some .version => some .version
        | _ => scanCommand rest

/-- The parser, for at most `fuel` turns of its loop. The first argument is the name of the
program that runs. -/
def parseWithin (fuel : Nat) (args : List Arg) : Option (Parser Command) :=
  if args.length ≤ 1 then some (.ok .usage)
  else match scanCommand (args.drop 1) with
    | some command => some (.ok command)
    | none => (runFuel (parseTurn args) fuel (1, {})).map (· >>= finishParsing)

/-- `parse` returns a command or an error for the arguments. -/
def Parses (args : List Arg) (outcome : Parser Command) : Prop :=
  ∃ fuel, parseWithin fuel args = some outcome

example : parseWithin 9 [ascii "determinant", ascii "--demo", ascii "--max-cycles", ascii "0x10"] =
    some (.ok (.run { program := .demo, maxCycles := some 16#64 })) := by
  decide +kernel

end Args

end Determinant
