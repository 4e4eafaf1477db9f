import Determinant.Cli.AcceptedConfig
import Determinant.Cli.ParseSafety

/-!
# A command line for every configuration

The way back from a configuration to arguments (`commandLine`): numbers in decimal, values behind
a `=`, and the program behind a `--`, since its name can be that of an option. Parsing gives the
configuration back (`parses_commandLine`). So the configurations that the parser can return are
the sound ones, with one exception: the name `-` of an input stands for the standard input
(`accepted_iff`).
-/

set_option autoImplicit false

namespace Determinant

open Foundations

namespace Args

/-! ## Options -/

/-- The option as it is listed. -/
def Opt.spec (opt : Opt) : Spec :=
  (specs.find? fun spec => spec.opt = opt).getD { name := [], opt := opt }

theorem Opt.lookup_spec (opt : Opt) : lookup opt.spec.name = some opt.spec := by
  cases opt <;> decide

@[simp] theorem Opt.spec_opt (opt : Opt) : opt.spec.opt = opt := by
  cases opt <;> rfl

def colon : Byte := 0x3A#8

/-- `ADDR:LEN` -/
def rangeText (range : Range) : Arg :=
  decimal range.start.toNat ++ colon :: decimal range.len.toNat

def formatName : Dump.Format → Arg
  | .hexdump => ascii "hexdump"
  | .raw => ascii "raw"

namespace Setting

/-- The value that the option is given with. -/
def value : Setting → Option Arg
  | memory size => some (decimal size.toNat)
  | maxCycles k => some (decimal k.toNat)
  | input .stdin => some [dash]
  | input (.file path) => some path
  | loadAddr _ text => some text
  | dumpMemory format => some (formatName format)
  | dumpRange _ text => some text
  | digest | trace | disassemble | quiet | demo => none

/-- The text of a number is the one that it is written with, and a file is not written as the
standard input. -/
def Written : Setting → Prop
  | input source => source ≠ .file [dash]
  | loadAddr addr text => text = decimal addr.toNat
  | dumpRange range text => text = rangeText range
  | _ => True

/-- The value of an option, if there is one, is in the same argument. -/
def group (a : Setting) : Group :=
  .option a.opt.spec.name a.opt.spec (a.value.elim .alone .joined)

end Setting

/-! ## Values -/

theorem digits_decimal (k : Nat) : ∀ c ∈ decimal k, 0x30#8 ≤ c ∧ c ≤ 0x39#8 :=
  fun _ => digit_of_mem_decimal

/-- A number has no sign. -/
theorem not_negative (k : Nat) : [dash].isPrefixOf (decimal k) = false := by
  cases text : decimal k with
  | nil => rfl
  | cons c rest =>
      have digit := digits_decimal k c (by simp [text])
      have other : dash ≠ c := by
        rintro rfl
        exact absurd digit (by decide)
      simp [List.isPrefixOf, other]

theorem number_decimal {w : Nat} (k : BitVec w) (option : Arg) :
    number w (decimal k.toNat) option = .ok k := by
  simp only [number, not_negative, parseInt_decimal k.isLt, BitVec.ofNat_toNat, BitVec.setWidth_eq]
  rfl

/-- A number has no suffix, which would be letters. -/
theorem cutSuffix_decimal (k : Nat) : cutSuffix (decimal k) = (decimal k, 1) := by
  have letters : ∀ suffix ∈ suffixes, suffix.1.isSuffixOf (decimal k) = false := by
    intro suffix listed
    have letter : 0x42#8 ∈ suffix.1 := by
      revert suffix
      decide
    rw [Bool.eq_false_iff]
    intro ends
    have digit := digits_decimal k _ ((List.isSuffixOf_iff_suffix.1 ends).subset letter)
    exact absurd digit (by decide)
  unfold cutSuffix
  generalize suffixes = rest at letters
  induction rest with
  | nil => rfl
  | cons suffix rest ih =>
      have first := letters suffix (by simp)
      rw [List.foldl_cons]
      simp only [first, Bool.false_eq_true, if_false]
      exact ih fun suffix listed => letters suffix (by simp [listed])

theorem memorySize_decimal {size : Word} (valid : validMemorySize size.toNat) :
    memorySize (decimal size.toNat) = .ok size := by
  have bound : size.toNat < 2 ^ 32 := size.isLt
  have fits : size.toNat < 2 ^ 64 := by omega
  have digits : sizeNumber (decimal size.toNat) (decimal size.toNat) =
      .ok (BitVec.ofNat 64 size.toNat) := by
    rw [sizeNumber, parseInt_decimal fits]
  have whole : (BitVec.ofNat 64 size.toNat).toNat * 1 = size.toNat := by
    rw [BitVec.toNat_ofNat, Nat.mod_eq_of_lt fits, Nat.mul_one]
  have cast : (checkedCast 32 size.toNat : Parser Word) = .ok size := by
    rw [checkedCast_ok bound, BitVec.ofNat_toNat, BitVec.setWidth_eq]
  rw [memorySize, cutSuffix_decimal]
  refine bind_eq_ok.2 ⟨(), failIf_eq_ok.2 (by simp [not_negative]), bind_eq_ok.2 ⟨_, digits, ?_⟩⟩
  rw [whole]
  refine bind_eq_ok.2 ⟨(), failIf_eq_ok.2 (by omega), bind_eq_ok.2 ⟨(), failIf_eq_ok.2 (by omega),
    bind_eq_ok.2 ⟨size, cast, bind_eq_ok.2 ⟨(), failIf_eq_ok.2 (not_not.2 valid), rfl⟩⟩⟩⟩

theorem parseRange_rangeText {range : Range} (nonempty : range.len ≠ 0#32) :
    parseRange (rangeText range) = .ok range := by
  have plain : ∀ c ∈ decimal range.start.toNat, decide (c ≠ colon) = true := by
    intro c listed
    rw [decide_eq_true_iff]
    rintro rfl
    exact absurd (digits_decimal _ _ listed) (by decide)
  have cut : cutScalar (rangeText range) colon =
      some (decimal range.start.toNat, decimal range.len.toNat) := by
    rw [cutScalar, rangeText, List.dropWhile_append_of_pos plain,
      List.takeWhile_append_of_pos plain]
    simp
  have cut' : cutScalar (rangeText range) 0x3A#8 = _ := cut
  rw [parseRange, cut']
  exact bind_eq_ok.2 ⟨_, number_decimal _ _, bind_eq_ok.2 ⟨_, number_decimal _ _,
    bind_eq_ok.2 ⟨(), failIf_eq_ok.2 nonempty, rfl⟩⟩⟩

/-- **A setting that is written as an option is read back.** -/
theorem setting_value {a : Setting} (checked : a.Checked) (written : a.Written) :
    setting a.opt.spec a.value = .ok a := by
  cases a with
  | digest | trace | disassemble | quiet | demo => rfl
  | memory size => exact bind_eq_ok.2 ⟨_, rfl, bind_eq_ok.2 ⟨_, memorySize_decimal checked, rfl⟩⟩
  | maxCycles k => exact bind_eq_ok.2 ⟨_, rfl, bind_eq_ok.2 ⟨_, number_decimal k _, rfl⟩⟩
  | input source =>
      cases source with
      | stdin => rfl
      | file path =>
          have other : path ≠ [dash] := fun same => written (by rw [same])
          refine bind_eq_ok.2 ⟨path, rfl, ?_⟩
          rw [if_neg other]
          rfl
  | loadAddr addr text =>
      cases written
      exact bind_eq_ok.2 ⟨_, rfl, bind_eq_ok.2 ⟨_, number_decimal addr _,
        bind_eq_ok.2 ⟨(), failIf_eq_ok.2 (not_not.2 checked), rfl⟩⟩⟩
  | dumpMemory format => cases format <;> rfl
  | dumpRange range text =>
      cases written
      exact bind_eq_ok.2 ⟨_, rfl, bind_eq_ok.2 ⟨_, parseRange_rangeText checked, rfl⟩⟩

/-! ## The settings of a configuration -/

namespace Setting

theorem group_valid (a : Setting) : a.group.Valid := by
  refine ⟨a.opt.lookup_spec, ?_⟩
  cases a with
  | input source => cases source <;> exact of_decide_eq_true rfl
  | memory | maxCycles | loadAddr | dumpMemory | dumpRange => exact of_decide_eq_true rfl
  | digest | trace | disassemble | quiet | demo => exact of_decide_eq_true rfl

theorem apply_group {a : Setting} (checked : a.Checked) (written : a.Written) (s : Parsing) :
    a.group.apply s = .ok (a.set s) := by
  have spelled : (a.value.elim Spelling.alone Spelling.joined).value = a.value := by
    cases a.value <;> rfl
  refine setOption_eq_ok.2 ⟨a, ?_, rfl⟩
  rw [spelled]
  exact setting_value checked written

def setAll (settings : List Setting) (s : Parsing) : Parsing :=
  settings.foldl (fun s a => a.set s) s

theorem setAll_append (settings settings' : List Setting) (s : Parsing) :
    setAll (settings ++ settings') s = setAll settings' (setAll settings s) :=
  List.foldl_append

theorem applyAll_groups {settings : List Setting}
    (each : ∀ a ∈ settings, a.Checked ∧ a.Written) (s : Parsing) :
    applyAll (settings.map group) s = .ok (setAll settings s) := by
  induction settings generalizing s with
  | nil => rfl
  | cons a settings ih =>
      obtain ⟨checked, written⟩ := each a (by simp)
      have others := ih (fun b listed => each b (by simp [listed])) (a.set s)
      rw [List.map_cons, applyAll_cons, apply_group checked written]
      exact others

end Setting

/-- Every option that the configuration differs from the defaults by, and its memory size. -/
def Settings.options (s : Settings) : List Setting :=
  [Setting.memory s.memory] ++ s.maxCycles.toList.map Setting.maxCycles ++
    s.input.toList.map Setting.input ++
    s.loadAddr.toList.map (fun addr => Setting.loadAddr addr (decimal addr.toNat)) ++
    s.dump.toList.map (fun dump => Setting.dumpMemory dump.format) ++
    (s.dump.bind Dump.range).toList.map (fun range => Setting.dumpRange range (rangeText range)) ++
    (if s.digest then [Setting.digest] else []) ++ (if s.trace then [Setting.trace] else []) ++
    (if s.disassemble then [Setting.disassemble] else []) ++
    (if s.quiet then [Setting.quiet] else []) ++
    (if s.program = .demo then [Setting.demo] else [])

/-- What the loop has parsed behind the options of a configuration. -/
def Settings.parsed (s : Settings) : Parsing where
  demo := s.program = .demo
  config := { s with program := .demo }
  loadAddrText := (s.loadAddr.map fun addr => decimal addr.toNat).getD []
  dumpRangeText := ((s.dump.bind Dump.range).map rangeText).getD []

/-- One field after the other. -/
theorem setAll_options (s : Settings) : Setting.setAll s.options {} = s.parsed := by
  obtain ⟨program, memory, disassemble, maxCycles, input, loadAddr, dump, digest, trace, quiet⟩ := s
  let withCycles : Settings := { program := .demo, memory, maxCycles }
  let withAddr : Settings := { withCycles with input, loadAddr }
  let addrText : Arg := (loadAddr.map fun addr => decimal addr.toNat).getD []
  let rangeText : Arg := ((dump.bind Dump.range).map rangeText).getD []
  have numbers : Setting.setAll (maxCycles.toList.map .maxCycles)
      { config := { program := .demo, memory } } = { config := withCycles } := by
    cases maxCycles <;> rfl
  have inputs : Setting.setAll (input.toList.map .input) { config := withCycles } =
      { config := { withCycles with input } } := by
    cases input <;> rfl
  have addrs : Setting.setAll
      (loadAddr.toList.map fun addr => .loadAddr addr (decimal addr.toNat))
      { config := { withCycles with input } } =
      { config := withAddr, loadAddrText := addrText } := by
    cases loadAddr <;> rfl
  have dumps : Setting.setAll
      ((dump.bind Dump.range).toList.map fun range => .dumpRange range (Args.rangeText range))
      (Setting.setAll (dump.toList.map fun dump => .dumpMemory dump.format)
        { config := withAddr, loadAddrText := addrText }) =
      { config := { withAddr with dump },
        loadAddrText := addrText, dumpRangeText := rangeText } := by
    rcases dump with _ | ⟨format, _ | range⟩ <;> rfl
  have flags : Setting.setAll (if program = .demo then [.demo] else [])
      (Setting.setAll (if quiet then [.quiet] else [])
        (Setting.setAll (if disassemble then [.disassemble] else [])
          (Setting.setAll (if trace then [.trace] else [])
            (Setting.setAll (if digest then [.digest] else [])
              { config := { withAddr with dump }, loadAddrText := addrText
                dumpRangeText := rangeText })))) =
      { demo := program = .demo
        config := { withAddr with dump, digest, trace, disassemble, quiet }
        loadAddrText := addrText, dumpRangeText := rangeText } := by
    cases digest <;> cases trace <;> cases disassemble <;> cases quiet <;> cases program <;> rfl
  have size : Setting.setAll [.memory memory] {} = { config := { program := .demo, memory } } := rfl
  rw [Settings.options]
  simp only [Setting.setAll_append]
  rw [size, numbers, inputs, addrs, dumps]
  exact flags

/-! ## The command line -/

/-- The program is behind the end of the options. -/
def Program.arguments : Program → List Arg
  | .demo => []
  | .file path => [endOfOptions, path]

/-- The arguments of a configuration, without the name of the program that runs. -/
def commandLine (s : Settings) : List Arg :=
  arguments (s.options.map Setting.group) ++ s.program.arguments

example : commandLine { program := .file (ascii "--demo"), maxCycles := some 16#64 } =
    [ascii "--memory=65536", ascii "--max-cycles=16", ascii "--", ascii "--demo"] := by
  decide +kernel

/-- What can be written as arguments. -/
structure Settings.Accepted (s : Settings) : Prop extends s.Sound where
  /-- `--input -` is the standard input. -/
  input : s.input ≠ some (.file [dash])

namespace Settings

variable {s : Settings}

theorem options_checked (accepted : s.Accepted) : ∀ a ∈ s.options, a.Checked ∧ a.Written := by
  intro a listed
  have flag : ∀ {c : Prop} [Decidable c] {b : Setting}, a ∈ (if c then [b] else []) → a = b := by
    intro c _ b listed
    split at listed
    · exact List.mem_singleton.1 listed
    · exact absurd listed List.not_mem_nil
  simp only [options, List.mem_append, List.mem_singleton, List.mem_map, Option.mem_toList,
    Option.bind_eq_some_iff] at listed
  rcases listed with (((((((((rfl | ⟨k, _, rfl⟩) | ⟨source, given, rfl⟩) | ⟨addr, given, rfl⟩) |
    ⟨dump, given, rfl⟩) | ⟨range, ⟨dump, given, within⟩, rfl⟩) | digest) | trace) | disassemble) |
    quiet) | demo
  · exact ⟨accepted.memory, trivial⟩
  · exact ⟨trivial, trivial⟩
  · exact ⟨trivial, fun dash => accepted.input (by rw [given, dash])⟩
  · exact ⟨(accepted.loadAddr addr given).1, rfl⟩
  · exact ⟨trivial, trivial⟩
  · have some := (accepted.dump dump given range within).1
    refine ⟨fun empty => ?_, rfl⟩
    rw [empty] at some
    exact absurd some (by decide)
  · cases flag digest
    exact ⟨trivial, trivial⟩
  · cases flag trace
    exact ⟨trivial, trivial⟩
  · cases flag disassemble
    exact ⟨trivial, trivial⟩
  · cases flag quiet
    exact ⟨trivial, trivial⟩
  · cases flag demo
    exact ⟨trivial, trivial⟩

/-- What the checks after the loop look at, besides the program. -/
theorem finishParsing_ok (sound : s.Sound) {t : Parsing}
    (config : t.config = { s with program := .demo }) (chosen : chooseProgram t = .ok s.program) :
    finishParsing t = .ok (.run s) := by
  have addr : checkLoadAddr t = .ok () := by
    unfold checkLoadAddr
    rw [config]
    cases given : s.loadAddr with
    | none => rfl
    | some addr =>
        refine failIf_eq_ok.2 ?_
        have inside := (sound.loadAddr addr given).2
        simpa [BitVec.le_def] using inside
  have range : checkDumpRange t = .ok () := by
    unfold checkDumpRange
    rw [config]
    rcases given : s.dump with _ | ⟨format, _ | range⟩
    · rfl
    · rfl
    · have inside := (sound.dump _ given range rfl).2
      have small : range.start.toNat + range.len.toNat < 2 ^ 64 := by omega
      exact bind_eq_ok.2 ⟨_, checkedAdd_ok small, failIf_eq_ok.2 (Nat.not_lt.2 inside)⟩
  have same : { t.config with program := s.program } = s := by rw [config]
  have lists : checkDisassemble s = .ok () := by
    unfold checkDisassemble
    split
    · rename_i lists
      obtain ⟨cycles, input, dump, digest, trace, quiet⟩ := sound.disassemble lists
      refine forM_eq_ok.2 ?_
      simp [runOptions, cycles, input, dump, digest, trace, quiet, failIf]
    · rfl
  refine bind_eq_ok.2 ⟨(), addr, bind_eq_ok.2 ⟨(), range, bind_eq_ok.2 ⟨_, chosen, ?_⟩⟩⟩
  rw [same]
  exact bind_eq_ok.2 ⟨(), lists, rfl⟩

/-- The loop and the checks after it give the configuration back. -/
theorem parseRest_commandLine (accepted : s.Accepted) :
    (parseRest (commandLine s) {} >>= finishParsing) = .ok (.run s) := by
  have valid : ∀ g ∈ s.options.map Setting.group, g.Valid := by
    intro g listed
    obtain ⟨a, _, rfl⟩ := List.mem_map.1 listed
    exact a.group_valid
  have options : parseRest (commandLine s) {} = parseRest s.program.arguments s.parsed := by
    rw [commandLine, parseRest_groups valid rfl,
      Setting.applyAll_groups (options_checked accepted), setAll_options]
    rfl
  rw [options]
  cases program : s.program with
  | demo =>
      refine bind_eq_ok.2 ⟨s.parsed, rfl, finishParsing_ok accepted.toSound rfl ?_⟩
      have unset := accepted.demo program
      simp [chooseProgram, parsed, program, unset]
  | file path =>
      have taken : parseRest [endOfOptions, path] s.parsed =
          .ok { s.parsed with optionsEnded := true, program := some path } := by
        rw [parseRest_endOfOptions rfl, parseRest, if_pos (.inl rfl)]
        rfl
      rw [Program.arguments, taken]
      refine finishParsing_ok accepted.toSound rfl ?_
      simp [chooseProgram, parsed, program]

end Settings

/-- No setting is written as an option for help or the version. -/
theorem Setting.not_help (a : Setting) : ∀ arg ∈ a.group.args, arg ∉ helpNames := by
  intro arg listed help
  obtain ⟨spec, known, before⟩ := mem_helpNames.1 help
  unfold group at listed
  cases value : a.value with
  | none =>
      rw [value] at listed
      have named : arg = a.opt.spec.name := List.mem_singleton.1 listed
      rw [named, a.opt.lookup_spec] at known
      cases known
      rw [Opt.spec_opt] at before
      cases a <;> rcases before with help | version <;> contradiction
  | some text =>
      rw [value] at listed
      have joined : arg = a.opt.spec.name ++ equalsSign :: text := List.mem_singleton.1 listed
      have plain := (name_of_lookup known).2.2
      rw [joined] at plain
      exact plain (by simp)

theorem scanCommand_commandLine (s : Settings) : scanCommand (commandLine s) = none := by
  refine scanCommand_eq_none.2 fun arg listed => ?_
  have front : arg ∈ arguments (s.options.map Setting.group) := by
    rw [commandLine, List.takeWhile_append] at listed
    split at listed
    · rename_i whole
      rcases List.mem_append.1 listed with front | rest
      · exact front
      · cases program : s.program with
        | demo => simp [program, Program.arguments] at rest
        | file path => simp [program, Program.arguments] at rest
    · exact (List.takeWhile_prefix _).subset listed
  obtain ⟨g, member, spelled⟩ := List.mem_flatMap.1 front
  obtain ⟨a, _, rfl⟩ := List.mem_map.1 member
  exact a.not_help arg spelled

/-- **The command line of a configuration is parsed to that configuration.** -/
theorem parses_commandLine {s : Settings} (accepted : s.Accepted) (exe : Arg) :
    Parses (exe :: commandLine s) (.ok (.run s)) := by
  have some : commandLine s ≠ [] := by
    intro empty
    have none : arguments (s.options.map Setting.group) = [] := (List.append_eq_nil_iff.1 empty).1
    simp [arguments, Settings.options, Setting.group, Setting.value, Group.args,
      Spelling.args] at none
  have more : ¬(exe :: commandLine s).length ≤ 1 := by
    have length := List.length_pos_iff.2 some
    rw [List.length_cons]
    omega
  rw [parses_iff, parseCommand, if_neg more, List.drop_one, List.tail_cons,
    scanCommand_commandLine]
  exact Settings.parseRest_commandLine accepted

/-- A run comes out of the loop. -/
theorem run_of_parses {args : List Arg} {s : Settings} (accepted : Parses args (.ok (.run s))) :
    ∃ t, parseRest (args.drop 1) {} = .ok t ∧ finishParsing t = .ok (.run s) := by
  rw [parses_iff, parseCommand] at accepted
  split at accepted
  · cases accepted
  · split at accepted
    · rename_i command scan
      cases accepted
      exact absurd scan (scanCommand_ne_run _ s)
    · exact bind_eq_ok.1 accepted

theorem finishParsing_input {t : Parsing} {s : Settings}
    (finished : finishParsing t = .ok (.run s)) : s.input = t.config.input := by
  obtain ⟨_, _, finished⟩ := bind_eq_ok.1 finished
  obtain ⟨_, _, finished⟩ := bind_eq_ok.1 finished
  obtain ⟨program, _, finished⟩ := bind_eq_ok.1 finished
  obtain ⟨_, _, finished⟩ := bind_eq_ok.1 finished
  cases finished
  rfl

/-- No option makes `-` the name of an input. -/
theorem parseRest_input {args : List Arg} {s : Parsing} (parsed : parseRest args {} = .ok s) :
    s.config.input ≠ some (.file [dash]) := by
  refine @parseRest_keeps (fun s => s.config.input ≠ some (.file [dash])) ?_
    (fun _ _ other => other) (fun _ other => other) args {} s rfl parsed (by decide)
  intro spec value a s checked other
  cases a with
  | input source =>
      have kind : Opt.input = spec.opt := (setting_eq_ok checked).1
      rw [setting, ← kind] at checked
      obtain ⟨path, _, read⟩ := bind_eq_ok.1 checked
      cases read
      intro same
      have same : (if path = [dash] then Input.stdin else .file path) = .file [dash] :=
        Option.some.inj same
      split at same
      · cases same
      · rename_i named
        exact named (Input.file.inj same)
  | memory | maxCycles | loadAddr | dumpMemory | dumpRange | digest | trace | disassemble | quiet
  | demo => exact other

/-- **The parser returns every configuration that is sound, and no other**, apart from the name
`-` of an input; and every one for its command line. -/
theorem accepted_iff (s : Settings) (exe : Arg) :
    ((∃ args, Parses args (.ok (.run s))) ↔ s.Accepted) ∧
      (Parses (exe :: commandLine s) (.ok (.run s)) ↔ s.Accepted) := by
  have only : ∀ {args}, Parses args (.ok (.run s)) → s.Accepted := by
    intro args parsed
    obtain ⟨t, loop, finished⟩ := run_of_parses parsed
    refine ⟨sound_of_parses parsed, ?_⟩
    rw [finishParsing_input finished]
    exact parseRest_input loop
  exact ⟨⟨fun ⟨_, parsed⟩ => only parsed, fun accepted => ⟨_, parses_commandLine accepted exe⟩⟩,
    only, fun accepted => parses_commandLine accepted exe⟩

end Args

end Determinant
