import Determinant.Cli.Groups

/-!
# When parsing traps

The loop traps at the options for help and the version, and nowhere else (`setting_trapFree`,
`Group.traps`, `finishParsing_trapFree`): they were handled by a scan before it. But the scan
stops at the first `--`, which the loop may take as the value of an option. So parsing traps
exactly on the arguments on which the loop gets to such an option behind that `--`
(`SkipsHelp`, `returns_iff`).
-/

set_option autoImplicit false

namespace Determinant

open Foundations

namespace Args

/-! ## Values -/

theorem failIf_trapFree (c : Prop) [Decidable c] (text : List Byte) : TrapFree (failIf c text) := by
  unfold failIf
  split
  · exact .returned _
  · exact .ok _

theorem number_trapFree (w : Nat) (text option : Arg) : TrapFree (number w text option) := by
  unfold number
  split
  · exact .returned _
  · split
    · exact .ok _
    · exact .returned _
    · exact .returned _

theorem sizeNumber_trapFree (text : Arg) (digits : List Byte) :
    TrapFree (sizeNumber text digits) := by
  unfold sizeNumber
  split
  · exact .ok _
  · exact .returned _
  · exact .returned _

/-- The cast comes after the check. -/
theorem memorySize_trapFree (text : Arg) : TrapFree (memorySize text) := by
  refine (failIf_trapFree _ _).bind fun _ _ => ?_
  refine (sizeNumber_trapFree _ _).bind fun n _ => ?_
  refine (failIf_trapFree _ _).bind fun _ _ => ?_
  refine (failIf_trapFree _ _).bind fun _ passed => ?_
  have small := failIf_eq_ok.1 passed
  refine (TrapFree.of_ok (checkedCast_ok (by omega))).bind fun _ _ => ?_
  exact (failIf_trapFree _ _).bind fun _ _ => .ok _

theorem parseRange_trapFree (text : Arg) : TrapFree (parseRange text) := by
  unfold parseRange
  split
  · exact .returned _
  · refine (number_trapFree _ _ _).bind fun _ _ => ?_
    refine (number_trapFree _ _ _).bind fun _ _ => ?_
    exact (failIf_trapFree _ _).bind fun _ _ => .ok _

theorem dumpFormat_trapFree (value : Option Arg) : TrapFree (dumpFormat value) := by
  unfold dumpFormat
  split
  · exact .ok _
  · split
    · exact .ok _
    · split
      · exact .ok _
      · exact .returned _

theorem unwrap_trapFree {value : Option Arg} (given : value.isSome = true) :
    TrapFree (unwrap value) := by
  cases value with
  | none => cases given
  | some a => exact .ok a

/-! ## Options -/

/-- The option is one that the scan is for. -/
def Opt.HandledBefore (opt : Opt) : Prop := opt = .help ∨ opt = .version

instance (opt : Opt) : Decidable opt.HandledBefore := inferInstanceAs (Decidable (_ ∨ _))

/-- **An option with its value does not trap, unless it was handled before.** -/
theorem setting_trapFree {spec : Spec} {value : Option Arg} (listed : spec ∈ specs)
    (given : spec.value = .required → value.isSome = true) (later : ¬spec.opt.HandledBefore) :
    TrapFree (setting spec value) := by
  have needs : ∀ spec ∈ specs,
      spec.opt = .memory ∨ spec.opt = .maxCycles ∨ spec.opt = .input ∨ spec.opt = .loadAddr ∨
        spec.opt = .dumpRange → spec.value = .required := by decide
  have unwraps := fun kind => unwrap_trapFree (given (needs spec listed kind))
  unfold setting
  cases kind : spec.opt with
  | memory =>
      refine (unwraps (by simp [kind])).bind fun _ _ => ?_
      exact (memorySize_trapFree _).bind fun _ _ => .ok _
  | maxCycles =>
      refine (unwraps (by simp [kind])).bind fun _ _ => ?_
      exact (number_trapFree _ _ _).bind fun _ _ => .ok _
  | input => exact (unwraps (by simp [kind])).bind fun _ _ => .ok _
  | loadAddr =>
      refine (unwraps (by simp [kind])).bind fun _ _ => ?_
      refine (number_trapFree _ _ _).bind fun _ _ => ?_
      exact (failIf_trapFree _ _).bind fun _ _ => .ok _
  | dumpMemory => exact (dumpFormat_trapFree _).bind fun _ _ => .ok _
  | dumpRange =>
      refine (unwraps (by simp [kind])).bind fun _ _ => ?_
      exact (parseRange_trapFree _).bind fun _ _ => .ok _
  | digest | trace | disassemble | quiet | demo => exact .ok _
  | help => exact absurd (.inl kind) later
  | version => exact absurd (.inr kind) later

/-- The names of the options that the scan is for. -/
def helpNames : List Arg := [ascii "--help", ascii "-h", ascii "--version"]

theorem mem_helpNames {name : Arg} :
    name ∈ helpNames ↔ ∃ spec, lookup name = some spec ∧ spec.opt.HandledBefore := by
  constructor
  · intro listed
    have found : ∀ name ∈ helpNames, ∃ spec ∈ specs, lookup name = some spec ∧
        spec.opt.HandledBefore := by decide
    obtain ⟨spec, _, known⟩ := found name listed
    exact ⟨spec, known⟩
  · rintro ⟨spec, known, before⟩
    have long : ∀ spec ∈ specs, spec.opt.HandledBefore → spec.name ∈ helpNames := by decide
    have short : ∀ spec ∈ specs, spec.opt.HandledBefore → ∀ name ∈ spec.short,
        name ∈ helpNames := by decide
    obtain ⟨listed, rfl | named⟩ := lookup_eq_some known
    · exact long spec listed before
    · exact short spec listed before name named

/-- They take no value. -/
theorem value_of_handledBefore {spec : Spec} (listed : spec ∈ specs)
    (before : spec.opt.HandledBefore) : spec.value = .none := by
  have all : ∀ spec ∈ specs, spec.opt.HandledBefore → spec.value = .none := by decide
  exact all spec listed before

/-! ## Groups that are accepted -/

/-- The option takes this value. -/
def Accepts (spec : Spec) (value : Option Arg) : Prop :=
  match spec.opt with
  | .memory => ∃ text ∈ value, ∃ size, memorySize text = .ok size
  | .maxCycles => ∃ text ∈ value, ∃ k, number 64 text spec.name = .ok k
  | .input => ∃ path, path ∈ value
  | .loadAddr => ∃ text ∈ value, ∃ addr, number 32 text spec.name = .ok addr ∧ addr.toNat % 2 = 0
  | .dumpMemory => ∃ format, dumpFormat value = .ok format
  | .dumpRange => ∃ text ∈ value, ∃ range, parseRange text = .ok range
  | .digest | .trace | .disassemble | .quiet | .demo => True
  | .help | .version => False

theorem unwrap_eq_ok {value : Option Arg} {text : Arg} :
    unwrap value = .ok text ↔ text ∈ value := by
  cases value <;> simp [unwrap, eq_comm]

theorem accepts_iff {spec : Spec} {value : Option Arg} :
    Accepts spec value ↔ ∃ a, setting spec value = .ok a := by
  unfold Accepts setting
  cases spec.opt with
  | help | version => simp
  | digest | trace | disassemble | quiet | demo => simp
  | memory | maxCycles | input | dumpMemory | dumpRange =>
      simp only [bind_eq_ok, unwrap_eq_ok, pure, Except.pure, Except.ok.injEq]
      tauto
  | loadAddr =>
      simp only [bind_eq_ok, unwrap_eq_ok, failIf_eq_ok, Decidable.not_not, exists_const, pure,
        Except.pure, Except.ok.injEq]
      tauto

namespace Group

/-- The option takes its value. -/
def Accepted : Group → Prop
  | program _ => True
  | option _ spec spelling => Accepts spec spelling.value

/-- **Only an option that was handled before traps.** -/
theorem apply_traps {g : Group} (valid : g.Valid) {s : Parsing} {t : Trap}
    (trapped : g.apply s = .error (.trapped t)) : ∃ name ∈ helpNames, g.args = [name] := by
  cases g with
  | program arg =>
      unfold apply positional at trapped
      cases first : s.program with
      | none => simp only [first, reduceCtorEq] at trapped
      | some first' => simp only [first, fail, reduceCtorEq, Except.error.injEq] at trapped
  | option name spec spelling =>
      obtain ⟨known, fits⟩ := valid
      have listed := (lookup_eq_some known).1
      by_cases before : spec.opt.HandledBefore
      · rw [value_of_handledBefore listed before] at fits
        cases spelling with
        | alone => exact ⟨name, mem_helpNames.2 ⟨spec, known, before⟩, rfl⟩
        | separate value => cases fits
        | joined value => exact absurd rfl fits
      · have given : spec.value = .required → spelling.value.isSome = true := by
          intro needs
          cases spelling with
          | alone => exact absurd needs fits
          | separate value | joined value => rfl
        have free := setting_trapFree listed given before
        rw [apply, setOption_eq] at trapped
        exact absurd trapped ((free.bind fun _ _ => .ok _) t)

theorem option_traps {name : Arg} (listed : name ∈ helpNames) {s : Parsing}
    (options : s.optionsEnded = false) (rest : List Arg) :
    parseRest (name :: rest) s = .error (.trapped .reachedUnreachable) := by
  obtain ⟨spec, known, before⟩ := mem_helpNames.1 listed
  have kind := value_of_handledBefore (lookup_eq_some known).1 before
  have valid : Valid (.option name spec .alone) := ⟨known, by simp [Spelling.Fits, kind]⟩
  have turn := parseRest_group valid options rest
  rw [apply, setOption] at turn
  rcases before with help | version
  · rw [help] at turn
    exact turn
  · rw [version] at turn
    exact turn

/-- The program argument of a group, if it is one. -/
def path : Group → Option Arg
  | program arg => some arg
  | option _ _ _ => none

end Group

/-- The program arguments. -/
def programs (groups : List Group) : List Arg := groups.filterMap Group.path

/-- **Groups pass when every option takes its value and there is one program at most**, with the
program from before them counted, by induction on the groups. -/
theorem applyAll_passes {groups : List Group} {s : Parsing} :
    (∃ t, applyAll groups s = .ok t) ↔
      (∀ g ∈ groups, g.Accepted) ∧ s.program.toList.length + (programs groups).length ≤ 1 := by
  induction groups generalizing s with
  | nil =>
      have one : s.program.toList.length ≤ 1 := by cases s.program <;> simp
      exact ⟨fun _ => ⟨by simp, one⟩, fun _ => ⟨s, rfl⟩⟩
  | cons g groups ih =>
      rw [List.forall_mem_cons]
      cases g with
      | program arg =>
          have count : programs (.program arg :: groups) = arg :: programs groups := rfl
          rw [count, List.length_cons]
          constructor
          · rintro ⟨u, passed⟩
            obtain ⟨t, applied, rest⟩ := bind_eq_ok.1 passed
            obtain ⟨none, rfl⟩ := Group.apply_program_eq_ok.1 applied
            obtain ⟨accepted, one⟩ := ih.1 ⟨u, rest⟩
            refine ⟨⟨trivial, accepted⟩, ?_⟩
            rw [none]
            simpa using one
          · rintro ⟨⟨_, accepted⟩, one⟩
            have none : s.program = none := by
              cases first : s.program with
              | none => rfl
              | some first' =>
                  rw [first, Option.toList_some, List.length_singleton] at one
                  omega
            rw [none] at one
            obtain ⟨u, passes⟩ := (ih (s := { s with program := some arg })).2
              ⟨accepted, by simpa using one⟩
            exact ⟨u, bind_eq_ok.2 ⟨_, Group.apply_program_eq_ok.2 ⟨none, rfl⟩, passes⟩⟩
      | option name spec spelling =>
          have count : programs (.option name spec spelling :: groups) = programs groups := rfl
          rw [count]
          constructor
          · rintro ⟨u, passed⟩
            obtain ⟨t, applied, rest⟩ := bind_eq_ok.1 passed
            obtain ⟨a, checked, rfl⟩ := Group.apply_option_eq_ok.1 applied
            obtain ⟨accepted, one⟩ := ih.1 ⟨u, rest⟩
            rw [Setting.set_program] at one
            exact ⟨⟨accepts_iff.2 ⟨a, checked⟩, accepted⟩, one⟩
          · rintro ⟨⟨first, accepted⟩, one⟩
            obtain ⟨a, checked⟩ := accepts_iff.1 first
            rw [← a.set_program s] at one
            obtain ⟨u, passes⟩ := ih.2 ⟨accepted, one⟩
            exact ⟨u, bind_eq_ok.2 ⟨_, Group.apply_option_eq_ok.2 ⟨a, checked, rfl⟩, passes⟩⟩

/-! ## The loop -/

theorem positional_trapFree (arg : Arg) (s : Parsing) : TrapFree (positional arg s) := by
  unfold positional
  split
  · exact .returned _
  · exact .ok _

/-- Behind the end of the options there are program arguments only. -/
theorem parseRest_ended {s : Parsing} (ended : s.optionsEnded = true) (args : List Arg) :
    TrapFree (parseRest args s) := by
  induction args generalizing s with
  | nil => exact .ok _
  | cons arg rest ih =>
      rw [parseRest, if_pos (.inl ended)]
      refine (positional_trapFree arg s).bind fun t passed => ?_
      obtain ⟨_, rfl⟩ := positional_eq_ok.1 passed
      exact ih ended

/-- **Where the loop traps**: at an option that was handled before, behind groups that pass, by
induction on the arguments. -/
theorem parseRest_traps {args : List Arg} {s : Parsing} (options : s.optionsEnded = false)
    {t : Trap} (trapped : parseRest args s = .error (.trapped t)) :
    ∃ groups name rest, args = arguments groups ++ name :: rest ∧ (∀ g ∈ groups, g.Valid) ∧
      (∃ u, applyAll groups s = .ok u) ∧ name ∈ helpNames := by
  induction args using induct_groups generalizing s with
  | nil => cases trapped
  | group g rest valid ih =>
      rw [parseRest_group valid options] at trapped
      rcases bind_eq_error.1 trapped with first | ⟨u, applied, later⟩
      · obtain ⟨name, listed, alone⟩ := Group.apply_traps valid first
        exact ⟨[], name, rest, by simp [alone, arguments], by simp, ⟨s, rfl⟩, listed⟩
      · obtain ⟨groups, name, rest', split, valid', ⟨v, passes⟩, listed⟩ :=
          ih ((Group.apply_options applied).trans options) later
        refine ⟨g :: groups, name, rest', ?_, ?_, ⟨v, bind_eq_ok.2 ⟨u, applied, passes⟩⟩, listed⟩
        · rw [split, arguments, arguments, List.flatMap_cons, List.append_assoc]
        · simpa [valid] using valid'
  | ended rest =>
      rw [parseRest_endOfOptions options] at trapped
      exact absurd trapped (parseRest_ended rfl rest t)
  | refused arg rest text fails =>
      rw [fails s options] at trapped
      cases trapped

/-! ## After the loop -/

theorem checkLoadAddr_trapFree (s : Parsing) : TrapFree (checkLoadAddr s) := by
  unfold checkLoadAddr
  split
  · exact failIf_trapFree _ _
  · exact .ok _

/-- The sum of two words is one of 64 bits. -/
theorem checkDumpRange_trapFree (s : Parsing) : TrapFree (checkDumpRange s) := by
  unfold checkDumpRange
  split
  · rename_i r _
    have small : r.start.toNat + r.len.toNat < 2 ^ 64 := by omega
    exact (TrapFree.of_ok (checkedAdd_ok small)).bind fun _ _ => failIf_trapFree _ _
  · exact .ok _

theorem chooseProgram_trapFree (s : Parsing) : TrapFree (chooseProgram s) := by
  unfold chooseProgram
  split
  · split
    · exact .returned _
    · split
      · exact .returned _
      · exact .ok _
  · split
    · exact .ok _
    · exact .returned _

theorem checkDisassemble_trapFree (config : Settings) : TrapFree (checkDisassemble config) := by
  unfold checkDisassemble
  split
  · exact .forM fun _ _ => failIf_trapFree _ _
  · exact .ok _

theorem finishParsing_trapFree (s : Parsing) : TrapFree (finishParsing s) := by
  refine (checkLoadAddr_trapFree s).bind fun _ _ => ?_
  refine (checkDumpRange_trapFree s).bind fun _ _ => ?_
  refine (chooseProgram_trapFree s).bind fun _ _ => ?_
  exact (checkDisassemble_trapFree _).bind fun _ _ => .ok _

/-! ## The scan before the loop -/

/-- The scan finds nothing when no option that it is for is in front of the first `--`. -/
theorem scanCommand_eq_none {args : List Arg} :
    scanCommand args = none ↔ ∀ arg ∈ args.takeWhile (· ≠ endOfOptions), arg ∉ helpNames := by
  induction args with
  | nil => simp [scanCommand]
  | cons arg rest ih =>
      rw [scanCommand]
      by_cases ended : arg = endOfOptions
      · simp [ended]
      · rw [if_neg ended, List.takeWhile_cons_of_pos (by simpa using ended),
          List.forall_mem_cons, ← ih, mem_helpNames]
        cases known : lookup arg with
        | none => simp
        | some spec =>
            cases kind : spec.opt <;> simp [Opt.HandledBefore, kind]

/-! ## The parser -/

/-- `parse` returns a command or a usage error. -/
def Returns (args : List Arg) : Prop := ∃ outcome, Parses args outcome ∧ TrapFree outcome

/-- Behind the name of the program that runs there are groups that are accepted, with one program
argument at most, and then an option for help or the version. In front of the first `--` there is
none. -/
def SkipsHelp (args : List Arg) : Prop :=
  ∃ groups name rest, args.drop 1 = arguments groups ++ name :: rest ∧
    (∀ g ∈ groups, g.Valid ∧ g.Accepted) ∧ (programs groups).length ≤ 1 ∧ name ∈ helpNames ∧
    ∀ arg ∈ (args.drop 1).takeWhile (· ≠ endOfOptions), arg ∉ helpNames

/-- Only the loop traps. -/
theorem parseCommand_traps {args : List Arg} {t : Trap} :
    parseCommand args = .error (.trapped t) ↔
      scanCommand (args.drop 1) = none ∧ parseRest (args.drop 1) {} = .error (.trapped t) := by
  unfold parseCommand
  by_cases few : args.length ≤ 1
  · rw [if_pos few, List.drop_eq_nil_of_le few]
    simp [parseRest]
  · rw [if_neg few]
    cases scanCommand (args.drop 1) with
    | some command => simp
    | none =>
        have free : ∀ s, finishParsing s ≠ .error (.trapped t) :=
          fun s => finishParsing_trapFree s t
        simp [bind_eq_error, free]

/-- Without `--` the scan sees every argument. -/
theorem parseCommand_trapFree {args : List Arg} (noEnd : endOfOptions ∉ args.drop 1) :
    TrapFree (parseCommand args) := by
  intro t trapped
  obtain ⟨hidden, trapped⟩ := parseCommand_traps.1 trapped
  obtain ⟨groups, name, rest, split, _, _, listed⟩ := parseRest_traps rfl trapped
  have all : (args.drop 1).takeWhile (· ≠ endOfOptions) = args.drop 1 := by
    refine List.takeWhile_eq_self_iff.2 fun arg member => ?_
    simpa using ne_of_mem_of_not_mem member noEnd
  have seen := scanCommand_eq_none.1 hidden name
  rw [all, split] at seen
  exact seen (by simp) listed

/-- **Parsing ends on all arguments, and it returns a command or a usage error unless the scan for
help and the version stops at a `--` that the loop takes as a value**, and the loop gets to an
option for help or the version behind it. -/
theorem returns_iff (args : List Arg) : Returns args ↔ ¬SkipsHelp args := by
  have outcome : Returns args ↔ TrapFree (parseCommand args) := by
    simp only [Returns, parses_iff, exists_eq_left']
  rw [outcome]
  constructor
  · rintro free ⟨groups, name, rest, split, valid, one, listed, hidden⟩
    refine free .reachedUnreachable (parseCommand_traps.2 ⟨scanCommand_eq_none.2 hidden, ?_⟩)
    obtain ⟨u, passes⟩ := (applyAll_passes (s := {})).2
      ⟨fun g member => (valid g member).2, by simpa using one⟩
    have options : u.optionsEnded = false := applyAll_options passes
    rw [split, parseRest_groups (fun g member => (valid g member).1) rfl, passes]
    exact Group.option_traps listed options rest
  · intro reached t trapped
    obtain ⟨hidden, trapped⟩ := parseCommand_traps.1 trapped
    obtain ⟨groups, name, rest, split, valid, passes, listed⟩ := parseRest_traps rfl trapped
    obtain ⟨accepted, one⟩ := applyAll_passes.1 passes
    exact reached ⟨groups, name, rest, split, fun g member => ⟨valid g member, accepted g member⟩,
      by simpa using one, listed, scanCommand_eq_none.1 hidden⟩

/-- `determinant --input -- --help` -/
theorem not_returns_input :
    ¬Returns [ascii "determinant", ascii "--input", endOfOptions, ascii "--help"] := by
  rintro ⟨outcome, parsed, free⟩
  rw [parses_iff] at parsed
  exact free .reachedUnreachable (parsed.symm.trans (by rfl))

end Args

end Determinant
