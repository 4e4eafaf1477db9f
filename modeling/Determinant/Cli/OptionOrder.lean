import Determinant.Cli.ParseSafety
import Determinant.Foundations.FallibleFolds

/-!
# The order of the options

What a group does to the state of the loop can be exchanged with what another group does, unless
both set the same option (`Group.exchange`). So when no option is repeated, the loop ends alike
on every permutation of the groups; the scan before it does too, when it can find one command
only (`scanCommand_perm`). Without a `--` nothing traps, and parsing has the same outcome for all
permutations (`parse_any_order`).
-/

set_option autoImplicit false

namespace Determinant

open Foundations

namespace Args

/-! ## Exchanging groups -/

namespace Group

/-- They do not set the same option. -/
def Independent (g h : Group) : Prop := ∀ a ∈ g.opt, ∀ b ∈ h.opt, a ≠ b

theorem Independent.symm {g h : Group} (independent : g.Independent h) : h.Independent g :=
  fun a setA b setB same => independent b setB a setA same.symm

/-- What two groups do in one order they do in the other. -/
theorem apply_swap {g h : Group} (independent : g.Independent h) {s u : Parsing}
    (applied : (g.apply s >>= h.apply) = .ok u) : (h.apply s >>= g.apply) = .ok u := by
  obtain ⟨t, first, second⟩ := bind_eq_ok.1 applied
  cases g with
  | program arg =>
      obtain ⟨free, rfl⟩ := apply_program_eq_ok.1 first
      cases h with
      | program arg' =>
          obtain ⟨taken, _⟩ := apply_program_eq_ok.1 second
          cases taken
      | option name spec spelling =>
          obtain ⟨a, checked, rfl⟩ := apply_option_eq_ok.1 second
          have unset : (a.set s).program = none := by rw [Setting.set_program, free]
          exact bind_eq_ok.2 ⟨_, apply_option_eq_ok.2 ⟨a, checked, rfl⟩,
            apply_program_eq_ok.2 ⟨unset, a.set_withProgram s (some arg)⟩⟩
  | option name spec spelling =>
      obtain ⟨a, checked, rfl⟩ := apply_option_eq_ok.1 first
      cases h with
      | program arg =>
          obtain ⟨free, rfl⟩ := apply_program_eq_ok.1 second
          rw [Setting.set_program] at free
          exact bind_eq_ok.2 ⟨_, apply_program_eq_ok.2 ⟨free, rfl⟩,
            apply_option_eq_ok.2 ⟨a, checked, (a.set_withProgram s (some arg)).symm⟩⟩
      | option name' spec' spelling' =>
          obtain ⟨b, checked', rfl⟩ := apply_option_eq_ok.1 second
          have different : b.opt ≠ a.opt := by
            rw [(setting_eq_ok checked).1, (setting_eq_ok checked').1]
            exact (independent spec.opt rfl spec'.opt rfl).symm
          exact bind_eq_ok.2 ⟨_, apply_option_eq_ok.2 ⟨b, checked', rfl⟩,
            apply_option_eq_ok.2 ⟨a, checked, Setting.set_comm b a different s⟩⟩

/-- **Independent groups can be exchanged.** -/
theorem exchange {g h : Group} (independent : g.Independent h) (s : Parsing) :
    Alike (g.apply s >>= h.apply) (h.apply s >>= g.apply) := fun _ =>
  ⟨apply_swap independent, apply_swap independent.symm⟩

end Group

/-- When no option is repeated, different groups are independent. -/
theorem independent_of_nodup {groups : List Group} (once : (groups.filterMap Group.opt).Nodup)
    {g h : Group} (listed : g ∈ groups) (listed' : h ∈ groups) (different : g ≠ h) :
    g.Independent h := by
  have pairs : groups.Pairwise Group.Independent := List.pairwise_filterMap.1 once
  have : Std.Symm Group.Independent := ⟨fun _ _ independent => independent.symm⟩
  exact pairs.forall listed listed' different

/-- **The loop ends alike on all permutations.** -/
theorem applyAll_perm {groups groups' : List Group} (perm : groups.Perm groups')
    (once : (groups.filterMap Group.opt).Nodup) (s : Parsing) :
    Alike (applyAll groups s) (applyAll groups' s) := by
  refine foldlM_perm perm (fun g listed h listed' s => ?_) s
  by_cases same : g = h
  · rw [same]
    exact .refl _
  · exact Group.exchange (independent_of_nodup once listed listed' same) s

/-! ## The scan before the loop -/

/-- The command of an argument that the scan is for. -/
def commandOf (arg : Arg) : Option Command :=
  match (lookup arg).map Spec.opt with
  | some .help => some .help
  | some .version => some .version
  | _ => none

theorem scanCommand_eq {args : List Arg} (noEnd : endOfOptions ∉ args) :
    scanCommand args = args.findSome? commandOf := by
  induction args with
  | nil => rfl
  | cons arg rest ih =>
      have notEnd : arg ≠ endOfOptions := fun same => noEnd (by simp [same])
      have noEnd : endOfOptions ∉ rest := fun listed => noEnd (by simp [listed])
      rw [scanCommand, if_neg notEnd, List.findSome?_cons, commandOf, ih noEnd]
      cases (lookup arg).map Spec.opt with
      | none => rfl
      | some opt => cases opt <;> rfl

theorem commandOf_cases {arg : Arg} {command : Command} (named : commandOf arg = some command) :
    command = .help ∧ arg ∈ [ascii "--help", ascii "-h"] ∨
      command = .version ∧ arg = ascii "--version" := by
  have help : ∀ spec ∈ specs, spec.opt = .help → spec.name ∈ [ascii "--help", ascii "-h"] ∧
      ∀ name ∈ spec.short, name ∈ [ascii "--help", ascii "-h"] := by decide
  have version : ∀ spec ∈ specs, spec.opt = .version →
      spec.name = ascii "--version" ∧ spec.short = none := by decide
  unfold commandOf at named
  cases known : lookup arg with
  | none =>
      rw [known] at named
      cases named
  | some spec =>
      rw [known, Option.map_some] at named
      obtain ⟨listed, spelled⟩ := lookup_eq_some known
      cases kind : spec.opt with
      | help =>
          rw [kind] at named
          cases named
          obtain ⟨long, short⟩ := help spec listed kind
          refine .inl ⟨rfl, ?_⟩
          rcases spelled with rfl | same
          · exact long
          · exact short arg same
      | version =>
          rw [kind] at named
          cases named
          obtain ⟨long, short⟩ := version spec listed kind
          refine .inr ⟨rfl, ?_⟩
          rcases spelled with rfl | same
          · exact long
          · rw [short] at same
            cases same
      | memory | maxCycles | input | loadAddr | dumpMemory | dumpRange | digest | trace
      | disassemble | quiet | demo =>
          rw [kind] at named
          cases named

/-- The scan finds the same command in any order of the arguments. -/
theorem scanCommand_perm {args args' : List Arg} (perm : args.Perm args')
    (noEnd : endOfOptions ∉ args)
    (one : ¬((∃ help ∈ [ascii "--help", ascii "-h"], help ∈ args) ∧ ascii "--version" ∈ args)) :
    scanCommand args = scanCommand args' := by
  have noEnd' : endOfOptions ∉ args' := fun listed => noEnd (perm.mem_iff.2 listed)
  rw [scanCommand_eq noEnd, scanCommand_eq noEnd']
  cases found : args.findSome? commandOf with
  | none =>
      rw [List.findSome?_eq_none_iff] at found
      exact (List.findSome?_eq_none_iff.2 fun arg listed => found arg (perm.mem_iff.2 listed)).symm
  | some command =>
      obtain ⟨arg, listed, named⟩ := List.exists_of_findSome?_eq_some found
      cases found' : args'.findSome? commandOf with
      | none =>
          rw [List.findSome?_eq_none_iff.1 found' arg (perm.mem_iff.1 listed)] at named
          cases named
      | some command' =>
          obtain ⟨arg', listed', named'⟩ := List.exists_of_findSome?_eq_some found'
          have listed' := perm.mem_iff.2 listed'
          rcases commandOf_cases named with ⟨rfl, help⟩ | ⟨rfl, rfl⟩
          · rcases commandOf_cases named' with ⟨rfl, _⟩ | ⟨rfl, rfl⟩
            · rfl
            · exact absurd ⟨⟨arg, help, listed⟩, listed'⟩ one
          · rcases commandOf_cases named' with ⟨rfl, help⟩ | ⟨rfl, _⟩
            · exact absurd ⟨⟨arg', help, listed'⟩, listed⟩ one
            · rfl

/-! ## The parser -/

/-- The same command, or usage errors. -/
def SameOutcome : Parser Command → Parser Command → Prop
  | .ok command, .ok command' => command = command'
  | .error (.returned _), .error (.returned _) => True
  | _, _ => False

theorem sameOutcome_of_alike {x y : Parser Command} (alike : Alike x y) (freeX : TrapFree x)
    (freeY : TrapFree y) : SameOutcome x y := by
  cases x with
  | ok command =>
      rw [(alike command).1 rfl]
      rfl
  | error e =>
      cases y with
      | ok command => cases (alike command).2 rfl
      | error e' =>
          cases e with
          | trapped t => exact absurd rfl (freeX t)
          | returned text =>
              cases e' with
              | trapped t => exact absurd rfl (freeY t)
              | returned text' => trivial

theorem arguments_perm {groups groups' : List Group} (perm : groups.Perm groups') :
    (arguments groups).Perm (arguments groups') := perm.flatMap_right _

theorem parseCommand_alike {groups groups' : List Group} (perm : groups.Perm groups')
    (valid : ∀ g ∈ groups, g.Valid) (once : (groups.filterMap Group.opt).Nodup)
    (scan : scanCommand (arguments groups) = scanCommand (arguments groups')) (exe : Arg) :
    Alike (parseCommand (exe :: arguments groups)) (parseCommand (exe :: arguments groups')) := by
  have valid' : ∀ g ∈ groups', g.Valid := fun g listed => valid g (perm.mem_iff.2 listed)
  have count := (arguments_perm perm).length_eq
  unfold parseCommand
  simp only [List.length_cons, count, List.drop_succ_cons, List.drop_zero, scan,
    parseRest_arguments valid, parseRest_arguments valid']
  split
  · exact .refl _
  · split
    · exact .refl _
    · exact (applyAll_perm perm once {}).bind _

/-- **The order of the options does not matter.** -/
theorem parse_any_order {groups groups' : List Group} (perm : groups.Perm groups')
    (valid : ∀ g ∈ groups, g.Valid) (once : (groups.filterMap Group.opt).Nodup)
    (noEnd : endOfOptions ∉ arguments groups)
    (one : ¬((∃ help ∈ [ascii "--help", ascii "-h"], help ∈ arguments groups) ∧
      ascii "--version" ∈ arguments groups)) (exe : Arg) :
    ∃ outcome outcome', Parses (exe :: arguments groups) outcome ∧
      Parses (exe :: arguments groups') outcome' ∧ SameOutcome outcome outcome' := by
  have args := arguments_perm perm
  have noEnd' : endOfOptions ∉ arguments groups' := fun listed => noEnd (args.mem_iff.2 listed)
  have scan := scanCommand_perm args noEnd one
  refine ⟨_, _, parses_iff.2 rfl, parses_iff.2 rfl, ?_⟩
  exact sameOutcome_of_alike (parseCommand_alike perm valid once scan exe)
    (parseCommand_trapFree noEnd) (parseCommand_trapFree noEnd')

/-- A dump inside a memory whose size comes last. -/
def sizeLast : List Group :=
  [.option (ascii "--dump-range") ⟨ascii "--dump-range", none, .dumpRange, .required⟩
      (.joined (ascii "0x3f0:16")),
    .program (ascii "a.bin"),
    .option (ascii "--memory") ⟨ascii "--memory", none, .memory, .required⟩
      (.separate (ascii "1KiB"))]

theorem parse_any_order_sizeLast :
    ∃ outcome outcome', Parses (ascii "determinant" :: arguments sizeLast) outcome ∧
      Parses (ascii "determinant" :: arguments sizeLast.reverse) outcome' ∧
      SameOutcome outcome outcome' :=
  parse_any_order sizeLast.reverse_perm.symm (by decide) (by decide) (by decide) (by decide) _

end Args

end Determinant
