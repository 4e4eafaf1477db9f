import Determinant.Cli.Settings

/-!
# Arguments in groups

The loop over the arguments reads them by their index. What it computes is a recursion on the
arguments that are left (`parseRest`, `ends_parseRest`); so the parser ends on all arguments, with
one outcome (`parses_iff`). The arguments come in groups, a group being a program argument or an
option with its value, in either spelling, and each turn of the loop takes one (`parseRest_group`).
-/

set_option autoImplicit false

namespace Determinant

open Foundations

namespace Args

/-! ## The arguments that are left -/

/-- The loop as a recursion. -/
def parseRest : List Arg → Parsing → Parser Parsing
  | [], s => .ok s
  | arg :: rest, s =>
      if s.optionsEnded ∨ ¬isOption arg then positional arg s >>= parseRest rest
      else if arg = endOfOptions then parseRest rest { s with optionsEnded := true }
      else match lookup (cutOption arg).1 with
        | none => fail (ascii "unknown option '" ++ arg ++ ascii "'")
        | some spec =>
            match spec.value, (cutOption arg).2, rest with
            | .none, some _, _ => fail (spec.name ++ ascii " takes no value")
            | .required, none, [] => fail (spec.name ++ ascii " needs a value")
            | .required, none, value :: rest => setOption spec (some value) s >>= parseRest rest
            | _, value, rest => setOption spec value s >>= parseRest rest

/-- A turn that ends at the index `j`, and the loop from there on. -/
theorem ends_of_turn {args : List Arg} {i j : Nat} {s : Parsing} (inside : i < args.length)
    {x : Parser Parsing} (turn : parseArg args i s = x >>= fun t => .ok (j, t))
    {rest : Parsing → Parser Parsing} (next : ∀ t, Ends (parseTurn args) (j + 1, t) (rest t)) :
    Ends (parseTurn args) (i, s) (x >>= rest) := by
  cases x with
  | error e =>
      refine ends_of_done ?_
      simp only [parseTurn, if_pos inside, turn]
      rfl
  | ok t =>
      refine ends_of_again ?_ (next t)
      simp only [parseTurn, if_pos inside, turn]
      rfl

/-- **The loop from an index on is the recursion on the arguments from there on**, by induction on
their number. -/
theorem ends_parseRest (args : List Arg) (i : Nat) (s : Parsing) :
    Ends (parseTurn args) (i, s) (parseRest (args.drop i) s) := by
  by_cases inside : i < args.length
  · have next := fun t => ends_parseRest args (i + 1) t
    have here : argAt args i = .ok args[i] := by
      rw [argAt, List.getElem?_eq_getElem inside]
    rw [List.drop_eq_getElem_cons inside, parseRest]
    split
    · rename_i isProgram
      refine ends_of_turn inside ?_ next
      simp only [parseArg, here, bind, Except.bind, if_pos isProgram]
      rfl
    · rename_i notProgram
      split
      · rename_i ended
        refine ends_of_turn (x := .ok _) inside ?_ next
        simp only [parseArg, here, bind, Except.bind, if_neg notProgram, if_pos ended]
        rfl
      · rename_i notEnd
        cases known : lookup (cutOption args[i]).1 with
        | none =>
            refine ends_of_turn (x := fail _) inside ?_ next
            simp only [parseArg, here, bind, Except.bind, if_neg notProgram, if_neg notEnd, known]
            rfl
        | some spec =>
            have turn : ∀ {j : Nat} {value : Option Arg},
                takeValue args i spec (cutOption args[i]).2 = .ok (value, j) →
                parseArg args i s = setOption spec value s >>= fun t => .ok (j, t) := by
              intro j value taken
              simp only [parseArg, here, bind, Except.bind, if_neg notProgram, if_neg notEnd, known,
                taken]
              rfl
            have refused : ∀ {text : List Byte},
                takeValue args i spec (cutOption args[i]).2 = fail text →
                parseArg args i s = fail text >>= fun t => .ok (i, t) := by
              intro text taken
              simp only [parseArg, here, bind, Except.bind, if_neg notProgram, if_neg notEnd, known,
                taken]
              rfl
            dsimp only
            cases kind : spec.value with
            | none =>
                cases inlineValue : (cutOption args[i]).2 with
                | none =>
                    have taken : takeValue args i spec (cutOption args[i]).2 = .ok (none, i) := by
                      simp [takeValue, kind, inlineValue]
                    exact ends_of_turn inside (turn taken) next
                | some value =>
                    have taken : takeValue args i spec (cutOption args[i]).2 =
                        fail (spec.name ++ ascii " takes no value") := by
                      simp [takeValue, kind, inlineValue]
                    exact ends_of_turn inside (refused taken) next
            | optional =>
                have taken : takeValue args i spec (cutOption args[i]).2 =
                    .ok ((cutOption args[i]).2, i) := by
                  simp [takeValue, kind]
                have ends := ends_of_turn inside (turn taken) next
                cases inlineValue : (cutOption args[i]).2 <;> rwa [inlineValue] at ends
            | required =>
                cases inlineValue : (cutOption args[i]).2 with
                | some value =>
                    have taken : takeValue args i spec (cutOption args[i]).2 =
                        .ok (some value, i) := by
                      simp [takeValue, kind, inlineValue]
                    exact ends_of_turn inside (turn taken) next
                | none =>
                    by_cases last : i + 1 = args.length
                    · have taken : takeValue args i spec (cutOption args[i]).2 =
                          fail (spec.name ++ ascii " needs a value") := by
                        simp [takeValue, kind, inlineValue, last]
                      rw [List.drop_eq_nil_of_le (Nat.le_of_eq last.symm)] at next ⊢
                      exact ends_of_turn inside (refused taken) next
                    · have more : i + 1 < args.length := by omega
                      have value : argAt args (i + 1) = .ok args[i + 1] := by
                        rw [argAt, List.getElem?_eq_getElem more]
                      have taken : takeValue args i spec (cutOption args[i]).2 =
                          .ok (some args[i + 1], i + 1) := by
                        simp only [takeValue, kind, inlineValue, if_neg last, value]
                        rfl
                      rw [List.drop_eq_getElem_cons more]
                      exact ends_of_turn inside (turn taken) fun t => ends_parseRest args (i + 2) t
  · rw [List.drop_eq_nil_of_le (Nat.not_lt.1 inside)]
    refine ends_of_done ?_
    simp only [parseTurn, if_neg inside]
    rfl
termination_by args.length - i

/-- The whole parser as a function. -/
def parseCommand (args : List Arg) : Parser Command :=
  if args.length ≤ 1 then .ok .usage
  else match scanCommand (args.drop 1) with
    | some command => .ok command
    | none => parseRest (args.drop 1) {} >>= finishParsing

/-- **The parser ends on all arguments, with one outcome.** -/
theorem parses_iff {args : List Arg} {outcome : Parser Command} :
    Parses args outcome ↔ parseCommand args = outcome := by
  unfold Parses parseWithin parseCommand
  by_cases few : args.length ≤ 1
  · simp only [if_pos few, exists_const, Option.some.injEq]
  · simp only [if_neg few]
    cases scanCommand (args.drop 1) with
    | some command => simp only [exists_const, Option.some.injEq]
    | none =>
        have loop := ends_parseRest args 1 {}
        constructor
        · rintro ⟨fuel, ran⟩
          obtain ⟨s, ends, rfl⟩ := Option.map_eq_some_iff.1 ran
          rw [Ends.unique loop ⟨fuel, ends⟩]
        · rintro rfl
          obtain ⟨fuel, ends⟩ := loop
          exact ⟨fuel, by rw [ends]; rfl⟩

/-! ## The names of the options -/

theorem lookup_eq_some {name : Arg} {spec : Spec} (known : lookup name = some spec) :
    spec ∈ specs ∧ (name = spec.name ∨ spec.short = some name) := by
  have found := List.find?_some known
  exact ⟨List.mem_of_find?_eq_some known, by simpa using found⟩

/-- A name is an option, not the end of the options, and has no `=` in it. -/
theorem name_of_lookup {name : Arg} {spec : Spec} (known : lookup name = some spec) :
    isOption name = true ∧ name ≠ endOfOptions ∧ equalsSign ∉ name := by
  have long : ∀ spec ∈ specs, isOption spec.name = true ∧ spec.name ≠ endOfOptions ∧
      equalsSign ∉ spec.name := by decide
  have short : ∀ spec ∈ specs, ∀ name ∈ spec.short, isOption name = true ∧
      name ≠ endOfOptions ∧ equalsSign ∉ name := by decide
  obtain ⟨listed, rfl | named⟩ := lookup_eq_some known
  · exact long spec listed
  · exact short spec listed name named

theorem isOption_append {name : Arg} (option : isOption name = true) (rest : List Byte) :
    isOption (name ++ rest) = true := by
  rw [isOption, decide_eq_true_iff] at option ⊢
  rw [List.length_append, List.head?_append, option.2]
  exact ⟨by omega, rfl⟩

theorem all_ne_equalsSign {name : Arg} (plain : equalsSign ∉ name) :
    ∀ c ∈ name, decide (c ≠ equalsSign) = true := by
  intro c listed
  rw [decide_eq_true_iff]
  rintro rfl
  exact plain listed

theorem cutOption_plain {name : Arg} (plain : equalsSign ∉ name) :
    cutOption name = (name, none) := by
  rw [cutOption, cutScalar, List.dropWhile_eq_nil_iff.2 (all_ne_equalsSign plain)]

theorem cutOption_joined {name : Arg} (plain : equalsSign ∉ name) (value : Arg) :
    cutOption (name ++ equalsSign :: value) = (name, some value) := by
  have all := all_ne_equalsSign plain
  rw [cutOption, cutScalar, List.dropWhile_append_of_pos all, List.takeWhile_append_of_pos all]
  simp

/-- Without a value the name is the argument. -/
theorem cutOption_none {arg : Arg} (plain : (cutOption arg).2 = none) :
    (cutOption arg).1 = arg := by
  unfold cutOption cutScalar at plain ⊢
  cases cut : arg.dropWhile (· ≠ equalsSign) with
  | nil => rfl
  | cons c rest =>
      rw [cut] at plain
      cases plain

/-- A value is behind the name and `=`. -/
theorem cutOption_some {arg value : Arg} (joined : (cutOption arg).2 = some value) :
    (cutOption arg).1 ++ equalsSign :: value = arg := by
  unfold cutOption cutScalar at joined ⊢
  have stopped := List.head?_dropWhile_not (· ≠ equalsSign) arg
  have split := List.takeWhile_append_dropWhile (p := (· ≠ equalsSign)) (l := arg)
  cases cut : arg.dropWhile (· ≠ equalsSign) with
  | nil =>
      rw [cut] at joined
      cases joined
  | cons c rest =>
      rw [cut] at joined stopped split
      cases joined
      have same : c = equalsSign := by simpa using stopped
      rwa [same] at split

/-! ## Groups -/

/-- How the value of an option is written, if there is one. -/
inductive Spelling where
  | alone
  | separate (value : Arg)
  | joined (value : Arg)
deriving DecidableEq

namespace Spelling

def args (name : Arg) : Spelling → List Arg
  | alone => [name]
  | separate value => [name, value]
  | joined value => [name ++ equalsSign :: value]

def value : Spelling → Option Arg
  | alone => none
  | separate value | joined value => some value

/-- An option that takes values so can be written so. -/
def Fits (kind : Value) : Spelling → Prop
  | alone => kind ≠ .required
  | separate _ => kind = .required
  | joined _ => kind ≠ .none

instance (kind : Value) : (spelling : Spelling) → Decidable (spelling.Fits kind)
  | alone => inferInstanceAs (Decidable (kind ≠ .required))
  | separate _ => inferInstanceAs (Decidable (kind = .required))
  | joined _ => inferInstanceAs (Decidable (kind ≠ .none))

end Spelling

/-- A program argument, or an option with its value. -/
inductive Group where
  | program (arg : Arg)
  | option (name : Arg) (spec : Spec) (spelling : Spelling)
deriving DecidableEq

namespace Group

def args : Group → List Arg
  | program arg => [arg]
  | option name _ spelling => spelling.args name

/-- The option has this name, and can be written so. -/
def Valid : Group → Prop
  | program arg => isOption arg = false
  | option name spec spelling => lookup name = some spec ∧ spelling.Fits spec.value

instance : (g : Group) → Decidable g.Valid
  | program arg => inferInstanceAs (Decidable (isOption arg = false))
  | option name spec spelling =>
      inferInstanceAs (Decidable (lookup name = some spec ∧ spelling.Fits spec.value))

/-- The option of a group, unless it is a program argument. -/
def opt : Group → Option Opt
  | program _ => none
  | option _ spec _ => some spec.opt

/-- What a group does to the state of the loop. -/
def apply : Group → Parsing → Parser Parsing
  | program arg => positional arg
  | option _ spec spelling => setOption spec spelling.value

end Group

def applyAll (groups : List Group) (s : Parsing) : Parser Parsing :=
  groups.foldlM (fun s g => g.apply s) s

theorem applyAll_cons (g : Group) (groups : List Group) (s : Parsing) :
    applyAll (g :: groups) s = g.apply s >>= applyAll groups := rfl

/-- The arguments of groups. -/
def arguments (groups : List Group) : List Arg := groups.flatMap Group.args

/-- **A turn of the loop takes a group.** -/
theorem parseRest_group {g : Group} (valid : g.Valid) {s : Parsing}
    (options : s.optionsEnded = false) (rest : List Arg) :
    parseRest (g.args ++ rest) s = g.apply s >>= parseRest rest := by
  cases g with
  | program arg =>
      have notOption : isOption arg = false := valid
      have isProgram : s.optionsEnded = true ∨ ¬isOption arg = true := .inr (by simp [notOption])
      simp only [Group.args, List.singleton_append, parseRest, if_pos isProgram]
      rfl
  | option name spec spelling =>
      obtain ⟨known, fits⟩ := valid
      obtain ⟨option, notEnd, plain⟩ := name_of_lookup known
      cases spelling with
      | alone =>
          have enter : ¬(s.optionsEnded = true ∨ ¬isOption name = true) := by
            simp [options, option]
          simp only [Group.args, Spelling.args, List.singleton_append, parseRest, if_neg enter,
            if_neg notEnd, cutOption_plain plain, known]
          cases kind : spec.value with
          | required => exact absurd kind fits
          | none | optional => rfl
      | separate value =>
          have enter : ¬(s.optionsEnded = true ∨ ¬isOption name = true) := by
            simp [options, option]
          have kind : spec.value = .required := fits
          simp only [Group.args, Spelling.args, List.cons_append, List.nil_append, parseRest,
            if_neg enter, if_neg notEnd, cutOption_plain plain, known, kind]
          rfl
      | joined value =>
          have option := isOption_append option (equalsSign :: value)
          have notEnd : name ++ equalsSign :: value ≠ endOfOptions := by
            intro same
            have listed : equalsSign ∈ endOfOptions := same ▸ by simp
            exact absurd listed (by decide)
          have enter : ¬(s.optionsEnded = true ∨
              ¬isOption (name ++ equalsSign :: value) = true) := by
            simp [options, option]
          simp only [Group.args, Spelling.args, List.singleton_append, parseRest, if_neg enter,
            if_neg notEnd, cutOption_joined plain, known]
          cases kind : spec.value with
          | none => exact absurd kind fits
          | required | optional => rfl

/-- **What the arguments begin with**, in front of the end of the options: a group, the end of the
options, or an argument that is refused in any state. -/
theorem parseRest_cases (arg : Arg) (rest : List Arg) :
    (∃ g rest', Group.Valid g ∧ arg :: rest = g.args ++ rest') ∨ arg = endOfOptions ∨
      ∃ text, ∀ s : Parsing, s.optionsEnded = false → parseRest (arg :: rest) s = fail text := by
  by_cases option : isOption arg = true
  swap
  · exact .inl ⟨.program arg, rest, by simpa [Group.Valid] using option, rfl⟩
  by_cases ended : arg = endOfOptions
  · exact .inr (.inl ended)
  have enter : ∀ s : Parsing, s.optionsEnded = false →
      ¬(s.optionsEnded = true ∨ ¬isOption arg = true) := by
    intro s options
    simp [options, option]
  cases known : lookup (cutOption arg).1 with
  | none =>
      refine .inr (.inr ⟨ascii "unknown option '" ++ arg ++ ascii "'", fun s options => ?_⟩)
      simp only [parseRest, if_neg (enter s options), if_neg ended, known]
  | some spec =>
      cases inlineValue : (cutOption arg).2 with
      | none =>
          have named := cutOption_none inlineValue
          by_cases needs : spec.value = .required
          · cases rest with
            | nil =>
                refine .inr (.inr ⟨spec.name ++ ascii " needs a value", fun s options => ?_⟩)
                simp only [parseRest, if_neg (enter s options), if_neg ended, known, needs,
                  inlineValue]
            | cons value rest =>
                rw [named] at known
                exact .inl ⟨.option arg spec (.separate value), rest, ⟨known, needs⟩, rfl⟩
          · rw [named] at known
            exact .inl ⟨.option arg spec .alone, rest, ⟨known, needs⟩, rfl⟩
      | some value =>
          have joined := cutOption_some inlineValue
          by_cases refuses : spec.value = .none
          · refine .inr (.inr ⟨spec.name ++ ascii " takes no value", fun s options => ?_⟩)
            simp only [parseRest, if_neg (enter s options), if_neg ended, known, refuses,
              inlineValue]
          · refine .inl ⟨.option _ spec (.joined value), rest, ⟨known, refuses⟩, ?_⟩
            rw [Group.args, Spelling.args, joined]
            rfl

theorem Group.args_length (g : Group) : 0 < g.args.length := by
  cases g with
  | program arg => exact Nat.one_pos
  | option name spec spelling => cases spelling <;> exact Nat.succ_pos _

/-- **Induction over the arguments**, a group at a time. -/
theorem induct_groups {motive : List Arg → Prop} (nil : motive [])
    (group : ∀ g rest, Group.Valid g → motive rest → motive (g.args ++ rest))
    (ended : ∀ rest, motive (endOfOptions :: rest))
    (refused : ∀ arg rest text, (∀ s : Parsing, s.optionsEnded = false →
      parseRest (arg :: rest) s = fail text) → motive (arg :: rest))
    (args : List Arg) : motive args := by
  induction count : args.length using Nat.strong_induction_on generalizing args with
  | _ k ih =>
    cases args with
    | nil => exact nil
    | cons arg rest =>
        rcases parseRest_cases arg rest with ⟨g, rest', valid, split⟩ | rfl | ⟨text, fails⟩
        · rw [split] at count ⊢
          have one := g.args_length
          rw [List.length_append] at count
          exact group g rest' valid (ih _ (by omega) rest' rfl)
        · exact ended rest
        · exact refused arg rest text fails

/-- There is at most one program argument. -/
theorem positional_eq_ok {arg : Arg} {s t : Parsing} :
    positional arg s = .ok t ↔ s.program = none ∧ t = { s with program := some arg } := by
  unfold positional
  cases s.program with
  | none => simp [eq_comm]
  | some first => simp [fail]

theorem Group.apply_program_eq_ok {arg : Arg} {s t : Parsing} :
    (program arg).apply s = .ok t ↔ s.program = none ∧ t = { s with program := some arg } :=
  positional_eq_ok

theorem Group.apply_option_eq_ok {name : Arg} {spec : Spec} {spelling : Spelling}
    {s t : Parsing} :
    (option name spec spelling).apply s = .ok t ↔
      ∃ a, setting spec spelling.value = .ok a ∧ t = a.set s :=
  setOption_eq_ok

/-- The options do not end in a group. -/
theorem Group.apply_options {g : Group} {s t : Parsing} (applied : g.apply s = .ok t) :
    t.optionsEnded = s.optionsEnded := by
  cases g with
  | program arg =>
      obtain ⟨_, rfl⟩ := apply_program_eq_ok.1 applied
      rfl
  | option name spec spelling =>
      obtain ⟨a, _, rfl⟩ := apply_option_eq_ok.1 applied
      exact a.set_optionsEnded s

theorem applyAll_options {groups : List Group} {s t : Parsing}
    (applied : applyAll groups s = .ok t) : t.optionsEnded = s.optionsEnded := by
  induction groups generalizing s with
  | nil =>
      cases applied
      rfl
  | cons g groups ih =>
      obtain ⟨u, first, rest⟩ := bind_eq_ok.1 applied
      exact (ih rest).trans (Group.apply_options first)

/-- **The loop takes one group after the other**, by induction on the groups. -/
theorem parseRest_groups {groups : List Group} (valid : ∀ g ∈ groups, g.Valid) {s : Parsing}
    (options : s.optionsEnded = false) (rest : List Arg) :
    parseRest (arguments groups ++ rest) s = applyAll groups s >>= parseRest rest := by
  induction groups generalizing s with
  | nil => rfl
  | cons g groups ih =>
      have first := valid g (by simp)
      have others : ∀ g ∈ groups, g.Valid := fun g listed => valid g (by simp [listed])
      rw [arguments, List.flatMap_cons, List.append_assoc, parseRest_group first options,
        applyAll_cons]
      cases applied : g.apply s with
      | error e => rfl
      | ok t => exact ih others ((Group.apply_options applied).trans options)

/-- Groups only. -/
theorem parseRest_arguments {groups : List Group} (valid : ∀ g ∈ groups, g.Valid) :
    parseRest (arguments groups) {} = applyAll groups {} := by
  have loop := parseRest_groups valid (s := {}) rfl []
  rw [List.append_nil] at loop
  rw [loop]
  cases applyAll groups {} <;> rfl

/-! ## Invariants of the loop -/

theorem parseRest_endOfOptions {s : Parsing} (options : s.optionsEnded = false)
    (rest : List Arg) :
    parseRest (endOfOptions :: rest) s = parseRest rest { s with optionsEnded := true } := by
  have enter : ¬(s.optionsEnded = true ∨ ¬isOption endOfOptions = true) := by
    rw [options]
    decide
  rw [parseRest, if_neg enter, if_pos rfl]

section Invariant

variable {inv : Parsing → Prop}
  (sets : ∀ spec value (a : Setting) s, setting spec value = .ok a → inv s → inv (a.set s))
  (program : ∀ (s : Parsing) arg, inv s → inv { s with program := some arg })

include program in
theorem parseRest_ended_invariant {args : List Arg} {s t : Parsing}
    (ended : s.optionsEnded = true) (parsed : parseRest args s = .ok t) (start : inv s) :
    inv t := by
  induction args generalizing s with
  | nil =>
      cases parsed
      exact start
  | cons arg rest ih =>
      rw [parseRest, if_pos (.inl ended)] at parsed
      obtain ⟨u, first, parsed⟩ := bind_eq_ok.1 parsed
      obtain ⟨_, rfl⟩ := positional_eq_ok.1 first
      exact ih (s := { s with program := some arg }) ended parsed (program s arg start)

include sets program in
/-- **What every option and every program argument keeps** holds after the loop, by induction on
the arguments. -/
theorem parseRest_keeps (endsOptions : ∀ s, inv s → inv { s with optionsEnded := true })
    {args : List Arg} {s t : Parsing} (options : s.optionsEnded = false)
    (parsed : parseRest args s = .ok t) (start : inv s) : inv t := by
  induction args using induct_groups generalizing s with
  | nil =>
      cases parsed
      exact start
  | group g rest valid ih =>
      rw [parseRest_group valid options] at parsed
      obtain ⟨u, applied, parsed⟩ := bind_eq_ok.1 parsed
      refine ih ((Group.apply_options applied).trans options) parsed ?_
      cases g with
      | program arg =>
          obtain ⟨_, rfl⟩ := Group.apply_program_eq_ok.1 applied
          exact program s arg start
      | option name spec spelling =>
          obtain ⟨a, checked, rfl⟩ := Group.apply_option_eq_ok.1 applied
          exact sets spec spelling.value a s checked start
  | ended rest =>
      rw [parseRest_endOfOptions options] at parsed
      exact parseRest_ended_invariant program rfl parsed (endsOptions s start)
  | refused arg rest text fails =>
      rw [fails s options] at parsed
      cases parsed

end Invariant

/-- For what every setting keeps whose value is checked. -/
theorem parseRest_invariant {inv : Parsing → Prop}
    (sets : ∀ (a : Setting) s, a.Checked → inv s → inv (a.set s))
    (program : ∀ (s : Parsing) arg, inv s → inv { s with program := some arg })
    (endsOptions : ∀ s, inv s → inv { s with optionsEnded := true })
    {args : List Arg} {s t : Parsing} (options : s.optionsEnded = false)
    (parsed : parseRest args s = .ok t) (start : inv s) : inv t :=
  parseRest_keeps (fun _ _ a s checked => sets a s (setting_eq_ok checked).2) program endsOptions
    options parsed start

end Args

end Determinant
