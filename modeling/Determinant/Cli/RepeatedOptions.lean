import Determinant.Cli.AcceptedConfig
import Determinant.Cli.OptionOrder

/-!
# Repeated options

Of an option that is given more than once the last one counts. What comes before it is checked and
then overwritten: a setting that another one of its option follows makes no difference to the
state behind them (`applyAll_absorbs`). So arguments are parsed as those without the occurrences
that are followed by others are, when every occurrence takes its value (`last_wins`).
-/

set_option autoImplicit false

namespace Determinant

open Foundations

namespace Args

/-- **A setting overwrites another of its option**, and nothing else of what was set in between is
needed. -/
theorem Setting.set_absorbs (a b : Setting) (same : a.opt = b.opt) (s : Parsing) :
    b.set (a.set s) = b.set s := by
  cases a <;> cases b <;> first | rfl | cases same

/-- The groups without the options that are given again later. -/
def lastOnly : List Group → List Group
  | [] => []
  | g :: rest =>
      if ∃ o ∈ g.opt, o ∈ rest.filterMap Group.opt then lastOnly rest else g :: lastOnly rest

example : lastOnly [.option (ascii "-q") ⟨ascii "--quiet", some (ascii "-q"), .quiet, .none⟩ .alone,
      .program (ascii "a.bin"),
      .option (ascii "--quiet") ⟨ascii "--quiet", some (ascii "-q"), .quiet, .none⟩ .alone] =
    [.program (ascii "a.bin"),
      .option (ascii "--quiet") ⟨ascii "--quiet", some (ascii "-q"), .quiet, .none⟩ .alone] := by
  decide +kernel

theorem lastOnly_sublist (groups : List Group) : (lastOnly groups).Sublist groups := by
  induction groups with
  | nil => exact .slnil
  | cons g rest ih =>
      rw [lastOnly]
      split
      · exact ih.cons g
      · exact ih.cons_cons g

theorem lastOnly_eq_nil {groups : List Group} (none : lastOnly groups = []) : groups = [] := by
  induction groups with
  | nil => rfl
  | cons g rest ih =>
      rw [lastOnly] at none
      split at none
      · rename_i again
        obtain ⟨o, _, later⟩ := again
        rw [ih none] at later
        cases later
      · cases none

namespace Group

/-- A group of another option does the same to a state that a setting was made in. -/
theorem apply_set {g : Group} {a : Setting} (other : a.opt ∉ g.opt) {s u : Parsing} :
    g.apply (a.set s) = .ok u ↔ ∃ t, g.apply s = .ok t ∧ u = a.set t := by
  cases g with
  | program arg =>
      simp only [apply_program_eq_ok, Setting.set_program]
      constructor
      · rintro ⟨free, rfl⟩
        exact ⟨_, ⟨free, rfl⟩, (a.set_withProgram s (some arg)).symm⟩
      · rintro ⟨t, ⟨free, rfl⟩, rfl⟩
        exact ⟨free, a.set_withProgram s (some arg)⟩
  | option name spec spelling =>
      simp only [apply_option_eq_ok]
      have different : ∀ {b}, setting spec spelling.value = .ok b → b.opt ≠ a.opt := by
        intro b checked same
        rw [(setting_eq_ok checked).1] at same
        exact other (by rw [← same]; rfl)
      constructor
      · rintro ⟨b, checked, rfl⟩
        exact ⟨_, ⟨b, checked, rfl⟩, Setting.set_comm b a (different checked) s⟩
      · rintro ⟨t, ⟨b, checked, rfl⟩, rfl⟩
        exact ⟨b, checked, (Setting.set_comm b a (different checked) s).symm⟩

end Group

/-- **A setting that another of its option follows makes no difference**, by induction on the
groups up to that one. -/
theorem applyAll_absorbs {groups : List Group} {a : Setting}
    (again : a.opt ∈ groups.filterMap Group.opt) {s u : Parsing} :
    applyAll groups (a.set s) = .ok u ↔ applyAll groups s = .ok u := by
  induction groups generalizing s with
  | nil => cases again
  | cons g rest ih =>
      simp only [applyAll_cons, bind_eq_ok]
      by_cases here : a.opt ∈ g.opt
      · cases g with
        | program arg => cases here
        | option name spec spelling =>
            have same : spec.opt = a.opt := Option.some.inj here
            have absorbs : ∀ {b}, setting spec spelling.value = .ok b →
                b.set (a.set s) = b.set s := by
              intro b checked
              exact a.set_absorbs b (same.symm.trans (setting_eq_ok checked).1.symm) s
            simp only [Group.apply_option_eq_ok]
            constructor
            · rintro ⟨t, ⟨b, checked, rfl⟩, rest⟩
              rw [absorbs checked] at rest
              exact ⟨_, ⟨b, checked, rfl⟩, rest⟩
            · rintro ⟨t, ⟨b, checked, rfl⟩, rest⟩
              rw [← absorbs checked] at rest
              exact ⟨_, ⟨b, checked, rfl⟩, rest⟩
      · have later : a.opt ∈ rest.filterMap Group.opt := by
          obtain ⟨h, listed, sets⟩ := List.mem_filterMap.1 again
          rcases List.mem_cons.1 listed with rfl | listed
          · exact absurd sets here
          · exact List.mem_filterMap.2 ⟨h, listed, sets⟩
        constructor
        · rintro ⟨t, applied, rest⟩
          obtain ⟨t, first, rfl⟩ := (Group.apply_set here).1 applied
          exact ⟨t, first, (ih later).1 rest⟩
        · rintro ⟨t, first, rest⟩
          exact ⟨_, (Group.apply_set here).2 ⟨t, first, rfl⟩, (ih later).2 rest⟩

/-- **Only the last of each option counts, and each is checked**, by induction on the groups. -/
theorem applyAll_lastOnly {groups : List Group} {s u : Parsing} :
    applyAll groups s = .ok u ↔
      (∀ g ∈ groups, g.Accepted) ∧ applyAll (lastOnly groups) s = .ok u := by
  induction groups generalizing s with
  | nil => simp [lastOnly]
  | cons g rest ih =>
      rw [lastOnly, List.forall_mem_cons]
      split
      · rename_i again
        obtain ⟨o, sets, later⟩ := again
        cases g with
        | program arg => cases sets
        | option name spec spelling =>
            have same : spec.opt = o := Option.some.inj sets
            have absorbs : ∀ {a}, setting spec spelling.value = .ok a →
                (applyAll rest (a.set s) = .ok u ↔ applyAll rest s = .ok u) := by
              intro a checked
              refine applyAll_absorbs ?_
              rwa [(setting_eq_ok checked).1, same]
            have accepted : Group.Accepted (.option name spec spelling) ↔
                ∃ a, setting spec spelling.value = .ok a := accepts_iff
            rw [accepted, and_assoc, ← ih, applyAll_cons, bind_eq_ok]
            simp only [Group.apply_option_eq_ok]
            constructor
            · rintro ⟨t, ⟨a, checked, rfl⟩, rest⟩
              exact ⟨⟨a, checked⟩, (absorbs checked).1 rest⟩
            · rintro ⟨⟨a, checked⟩, rest⟩
              exact ⟨_, ⟨a, checked, rfl⟩, (absorbs checked).2 rest⟩
      · have accepted : ∀ {t}, g.apply s = .ok t → g.Accepted := by
          intro t applied
          cases g with
          | program arg => trivial
          | option name spec spelling =>
              obtain ⟨a, checked, _⟩ := Group.apply_option_eq_ok.1 applied
              exact accepts_iff.2 ⟨a, checked⟩
        simp only [applyAll_cons, bind_eq_ok]
        constructor
        · rintro ⟨t, first, rest⟩
          obtain ⟨each, rest⟩ := ih.1 rest
          exact ⟨⟨accepted first, each⟩, t, first, rest⟩
        · rintro ⟨⟨_, each⟩, t, first, rest⟩
          exact ⟨t, first, ih.2 ⟨each, rest⟩⟩

/-- Without the names of the options for help and the version the scan finds nothing. -/
theorem scanCommand_none {args : List Arg} (noHelp : ∀ arg ∈ args, arg ∉ helpNames) :
    scanCommand args = none :=
  scanCommand_eq_none.2 fun arg listed => noHelp arg ((List.takeWhile_prefix _).subset listed)

/-- Groups that are parsed to a run. -/
theorem parses_arguments {groups : List Group} (valid : ∀ g ∈ groups, g.Valid)
    (noHelp : ∀ arg ∈ arguments groups, arg ∉ helpNames) {exe : Arg} {settings : Settings} :
    Parses (exe :: arguments groups) (.ok (.run settings)) ↔
      groups ≠ [] ∧ ∃ s, applyAll groups {} = .ok s ∧ finishParsing s = .ok (.run settings) := by
  rw [parses_iff, parseCommand, List.length_cons, List.drop_one, List.tail_cons,
    scanCommand_none noHelp, parseRest_arguments valid]
  cases groups with
  | nil => simp [arguments]
  | cons g rest =>
      have more : ¬(arguments (g :: rest)).length + 1 ≤ 1 := by
        have some := g.args_length
        rw [arguments, List.flatMap_cons, List.length_append]
        omega
      rw [if_neg more]
      simp only [bind_eq_ok, ne_eq, reduceCtorEq, not_false_eq_true, true_and]

/-- **Of a repeated option the last one counts, and each one is checked.** No argument is a
name of the options for help and the version, which win wherever they are in front of a `--`. -/
theorem last_wins {groups : List Group} (valid : ∀ g ∈ groups, g.Valid)
    (noHelp : ∀ arg ∈ arguments groups, arg ∉ helpNames) (exe : Arg) (settings : Settings) :
    Parses (exe :: arguments groups) (.ok (.run settings)) ↔
      (∀ g ∈ groups, g.Accepted) ∧
        Parses (exe :: arguments (lastOnly groups)) (.ok (.run settings)) := by
  have listed := (lastOnly_sublist groups).subset
  have validLast : ∀ g ∈ lastOnly groups, g.Valid := fun g member => valid g (listed member)
  have noHelpLast : ∀ arg ∈ arguments (lastOnly groups), arg ∉ helpNames := by
    intro arg member
    obtain ⟨g, inside, spelled⟩ := List.mem_flatMap.1 member
    exact noHelp arg (List.mem_flatMap.2 ⟨g, listed inside, spelled⟩)
  have some : lastOnly groups ≠ [] ↔ groups ≠ [] :=
    not_congr ⟨lastOnly_eq_nil, by rintro rfl; rfl⟩
  rw [parses_arguments valid noHelp, parses_arguments validLast noHelpLast, some]
  constructor
  · rintro ⟨given, s, applied, finished⟩
    obtain ⟨each, applied⟩ := applyAll_lastOnly.1 applied
    exact ⟨each, given, s, applied, finished⟩
  · rintro ⟨each, given, s, applied, finished⟩
    exact ⟨given, s, applyAll_lastOnly.2 ⟨each, applied⟩, finished⟩

/-- Two memory sizes. -/
def twoSizes : List Group :=
  [.program (ascii "p.bin"),
    .option (ascii "--memory") ⟨ascii "--memory", none, .memory, .required⟩
      (.separate (ascii "1MiB")),
    .option (ascii "--memory") ⟨ascii "--memory", none, .memory, .required⟩
      (.joined (ascii "2KiB"))]

/-- The second one counts. -/
theorem last_wins_twoSizes :
    Parses (ascii "determinant" :: arguments twoSizes)
      (.ok (.run { program := .file (ascii "p.bin"), memory := 2048#32 })) := by
  have alone : Parses (ascii "determinant" :: arguments (lastOnly twoSizes))
      (.ok (.run { program := .file (ascii "p.bin"), memory := 2048#32 })) :=
    parses_iff.2 (by decide +kernel)
  have accepted : ∀ g ∈ twoSizes, g.Accepted := by
    intro g listed
    simp only [twoSizes, List.mem_cons, List.not_mem_nil, or_false] at listed
    rcases listed with rfl | rfl | rfl
    · trivial
    · exact ⟨ascii "1MiB", rfl, 1048576#32, rfl⟩
    · exact ⟨ascii "2KiB", rfl, 2048#32, rfl⟩
  exact (last_wins (by decide) (by decide) _ _).2 ⟨accepted, alone⟩

end Args

end Determinant
