import Determinant.Cli.Groups

/-!
# The settings that are accepted

Each option is checked by itself when it is parsed, which is an invariant of the loop
(`Parsing.Checked`). What depends on several options is checked after the loop, so that it holds
in whatever order they came. Together the settings of a run are sound (`Settings.Sound`,
`sound_of_parses`).
-/

set_option autoImplicit false

namespace Determinant

open Foundations

namespace Args

/-- What parsing promises of the settings of a run. -/
structure Settings.Sound (s : Settings) : Prop where
  memory : validMemorySize s.memory.toNat
  loadAddr : ∀ addr ∈ s.loadAddr, addr.toNat % 2 = 0 ∧ addr.toNat < s.memory.toNat
  dump : ∀ d ∈ s.dump, ∀ r ∈ d.range,
    1 ≤ r.len.toNat ∧ r.start.toNat + r.len.toNat ≤ s.memory.toNat
  demo : s.program = .demo → s.loadAddr = none
  disassemble : s.disassemble = true → s.maxCycles = none ∧ s.input = none ∧ s.dump = none ∧
    s.digest = false ∧ s.trace = false ∧ s.quiet = false

/-! ## In the loop -/

/-- What the values that were parsed are checked for. -/
structure Parsing.Checked (s : Parsing) : Prop where
  memory : validMemorySize s.config.memory.toNat
  loadAddr : ∀ addr ∈ s.config.loadAddr, addr.toNat % 2 = 0
  dump : ∀ d ∈ s.config.dump, ∀ r ∈ d.range, r.len ≠ 0#32

namespace Parsing.Checked

theorem start : Checked {} := ⟨by decide, nofun, nofun⟩

theorem set {s : Parsing} (checked : s.Checked) {a : Setting} (valid : a.Checked) :
    (a.set s).Checked := by
  obtain ⟨memory, loadAddr, dump⟩ := checked
  -- The range of a dump that may have been there before.
  have kept : ∀ r ∈ (s.config.dump.getD {}).range, r.len ≠ 0#32 := by
    cases before : s.config.dump with
    | none => exact nofun
    | some d => exact dump d before
  cases a with
  | memory size => exact ⟨valid, loadAddr, dump⟩
  | loadAddr addr text => exact ⟨memory, by rintro _ ⟨⟩; exact valid, dump⟩
  | dumpMemory format => exact ⟨memory, loadAddr, by rintro _ ⟨⟩; exact kept⟩
  | dumpRange range text => exact ⟨memory, loadAddr, by rintro _ ⟨⟩ _ ⟨⟩; exact valid⟩
  | maxCycles | input | digest | trace | disassemble | quiet | demo =>
      exact ⟨memory, loadAddr, dump⟩

end Parsing.Checked

theorem parseRest_checked {args : List Arg} {s : Parsing} (parsed : parseRest args {} = .ok s) :
    s.Checked :=
  parseRest_invariant (fun _ _ valid checked => checked.set valid)
    (fun _ _ checked => ⟨checked.memory, checked.loadAddr, checked.dump⟩)
    (fun _ checked => ⟨checked.memory, checked.loadAddr, checked.dump⟩) rfl parsed .start

/-! ## After the loop -/

theorem checkLoadAddr_eq_ok {s : Parsing} {u : Unit} (passed : checkLoadAddr s = .ok u) :
    ∀ addr ∈ s.config.loadAddr, addr.toNat < s.config.memory.toNat := by
  intro addr given
  have given : s.config.loadAddr = some addr := given
  simp only [checkLoadAddr, given, failIf_eq_ok, ge_iff_le, BitVec.le_def, Nat.not_le] at passed
  exact passed

theorem checkDumpRange_eq_ok {s : Parsing} {u : Unit} (passed : checkDumpRange s = .ok u) :
    ∀ d ∈ s.config.dump, ∀ r ∈ d.range, r.start.toNat + r.len.toNat ≤ s.config.memory.toNat := by
  rintro ⟨format, range⟩ given r rfl
  have given : s.config.dump = some ⟨format, some r⟩ := given
  have small : r.start.toNat + r.len.toNat < 2 ^ 64 := by omega
  rw [checkDumpRange, given, bind_eq_ok] at passed
  obtain ⟨stop, sum, passed⟩ := passed
  rw [checkedAdd_ok small] at sum
  cases sum
  exact Nat.not_lt.1 (failIf_eq_ok.1 passed)

theorem chooseProgram_eq_demo {s : Parsing} (chosen : chooseProgram s = .ok .demo) :
    s.config.loadAddr = none := by
  unfold chooseProgram at chosen
  split at chosen
  · split at chosen
    · cases chosen
    · split at chosen
      · cases chosen
      · rename_i notGiven
        simpa using notGiven
  · split at chosen <;> cases chosen

theorem checkDisassemble_eq_ok {config : Settings} {u : Unit}
    (passed : checkDisassemble config = .ok u) (lists : config.disassemble = true) :
    config.maxCycles = none ∧ config.input = none ∧ config.dump = none ∧
      config.digest = false ∧ config.trace = false ∧ config.quiet = false := by
  rw [checkDisassemble, if_pos lists, forM_eq_ok] at passed
  have absent : ∀ option ∈ runOptions config, option.2 = false := fun option listed => by
    simpa using failIf_eq_ok.1 (passed option listed)
  simpa [runOptions] using absent

/-- The scan before the loop finds no run. -/
theorem scanCommand_ne_run (args : List Arg) (settings : Settings) :
    scanCommand args ≠ some (.run settings) := by
  induction args with
  | nil => exact nofun
  | cons arg rest ih =>
      rw [scanCommand]
      split
      · exact nofun
      · split
        · exact nofun
        · exact nofun
        · exact ih

/-- **The settings of a run are sound.** -/
theorem sound_of_parses {args : List Arg} {settings : Settings}
    (accepted : Parses args (.ok (.run settings))) : settings.Sound := by
  rw [parses_iff, parseCommand] at accepted
  split at accepted
  · cases accepted
  cases scan : scanCommand (args.drop 1) with
  | some command =>
      rw [scan] at accepted
      cases accepted
      exact absurd scan (scanCommand_ne_run _ settings)
  | none =>
      rw [scan] at accepted
      obtain ⟨s, parsed, finished⟩ := bind_eq_ok.1 accepted
      have checked := parseRest_checked parsed
      obtain ⟨_, loadAddr, finished⟩ := bind_eq_ok.1 finished
      obtain ⟨_, dump, finished⟩ := bind_eq_ok.1 finished
      obtain ⟨program, chosen, finished⟩ := bind_eq_ok.1 finished
      obtain ⟨_, lists, finished⟩ := bind_eq_ok.1 finished
      cases finished
      have loadAddr := checkLoadAddr_eq_ok loadAddr
      have dump := checkDumpRange_eq_ok dump
      have lists := checkDisassemble_eq_ok lists
      have positive : ∀ {len : Word}, len ≠ 0#32 → 1 ≤ len.toNat := by
        intro len nonzero
        have := BitVec.toNat_ne.1 nonzero
        exact Nat.one_le_iff_ne_zero.2 (by simpa using this)
      exact {
        memory := checked.memory
        loadAddr := fun addr given => ⟨checked.loadAddr addr given, loadAddr addr given⟩
        dump := fun d given r range =>
          ⟨positive (checked.dump d given r range), dump d given r range⟩
        demo := by
          rintro rfl
          exact chooseProgram_eq_demo chosen
        disassemble := lists }

end Args

end Determinant
