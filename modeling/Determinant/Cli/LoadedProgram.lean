import Determinant.Cli.SafeRun
import Determinant.Host.ElfImage

/-!
# The programs that can be loaded

A program is loaded when nothing of it fails: memory for it is there, its file can be read whole,
and it fits (`Loads`). Loading it is then a log of writes to a memory of zeros: the demo at its
address, a flat binary at the load address, or the segments of an executable one after the other.
Loading succeeds for these programs and no others, and nothing but memory differs from a VM that
was just reset (`prepare_eq_ok`).
-/

set_option autoImplicit false

namespace Determinant

open Foundations Hostcall

variable {n : MemSize} {o : Options} {α β ε : Type}

namespace Foundations

/-! ## Checks -/

theorem checkedSub_eq_ok {a b c : Nat} :
    (checkedSub a b : Except (Failure ε) Nat) = .ok c ↔ b ≤ a ∧ c = a - b := by
  unfold checkedSub
  split <;> simp_all [eq_comm]

theorem checkedCast_eq_ok {w k : Nat} {v : BitVec w} :
    (checkedCast w k : Except (Failure ε) (BitVec w)) = .ok v ↔
      k < 2 ^ w ∧ v = BitVec.ofNat w k := by
  unfold checkedCast
  split <;> simp_all [eq_comm]

theorem checkedRange_eq_ok {xs part : List α} {start len : Nat} :
    (checkedRange xs start len : Except (Failure ε) (List α)) = .ok part ↔
      start + len ≤ xs.length ∧ part = (xs.drop start).take len := by
  unfold checkedRange
  split <;> simp_all [eq_comm]

/-- What is looked up first must be there. -/
theorem reads_bind_eq_ok {σ : Type} {f : σ → Except ε α} {g : α → EStateM ε σ β} {s t : σ} {b : β} :
    (reads f >>= g) s = .ok b t ↔ ∃ a, f s = .ok a ∧ g a s = .ok b t := by
  rw [bind_apply, reads]
  cases f s <;> simp

theorem modify_bind_eq_ok {σ : Type} {f : σ → σ} {g : PUnit → EStateM ε σ β} {s t : σ} {b : β} :
    (modify f >>= g) s = .ok b t ↔ g ⟨⟩ (f s) = .ok b t := Iff.rfl

end Foundations

namespace Cli

/-! ## Parts of a command that succeed -/

section Parts

variable {s t : Session o n} {b : β}

theorem rejectIf_bind_eq_ok {c : Prop} [Decidable c] {text : List Byte}
    {f : Unit → Command o n β} :
    (rejectIf c text >>= f) s = .ok b t ↔ ¬c ∧ f () s = .ok b t := by
  unfold rejectIf userError
  by_cases rejected : c <;> simp [rejected, bind_apply]

theorem orReport_bind_eq_ok {text : ε → List Byte} {x : Except ε α} {f : α → Command o n β} :
    (orReport text x >>= f) s = .ok b t ↔ ∃ a, x = .ok a ∧ f a s = .ok b t := by
  cases x <;> simp [orReport, userError, bind_apply]

theorem allocate_bind_eq_ok {outside : Outside} {what : Allocation} {empty : Bool}
    {f : Unit → Command o n β} :
    (allocate outside what empty >>= f) s = .ok b t ↔
      (empty = true ∨ outside.allocates what = true) ∧ f () s = .ok b t := by
  unfold allocate
  by_cases allocated : empty = true ∨ outside.allocates what = true <;>
    simp [allocated, bind_apply]

theorem readExactly_bind_eq_ok {file : File} {path : Path} {len : Nat}
    {f : List Byte → Command o n β} :
    (Load.readExactly file path len >>= f) s = .ok b t ↔
      ∃ bytes, file.contents len = .ok bytes ∧ len ≤ bytes.length ∧
        f (bytes.take len) s = .ok b t := by
  simp only [Load.readExactly, bind_assoc, orReport_bind_eq_ok, rejectIf_bind_eq_ok, pure_bind,
    not_not, List.length_take, min_eq_left_iff, ne_eq]

theorem onVm_bind_eq_ok {report : ε → Command o n α} (fails : ∀ e s a t, report e s ≠ .ok a t)
    {x : EStateM ε (Vm o n) α} {f : α → Command o n β} :
    (Load.onVm report x >>= f) s = .ok b t ↔
      ∃ a vm, x s.vm = .ok a vm ∧ f a { s with vm := vm } = .ok b t := by
  rw [bind_apply, Load.onVm]
  cases outcome : x s.vm with
  | ok a vm => simp
  | error e vm =>
      simp only [reduceCtorEq, false_and, exists_false, iff_false]
      cases reported : report e { s with vm := vm } with
      | ok a t => exact absurd reported (fails e _ a t)
      | error f t => simp

theorem userError_ne_ok (text : List Byte) (s : Session o n) (a : α) (t : Session o n) :
    (userError text : Command o n α) s ≠ .ok a t := nofun

theorem reportElf_ne_ok (path : Path) (f : Failure Loader.LoadError) (s : Session o n) (a : α)
    (t : Session o n) : (Load.reportElf path f : Command o n α) s ≠ .ok a t := by
  unfold Load.reportElf
  split <;> nofun

end Parts

/-! ## Programs -/

/-- A program that can be loaded: what the report says of it, and what is written to memory. -/
inductive Loads (n : MemSize) (outside : Outside) (config : Args.Config) :
    Load.Loaded → List (Nat × List Byte) → Prop where
  | demo (named : config.program = .demo) (fits : Load.demoProgram.length ≤ n.bytes)
      (code : outside.allocates .code = true) :
      Loads n outside config
        { source := .demo
          entry := 0#32
          code := [{ start := 0#32, len := BitVec.ofNat 32 Load.demoProgram.length }] }
        [(0, Load.demoProgram)]
  | flat {path : Path} {file : File} {size : Nat} {magic bytes : List Byte} {addr : Word}
      (named : config.program = .file path) (opened : outside.openFile path = .ok file)
      (sized : file.stat = .ok size) (started : file.magic = .ok magic) (nonempty : size ≠ 0)
      (flat : Loader.isElf (magic.take 4) = false) (placed : addr = config.loadAddr.getD 0#32)
      (fits : addr.toNat + size ≤ n.bytes) (given : file.contents size = .ok bytes)
      (whole : size ≤ bytes.length) (code : outside.allocates .code = true) :
      Loads n outside config
        { source := .flat path (BitVec.ofNat 32 size)
          entry := addr
          code := [{ start := addr, len := BitVec.ofNat 32 size }] }
        [(addr.toNat, bytes.take size)]
  | elf {path : Path} {file : File} {size : Nat} {magic bytes : List Byte} {elf : Loader.Elf}
      (named : config.program = .file path) (opened : outside.openFile path = .ok file)
      (sized : file.stat = .ok size) (started : file.magic = .ok magic) (nonempty : size ≠ 0)
      (executable : Loader.isElf (magic.take 4) = true) (unplaced : config.loadAddr = none)
      (small : size ≤ Load.maxElf) (image : outside.allocates .image = true)
      (given : file.contents size = .ok bytes) (whole : size ≤ bytes.length)
      (parsed : Loader.parse (bytes.take size) = .ok elf)
      (fits : ∀ s ∈ elf.segments.ahead, s.vaddr.toNat + s.memsz.toNat ≤ n.bytes)
      (code : elf.segments.ahead.filterMap codeRange = [] ∨ outside.allocates .code = true) :
      Loads n outside config
        { source := .elf path
          entry := elf.entry
          code := elf.segments.ahead.filterMap codeRange }
        (elf.segments.ahead.map (Loader.Segment.contents (bytes.take size)))

/-- A VM that was reset, and then written to. -/
def loadedVm (writes : List (Nat × List Byte)) : Vm o n :=
  { (Vm.reset : Vm o n) with memory := patchAll (fun _ => 0#8) writes }

/-! ## What loading does -/

section Loading

variable {outside : Outside} {config : Args.Config} {loaded : Load.Loaded} {s t : Session o n}

theorem invalidateReservationRange_none {m : Machine n} (none : m.reservation = none)
    (start len : Nat) : m.invalidateReservationRange start len = m := by
  unfold Machine.invalidateReservationRange
  rw [none]

theorem loadDemo_eq_ok (reset : s.vm = Vm.reset) (named : config.program = .demo) :
    Load.load outside config s = .ok loaded t ↔
      ∃ writes, Loads n outside config loaded writes ∧ t = { s with vm := loadedVm writes } := by
  have placed : ∀ vm, Vm.onMachine (Machine.loadProgram Load.demoProgram 0#32) s.vm =
      .ok ⟨⟩ vm ↔ Load.demoProgram.length ≤ n.bytes ∧ vm = loadedVm [(0, Load.demoProgram)] := by
    intro vm
    simp only [Vm.onMachine, onPart, Machine.loadProgram_apply, reset]
    have zero : (0#32).toNat + Load.demoProgram.length = Load.demoProgram.length := by simp
    rw [zero]
    by_cases fits : Load.demoProgram.length ≤ n.bytes
    · simp only [if_pos fits, Machine.place]
      rw [invalidateReservationRange_none rfl]
      constructor
      · rintro ⟨⟩
        exact ⟨fits, rfl⟩
      · rintro ⟨_, rfl⟩
        rfl
    · simp [fits]
  unfold Load.load
  rw [named]
  simp only [onVm_bind_eq_ok fun _ => userError_ne_ok _, allocate_bind_eq_ok, pure_apply,
    EStateM.Result.ok.injEq, Bool.false_eq_true, false_or, placed]
  constructor
  · rintro ⟨_, vm, ⟨fits, rfl⟩, code, rfl, rfl⟩
    exact ⟨_, .demo named fits code, rfl⟩
  · rintro ⟨writes, loads, rfl⟩
    cases loads with
    | demo _ fits code => exact ⟨⟨⟩, _, ⟨fits, rfl⟩, code, rfl, rfl⟩
    | flat other => simp [named] at other
    | elf other => simp [named] at other

theorem loadFlat_eq_ok (reset : s.vm = Vm.reset) {file : File} {path : Path} {size : Nat}
    {loadAddr : Option Word} :
    Load.loadFlat outside file path size loadAddr s = .ok loaded t ↔
      (loadAddr.getD 0#32).toNat + size ≤ n.bytes ∧ ∃ bytes, file.contents size = .ok bytes ∧
        size ≤ bytes.length ∧ outside.allocates .code = true ∧
        loaded =
          { source := .flat path (BitVec.ofNat 32 size)
            entry := loadAddr.getD 0#32
            code := [{ start := loadAddr.getD 0#32, len := BitVec.ofNat 32 size }] } ∧
        t = { s with vm := loadedVm [((loadAddr.getD 0#32).toNat, bytes.take size)] } := by
  have valid := n.valid
  unfold validMemorySize at valid
  unfold Load.loadFlat
  generalize loadAddr.getD 0#32 = addr
  simp only [reads_bind_eq_ok, rejectIf_bind_eq_ok, checkedSub_eq_ok, checkedCast_eq_ok,
    Disasm.wholeMemory, checkedRange_eq_ok, readExactly_bind_eq_ok, allocate_bind_eq_ok,
    modify_bind_eq_ok, pure_apply, EStateM.Result.ok.injEq, Bool.false_eq_true, false_or]
  constructor
  · rintro ⟨_, ⟨le, rfl⟩, room, _, ⟨small, rfl⟩, _, _, bytes, given, long, code, rfl, rfl⟩
    have size' : (BitVec.ofNat 32 size).toNat = size := by
      rw [BitVec.toNat_ofNat, Nat.mod_eq_of_lt small]
    rw [size'] at given long ⊢
    refine ⟨by omega, bytes, given, long, code, rfl, ?_⟩
    rw [reset]
    rfl
  · rintro ⟨fits, bytes, given, long, code, rfl, rfl⟩
    have small : size < 2 ^ 32 := by omega
    have size' : (BitVec.ofNat 32 size).toNat = size := by
      rw [BitVec.toNat_ofNat, Nat.mod_eq_of_lt small]
    refine ⟨_, ⟨by omega, rfl⟩, by omega, _, ⟨small, rfl⟩, _, ⟨?_, rfl⟩, bytes, ?_⟩
    · simpa [size'] using fits
    · rw [size']
      refine ⟨given, long, code, rfl, ?_⟩
      rw [reset]
      rfl

/-- Placing segments in a VM that was just reset. -/
theorem placed_reset {image : List Byte} {list : List Loader.Segment}
    (inFile : ∀ s ∈ list, s.InFile image) :
    ({ (Vm.reset : Vm o n) with
        toMachine :=
          list.foldl (Loader.Segment.place image) (Machine.reset : Machine n) } : Vm o n) =
      loadedVm (list.map (Loader.Segment.contents image)) := by
  have frame : Loader.Frame (Machine.reset : Machine n)
      (list.foldl (Loader.Segment.place image) Machine.reset) := Loader.frame_placed list _
  have memory := Loader.memory_placed inFile (Machine.reset : Machine n)
  have reservation :
      (list.foldl (Loader.Segment.place image) (Machine.reset : Machine n)).reservation =
        none := by
    rcases (Loader.reservation_placed inFile (Machine.reset : Machine n)).1 with kept | dropped
    · exact kept
    · exact dropped
  apply Vm.ext
  · exact frame.pc
  · exact frame.regs
  · exact memory
  · exact frame.cycleCount
  · exact reservation
  · exact frame.csrs
  · exact frame.stopPc
  · rfl

/-- Executables are loaded in a VM that was just reset when they can be parsed and fit. -/
theorem loadElf_reset_eq_ok {image : List Byte} {entry : Word} {vm : Vm o n} :
    Vm.loadElf image (Vm.reset : Vm o n) = .ok entry vm ↔
      ∃ elf, Loader.parse image = .ok elf ∧
        (∀ s ∈ elf.segments.ahead, s.vaddr.toNat + s.memsz.toNat ≤ n.bytes) ∧
        entry = elf.entry ∧
        vm = loadedVm (elf.segments.ahead.map (Loader.Segment.contents image)) := by
  simp only [Vm.loadElf, Vm.onMachine, onPart, Loader.loadElf_apply]
  cases parsed : Loader.parse image with
  | error f => simp
  | ok elf =>
      have placed := placed_reset (o := o) (n := n) (Loader.parse_valid parsed).inFile
      by_cases fits : ∀ s ∈ elf.segments.ahead, s.Fits n
      · simp only [if_pos fits, Except.ok.injEq, exists_eq_left', EStateM.Result.ok.injEq]
        constructor
        · rintro ⟨rfl, rfl⟩
          exact ⟨fits, rfl, placed⟩
        · rintro ⟨_, rfl, rfl⟩
          exact ⟨rfl, placed⟩
      · simp only [if_neg fits, Except.ok.injEq, exists_eq_left', reduceCtorEq, false_iff]
        rintro ⟨fits', _⟩
        exact fits fits'

/-- The code of an executable that was loaded. -/
theorem codeOf_parsed {image : List Byte} {elf : Loader.Elf}
    (parsed : Loader.parse image = .ok elf) (s : Session o n) :
    Load.codeOf image s = .ok (elf.segments.ahead.filterMap codeRange) s := by
  have found : Loader.segments image = .ok elf.segments := by
    rw [Loader.segments, parsed]
    rfl
  have yields := Loader.Segments.yields_ahead (Loader.parse_valid parsed).table
  rw [Load.codeOf, appendCode_eq found yields, List.nil_append]

theorem loadElf_eq_ok (reset : s.vm = Vm.reset) {file : File} {path : Path} {size : Nat}
    {loadAddr : Option Word} :
    Load.loadElf outside file path size loadAddr s = .ok loaded t ↔
      loadAddr = none ∧ size ≤ Load.maxElf ∧ outside.allocates .image = true ∧
        ∃ bytes elf, file.contents size = .ok bytes ∧ size ≤ bytes.length ∧
          Loader.parse (bytes.take size) = .ok elf ∧
          (∀ s ∈ elf.segments.ahead, s.vaddr.toNat + s.memsz.toNat ≤ n.bytes) ∧
          (elf.segments.ahead.filterMap codeRange = [] ∨ outside.allocates .code = true) ∧
          loaded =
            { source := .elf path
              entry := elf.entry
              code := elf.segments.ahead.filterMap codeRange } ∧
          t = { s with
                vm := loadedVm (elf.segments.ahead.map
                  (Loader.Segment.contents (bytes.take size))) } := by
  unfold Load.loadElf
  simp only [rejectIf_bind_eq_ok, allocate_bind_eq_ok, readExactly_bind_eq_ok,
    onVm_bind_eq_ok (reportElf_ne_ok path), reset, loadElf_reset_eq_ok, Bool.false_eq_true,
    false_or, Bool.not_eq_true, Option.isSome_eq_false_iff, Option.isNone_iff_eq_none, not_lt]
  have coded : ∀ {image : List Byte} {elf : Loader.Elf} (u : Session o n),
      Loader.parse image = .ok elf →
      ((do
          let code ← Load.codeOf image
          allocate outside .code code.isEmpty
          return { source := .elf path, entry := elf.entry, code } : Command o n Load.Loaded) u =
            .ok loaded t ↔
        (elf.segments.ahead.filterMap codeRange = [] ∨ outside.allocates .code = true) ∧
          loaded =
            { source := .elf path
              entry := elf.entry
              code := elf.segments.ahead.filterMap codeRange } ∧ t = u) := by
    intro image elf u parsed
    rw [bind_apply, codeOf_parsed parsed]
    simp only [allocate_bind_eq_ok, pure_apply, EStateM.Result.ok.injEq, List.isEmpty_iff]
    exact and_congr_right fun _ => and_congr eq_comm eq_comm
  constructor
  · rintro ⟨unplaced, small, image, bytes, given, long, _, _, ⟨elf, parsed, fits, rfl, rfl⟩, rest⟩
    obtain ⟨code, rfl, rfl⟩ := (coded _ parsed).1 rest
    exact ⟨unplaced, small, image, bytes, elf, given, long, parsed, fits, code, rfl, rfl⟩
  · rintro ⟨unplaced, small, image, bytes, elf, given, long, parsed, fits, code, rfl, rfl⟩
    exact ⟨unplaced, small, image, bytes, given, long, _, _, ⟨elf, parsed, fits, rfl, rfl⟩,
      (coded _ parsed).2 ⟨code, rfl, rfl⟩⟩

/-- **Loading succeeds for the programs that can be loaded**, in a VM that was just reset. -/
theorem load_eq_ok (reset : s.vm = Vm.reset) :
    Load.load outside config s = .ok loaded t ↔
      ∃ writes, Loads n outside config loaded writes ∧ t = { s with vm := loadedVm writes } := by
  cases named : config.program with
  | demo => exact loadDemo_eq_ok reset named
  | file path =>
      unfold Load.load Load.loadFile
      rw [named]
      simp only [orReport_bind_eq_ok, rejectIf_bind_eq_ok, ite_apply_state]
      constructor
      · rintro ⟨file, opened, size, sized, magic, started, nonempty, rest⟩
        by_cases executable : Loader.isElf (magic.take 4) = true
        · rw [if_pos executable, loadElf_eq_ok reset] at rest
          obtain ⟨unplaced, small, image, bytes, elf, given, long, parsed, fits, code, rfl, rfl⟩ :=
            rest
          exact ⟨_, .elf named opened sized started nonempty executable unplaced small image given
            long parsed fits code, rfl⟩
        · rw [if_neg executable, loadFlat_eq_ok reset] at rest
          obtain ⟨fits, bytes, given, long, code, rfl, rfl⟩ := rest
          exact ⟨_, .flat named opened sized started nonempty (Bool.eq_false_iff.2 executable) rfl
            fits given long code, rfl⟩
      · rintro ⟨writes, loads, rfl⟩
        cases loads with
        | demo named' => simp [named] at named'
        | flat named' opened sized started nonempty flat placed fits given long code =>
            cases named.symm.trans named'
            subst placed
            refine ⟨_, opened, _, sized, _, started, nonempty, ?_⟩
            rw [if_neg (Bool.eq_false_iff.1 flat), loadFlat_eq_ok reset]
            exact ⟨fits, _, given, long, code, rfl, rfl⟩
        | elf named' opened sized started nonempty executable unplaced small image given long
            parsed fits code =>
            cases named.symm.trans named'
            refine ⟨_, opened, _, sized, _, started, nonempty, ?_⟩
            rw [if_pos executable, loadElf_eq_ok reset]
            exact ⟨unplaced, small, image, _, _, given, long, parsed, fits, code, rfl, rfl⟩

end Loading

/-- **Preparing succeeds for the programs that can be loaded**, when there is memory for them and
for the VM. -/
theorem prepare_eq_ok {outside : Outside} {config : Args.Config} {loaded : Load.Loaded}
    {s t : Session o n} :
    prepare outside config s = .ok loaded t ↔
      outside.allocates .memory = true ∧ outside.allocates .vm = true ∧
        ∃ writes, Loads n outside config loaded writes ∧ t = { s with vm := loadedVm writes } := by
  have reset : ({ s with vm := Vm.reset } : Session o n).vm = Vm.reset := rfl
  simp only [prepare, rejectIf_bind_eq_ok, allocate_bind_eq_ok, modify_bind_eq_ok,
    load_eq_ok reset, Bool.false_eq_true, false_or, not_not]

end Cli

end Determinant
