import Determinant.Cpu.Effects
import Determinant.Host.Actions

/-!
# LR.W and SC.W

Every action leaves *marks*: which LR.W or SC.W retired, what was dropped, and which bytes of
memory were written. They are read off the instruction or the call, never off the
reservation; an action that fails leaves none. A word is *held* in a history of marks when
its LR.W is the latest one, no SC.W, reset or `clearReservation` came after it, and no byte of
the word was written after it (`Held`).

The invariant is that the reservation is the word held, which still has the value that the
LR.W loaded (`Tracks`). Each mark says what becomes of the reservation and of the memory
(`Mark.Describes`), for each of the ways to write to memory, although the code tests for an
overlap in two different ways. So an SC.W stores exactly when its word is held
(`lr_sc_exact`).
-/

set_option autoImplicit false

namespace Determinant

open Foundations

variable {n : MemSize} {o : Options}

/-! ## Marks -/

/-- What an action has done to the words that LR.W can reserve. -/
inductive Mark where
  /-- An LR.W has retired, and has loaded this value. -/
  | loaded (addr value : Word)
  /-- An SC.W has retired. -/
  | conditional
  /-- A reset, or `clearReservation`. -/
  | dropped
  /-- The bytes `[start, start + len)` of memory were written, with whatever values. -/
  | wrote (start len : Nat)
deriving DecidableEq, Repr

namespace Mark

/-- The marks of an instruction that retires. -/
def ofInstruction (inst : Instruction) (m : Machine n) : List Mark :=
  match Machine.memoryEffect inst m with
  | .loadReserved addr => [loaded addr ((m.readWord addr).toOption.getD 0#32)]
  | .storeConditional _ => [conditional]
  | .stores addr len => [wrote addr.toNat len]
  | .nothing => []

/-- The marks of a method of the host that succeeds. -/
def ofHost : HostOp n → List Mark
  | .loadProgram program offset => [wrote offset.toNat program.length]
  | .writeByte addr _ => [wrote addr.toNat 1]
  | .writeHalfword addr _ => [wrote addr.toNat 2]
  | .writeWord addr _ => [wrote addr.toNat 4]
  | .clearReservation => [dropped]
  | _ => []

/-- The marks of a host call that is handled. -/
def ofRequest (env : Hostcall.Env) : Hostcall.Request → List Mark
  | .read addr len => [wrote addr.toNat (env.next len).length]
  | _ => []

/-- The marks of a segment that is loaded. -/
def ofSegment (s : Loader.Segment) : List Mark :=
  wrote s.vaddr.toNat s.filesz.toNat ::
    if s.filesz.toNat < s.memsz.toNat then [dropped] else []

/-- A mark that leaves the word at an address held. -/
def Spares (addr : Word) : Mark → Prop
  | wrote start len => ¬Overlap start len addr.toNat 4
  | _ => False

/-- A mark that can end a hold: not a write of no bytes. -/
def counts : Mark → Bool
  | wrote _ 0 => false
  | _ => true

end Mark

/-- The word at `addr` is held: the latest LR.W loaded `value` from it, no SC.W, reset or
`clearReservation` came later, and no byte of the word was written since. -/
def Held (history : List Mark) (addr value : Word) : Prop :=
  Since (· = Mark.loaded addr value) (Mark.Spares addr) history

/-- The marks that an action leaves. -/
def Action.marks (vm : Vm o n) : Action n → List Mark
  | .step =>
      match vm.retired with
      | some inst => Mark.ofInstruction inst vm.zeroX0
      | none => []
  | .host op =>
      match op.call vm.toMachine with
      | .ok _ _ => Mark.ofHost op
      | .error _ _ => []
  | .handle env =>
      match Hostcall.handle (vm.toMachine, env) with
      | .ok _ _ => Mark.ofRequest env (Hostcall.request vm.toMachine)
      | .error _ _ => []
  | .loadElf image =>
      match Loader.parse image, Vm.loadElf image vm with
      | .ok elf, .ok _ _ => elf.segments.ahead.flatMap Mark.ofSegment
      | _, _ => []
  | .reset => [.dropped]

/-- All but an assignment to memory past the methods, after which the host has to call
`clearReservation`. -/
def Action.Covered : Action n → Prop
  | .host (.setByte _ _) => False
  | _ => True

/-- An action that fails leaves no marks. -/
theorem Action.marks_of_fails {vm : Vm o n} {action : Action n} (fails : action.Fails vm) :
    action.marks vm = [] := by
  cases action with
  | step =>
      obtain ⟨e, vm', failed⟩ := fails
      have none : vm.retired = none := by
        unfold Vm.retired
        cases vm.fetch <;> simp only [failed]
      simp only [marks, none]
  | host op =>
      obtain ⟨e, m', failed⟩ := fails
      simp only [marks, failed]
  | handle env =>
      obtain ⟨e, s, failed⟩ := fails
      simp only [marks, failed]
  | loadElf image =>
      obtain ⟨e, vm', failed⟩ := fails
      simp only [marks, failed]
      cases Loader.parse image <;> rfl
  | reset => exact fails.elim

/-! ## What the marks say about the machine -/

/-- What becomes of the reservation and of the memory. -/
def Mark.Describes (m m' : Machine n) : Mark → Prop
  | loaded addr value =>
      m'.reservation = some addr ∧ m.readWord addr = .ok value ∧ m'.memory = m.memory
  | conditional | dropped => m'.reservation = none
  | wrote start len =>
      (∀ addr, m'.reservation = some addr ↔
        m.reservation = some addr ∧ ¬Overlap start len addr.toNat 4) ∧
      ∀ i : Fin n.bytes, i.val < start ∨ start + len ≤ i.val → m'.memory i = m.memory i

/-- Clearing the last two bits rounds down to a multiple of four. -/
theorem toNat_mask (addr : Word) : (addr &&& 0xFFFFFFFC#32).toNat = addr.toNat / 4 * 4 := by
  have shifted : addr &&& 0xFFFFFFFC#32 = (addr >>> 2) <<< 2 := by
    apply BitVec.eq_of_getLsbD_eq
    intro i below
    have bit : ∀ i < 32, (0xFFFFFFFC#32).getLsbD i = decide (2 ≤ i) := by decide
    rw [BitVec.getLsbD_and, bit i below, BitVec.getLsbD_shiftLeft, BitVec.getLsbD_ushiftRight]
    by_cases low : i < 2
    · simp [low]
    · have back : 2 + (i - 2) = i := by omega
      simp [low, below, back]
      omega
  rw [shifted, BitVec.toNat_shiftLeft, BitVec.toNat_ushiftRight, Nat.shiftLeft_eq,
    Nat.shiftRight_eq_div_pow]
  have := addr.isLt
  omega

/-- For an aligned access the test by the masked address is a test for an overlap. -/
theorem mask_eq_iff_overlap {addr res : Word} {len : Nat} (aligned : res.toNat % 4 = 0)
    (natural : addr.toNat % len = 0) (width : len = 1 ∨ len = 2 ∨ len = 4) :
    addr &&& 0xFFFFFFFC#32 = res ↔ Overlap addr.toNat len res.toNat 4 := by
  rw [← BitVec.toNat_inj, toNat_mask, overlap_iff]
  rcases width with rfl | rfl | rfl <;> omega

namespace Machine

variable {m : Machine n}

/-- The words that can be reserved. -/
def Aligned (m : Machine n) : Prop := ∀ res, m.reservation = some res → res.toNat % 4 = 0

theorem stores_width {inst : Instruction} {addr : Word} {len : Nat}
    (effect : memoryEffect inst m = .stores addr len) : len = 1 ∨ len = 2 ∨ len = 4 := by
  unfold memoryEffect at effect
  dsimp only at effect
  split at effect <;> cases effect <;> decide

/-- A store drops the reservation exactly when it overlaps the reserved word. -/
theorem store_describes (aligned : m.Aligned) {addr : Word} {bytes : List Byte}
    (permitted : access n bytes.length addr = .ok ())
    (width : bytes.length = 1 ∨ bytes.length = 2 ∨ bytes.length = 4) :
    (Mark.wrote addr.toNat bytes.length).Describes m (m.store addr bytes) := by
  rw [store, invalidateReservation_eq]
  refine ⟨fun res => ?_, fun i outside => patch_outside _ _ _ _ outside⟩
  simp only [Option.filter_eq_some_iff, decide_eq_true_eq, ne_eq]
  refine and_congr_right fun held => not_congr ?_
  exact mask_eq_iff_overlap (aligned res held) (access_eq_ok.1 permitted).1 width

/-- So does a copy, of any length. -/
theorem place_describes (addr : Nat) (bytes : List Byte) :
    (Mark.wrote addr bytes.length).Describes m (m.place addr bytes) := by
  rw [place, invalidateReservationRange_eq]
  refine ⟨fun res => ?_, fun i outside => patch_outside _ _ _ _ outside⟩
  simp only [Option.filter_eq_some_iff, decide_eq_true_eq, overlap_iff]
  refine and_congr_right fun _ => not_congr ?_
  omega

end Machine

/-! ## The invariant -/

/-- The reservation is the word held, and the word is as the LR.W found it. -/
structure Tracks (history : List Mark) (m : Machine n) : Prop where
  reservation : ∀ addr, m.reservation = some addr ↔ ∃ value, Held history addr value
  word : ∀ addr value, Held history addr value → m.readWord addr = .ok value

namespace Tracks

variable {history : List Mark} {m m' : Machine n}

theorem aligned (tracks : Tracks history m) : m.Aligned := by
  intro res reserved
  obtain ⟨value, held⟩ := (tracks.reservation res).1 reserved
  exact (access_eq_ok.1 (Machine.readWord_ok (tracks.word res value held))).1

/-- An action without a mark. -/
theorem same (tracks : Tracks history m) (reservation : m'.reservation = m.reservation)
    (memory : m'.memory = m.memory) : Tracks history m' where
  reservation addr := by
    rw [reservation]
    exact tracks.reservation addr
  word addr value held := by
    rw [← tracks.word addr value held]
    exact Machine.readWord_congr fun i _ _ => congrFun memory i

/-- **A mark keeps the invariant**: what it describes is what it does to the words held. -/
theorem mark (tracks : Tracks history m) {mark : Mark} (describes : mark.Describes m m') :
    Tracks (history ++ [mark]) m' := by
  cases mark with
  | loaded addr value =>
      obtain ⟨reserved, read, memory⟩ := describes
      have only : ∀ addr' value', Held (history ++ [.loaded addr value]) addr' value' ↔
          addr = addr' ∧ value = value' := by
        intro addr' value'
        simp only [Held, since_concat, Mark.Spares, and_false, or_false, Mark.loaded.injEq]
      refine ⟨fun addr' => ?_, fun addr' value' held => ?_⟩
      · simp only [reserved, only, Option.some.injEq, exists_and_left, exists_eq', and_true]
      · obtain ⟨rfl, rfl⟩ := (only addr' value').1 held
        rw [← read]
        exact Machine.readWord_congr fun i _ _ => congrFun memory i
  | conditional | dropped =>
      have free : m'.reservation = none := describes
      refine ⟨fun addr => ?_, fun addr value held => ?_⟩
      · simp [free, Held, since_concat, Mark.Spares]
      · simp [Held, since_concat, Mark.Spares] at held
  | wrote start len =>
      obtain ⟨kept, frame⟩ := describes
      have still : ∀ addr value, Held (history ++ [.wrote start len]) addr value ↔
          Held history addr value ∧ ¬Overlap start len addr.toNat 4 := by
        intro addr value
        simp only [Held, since_concat, Mark.Spares, reduceCtorEq, false_or]
      refine ⟨fun addr => ?_, fun addr value held => ?_⟩
      · simp only [kept, tracks.reservation, still, exists_and_right]
      · obtain ⟨held, apart⟩ := (still addr value).1 held
        rw [← tracks.word addr value held]
        refine Machine.readWord_congr fun i after before => frame i ?_
        by_contra inside
        exact apart ⟨i, by omega, after, before⟩

/-! ### Actions -/

theorem retire (tracks : Tracks history m) {inst : Instruction} {size : Word}
    {d : Machine.Decision} (decided : Machine.decision inst size m = .ok d) :
    Tracks (history ++ Mark.ofInstruction inst m) (m.retire d) := by
  have effect := Machine.decision_memory decided
  unfold Mark.ofInstruction
  cases kind : Machine.memoryEffect inst m with
  | loadReserved addr =>
      rw [kind] at effect
      obtain ⟨none, taken, value, read, _⟩ := effect
      dsimp only
      rw [read]
      exact tracks.mark ⟨by simp only [Machine.retire, taken], read,
        by simp only [Machine.retire, none]⟩
  | storeConditional addr =>
      rw [kind] at effect
      obtain ⟨_, dropped, _⟩ := effect
      exact tracks.mark (by simp only [Mark.Describes, Machine.retire, dropped])
  | stores addr len =>
      rw [kind] at effect
      obtain ⟨bytes, stored, rfl, permitted, kept⟩ := effect
      have describes := Machine.store_describes tracks.aligned permitted (Machine.stores_width kind)
      have stores : (m.retire d).reservation = (m.store addr bytes).reservation ∧
          (m.retire d).memory = (m.store addr bytes).memory := by
        rw [Machine.store, Machine.invalidateReservation_eq]
        simp only [Machine.retire, stored, kept, and_self]
      exact (tracks.mark describes).same stores.1 stores.2
  | nothing =>
      rw [kind] at effect
      obtain ⟨none, kept⟩ := effect
      rw [List.append_nil]
      exact tracks.same (by simp only [Machine.retire, none, kept])
        (by simp only [Machine.retire, none])

theorem zeroX0 (tracks : Tracks history m) : Tracks history m.zeroX0 :=
  tracks.same rfl rfl

theorem host (tracks : Tracks history m) {op : HostOp n} (covered : (Action.host op).Covered) :
    Tracks (history ++ match op.call m with
      | .ok _ _ => Mark.ofHost op
      | .error _ _ => []) (stateAfter (op.call m)) := by
  have failed : Tracks (history ++ []) m := by rwa [List.append_nil]
  cases op with
  | loadProgram program offset =>
      rw [HostOp.call, Machine.loadProgram_apply]
      by_cases inside : offset.toNat + program.length ≤ n.bytes
      · rw [if_pos inside]
        exact tracks.mark (Machine.place_describes _ _)
      · rw [if_neg inside]
        exact failed
  | writeByte addr value =>
      rw [HostOp.call, Machine.writeByte_apply]
      cases permitted : access n 1 addr with
      | ok _ => exact tracks.mark (Machine.store_describes tracks.aligned permitted (by simp))
      | error e => exact failed
  | writeHalfword addr value =>
      rw [HostOp.call, Machine.writeHalfword_apply]
      cases permitted : access n 2 addr with
      | ok _ => exact tracks.mark (Machine.store_describes tracks.aligned permitted (by simp))
      | error e => exact failed
  | writeWord addr value =>
      rw [HostOp.call, Machine.writeWord_apply]
      cases permitted : access n 4 addr with
      | ok _ => exact tracks.mark (Machine.store_describes tracks.aligned permitted (by simp))
      | error e => exact failed
  | clearReservation => exact tracks.mark rfl
  | setByte addr value => exact covered.elim
  | writeReg | setPc | setReg | setCycleCount | setMscratch => exact failed.same rfl rfl

theorem handle (tracks : Tracks history m) (env : Hostcall.Env) :
    Tracks (history ++ match Hostcall.handle (m, env) with
      | .ok _ _ => Mark.ofRequest env (Hostcall.request m)
      | .error _ _ => []) (stateAfter (Hostcall.handle (m, env))).1 := by
  have unmarked : Tracks (history ++ []) m := by rwa [List.append_nil]
  rw [Hostcall.handle_eq]
  cases Hostcall.request m with
  | exit | unknown => exact unmarked
  | badFd | badBuffer => exact unmarked.same rfl rfl
  | write fd bytes =>
      dsimp only
      cases Writer.writeAll bytes (env.out fd) with
      | ok => exact unmarked.same rfl rfl
      | error => exact unmarked
  | read addr len =>
      dsimp only
      by_cases before : env.inputPos ≤ env.input.length
      · rw [if_pos before]
        have copied := tracks.mark (Machine.place_describes addr.toNat (env.next len))
        exact copied.same rfl rfl
      · rw [if_neg before]
        exact unmarked

theorem segments {image : List Byte} {list : List Loader.Segment} (tracks : Tracks history m)
    (inFile : ∀ s ∈ list, s.InFile image) :
    Tracks (history ++ list.flatMap Mark.ofSegment)
      (list.foldl (Loader.Segment.place image) m) := by
  induction list generalizing history m with
  | nil => rwa [List.flatMap_nil, List.append_nil]
  | cons s rest ih =>
      have length : ((image.drop s.offset.toNat).take s.filesz.toNat).length =
          s.filesz.toNat := by
        have := (inFile s (by simp)).inside
        rw [List.length_take, List.length_drop]
        omega
      have copied := tracks.mark (Machine.place_describes s.vaddr.toNat
        ((image.drop s.offset.toNat).take s.filesz.toNat))
      rw [length] at copied
      rw [List.flatMap_cons, List.foldl_cons, ← List.append_assoc]
      refine ih ?_ fun s listed => inFile s (by simp [listed])
      by_cases bss : s.filesz.toNat < s.memsz.toNat
      · have free : Mark.dropped.Describes (m.place s.vaddr.toNat
            ((image.drop s.offset.toNat).take s.filesz.toNat))
            (Loader.Segment.place image m s) := by
          simp only [Mark.Describes, Loader.Segment.place, bss, if_true]
        have zeroed := copied.mark free
        rw [List.append_assoc] at zeroed
        rw [Mark.ofSegment, if_pos bss]
        exact zeroed
      · simpa only [Mark.ofSegment, Loader.Segment.place, bss, if_false] using copied

/-- **Every action keeps the invariant**, with the marks that it leaves. -/
theorem act {vm : Vm o n} {action : Action n} (tracks : Tracks history vm.toMachine)
    (covered : action.Covered) :
    Tracks (history ++ action.marks vm) (action.act vm).toMachine := by
  have unmarked : Tracks (history ++ []) vm.toMachine := by rwa [List.append_nil]
  cases action with
  | step =>
      show Tracks _ (stateAfter (Vm.step vm)).toMachine
      rcases vm.step_cases with ⟨raw, inst, d, retired, retires, after⟩ | ⟨none, same | zero⟩
      · simp only [Action.marks, retired, after]
        exact tracks.zeroX0.retire retires.decided
      · simpa only [Action.marks, none, same] using unmarked
      · simpa only [Action.marks, none, zero] using unmarked.zeroX0
  | host op =>
      rw [Action.act_host]
      exact tracks.host covered
  | handle env =>
      rw [Action.act_handle]
      exact tracks.handle env
  | loadElf image =>
      rw [Action.act_loadElf]
      simp only [Action.marks, Vm.loadElf, Vm.onMachine, onPart, Loader.loadElf_apply]
      cases parsed : Loader.parse image with
      | error f => exact unmarked
      | ok elf =>
          by_cases fits : ∀ s ∈ elf.segments.ahead, s.Fits n
          · simp only [if_pos fits]
            exact (tracks.segments (Loader.parse_valid parsed).inFile).same rfl rfl
          · simp only [if_neg fits]
            exact unmarked
  | reset => exact tracks.mark rfl

end Tracks

/-! ## SC.W -/

namespace Vm

/-- A covered action leads from one VM to another, and leaves its marks. -/
def Leaves (vm : Vm o n) (label : Action n × List Mark) (vm' : Vm o n) : Prop :=
  label.1.Covered ∧ label.2 = label.1.marks vm ∧ vm' = label.1.act vm

theorem tracks_of_trace {start vm : Vm o n} (free : start.reservation = none)
    {labels : List (Action n × List Mark)} (trace : Trace Leaves start labels vm) :
    Tracks (labels.flatMap Prod.snd) vm.toMachine := by
  refine trace.history (fun labels vm => Tracks (labels.flatMap Prod.snd) vm.toMachine) ?_ ?_
  · rintro labels vm ⟨action, marks⟩ vm' ⟨covered, left, rfl⟩ tracks
    dsimp only at left
    subst left
    rw [List.flatMap_append, List.flatMap_singleton]
    exact tracks.act covered
  · exact ⟨fun addr => by simp [free, Held], fun addr value held => absurd held not_since_nil⟩

/-- Writes of no bytes do not matter. -/
theorem held_counts (history : List Mark) (addr value : Word) :
    Held (history.filter Mark.counts) addr value ↔ Held history addr value := by
  refine since_filter (fun mark idle => ?_) history
  cases mark with
  | wrote start len =>
      cases len with
      | zero => exact ⟨nofun, not_overlap_empty _ _ _⟩
      | succ len => cases idle
  | loaded | conditional | dropped => cases idle

/-- What an SC.W does when it retires, by the reservation. -/
theorem storeConditional {vm : Vm o n} {inst : Instruction} (retired : vm.retired = some inst)
    (sc : inst.op = .a .scW) :
    let addr := vm.readReg inst.rs1
    let after := stateAfter (step vm)
    (vm.reservation = some addr →
      after.memory = patch vm.memory addr.toNat (writeInt 4 (vm.readReg inst.rs2)) ∧
      after.regs = (vm.writeReg inst.rd 0#32).regs) ∧
    (vm.reservation ≠ some addr →
      after.memory = vm.memory ∧ after.regs = (vm.writeReg inst.rd 1#32).regs) := by
  intro addr after
  rcases vm.step_cases with ⟨raw, _, d, same, retires, changed⟩ | ⟨none, _⟩
  case inr => simp [none] at retired
  cases Option.some.inj (same.symm.trans retired)
  have effect := Machine.decision_memory retires.decided
  have kind : Machine.memoryEffect inst vm.zeroX0 = .storeConditional addr := by
    simp only [Machine.memoryEffect, sc, Machine.zeroX0_regs, addr]
  rw [kind] at effect
  obtain ⟨_, _, outcome⟩ := effect
  have reservation : vm.zeroX0.reservation = vm.reservation := rfl
  have memory : vm.zeroX0.memory = vm.memory := rfl
  rw [reservation, Machine.zeroX0_regs] at outcome
  refine ⟨fun reserved => ?_, fun unreserved => ?_⟩
  · rw [if_pos reserved] at outcome
    simp only [after, changed, Machine.retire, outcome, memory, Machine.zeroX0_writeReg, and_self]
  · rw [if_neg unreserved] at outcome
    simp only [after, changed, Machine.retire, outcome, memory, Machine.zeroX0_writeReg, and_self]

/-- **LR.W and SC.W are sound and exact.** After any actions from a state without a
reservation, an SC.W that retires with its word held stores its register in the word, which
still has the value that the LR.W loaded, and writes 0. With its word not held it writes 1 and
leaves memory as it is. Actions that fail and writes of no bytes have no part in which words
are held. -/
theorem lr_sc_exact {start vm : Vm o n} (free : start.reservation = none)
    {labels : List (Action n × List Mark)} (trace : Trace Leaves start labels vm)
    {inst : Instruction} (retired : vm.retired = some inst) (sc : inst.op = .a .scW) :
    let history := labels.flatMap Prod.snd
    let addr := vm.readReg inst.rs1
    let after := stateAfter (step vm)
    (∀ value, Held history addr value →
      vm.readWord addr = .ok value ∧
      after.memory = patch vm.memory addr.toNat (writeInt 4 (vm.readReg inst.rs2)) ∧
      after.regs = (vm.writeReg inst.rd 0#32).regs) ∧
    ((∀ value, ¬Held history addr value) →
      after.memory = vm.memory ∧ after.regs = (vm.writeReg inst.rd 1#32).regs) ∧
    (inst.rd ≠ 0#5 → (after.readReg inst.rd = 0#32 ↔ ∃ value, Held history addr value)) ∧
    (∀ value, Held (history.filter Mark.counts) addr value ↔ Held history addr value) ∧
    ∀ (vm : Vm o n) (action : Action n), action.Fails vm → action.marks vm = [] := by
  intro history addr after
  have tracks := tracks_of_trace free trace
  obtain ⟨success, failure⟩ := storeConditional retired sc
  have unreserved (unheld : ∀ value, ¬Held history addr value) : vm.reservation ≠ some addr :=
    fun reserved => ((tracks.reservation addr).1 reserved).elim unheld
  refine ⟨fun value held => ⟨tracks.word addr value held, ?_⟩,
    fun unheld => failure (unreserved unheld), fun writable => ⟨fun zero => ?_, ?_⟩,
    held_counts history addr, fun vm action => Action.marks_of_fails⟩
  · exact success ((tracks.reservation addr).2 ⟨value, held⟩)
  · by_contra unheld
    have one := (failure (unreserved fun value held => unheld ⟨value, held⟩)).2
    simp [Machine.readReg, after, one, Machine.writeReg, writable] at zero
  · intro held
    have zero := (success ((tracks.reservation addr).2 held)).2
    simp [Machine.readReg, after, zero, Machine.writeReg, writable]

/-- LR.W x3, (x0) and then SC.W x4, x2, (x0), at the word that holds the first of them. -/
theorem lr_sc_exact_self :
    let program := writeInt 4 0x100021AF#32 ++ writeInt 4 0x1820222F#32
    let start : Vm Options.uncached .eight :=
      { (reset : Vm Options.uncached .eight) with memory := patch (fun _ => 0#8) 0 program }
    let vm := Action.act start .step
    (stateAfter (step vm)).readReg 4#5 = 0#32 ∧ vm.readWord 0#32 = .ok 0x100021AF#32 := by
  intro program start vm
  have marks : [.loaded 0#32 0x100021AF#32] = Action.marks start .step := by decide +kernel
  have trace : Trace Leaves start [(.step, [.loaded 0#32 0x100021AF#32])] vm :=
    .snoc (.nil start) ⟨trivial, marks, rfl⟩
  have retired : vm.retired = some
      { op := .a .scW, rd := 4#5, rs1 := 0#5, rs2 := 2#5, raw := 0x1820222F#32 } := by
    decide +kernel
  obtain ⟨success, _, exact_iff, _⟩ := lr_sc_exact rfl trace retired rfl
  have held : Held [.loaded 0#32 0x100021AF#32] 0#32 0x100021AF#32 :=
    ⟨[], _, [], rfl, rfl, nofun⟩
  exact ⟨(exact_iff (by decide)).2 ⟨_, held⟩, (success _ held).1⟩

end Vm

end Determinant
