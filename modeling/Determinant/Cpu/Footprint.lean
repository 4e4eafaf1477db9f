import Determinant.Cpu.Accesses
import Determinant.Cpu.DescribeFault
import Determinant.Cpu.Fetch

/-!
# The footprint of a run

A step touches the bytes of the instruction at `pc` and, when it is decoded and its data
access is aligned, the bytes of that access (`Touches`). Two machines, with memories of any two
sizes, may differ outside a set of addresses (`SameAt`): a step that touches only addresses of
the set is the same step in both (`SameAt.step`), and no step changes a byte it does not touch
(`stepWith_untouched`). A run touches what its steps touch, so its outcome depends on the bytes
it touches and on nothing else in memory, and it leaves all other bytes as they were
(`runs_local`).
-/

set_option autoImplicit false

namespace Determinant

open Foundations

variable {n n' : MemSize} {o o' : Options}

/-- Regions of two arrays that agree there are the same. -/
theorem slice_eq_slice {α : Type} {k k' : Nat} {cells : Fin k → α} {cells' : Fin k' → α}
    {start len : Nat} (inside : start + len ≤ k) (inside' : start + len ≤ k')
    (agree : ∀ (i : Fin k) (j : Fin k'), i.val = j.val → start ≤ i.val → i.val < start + len →
      cells i = cells' j) :
    slice cells start len inside = slice cells' start len inside' := by
  apply List.ext_getElem (by simp)
  intro i h _
  rw [length_slice] at h
  simp only [getElem_slice]
  exact agree _ _ rfl (by simp) (by simp; omega)

namespace Machine

/-- The bytes of the instruction at `pc`, which is not looked at when `pc` is odd. -/
def Fetches (m : Machine n) (x : Nat) : Prop :=
  m.pc.toNat % 2 = 0 ∧ m.pc.toNat ≤ x ∧ x < m.pc.toNat + m.instructionLength m.pc.toNat

/-- The bytes of an access, which is not made when it is misaligned. -/
def InAccess (access : Option (Word × Nat)) (x : Nat) : Prop :=
  ∃ addr k, access = some (addr, k) ∧ addr.toNat % k = 0 ∧ addr.toNat ≤ x ∧ x < addr.toNat + k

/-- The bytes of the data access of the instruction at `pc`. -/
def Accesses (decode : Word → Except DecodeError Instruction) (m : Machine n) (x : Nat) : Prop :=
  ∃ raw inst, m.fetch = .ok raw ∧ decode raw = .ok inst ∧
    InAccess (dataAccess inst (m.zeroX0.regs inst.rs1)) x

/-- The bytes that a step reads or writes, or would if they were inside memory. -/
def Touches (decode : Word → Except DecodeError Instruction) (m : Machine n) (x : Nat) : Prop :=
  m.Fetches x ∨ m.Accesses decode x

/-- The machines agree on everything but the bytes outside a set of addresses, which lie
inside both memories or outside both. -/
structure SameAt (seen : Nat → Prop) (m : Machine n) (m' : Machine n') : Prop where
  pc : m.pc = m'.pc
  regs : m.regs = m'.regs
  memory : ∀ (i : Fin n.bytes) (j : Fin n'.bytes), i.val = j.val → seen i → m.memory i = m'.memory j
  cycleCount : m.cycleCount = m'.cycleCount
  reservation : m.reservation = m'.reservation
  csrs : m.csrs = m'.csrs
  stopPc : m.stopPc = m'.stopPc
  inside : ∀ x, seen x → (x < n.bytes ↔ x < n'.bytes)

variable {seen : Nat → Prop} {m : Machine n} {m' : Machine n'}

theorem SameAt.symm (same : SameAt seen m m') : SameAt seen m' m where
  pc := same.pc.symm
  regs := same.regs.symm
  memory i j equal inSeen := (same.memory j i equal.symm (equal ▸ inSeen)).symm
  cycleCount := same.cycleCount.symm
  reservation := same.reservation.symm
  csrs := same.csrs.symm
  stopPc := same.stopPc.symm
  inside x inSeen := (same.inside x inSeen).symm

theorem SameAt.mono {less : Nat → Prop} (same : SameAt seen m m') (le : ∀ x, less x → seen x) :
    SameAt less m m' :=
  { same with
    memory := fun i j equal inLess => same.memory i j equal (le i inLess)
    inside := fun x inLess => same.inside x (le x inLess) }

theorem SameAt.zeroX0 (same : SameAt seen m m') : SameAt seen m.zeroX0 m'.zeroX0 :=
  { same with regs := by simp only [Machine.zeroX0, same.regs] }

/-! ## Regions that are seen -/

/-- A region that is seen lies inside both memories or inside neither. -/
theorem SameAt.inside_iff (same : SameAt seen m m') {start len : Nat} (positive : 0 < len)
    (within : ∀ x, start ≤ x → x < start + len → seen x) :
    start + len ≤ n.bytes ↔ start + len ≤ n'.bytes := by
  -- The last byte decides.
  have last := same.inside (start + len - 1) (within _ (by omega) (by omega))
  omega

theorem SameAt.slice_eq (same : SameAt seen m m') {start len : Nat}
    (within : ∀ x, start ≤ x → x < start + len → seen x) (inside : start + len ≤ n.bytes)
    (inside' : start + len ≤ n'.bytes) :
    slice m.memory start len inside = slice m'.memory start len inside' :=
  slice_eq_slice inside inside' fun i j equal after before =>
    same.memory i j equal (within i after before)

/-- An aligned access that is seen is permitted in both or refused in both. -/
theorem SameAt.access_eq (same : SameAt seen m m') {k : Nat} (positive : 0 < k) {addr : Word}
    (within : ∀ x, InAccess (some (addr, k)) x → seen x) : access n k addr = access n' k addr := by
  unfold access
  by_cases aligned : addr.toNat % k = 0
  · have bound := same.inside_iff positive fun x after before =>
      within x ⟨addr, k, rfl, aligned, after, before⟩
    simp only [aligned, ne_eq, not_true_eq_false, if_false, ← Nat.not_le, bound]
  · simp only [aligned, ne_eq, not_false_eq_true, if_true]

theorem SameAt.load_eq (same : SameAt seen m m') {k : Nat} (positive : 0 < k) {addr : Word}
    (within : ∀ x, InAccess (some (addr, k)) x → seen x) : m.load k addr = m'.load k addr := by
  have checks := same.access_eq positive within
  cases permitted : access n k addr with
  | error e =>
      rw [permitted] at checks
      rw [load_eq_error.2 permitted, load_eq_error.2 checks.symm]
  | ok _ =>
      rw [permitted] at checks
      obtain ⟨aligned, inside⟩ := access_eq_ok.1 permitted
      obtain ⟨_, inside'⟩ := access_eq_ok.1 checks.symm
      have bytes := same.slice_eq (fun x after before =>
        within x ⟨addr, k, rfl, aligned, after, before⟩) inside inside'
      rw [load_eq_ok.2 ⟨aligned, inside, bytes⟩, load_eq_ok.2 ⟨aligned, inside', rfl⟩]

/-! ## One step -/

theorem SameAt.instructionLength_eq (same : SameAt seen m m') (within : ∀ x, m.Fetches x → seen x)
    (even : m.pc.toNat % 2 = 0) :
    m.instructionLength m.pc.toNat = m'.instructionLength m.pc.toNat := by
  have long := m.instructionLength_cases m.pc.toNat
  have half : ∀ x, m.pc.toNat ≤ x → x < m.pc.toNat + 2 → seen x := fun x after before =>
    within x ⟨even, after, by omega⟩
  have bound := same.inside_iff (by decide) half
  unfold instructionLength
  by_cases inside : m.pc.toNat + 2 ≤ n.bytes
  · have inside' := bound.1 inside
    simp only [dif_pos inside, dif_pos inside', same.slice_eq half inside inside']
  · rw [dif_neg inside, dif_neg (mt bound.2 inside)]

/-- **The same instruction is fetched**, when its bytes are seen. -/
theorem SameAt.fetch_eq (same : SameAt seen m m') (within : ∀ x, m.Fetches x → seen x) :
    m.fetch = m'.fetch := by
  rcases Nat.mod_two_eq_zero_or_one m.pc.toNat with even | odd
  · have long := same.instructionLength_eq within even
    have positive : 0 < m.instructionLength m.pc.toNat := by
      rcases m.instructionLength_cases m.pc.toNat with half | full <;> omega
    have seenAll : ∀ x, m.pc.toNat ≤ x → x < m.pc.toNat + m.instructionLength m.pc.toNat →
        seen x := fun x after before => within x ⟨even, after, before⟩
    have bound := same.inside_iff positive seenAll
    by_cases inside : m.pc.toNat + m.instructionLength m.pc.toNat ≤ n.bytes
    · have inside' := bound.1 inside
      have bytes := same.slice_eq seenAll inside inside'
      have fetched' := fetch_inside (m := m') (same.pc ▸ even)
        (by simp only [← same.pc, ← long]; exact inside')
      simp only [← same.pc, ← long] at fetched'
      rw [fetch_inside even inside, fetched', bytes]
    · rw [fetch_outOfBounds even (Nat.not_le.1 inside), fetch_outOfBounds (same.pc ▸ even)]
      rw [← same.pc, ← long]
      exact Nat.not_le.1 (mt bound.2 inside)
  · rw [fetch_misaligned odd, fetch_misaligned (same.pc ▸ odd)]

/-- **The same is decided**, when the bytes of the data access are seen. -/
theorem SameAt.decision_eq (same : SameAt seen m m') (inst : Instruction) (size : Word)
    (within : ∀ x, InAccess (dataAccess inst (m.regs inst.rs1)) x → seen x) :
    decision inst size m = decision inst size m' := by
  obtain ⟨op, rd, rs1, rs2, imm, raw, compressedOp⟩ := inst
  cases op with
  | i op =>
      cases op with
      | lb | lbu | lh | lhu | lw =>
          have bytes := same.load_eq (by decide) within
          simp only [decision, decisionI, readByte_eq, readHalfword_eq, readWord_eq, ← same.regs,
            ← same.pc, bytes]
      | sb | sh | sw =>
          have checks := same.access_eq (by decide) within
          simp only [decision, decisionI, storing, List.length_singleton, length_writeInt,
            ← same.regs, ← same.pc, checks]
      | _ => simp only [decision, decisionI, same.regs, same.pc]
  | a op =>
      have checks := same.access_eq (by decide) within
      have bytes := same.load_eq (by decide) within
      simp only [decision, decisionA, readWord_eq, ← same.regs, ← same.pc, ← same.reservation,
        checks, bytes]
  | csr op => simp only [decision, decisionCsr, same.regs, same.pc, same.cycleCount, same.csrs]
  | m op | zba op | zbb op | zbs op => simp only [decision, same.regs, same.pc]

/-- The same changes keep the machines the same where they were. -/
theorem SameAt.retire (same : SameAt seen m m') (d : Decision) :
    SameAt seen (m.retire d) (m'.retire d) where
  pc := rfl
  regs := by
    simp only [Machine.retire, writeReg, same.regs]
  memory i j equal inSeen := by
    have before := same.memory i j equal inSeen
    simp only [Machine.retire]
    cases d.store with
    | none => exact before
    | some stored => simp only [patch, equal, before]
  cycleCount := by simp only [Machine.retire, same.cycleCount]
  reservation := by simp only [Machine.retire, same.reservation]
  csrs := by simp only [Machine.retire, same.csrs]
  stopPc := by simp only [Machine.retire, same.stopPc, same.pc]
  inside := same.inside

variable {decode : Word → Except DecodeError Instruction}

/-- **A step that touches only what is seen is the same step in both machines.** -/
theorem SameAt.step (same : SameAt seen m m') (within : ∀ x, m.Touches decode x → seen x) :
    answer (stepWith decode m) = answer (stepWith decode m') ∧
      SameAt seen (stateAfter (stepWith decode m)) (stateAfter (stepWith decode m')) := by
  have fetches := same.fetch_eq fun x fetched => within x (.inl fetched)
  simp only [stepWith, bind_apply, reads, execute_eq, ← fetches]
  cases fetched : m.fetch with
  | error e => exact ⟨rfl, same⟩
  | ok raw =>
      cases decoded : decode raw with
      | error e =>
          simp only [decoded, liftDecode]
          exact ⟨rfl, same⟩
      | ok inst =>
          have decides := same.zeroX0.decision_eq inst (instSize raw)
            fun x accessed => within x (.inr ⟨raw, inst, fetched, decoded, accessed⟩)
          simp only [decoded, liftDecode, ← decides]
          cases decision inst (instSize raw) m.zeroX0 with
          | error e => exact ⟨rfl, same.zeroX0⟩
          | ok d => exact ⟨rfl, same.zeroX0.retire d⟩

/-! ## What is not touched -/

/-- What an instruction stores lies in its data access. -/
theorem decision_store {inst : Instruction} {size : Word} {d : Decision}
    (decided : decision inst size m = .ok d) {addr : Word} {bytes : List Byte}
    (stored : d.store = some (addr, bytes)) :
    dataAccess inst (m.regs inst.rs1) = some (addr, bytes.length) ∧
      addr.toNat % bytes.length = 0 := by
  have effect := decision_memory decided
  have accessed : ∀ len, dataAccess inst (m.regs inst.rs1) = some (addr, len) →
      access n len addr = .ok () → bytes.length = len →
      dataAccess inst (m.regs inst.rs1) = some (addr, bytes.length) ∧
        addr.toNat % bytes.length = 0 := by
    rintro len accesses permitted rfl
    exact ⟨accesses, (access_eq_ok.1 permitted).1⟩
  obtain ⟨op, rd, rs1, rs2, imm, raw, compressedOp⟩ := inst
  cases op with
  | i op =>
      cases op with
      | sb | sh | sw =>
          obtain ⟨bytes', stored', length, permitted, _⟩ := effect
          rw [stored] at stored'
          cases stored'
          exact accessed _ rfl permitted length
      | _ =>
          rw [effect.1] at stored
          cases stored
  | a op =>
      cases op with
      | lrW =>
          rw [effect.1] at stored
          cases stored
      | scW =>
          obtain ⟨permitted, _, outcome⟩ := effect
          split at outcome
          · rw [stored] at outcome
            obtain ⟨same, _⟩ := outcome
            cases same
            exact accessed 4 rfl permitted (length_writeInt 4 _)
          · rw [stored] at outcome
            cases outcome.1
      | _ =>
          obtain ⟨bytes', stored', length, permitted, _⟩ := effect
          rw [stored] at stored'
          cases stored'
          exact accessed _ rfl permitted length
  | _ =>
      rw [effect.1] at stored
      cases stored

/-- **A step leaves every byte that it does not touch as it was.** -/
theorem stepWith_untouched (i : Fin n.bytes) (untouched : ¬m.Touches decode i) :
    (stateAfter (stepWith decode m)).memory i = m.memory i := by
  cases stepped : stepWith decode m with
  | error e next =>
      rcases stepWith_error stepped with same | same <;> rw [stateAfter_error, same]
      rfl
  | ok result next =>
      obtain ⟨raw, inst, d, ⟨fetched, decoded, decided⟩, _, rfl⟩ := stepWith_eq_ok.1 stepped
      simp only [stateAfter_ok, Machine.retire]
      cases stored : d.store with
      | none => rfl
      | some store =>
          obtain ⟨addr, bytes⟩ := store
          obtain ⟨accesses, aligned⟩ := decision_store decided stored
          refine patch_outside _ _ _ _ ?_
          by_contra within
          exact untouched (.inr ⟨raw, inst, fetched, decoded, addr, bytes.length, accesses,
            aligned, by omega, by omega⟩)

/-- A step that does not fail out of bounds touches only bytes of memory. -/
theorem inside_of_touches (fetch : answer (stepWith decode m) ≠ .error .pcOutOfBounds)
    (access : answer (stepWith decode m) ≠ .error .addressOutOfBounds) {x : Nat}
    (touched : m.Touches decode x) : x < n.bytes := by
  rw [answer_stepWith] at fetch access
  rcases touched with ⟨even, after, before⟩ | ⟨raw, inst, fetched, decoded, addr, k, accesses,
    aligned, after, before⟩
  · by_contra outside
    rw [fetch_outOfBounds even (by omega)] at fetch
    exact fetch rfl
  · by_contra outside
    have refused : Determinant.access n k addr = .error .addressOutOfBounds :=
      access_eq_error.2 (.inr ⟨aligned, by omega, rfl⟩)
    rw [fetched] at access
    have undecided : decision inst (instSize raw) m.zeroX0 = .error .addressOutOfBounds :=
      (decision_of_access accesses).2 refused
    simp only [decoded, liftDecode, undecided, bind, Except.bind, ne_eq,
      not_true_eq_false] at access

/-- Machines that are the same where a step touches touch the same bytes. -/
theorem SameAt.touches_iff (same : SameAt seen m m') (within : ∀ x, m.Touches decode x → seen x)
    (x : Nat) : m.Touches decode x ↔ m'.Touches decode x := by
  have fetches := same.fetch_eq fun x fetched => within x (.inl fetched)
  refine or_congr ?_ ?_
  · unfold Fetches
    rw [← same.pc]
    refine and_congr_right fun even => ?_
    rw [same.instructionLength_eq (fun x fetched => within x (.inl fetched)) even]
  · unfold Accesses
    rw [fetches, same.zeroX0.regs]

end Machine

/-! ## Runs -/

namespace Vm

/-- The VMs agree on everything but the bytes outside a set of addresses, and both caches are
coherent. -/
structure SameAt (seen : Nat → Prop) (vm : Vm o n) (vm' : Vm o' n') : Prop where
  machine : Machine.SameAt seen vm.toMachine vm'.toMachine
  coherent : Coherent o.decode vm.decodeCache
  coherent' : Coherent o'.decode vm'.decodeCache

/-- The VMs from which a run takes a step. -/
def StepsFrom (maxCycles : Option Count) (vm current : Vm o n) : Prop :=
  (∃ k, Turns (runBody maxCycles) k (vm, .continue) (current, .continue)) ∧
    limitReached maxCycles current = false

/-- The bytes that the steps of a run touch. -/
def RunTouches (maxCycles : Option Count) (vm : Vm o n) (x : Nat) : Prop :=
  ∃ current, StepsFrom maxCycles vm current ∧ current.toMachine.Touches o.decode x

variable {seen : Nat → Prop} {vm : Vm o n} {vm' : Vm o' n'}

/-- A step leaves every byte that it does not touch as it was. -/
theorem step_untouched (coherent : Coherent o.decode vm.decodeCache) (i : Fin n.bytes)
    (untouched : ¬vm.toMachine.Touches o.decode i) :
    (stateAfter (step vm)).memory i = vm.memory i := by
  rw [(step_of_coherent coherent).2]
  exact Machine.stepWith_untouched i untouched

variable (default : o.decode = Determinant.decode) (default' : o'.decode = Determinant.decode)

include default default'

theorem SameAt.step (agree : SameAt seen vm vm')
    (within : ∀ x, vm.toMachine.Touches o.decode x → seen x) :
    answer (Vm.step vm) = answer (Vm.step vm') ∧
      SameAt seen (stateAfter (Vm.step vm)) (stateAfter (Vm.step vm')) := by
  obtain ⟨answers, machines⟩ := step_of_coherent agree.coherent
  obtain ⟨answers', machines'⟩ := step_of_coherent agree.coherent'
  obtain ⟨sameAnswer, sameMachine⟩ := agree.machine.step within
  rw [default] at answers machines sameAnswer sameMachine
  rw [default'] at answers' machines'
  have faithful : ∀ raw inst, Determinant.decode raw = .ok inst → inst.raw = raw :=
    fun _ _ decoded => (decode_decoded decoded).raw
  refine ⟨answers.trans (sameAnswer.trans answers'.symm), ?_,
    coherent_step (default ▸ faithful) agree.coherent,
    coherent_step (default' ▸ faithful) agree.coherent'⟩
  rw [machines, machines']
  exact sameMachine

/-- What holds of two runs after the same number of turns. -/
structure Local (maxCycles : Option Count) (seen : Nat → Prop) (vm : Vm o n) (vm' : Vm o' n')
    (s : Vm o n × StepResult) (s' : Vm o' n' × StepResult) : Prop where
  turns : ∃ k, Turns (runBody maxCycles) k (vm, .continue) s
  agree : SameAt seen s.1 s'.1
  result : s.2 = s'.2
  rest : ∀ i : Fin n.bytes, ¬RunTouches maxCycles vm i → s.1.memory i = vm.memory i
  rest' : ∀ j : Fin n'.bytes, ¬RunTouches maxCycles vm j → s'.1.memory j = vm'.memory j

/-- A step that both runs take, at which they still agree. -/
theorem Local.step {maxCycles : Option Count} (within : ∀ x, RunTouches maxCycles vm x → seen x)
    {s : Vm o n × StepResult} {s' : Vm o' n' × StepResult}
    (current : Local maxCycles seen vm vm' s s') (goesOn : s.2 = .continue)
    (below : limitReached maxCycles s.1 = false) :
    answer (Vm.step s.1) = answer (Vm.step s'.1) ∧
      SameAt seen (stateAfter (Vm.step s.1)) (stateAfter (Vm.step s'.1)) ∧
      (∀ i : Fin n.bytes, ¬RunTouches maxCycles vm i →
        (stateAfter (Vm.step s.1)).memory i = vm.memory i) ∧
      ∀ j : Fin n'.bytes, ¬RunTouches maxCycles vm j →
        (stateAfter (Vm.step s'.1)).memory j = vm'.memory j := by
  obtain ⟨at', result⟩ := s
  dsimp only at goesOn below
  subst goesOn
  have counted : ∀ x, at'.toMachine.Touches o.decode x → RunTouches maxCycles vm x :=
    fun x touched => ⟨at', ⟨current.turns, below⟩, touched⟩
  have inSeen : ∀ x, at'.toMachine.Touches o.decode x → seen x :=
    fun x touched => within x (counted x touched)
  obtain ⟨answers, agree⟩ := current.agree.step default default' inSeen
  refine ⟨answers, agree, fun i untouched => ?_, fun j untouched => ?_⟩
  · rw [step_untouched current.agree.coherent i (mt (counted i) untouched)]
    exact current.rest i untouched
  · have touches := current.agree.machine.touches_iff inSeen j
    rw [default] at touches counted
    rw [← default'] at touches counted
    rw [step_untouched current.agree.coherent' j
      (mt (fun touched => counted j (touches.2 touched)) untouched)]
    exact current.rest' j untouched

/-- While a run keeps to bytes that two VMs agree on, the other VM follows it to its end. The VMs
then agree as before, and each has in the bytes that are not touched what it had. -/
theorem runs_sameAt {maxCycles : Option Count} (within : ∀ x, RunTouches maxCycles vm x → seen x)
    (agree : SameAt seen vm vm') {outcome : Outcome o n StepResult}
    (runs : Runs maxCycles vm outcome) :
    ∃ outcome', Runs maxCycles vm' outcome' ∧ answer outcome = answer outcome' ∧
      SameAt seen (stateAfter outcome) (stateAfter outcome') ∧
      (∀ i : Fin n.bytes, ¬RunTouches maxCycles vm i →
        (stateAfter outcome).memory i = vm.memory i) ∧
      ∀ j : Fin n'.bytes, ¬RunTouches maxCycles vm j →
        (stateAfter outcome').memory j = vm'.memory j := by
  have limits : ∀ {vm : Vm o n} {vm' : Vm o' n'} {seen : Nat → Prop}, SameAt seen vm vm' →
      limitReached maxCycles vm' = limitReached maxCycles vm := by
    intro vm vm' seen agree
    unfold limitReached
    rw [agree.machine.cycleCount]
  have start : Local maxCycles seen vm vm' (vm, .continue) (vm', .continue) :=
    ⟨⟨0, .refl _⟩, agree, rfl, fun _ _ => rfl, fun _ _ => rfl⟩
  refine Ends.simulate (Local maxCycles seen vm vm')
    (fun (r : Outcome o n StepResult) (r' : Outcome o' n' StepResult) => answer r = answer r' ∧
      SameAt seen (stateAfter r) (stateAfter r') ∧
      (∀ i : Fin n.bytes, ¬RunTouches maxCycles vm i → (stateAfter r).memory i = vm.memory i) ∧
      ∀ j : Fin n'.bytes, ¬RunTouches maxCycles vm j → (stateAfter r').memory j = vm'.memory j)
    ?_ ?_ runs start
  · rintro s ⟨at', result⟩ ⟨next, onward⟩ current turn
    obtain ⟨goesOn, below, stepped⟩ := runBody_eq_again.1 turn
    obtain ⟨answers, agree, rest, rest'⟩ := current.step default default' within goesOn below
    obtain ⟨k, turns⟩ := current.turns
    rw [stepped] at answers agree rest
    cases stepped' : Vm.step at' with
    | error e next' => simp [stepped'] at answers
    | ok onward' next' =>
        rw [stepped'] at answers agree rest'
        cases answers
        exact ⟨(next', onward), runBody_eq_again.2 ⟨current.result ▸ goesOn,
          (limits current.agree).trans below, stepped'⟩, ⟨k + 1, turns.tail turn⟩, agree, rfl,
          rest, rest'⟩
  · rintro s ⟨at', result⟩ outcome current leaves
    have results : s.2 = result := current.result
    rcases runBody_eq_done.1 leaves with ⟨reached, rfl⟩ | ⟨goesOn, below, e, next, failed, rfl⟩
    · refine ⟨.ok result at', runBody_eq_done.2 (.inl ⟨fun goesOn => ?_, rfl⟩), ?_,
        current.agree, current.rest, current.rest'⟩
      · exact (limits current.agree).trans (reached (results.trans goesOn))
      · rw [results]
        rfl
    · obtain ⟨answers, agree, rest, rest'⟩ := current.step default default' within goesOn below
      rw [failed] at answers agree rest
      cases failed' : Vm.step at' with
      | ok result' next' => simp [failed'] at answers
      | error e' next' =>
          rw [failed'] at answers agree rest'
          cases answers
          exact ⟨.error e next', runBody_eq_done.2 (.inr ⟨current.result ▸ goesOn,
            (limits current.agree).trans below, e, next', failed', rfl⟩), rfl, agree,
            rest, rest'⟩

/-- **The outcome of a run depends on the bytes it touches, and on nothing else in memory.**
Take two VMs with the default decoder, with memories of any sizes and coherent caches of any
sizes, which agree on everything but some bytes that a run of the first does not touch. When
this run ends, so does the run of the second, with the same result or error; the VMs then agree
as before, and each has in the bytes that are not touched what it had before the run. -/
theorem runs_local {maxCycles : Option Count} (agree : SameAt (RunTouches maxCycles vm) vm vm')
    {outcome : Outcome o n StepResult} (runs : Runs maxCycles vm outcome) :
    ∃ outcome', Runs maxCycles vm' outcome' ∧ answer outcome = answer outcome' ∧
      SameAt (RunTouches maxCycles vm) (stateAfter outcome) (stateAfter outcome') ∧
      (∀ i : Fin n.bytes, ¬RunTouches maxCycles vm i →
        (stateAfter outcome).memory i = vm.memory i) ∧
      ∀ j : Fin n'.bytes, ¬RunTouches maxCycles vm j →
        (stateAfter outcome').memory j = vm'.memory j :=
  runs_sameAt default default' (fun _ touched => touched) agree runs

omit default default'

/-- The smallest VM, just reset, and one with another byte behind the instruction at 0. Zeros
are no instruction, and the last byte is not touched. -/
theorem runs_local_reset :
    let vm : Vm Options.uncached .four := reset
    let vm' : Vm Options.uncached .four := { vm with
      memory := Function.update vm.memory ⟨3, by decide⟩ 1#8 }
    ∃ outcome, Runs (some 1#64) vm' outcome ∧ answer outcome = .error .illegalInstruction ∧
      (stateAfter outcome).memory ⟨3, by decide⟩ = 1#8 := by
  intro vm vm'
  have failed : step (reset : Vm Options.uncached .four) = .error .illegalInstruction reset := rfl
  have leaves : runBody (some 1#64) (vm, .continue) = .done (.error .illegalInstruction vm) :=
    runBody_eq_done.2 (.inr ⟨rfl, rfl, _, _, failed, rfl⟩)
  have untouched : ∀ x, RunTouches (some 1#64) vm x → x < 2 := by
    rintro x ⟨current, ⟨⟨k, turns⟩, below⟩, touched⟩
    cases turns with
    | head turn _ =>
        rw [leaves] at turn
        cases turn
    | refl =>
        rcases touched with ⟨_, _, before⟩ | ⟨raw, inst, fetched, decoded, _⟩
        · exact before
        · have zero : (reset : Vm Options.uncached .four).fetch = .ok 0#32 := rfl
          rw [zero] at fetched
          cases fetched
          cases decoded
  have agree : SameAt (RunTouches (some 1#64) vm) vm vm' := by
    refine ⟨⟨rfl, rfl, fun i j equal touched => ?_, rfl, rfl, rfl, rfl, fun _ _ => Iff.rfl⟩,
      .empty _, .empty _⟩
    have below := untouched i touched
    have other : j ≠ ⟨3, by decide⟩ := by
      rintro rfl
      have three : i.val = 3 := equal
      omega
    show (0#8 : Byte) = Function.update (fun _ => 0#8) _ 1#8 j
    rw [Function.update_of_ne other]
  obtain ⟨outcome, runs, answers, _, _, rest⟩ :=
    runs_local rfl rfl agree (ends_of_done leaves)
  refine ⟨outcome, runs, answers.symm, ?_⟩
  rw [rest _ fun touched => absurd (untouched _ touched) (by decide)]
  exact Function.update_self (⟨3, by decide⟩ : Fin MemSize.four.bytes) 1#8 vm.memory

end Vm

end Determinant
