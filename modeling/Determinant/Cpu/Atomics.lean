import Determinant.Cpu.Ready
import Determinant.Foundations.WordArithmetic

/-!
# The A extension

What an atomic instruction does is stated over the integers (`Rv32a.Opcode.outcome`): the value
that goes to `rd`, the value that is stored, and the reservation, from the word in memory and the
registers before the step. The step has this outcome at every address that is a multiple of
four with its word inside memory, and fails at every other (`Vm.atomics_exact`).
-/

set_option autoImplicit false

namespace Determinant

open Foundations

variable {n : MemSize} {o : Options}

/-! ## The instructions over the integers -/

/-- What an atomic instruction computes. -/
structure Rv32a.Outcome where
  value : Int
  store : Option Int := none
  reservation : Option Word

/-- LR.W takes the reservation, SC.W stores when it is there and always drops it, and an AMO
stores what it combines from the old word and `src`, and drops a reservation of the word. -/
def Rv32a.Opcode.outcome (op : Rv32a.Opcode) (addr old src : Word) (reservation : Option Word) :
    Rv32a.Outcome :=
  let amo (new : Int) : Outcome :=
    { value := old.toInt, store := some new,
      reservation := if reservation = some addr then none else reservation }
  match op with
  | .lrW => { value := old.toInt, reservation := some addr }
  | .scW =>
      if reservation = some addr then { value := 0, store := some src.toInt, reservation := none }
      else { value := 1, reservation := none }
  | .amoswapW => amo src.toInt
  | .amoaddW => amo (old.toInt + src.toInt)
  | .amoxorW => amo (old.toNat ^^^ src.toNat : Nat)
  | .amoandW => amo (old.toNat &&& src.toNat : Nat)
  | .amoorW => amo (old.toNat ||| src.toNat : Nat)
  | .amominW => amo (min old.toInt src.toInt)
  | .amomaxW => amo (max old.toInt src.toInt)
  | .amominuW => amo (min old.toNat src.toNat : Nat)
  | .amomaxuW => amo (max old.toNat src.toNat : Nat)

namespace Machine

/-- The machine behind an atomic instruction with this outcome. -/
def afterAtomic (m : Machine n) (rd : Reg) (addr : Word) (outcome : Rv32a.Outcome) : Machine n :=
  { m with
    pc := m.pc + 4#32
    regs := m.setReg rd (BitVec.ofInt 32 outcome.value)
    memory := match outcome.store with
      | some value => patch m.memory addr.toNat (writeInt 4 (BitVec.ofInt 32 value))
      | none => m.memory
    cycleCount := m.cycleCount + 1
    reservation := outcome.reservation }

/-! ## The source's instructions -/

/-- What the source computes for an AMO is what it combines. -/
theorem outcome_amo {op : Rv32a.Opcode} (amo : op.isAmo) (addr old src : Word)
    (reservation : Option Word) :
    ∃ new, op.outcome addr old src reservation =
        { value := old.toInt, store := some new,
          reservation := if reservation = some addr then none else reservation } ∧
      BitVec.ofInt 32 new = Rv32a.execute op amo old src := by
  cases op with
  | lrW => exact absurd rfl amo.1
  | scW => exact absurd rfl amo.2
  | amoswapW => exact ⟨_, rfl, BitVec.ofInt_toInt⟩
  | amoaddW => exact ⟨_, rfl, by rw [BitVec.ofInt_add, BitVec.ofInt_toInt, BitVec.ofInt_toInt]; rfl⟩
  | amoxorW => exact ⟨_, rfl, (xor_eq_ofInt old src).symm⟩
  | amoandW => exact ⟨_, rfl, (and_eq_ofInt old src).symm⟩
  | amoorW => exact ⟨_, rfl, (or_eq_ofInt old src).symm⟩
  | amominW => exact ⟨_, rfl, ofInt_min old src⟩
  | amomaxW => exact ⟨_, rfl, ofInt_max old src⟩
  | amominuW => exact ⟨_, rfl, ofInt_min_toNat old src⟩
  | amomaxuW => exact ⟨_, rfl, ofInt_max_toNat old src⟩

variable {m : Machine n} {addr : Word}

theorem readWord_inside (aligned : addr.toNat % 4 = 0) (inside : addr.toNat + 4 ≤ n.bytes) :
    m.readWord addr = .ok (readInt 32 (slice m.memory addr.toNat 4 inside)) := by
  rw [readWord_eq, load_eq_ok.2 ⟨aligned, inside, rfl⟩]
  rfl

/-- A store at an aligned word drops the reservation exactly when it is of this word. -/
theorem filter_reservation (aligned : addr.toNat % 4 = 0) (reservation : Option Word) :
    reservation.filter (fun res => addr &&& 0xFFFFFFFC#32 ≠ res) =
      if reservation = some addr then none else reservation := by
  have masked : addr &&& 0xFFFFFFFC#32 = addr := by
    apply BitVec.eq_of_toNat_eq
    rw [show (0xFFFFFFFC#32 : Word) = (BitVec.allOnes 30).setWidth 32 <<< 2 from rfl,
      toNat_clear_low addr (by decide)]
    omega
  rw [masked]
  cases reservation with
  | none => rfl
  | some res =>
      by_cases same : addr = res
      · subst same
        simp
      · simp [same, Ne.symm same, Option.filter]

/-- The changes of a decision are the ones of an outcome when it decides the outcome's values. -/
theorem retire_eq_afterAtomic (x0 : m.regs 0#5 = 0#32) {rd : Reg} {value : Word}
    {store : Option (Word × List Byte)} {reserve : Reserve} {outcome : Rv32a.Outcome}
    (sameValue : BitVec.ofInt 32 outcome.value = value)
    (sameStore : outcome.store.map (fun v => (addr, writeInt 4 (BitVec.ofInt 32 v))) = store)
    (sameReservation :
      (m.retire { store := store, reserve := reserve, nextPc := 0#32 }).reservation =
        outcome.reservation) :
    m.retire
        { reg := some (rd, value), store := store, reserve := reserve, nextPc := m.pc + 4#32 } =
      m.afterAtomic rd addr outcome := by
  subst sameValue sameStore
  have written := writeReg_regs x0 rd (BitVec.ofInt 32 outcome.value)
  apply Machine.ext
  case regs => exact written
  case memory =>
    simp only [retire, afterAtomic]
    cases outcome.store <;> rfl
  case reservation => exact sameReservation
  all_goals rfl

/-- **The decided changes are the outcome over the integers.** -/
theorem decisionA_outcome (x0 : m.regs 0#5 = 0#32) (aligned : addr.toNat % 4 = 0)
    (inside : addr.toNat + 4 ≤ n.bytes) (op : Rv32a.Opcode) (rd : Reg) (src : Word) :
    let old : Word := readInt 32 (slice m.memory addr.toNat 4 inside)
    ∃ d, decisionA op rd addr src (m.pc + 4#32) m = .ok d ∧ d.result = .continue ∧
      m.retire d = m.afterAtomic rd addr (op.outcome addr old src m.reservation) := by
  intro old
  have read : m.readWord addr = .ok old := readWord_inside aligned inside
  by_cases lr : op = .lrW
  · subst lr
    refine ⟨{ reg := some (rd, old), reserve := .take addr, nextPc := m.pc + 4#32 }, ?_, rfl,
      retire_eq_afterAtomic x0 BitVec.ofInt_toInt rfl rfl⟩
    simp only [decisionA, dif_pos, read]
    rfl
  by_cases sc : op = .scW
  · subst sc
    have permitted : access n 4 addr = .ok () := access_eq_ok.2 ⟨aligned, inside⟩
    by_cases reserved : m.reservation = some addr
    · have stores : Rv32a.Opcode.scW.outcome addr old src m.reservation =
          { value := 0, store := some src.toInt, reservation := none } := if_pos reserved
      rw [stores]
      refine ⟨{ reg := some (rd, 0#32), store := some (addr, writeInt 4 src), reserve := .drop,
                nextPc := m.pc + 4#32 }, ?_, rfl,
        retire_eq_afterAtomic x0 rfl (by rw [Option.map_some, BitVec.ofInt_toInt]) rfl⟩
      simp [decisionA, permitted, reserved, bind, Except.bind]
    · have refuses : Rv32a.Opcode.scW.outcome addr old src m.reservation =
          { value := 1, reservation := none } := if_neg reserved
      rw [refuses]
      refine ⟨{ reg := some (rd, 1#32), reserve := .drop, nextPc := m.pc + 4#32 }, ?_, rfl,
        retire_eq_afterAtomic x0 rfl rfl rfl⟩
      simp [decisionA, permitted, reserved, bind, Except.bind]
  obtain ⟨new, combined, same⟩ :=
    outcome_amo (Rv32a.Opcode.isAmo_intro lr sc) addr old src m.reservation
  rw [combined]
  refine ⟨{ reg := some (rd, old), store := some (addr, writeInt 4 (BitVec.ofInt 32 new)),
            nextPc := m.pc + 4#32 }, ?_, rfl,
    retire_eq_afterAtomic x0 BitVec.ofInt_toInt rfl (filter_reservation aligned m.reservation)⟩
  simp only [decisionA, lr, sc, dif_neg, not_false_eq_true, read, same]
  rfl

end Machine

/-! ## The step -/

/-- An atomic instruction accesses the word at its `rs1`. -/
theorem dataAccess_atomic {op : Rv32a.Opcode} {inst : Instruction} (isAtomic : inst.op = .a op)
    (rs1Val : Word) : dataAccess inst rs1Val = some (rs1Val, 4) := by
  simp only [dataAccess, isAtomic]

namespace Vm

variable {vm : Vm o n} {raw : Word} {rd rs1 rs2 : Reg}

/-- **The A extension.** A VM whose next instruction is atomic, with any registers, equal or
not, and with any `aq` and `rl`, fails when the address in `rs1` is not a multiple of four, and
otherwise when its word is not all inside memory, in both cases without a change, and for SC.W
whether or not there is a reservation. At every other address it goes on with the outcome over
the integers: `rd` has its value, the word has what is stored, the reservation is its
reservation, and nothing else changes but `pc` and the cycle counter. -/
theorem atomics_exact (standard : o.decode = decode) (coherent : Coherent o.decode vm.decodeCache)
    (x0 : vm.regs 0#5 = 0#32) {op : Rv32a.Opcode} (encoding : Rv32a.Encoding op rd rs1 rs2 raw)
    (fetched : vm.fetch = .ok raw) :
    let addr := vm.regs rs1
    answer (step vm) =
        (if addr.toNat % 4 ≠ 0 then .error .misalignedAccess
        else if n.bytes < addr.toNat + 4 then .error .addressOutOfBounds
        else .ok .continue) ∧
      (addr.toNat % 4 ≠ 0 ∨ n.bytes < addr.toNat + 4 →
        (stateAfter (step vm)).toMachine = vm.toMachine) ∧
      ∀ inside : addr.toNat + 4 ≤ n.bytes, addr.toNat % 4 = 0 →
        let old : Word := readInt 32 (slice vm.memory addr.toNat 4 inside)
        (stateAfter (step vm)).toMachine =
          vm.afterAtomic rd addr (op.outcome addr old (vm.regs rs2) vm.reservation) := by
  intro addr
  obtain ⟨full, decoded⟩ := encoding.decodes
  rw [← standard] at decoded
  have ready : vm.Ready raw _ := ⟨coherent, fetched, decoded⟩
  have size : Machine.instSize raw = 4#32 := by simp [Machine.instSize, full]
  have fails {e : StepError} (refused : access n 4 addr = .error e) :=
    ready.refused_zero x0 ((Machine.decision_of_access (dataAccess_atomic rfl addr)).2 refused)
  by_cases misaligned : addr.toNat % 4 ≠ 0
  · obtain ⟨answers, same⟩ := fails (access_eq_error.2 (.inl ⟨misaligned, rfl⟩))
    rw [if_pos misaligned]
    exact ⟨answers, fun _ => same, fun _ aligned => absurd aligned misaligned⟩
  have aligned : addr.toNat % 4 = 0 := not_not.1 misaligned
  by_cases outside : n.bytes < addr.toNat + 4
  · obtain ⟨answers, same⟩ := fails (access_eq_error.2 (.inr ⟨aligned, outside, rfl⟩))
    rw [if_neg misaligned, if_pos outside]
    exact ⟨answers, fun _ => same, fun inside _ => absurd inside (Nat.not_le.2 outside)⟩
  have inside : addr.toNat + 4 ≤ n.bytes := Nat.not_lt.1 outside
  obtain ⟨d, decided, goesOn, changes⟩ :=
    Machine.decisionA_outcome x0 aligned inside op rd (vm.regs rs2)
  rw [← size] at decided
  obtain ⟨answers, same⟩ := ready.retires_zero x0 decided
  rw [if_neg misaligned, if_neg outside]
  exact ⟨answers.trans (by rw [goesOn]), fun out => absurd out (by tauto),
    fun _ _ => same.trans changes⟩

/-- AMOADD.W x1, x1, (x1) with the address 4 in x1, and a 5 there. -/
def amoaddAliased : Vm Options.uncached .eight :=
  let raw := encodeR 0b0101111#7 0b010#3 (0b00000#5 ++ 1#1 ++ 0#1) 1#5 1#5 1#5
  { (reset : Vm Options.uncached .eight) with
    regs := fun reg => if reg = 1#5 then 4#32 else 0#32
    memory := patch (fun _ => 0#8) 0 (writeInt 4 raw ++ [5#8]) }

/-- The old x1 is the address and the addend. -/
theorem atomics_exact_aliased :
    answer (step amoaddAliased) = .ok .continue ∧
      (stateAfter (step amoaddAliased)).regs 1#5 = 5#32 ∧
      (stateAfter (step amoaddAliased)).memory ⟨4, by decide⟩ = 9#8 := by
  have encoding : Rv32a.Encoding .amoaddW 1#5 1#5 1#5 _ :=
    .intro (rfl : Rv32a.decodeR 0b00000#5 = some .amoaddW) true false 1#5 1#5 1#5 nofun
  have fetched : amoaddAliased.fetch = .ok _ := rfl
  obtain ⟨answers, _, changes⟩ :=
    atomics_exact (o := Options.uncached) rfl (.empty _) rfl encoding fetched
  have after := changes (by decide) (by decide)
  refine ⟨answers, ?_, ?_⟩
  · rw [after]
    decide
  · rw [after]
    decide

end Vm

end Determinant
