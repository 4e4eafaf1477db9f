import Determinant.Cpu.Ready
import Determinant.Foundations.Traces
import Determinant.Foundations.WordArithmetic
import Determinant.Foundations.WriteLogs

/-!
# Loads and stores over a byte map

Memory is a map from addresses to bytes. A load makes an integer of `w` bytes of it
(`Rv32i.Opcode.loaded`), a store puts the low `w` bytes of a register into it, and both fail
exactly when their width does not divide their address, or else when their bytes are not all
inside (`Vm.Ready.accesses`). A host may have written `regs[0]`; the step reads zero there and
leaves zero. Over any sequence of stores, between which anything may happen
that leaves memory alone, a byte is the one of the latest store of its address, and this is
what the next load reads (`Vm.loads_and_stores`).
-/

set_option autoImplicit false

namespace Determinant

open Foundations

variable {n : MemSize} {o : Options}

/-- The integer that a load puts in `rd`, from the integer that its bytes spell; `none` for a
store. -/
def Rv32i.Opcode.loaded (op : Rv32i.Opcode) (v : Nat) : Option Int :=
  match op with
  | .lb => some (Int.bmod v (2 ^ 8))
  | .lh => some (Int.bmod v (2 ^ 16))
  | .lw | .lbu | .lhu => some v
  | _ => none

/-! ## Values -/

theorem signExtend_readInt (k w : Nat) (bytes : List Byte) :
    (readInt k bytes).signExtend w = BitVec.ofInt w (Int.bmod (ofLeBytes bytes) (2 ^ k)) := by
  rw [BitVec.signExtend, readInt, BitVec.toInt_ofNat']

theorem setWidth_readInt {k w : Nat} (fits : w = 8 * k) (w' : Nat) {bytes : List Byte}
    (len : bytes.length = k) :
    (readInt w bytes).setWidth w' = BitVec.ofInt w' (ofLeBytes bytes) := by
  rw [BitVec.ofInt_natCast, ← toNat_readInt fits len, BitVec.ofNat_toNat]

/-- The low bytes of a number are those of its remainder. -/
theorem leBytes_mod (k v : Nat) : leBytes k (v % 256 ^ k) = leBytes k v := by
  have spelled := leBytes_ofLeBytes (leBytes k v)
  rwa [length_leBytes, ofLeBytes_leBytes] at spelled

theorem writeInt_setWidth {k w : Nat} (fits : w = 8 * k) (v : Word) :
    writeInt k (v.setWidth w) = leBytes k v.toNat := by
  subst fits
  rw [writeInt, BitVec.toNat_setWidth, ← pow_bytes, leBytes_mod]

namespace Machine

variable {m : Machine n} {inst : Instruction} {op : Rv32i.Opcode} {w : Nat}

theorem storing_permitted {addr : Word} {bytes : List Byte} (len : bytes.length = w)
    (permitted : access n w addr = .ok ()) (next : Word) :
    storing n next addr bytes = .ok { store := some (addr, bytes), nextPc := next } := by
  subst len
  rw [storing, permitted]
  rfl

/-- **The decided changes are those over the byte map.** -/
theorem decision_access (isOp : inst.op = .i op) (width : op.width = some w) (size : Word)
    (aligned : (m.regs inst.rs1 + inst.imm).toNat % w = 0)
    (inside : (m.regs inst.rs1 + inst.imm).toNat + w ≤ n.bytes) :
    decision inst size m =
      .ok (match op.loaded (ofLeBytes (slice m.memory _ w inside)) with
        | some v => write inst.rd (m.pc + size) (BitVec.ofInt 32 v)
        | none => { store := some (m.regs inst.rs1 + inst.imm, leBytes w (m.regs inst.rs2).toNat),
                    nextPc := m.pc + size }) := by
  have read : m.load w (m.regs inst.rs1 + inst.imm) = .ok (slice m.memory _ w inside) :=
    load_eq_ok.2 ⟨aligned, inside, rfl⟩
  have permitted : access n w (m.regs inst.rs1 + inst.imm) = .ok () :=
    access_eq_ok.2 ⟨aligned, inside⟩
  have len := length_slice m.memory _ w inside
  simp only [decision, isOp]
  cases op with
  | lb =>
      cases width
      simp only [decisionI, readByte_eq, read, Except.map, bind, Except.bind, signExtend_readInt,
        Rv32i.Opcode.loaded]
  | lh =>
      cases width
      simp only [decisionI, readHalfword_eq, read, Except.map, bind, Except.bind,
        signExtend_readInt, Rv32i.Opcode.loaded]
  | lw =>
      cases width
      simp only [decisionI, readWord_eq, read, Except.map, bind, Except.bind, Rv32i.Opcode.loaded,
        readInt, BitVec.ofInt_natCast]
  | lbu =>
      cases width
      simp only [decisionI, readByte_eq, read, Except.map, bind, Except.bind,
        setWidth_readInt (by decide : 8 = 8 * 1) 32 len, Rv32i.Opcode.loaded]
  | lhu =>
      cases width
      simp only [decisionI, readHalfword_eq, read, Except.map, bind, Except.bind,
        setWidth_readInt (by decide : 16 = 8 * 2) 32 len, Rv32i.Opcode.loaded]
  | sb =>
      cases width
      exact storing_permitted rfl permitted _
  | sh =>
      cases width
      simp only [decisionI, writeInt_setWidth (by decide : 16 = 8 * 2)]
      exact storing_permitted (length_leBytes 2 _) permitted _
  | sw =>
      cases width
      exact storing_permitted (length_leBytes 4 _) permitted _
  | _ => cases width

/-! ## One access -/

/-- The address of an access: the value of `rs1` plus the signed immediate, modulo `2 ^ 32`. -/
def address (m : Machine n) (inst : Instruction) : Nat :=
  (((m.readReg inst.rs1).toNat + inst.imm.toInt) % (2 ^ 32 : Nat)).toNat

/-- The machine behind a load of an integer. -/
def afterLoad (m : Machine n) (size : Word) (rd : Reg) (v : Int) : Machine n :=
  { m with pc := m.pc + size, cycleCount := m.cycleCount + 1,
           regs := m.setReg rd (BitVec.ofInt 32 v) }

/-- The machine behind a store. A reservation of the word with the address is dropped. -/
def afterStore (m : Machine n) (size : Word) (addr : Nat) (bytes : List Byte) : Machine n :=
  { m with pc := m.pc + size, cycleCount := m.cycleCount + 1,
           memory := patch m.memory addr bytes,
           reservation := m.reservation.filter fun res => res.toNat ≠ addr / 4 * 4 }

theorem toNat_address (m : Machine n) (inst : Instruction) :
    (m.zeroX0.regs inst.rs1 + inst.imm).toNat = m.address inst := by
  rw [zeroX0_regs, add_eq_ofInt_signed, BitVec.toNat_ofInt, address]

theorem retire_load (x0 : m.regs 0#5 = 0#32) (size : Word) (rd : Reg) (v : Int) :
    m.retire (write rd (m.pc + size) (BitVec.ofInt 32 v)) = m.afterLoad size rd v := by
  apply Machine.ext
  case regs => exact writeReg_regs x0 rd _
  all_goals rfl

theorem retire_store (size addr : Word) (bytes : List Byte) :
    m.retire { store := some (addr, bytes), nextPc := m.pc + size } =
      m.afterStore size addr.toNat bytes := by
  apply Machine.ext
  case reservation =>
    have sameWord (res : Word) : addr &&& 0xFFFFFFFC#32 ≠ res ↔ res.toNat ≠ addr.toNat / 4 * 4 := by
      have cleared := toNat_clear_low (s := 2) (k := 30) addr (by decide)
      rw [ne_eq, ne_eq, ← BitVec.toNat_inj, eq_comm]
      exact not_congr (Eq.congr_right cleared)
    change m.reservation.filter _ = m.reservation.filter _
    simp only [sameWord]
  all_goals rfl

end Machine

namespace Vm

variable {vm : Vm o n} {raw : Word} {inst : Instruction} {op : Rv32i.Opcode} {w : Nat}

/-- **A load or a store over the byte map.** -/
theorem Ready.accesses (ready : vm.Ready raw inst) (isOp : inst.op = .i op)
    (width : op.width = some w) :
    let addr := vm.address inst
    answer (Vm.step vm) =
        (if ¬w ∣ addr then .error .misalignedAccess
        else if n.bytes < addr + w then .error .addressOutOfBounds
        else .ok .continue) ∧
      (¬w ∣ addr ∨ n.bytes < addr + w →
        (stateAfter (Vm.step vm)).toMachine = vm.zeroX0) ∧
      ∀ inside : addr + w ≤ n.bytes, w ∣ addr →
        (stateAfter (Vm.step vm)).toMachine =
          match op.loaded (ofLeBytes (slice vm.memory addr w inside)) with
          | some v => vm.zeroX0.afterLoad (Machine.instSize raw) inst.rd v
          | none => vm.zeroX0.afterStore (Machine.instSize raw) addr
              (leBytes w (vm.readReg inst.rs2).toNat) := by
  rw [← vm.toNat_address inst, ← vm.zeroX0_regs inst.rs2]
  intro addr
  have accesses : dataAccess inst (vm.zeroX0.regs inst.rs1) =
      some (vm.zeroX0.regs inst.rs1 + inst.imm, w) := by
    simp only [dataAccess, isOp, width, Option.map_some]
  have fails {e : StepError}
      (refused : access n w (vm.zeroX0.regs inst.rs1 + inst.imm) = .error e) :=
    ready.refused ((Machine.decision_of_access accesses).2 refused)
  by_cases aligned : w ∣ addr
  · have natural : addr % w = 0 := Nat.mod_eq_zero_of_dvd aligned
    by_cases outside : n.bytes < addr + w
    · obtain ⟨answers, same⟩ := fails (access_eq_error.2 (.inr ⟨natural, outside, rfl⟩))
      rw [if_neg (not_not.2 aligned), if_pos outside]
      exact ⟨answers, fun _ => same, fun inside _ => absurd inside (Nat.not_le.2 outside)⟩
    · have decided := Machine.decision_access isOp width (Machine.instSize raw) natural
        (Nat.not_lt.1 outside)
      obtain ⟨answers, same⟩ := ready.retires decided
      rw [if_neg (not_not.2 aligned), if_neg outside]
      refine ⟨answers.trans ?_, fun out => absurd out (by tauto), fun inside _ => same.trans ?_⟩
      · split <;> rfl
      · have bytes : slice vm.memory addr w inside = slice vm.zeroX0.memory addr w inside := rfl
        rw [bytes]
        cases op.loaded (ofLeBytes (slice vm.zeroX0.memory addr w inside)) with
        | some v => exact Machine.retire_load (vm.zeroX0_regs 0#5) _ _ _
        | none => exact Machine.retire_store _ _ _
  · obtain ⟨answers, same⟩ := fails
      (access_eq_error.2 (.inl ⟨fun natural => aligned (Nat.dvd_of_mod_eq_zero natural), rfl⟩))
    rw [if_pos aligned]
    exact ⟨answers, fun _ => same, fun _ divides => absurd divides aligned⟩

theorem loaded_eq_none (width : op.width = some w) (v : Nat) :
    op.loaded v = none ↔ op.format = .S := by
  cases op with
  | lb | lh | lw | lbu | lhu => simp [Rv32i.Opcode.loaded, Rv32i.Opcode.format]
  | sb | sh | sw => simp [Rv32i.Opcode.loaded, Rv32i.Opcode.format]
  | _ => cases width

/-! ## Sequences of stores -/

/-- A store that the VM executes, with the address and the bytes that it writes, or anything
that leaves memory alone. -/
inductive MemoryStep : Vm o n → List (Nat × List Byte) → Vm o n → Prop
  | store {vm vm' : Vm o n} {raw : Word} {inst : Instruction} {op : Rv32i.Opcode} {w : Nat}
      (ready : vm.Ready raw inst) (isOp : inst.op = .i op) (width : op.width = some w)
      (isStore : op.format = .S) (stepped : step vm = .ok .continue vm') :
      MemoryStep vm [(vm.address inst, leBytes w (vm.readReg inst.rs2).toNat)] vm'
  | other {vm vm' : Vm o n} (same : vm'.memory = vm.memory) : MemoryStep vm [] vm'

/-- A step of memory makes the writes that it is labelled with. -/
theorem MemoryStep.memory {vm vm' : Vm o n} {writes : List (Nat × List Byte)}
    (memoryStep : MemoryStep vm writes vm') : vm'.memory = patchAll vm.memory writes := by
  cases memoryStep with
  | other same => exact same
  | @store _ raw inst op w ready isOp width isStore stepped =>
      obtain ⟨answers, _, changes⟩ := ready.accesses isOp width
      rw [stepped, answer_ok] at answers
      have aligned : w ∣ vm.address inst := by
        by_contra misaligned
        rw [if_pos misaligned] at answers
        cases answers
      have inside : vm.address inst + w ≤ n.bytes := by
        by_contra outside
        rw [if_neg (not_not.2 aligned), if_pos (Nat.not_le.1 outside)] at answers
        cases answers
      have stored := changes inside aligned
      rw [stepped, stateAfter_ok, (loaded_eq_none width _).2 isStore] at stored
      exact congrArg Machine.memory stored

/-- **A byte is the one of the latest store of its address.** -/
theorem memory_of_trace {vm₀ vm : Vm o n} {labels : List (List (Nat × List Byte))}
    (trace : Trace MemoryStep vm₀ labels vm) (i : Fin n.bytes) :
    vm.memory i = (latest labels.flatten i.val).getD (vm₀.memory i) := by
  have written : vm.memory = patchAll vm₀.memory labels.flatten := by
    refine trace.history (fun labels vm => vm.memory = patchAll vm₀.memory labels.flatten)
      (fun labels t writes u memoryStep before => ?_) rfl
    rw [memoryStep.memory, before, patchAll, patchAll, patchAll, ← List.foldl_append,
      List.flatten_append, List.flatten_singleton]
  rw [written, patchAll_apply]

/-- **Loads and stores over a byte map.** After any sequence of stores, of any widths, with
anything between them that leaves memory alone, let the next instruction be a load or a store
of width `w`, and its address the value of `rs1` plus the signed immediate modulo `2 ^ 32`. In any
state, whatever a host has put into `regs[0]`, which is zero after the step, the step fails with a
misaligned access exactly when `w` does not divide the address, and otherwise out of bounds exactly
when the address and `w` exceed the size of memory, without another change. Else a load puts in
`rd` the integer that it makes of its bytes in memory, and changes no memory; a store writes its
bytes at the address, and they are all that it changes in memory. A byte of memory is at all times
the one that the latest store of its address put there, or the one that was there at first. -/
theorem loads_and_stores {vm₀ vm : Vm o n} {labels : List (List (Nat × List Byte))}
    (trace : Trace MemoryStep vm₀ labels vm) (ready : vm.Ready raw inst) (isOp : inst.op = .i op)
    (width : op.width = some w) :
    let addr := vm.address inst
    (∀ i, vm.memory i = (latest labels.flatten i.val).getD (vm₀.memory i)) ∧
      answer (step vm) =
        (if ¬w ∣ addr then .error .misalignedAccess
        else if n.bytes < addr + w then .error .addressOutOfBounds
        else .ok .continue) ∧
      (¬w ∣ addr ∨ n.bytes < addr + w → (stateAfter (step vm)).toMachine = vm.zeroX0) ∧
      ∀ inside : addr + w ≤ n.bytes, w ∣ addr →
        (stateAfter (step vm)).toMachine =
          match op.loaded (ofLeBytes (slice vm.memory addr w inside)) with
          | some v => vm.zeroX0.afterLoad (Machine.instSize raw) inst.rd v
          | none => vm.zeroX0.afterStore (Machine.instSize raw) addr
              (leBytes w (vm.readReg inst.rs2).toNat) :=
  ⟨memory_of_trace trace, ready.accesses isOp width⟩

/-- SB x1, 8(x0) with 0x1FF in x1 and something in `regs[0]`, and behind it LB x2, 8(x0). -/
def storeThenLoad : Vm Options.uncached ⟨12, by decide⟩ :=
  { (reset : Vm Options.uncached ⟨12, by decide⟩) with
    regs := fun reg => if reg = 1#5 then 0x1FF#32 else 7#32
    memory := patch (fun _ => 0#8) 0
      (writeInt 4 (encodeS 0b000#3 0#5 1#5 8#12) ++
        writeInt 4 (encodeI 0b0000011#7 0b000#3 2#5 0#5 8#12)) }

/-- The low byte is stored, and loaded as a negative number. -/
theorem loads_and_stores_byte :
    (stateAfter (step (stateAfter (step storeThenLoad)))).regs 2#5 = 0xFFFFFFFF#32 := by
  have stores : storeThenLoad.Ready _ _ := ⟨coherent_uncached _, rfl, rfl⟩
  have loads : (stateAfter (step storeThenLoad)).Ready _ _ := ⟨coherent_uncached _, rfl, rfl⟩
  have stepped : step storeThenLoad = .ok .continue (stateAfter (step storeThenLoad)) := rfl
  have trace := Trace.snoc (.nil storeThenLoad) (MemoryStep.store stores rfl rfl rfl stepped)
  obtain ⟨_, _, _, changes⟩ := loads_and_stores trace loads rfl rfl
  rw [changes (by decide) (by decide)]
  decide

end Vm

end Determinant
