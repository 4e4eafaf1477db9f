import Determinant.Cpu.Effects

/-!
# Data accesses

The loads, the stores and the atomic instructions access memory, each at one address and with
one width (`dataAccess`). Reading is a check and then the bytes (`load`), whatever the width;
and an instruction that accesses memory fails exactly when the check of its access does
(`decision_of_access`). The only other instructions that can fail are those of the CSRs
(`decision_without_access`).
-/

set_option autoImplicit false

namespace Determinant

open Foundations

variable {n : MemSize}

/-- The number of bytes that a load or a store accesses. -/
def Rv32i.Opcode.width : Rv32i.Opcode → Option Nat
  | .lb | .lbu | .sb => some 1
  | .lh | .lhu | .sh => some 2
  | .lw | .sw => some 4
  | _ => none

/-- The address and the width of the data access of an instruction, from the value of its
`rs1`. -/
def dataAccess (inst : Instruction) (rs1Val : Word) : Option (Word × Nat) :=
  match inst.op with
  | .i op => op.width.map fun k => (rs1Val + inst.imm, k)
  | .a _ => some (rs1Val, 4)
  | _ => none

theorem inside_of_access {k : Nat} {addr : Word} (permitted : access n k addr = .ok ()) :
    addr.toNat + k ≤ n.bytes :=
  (access_eq_ok.1 permitted).2

/-- The two errors of an access, in their order. -/
theorem access_eq_error {k : Nat} {addr : Word} {e : StepError} :
    access n k addr = .error e ↔
      addr.toNat % k ≠ 0 ∧ e = .misalignedAccess ∨
        addr.toNat % k = 0 ∧ n.bytes < addr.toNat + k ∧ e = .addressOutOfBounds := by
  unfold access
  by_cases aligned : addr.toNat % k = 0
  · by_cases outside : n.bytes < addr.toNat + k
    · simp [aligned, outside, eq_comm]
    · simp [aligned, outside]
  · simp [aligned, eq_comm]

namespace Machine

/-- The bytes `[addr, addr + k)`, after the checks of an access. -/
def load (m : Machine n) (k : Nat) (addr : Word) : Except StepError (List Byte) :=
  match permitted : access n k addr with
  | .ok () => .ok (slice m.memory addr.toNat k (inside_of_access permitted))
  | .error e => .error e

variable {m : Machine n} {k : Nat} {addr : Word} {e : StepError}

theorem load_eq_ok {bytes : List Byte} :
    m.load k addr = .ok bytes ↔ addr.toNat % k = 0 ∧
      ∃ inside : addr.toNat + k ≤ n.bytes, slice m.memory addr.toNat k inside = bytes := by
  unfold load
  split
  · rename_i permitted
    obtain ⟨aligned, inside⟩ := access_eq_ok.1 permitted
    simp [aligned, inside]
  · rename_i refused
    refine iff_of_false (by simp) ?_
    rintro ⟨aligned, inside, _⟩
    rw [access_eq_ok.2 ⟨aligned, inside⟩] at refused
    cases refused

theorem load_eq_error : m.load k addr = .error e ↔ access n k addr = .error e := by
  unfold load
  split
  · rename_i permitted
    simp [permitted]
  · rename_i refused
    simp [refused]

/-! ## Reading -/

theorem readByte_eq (m : Machine n) (addr : Word) :
    m.readByte addr = (m.load 1 addr).map (readInt 8) := by
  have bound : addr ≥ n.toWord ↔ n.bytes < addr.toNat + 1 := by
    rw [ge_iff_le, BitVec.le_def, MemSize.toNat_toWord]
    omega
  unfold readByte
  split
  · rename_i high
    rw [load_eq_error.2 (access_eq_error.2 (.inr ⟨Nat.mod_one _, bound.1 high, rfl⟩))]
    rfl
  · rename_i low
    have inside : addr.toNat + 1 ≤ n.bytes := Nat.not_lt.1 (mt bound.2 low)
    rw [load_eq_ok.2 ⟨Nat.mod_one _, inside, rfl⟩]
    simp [Except.map, slice, readInt, ofLeBytes]

theorem readHalfword_eq (m : Machine n) (addr : Word) :
    m.readHalfword addr = (m.load 2 addr).map (readInt 16) := by
  have bound := MemSize.le_sub_iff (n := n) (k := 2#32) (by decide) addr
  have parity : addr % 2#32 = 0#32 ↔ addr.toNat % 2 = 0 := umod_eq_zero addr
  unfold readHalfword
  split
  · rename_i odd
    rw [load_eq_error.2 (access_eq_error.2 (.inl ⟨mt parity.2 odd, rfl⟩))]
    rfl
  · rename_i even
    have aligned := parity.1 (not_not.1 even)
    split
    · rename_i high
      have outside : n.bytes < addr.toNat + 2 := Nat.not_le.1 (mt bound.2 (BitVec.not_le.2 high))
      rw [load_eq_error.2 (access_eq_error.2 (.inr ⟨aligned, outside, rfl⟩))]
      rfl
    · rename_i low
      rw [load_eq_ok.2 ⟨aligned, bound.1 (BitVec.not_lt.1 low), rfl⟩]
      rfl

theorem readWord_eq (m : Machine n) (addr : Word) :
    m.readWord addr = (m.load 4 addr).map (readInt 32) := by
  unfold readWord
  split
  · rename_i refused
    rw [checkWordAccess_eq] at refused
    rw [load_eq_error.2 refused]
    rfl
  · rename_i permitted
    rw [checkWordAccess_eq] at permitted
    obtain ⟨aligned, inside⟩ := access_eq_ok.1 permitted
    rw [load_eq_ok.2 ⟨aligned, inside, rfl⟩]
    rfl

theorem load_map_error {α : Type} {f : List Byte → α} :
    (m.load k addr).map f = .error e ↔ access n k addr = .error e := by
  rw [← load_eq_error (m := m)]
  cases m.load k addr <;> simp [Except.map]

/-! ## What can fail -/

theorem access_bind_error {α : Type} {a : α} :
    (access n k addr >>= fun _ => (.ok a : Except StepError α)) = .error e ↔
      access n k addr = .error e := by
  cases access n k addr <;> simp [bind, Except.bind]

theorem load_bind_error {α β : Type} {f : List Byte → β} {a : β → α} :
    ((m.load k addr).map f >>= fun b => (.ok (a b) : Except StepError α)) = .error e ↔
      access n k addr = .error e := by
  rw [← load_map_error (m := m) (f := f)]
  cases (m.load k addr).map f <;> simp [bind, Except.bind]

variable {inst : Instruction} {size : Word}

/-- **An instruction that accesses memory fails exactly when its access does.** -/
theorem decision_of_access (accesses : dataAccess inst (m.regs inst.rs1) = some (addr, k)) :
    decision inst size m = .error e ↔ access n k addr = .error e := by
  obtain ⟨op, rd, rs1, rs2, imm, raw, compressedOp⟩ := inst
  cases op with
  | i op =>
      cases op with
      | lb | lbu =>
          cases accesses
          simp only [decision, decisionI, readByte_eq]
          exact load_bind_error
      | lh | lhu =>
          cases accesses
          simp only [decision, decisionI, readHalfword_eq]
          exact load_bind_error
      | lw =>
          cases accesses
          simp only [decision, decisionI, readWord_eq]
          exact load_bind_error
      | sb | sh | sw =>
          cases accesses
          simp only [decision, decisionI, storing, List.length_singleton, length_writeInt]
          exact access_bind_error
      | _ => cases accesses
  | a op =>
      cases accesses
      simp only [decision, decisionA]
      split
      · rw [readWord_eq]
        exact load_bind_error
      · split
        · cases permitted : access n 4 (m.regs rs1) with
          | error e' => simp [bind, Except.bind]
          | ok _ =>
              simp only [bind, Except.bind]
              split <;> simp
        · rw [readWord_eq]
          exact load_bind_error
  | _ => cases accesses

/-- The instructions that do not access memory and can fail are those of the CSRs. -/
theorem decision_without_access (noAccess : dataAccess inst (m.regs inst.rs1) = none)
    (refused : decision inst size m = .error e) :
    (∃ op, inst.op = .csr op) ∧ e = .illegalInstruction := by
  obtain ⟨op, rd, rs1, rs2, imm, raw, compressedOp⟩ := inst
  cases op with
  | i op =>
      cases op with
      | lb | lbu | lh | lhu | lw | sb | sh | sw => cases noAccess
      | _ => cases refused
  | a op => cases noAccess
  | csr op =>
      simp only [decision, decisionCsr] at refused
      split at refused
      · cases refused
      · rename_i failed _ _
        cases refused
        cases failed
        exact ⟨⟨op, rfl⟩, rfl⟩
  | m op | zba op | zbb op | zbs op => cases refused

end Machine

end Determinant
