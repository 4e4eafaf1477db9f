import Determinant.Cpu.Machine

/-!
# Fetching

The low two bits of a halfword say whether it is an instruction or the first half of one. So
memory determines the length of the instruction at an address (`instructionLength`), and
`fetch` gives the number that exactly its bytes spell, when `pc` is even and they lie inside
memory (`fetch_eq`).
-/

set_option autoImplicit false

namespace Determinant

open Foundations

variable {n : MemSize}

/-- The low two bits as a remainder. -/
theorem isCompressed_iff_mod (raw : Word) : isCompressed raw = true ↔ raw.toNat % 4 ≠ 3 := by
  rw [isCompressed_iff, ne_eq, ← BitVec.toNat_inj, BitVec.toNat_setWidth]
  exact Iff.rfl

theorem isCompressed_eq (raw : Word) : isCompressed raw = decide (raw.toNat % 4 ≠ 3) := by
  rw [Bool.eq_iff_iff, isCompressed_iff_mod, decide_eq_true_iff]

namespace Machine

/-- The number of bytes of the instruction at an address: 4 if the low two bits of the
halfword there are `0b11`, and otherwise 2. -/
def instructionLength (m : Machine n) (addr : Nat) : Nat :=
  if inside : addr + 2 ≤ n.bytes then
    if ofLeBytes (slice m.memory addr 2 inside) % 4 = 3 then 4 else 2
  else 2

variable {m : Machine n} {addr : Nat}

theorem instructionLength_cases (m : Machine n) (addr : Nat) :
    m.instructionLength addr = 2 ∨ m.instructionLength addr = 4 := by
  unfold instructionLength
  split
  · split
    · exact .inr rfl
    · exact .inl rfl
  · exact .inl rfl

/-- Bytes of a halfword or a word spell a word. -/
theorem toNat_readInt_slice {len : Nat} (inside : addr + len ≤ n.bytes) (small : len ≤ 4) :
    (readInt 32 (slice m.memory addr len inside)).toNat =
      ofLeBytes (slice m.memory addr len inside) := by
  have bound := ofLeBytes_lt (slice m.memory addr len inside)
  have wide : 256 ^ len ≤ 2 ^ 32 := Nat.pow_le_pow_right (by decide : 0 < 256) small
  rw [length_slice] at bound
  rw [readInt, BitVec.toNat_ofNat, Nat.mod_eq_of_lt (Nat.lt_of_lt_of_le bound wide)]

/-- A halfword, zero-extended. -/
theorem setWidth_readHalf (inside : addr + 2 ≤ n.bytes) :
    (readInt 16 (slice m.memory addr 2 inside)).setWidth 32 =
      readInt 32 (slice m.memory addr 2 inside) := by
  apply BitVec.eq_of_toNat_eq
  rw [toNat_readInt_slice inside (by decide), BitVec.toNat_setWidth_of_le (by decide),
    toNat_readInt (k := 2) rfl (length_slice ..)]

/-- The two bytes of a halfword are the first two of the word. -/
theorem ofLeBytes_half_mod (inside : addr + 4 ≤ n.bytes) :
    ofLeBytes (slice m.memory addr 4 inside) % 4 =
      ofLeBytes (slice m.memory addr 2 (by omega)) % 4 := by
  rw [slice_add m.memory addr 2 2 inside, ofLeBytes_append, length_slice]
  omega

/-- The first half of an instruction says how long it is. -/
theorem isCompressed_half (inside : addr + 2 ≤ n.bytes) :
    isCompressed (readInt 32 (slice m.memory addr 2 inside)) =
      decide (m.instructionLength addr = 2) := by
  rw [isCompressed_eq, toNat_readInt_slice inside (by decide)]
  unfold instructionLength
  by_cases full : ofLeBytes (slice m.memory addr 2 inside) % 4 = 3 <;> simp [inside, full]

/-- And so do all its bytes. -/
theorem isCompressed_instruction (inside : addr + m.instructionLength addr ≤ n.bytes) :
    isCompressed (readInt 32 (slice m.memory addr (m.instructionLength addr) inside)) =
      decide (m.instructionLength addr = 2) := by
  rcases m.instructionLength_cases addr with half | full
  · have inside' : addr + 2 ≤ n.bytes := by omega
    simp only [half, isCompressed_half inside']
  · have inside' : addr + 4 ≤ n.bytes := by omega
    have start : addr + 2 ≤ n.bytes := by omega
    have same := isCompressed_half (m := m) start
    rw [isCompressed_eq, toNat_readInt_slice _ (by decide)] at same
    simp only [full, isCompressed_eq, toNat_readInt_slice inside' (by decide),
      ofLeBytes_half_mod inside'] at same ⊢
    exact same

/-! ## The three outcomes -/

/-- The check of the alignment, and the two bounds checks, as numbers. -/
theorem odd_iff (w : Word) : w % 2#32 ≠ 0#32 ↔ w.toNat % 2 = 1 := by
  rw [ne_eq, ← BitVec.toNat_inj, BitVec.toNat_umod]
  simp

theorem outside_iff {k : Word} (small : k ≤ 4#32) (addr : Word) :
    addr > n.toWord - k ↔ n.bytes < addr.toNat + k.toNat := by
  rw [← not_iff_not, Nat.not_lt, ← MemSize.le_sub_iff small]
  exact BitVec.not_lt

theorem fetch_misaligned (odd : m.pc.toNat % 2 = 1) : m.fetch = .error .misalignedPC :=
  if_pos ((odd_iff m.pc).2 odd)

theorem fetch_outOfBounds (even : m.pc.toNat % 2 = 0)
    (outside : n.bytes < m.pc.toNat + m.instructionLength m.pc.toNat) :
    m.fetch = .error .pcOutOfBounds := by
  have aligned : ¬m.pc % 2#32 ≠ 0#32 := by
    rw [odd_iff]
    omega
  unfold fetch
  rw [if_neg aligned]
  by_cases low : m.pc > n.toWord - 2#32
  · rw [dif_pos low]
  · have inside : m.pc.toNat + 2 ≤ n.bytes := MemSize.inside_of_le (k := 2#32) (by decide) low
    have full : ¬m.instructionLength m.pc.toNat = 2 := by omega
    have long := (m.instructionLength_cases m.pc.toNat).resolve_left full
    rw [long] at outside
    have high : m.pc > n.toWord - 4#32 := (outside_iff (k := 4#32) (by decide) m.pc).2 outside
    simp only [dif_neg low, setWidth_readHalf, isCompressed_half inside, full, decide_false,
      Bool.false_eq_true, if_false, dif_pos high]

/-- **An instruction inside memory is fetched**: the number that its bytes spell. -/
theorem fetch_inside (even : m.pc.toNat % 2 = 0)
    (inside : m.pc.toNat + m.instructionLength m.pc.toNat ≤ n.bytes) :
    m.fetch = .ok (readInt 32 (slice m.memory m.pc.toNat _ inside)) := by
  have aligned : ¬m.pc % 2#32 ≠ 0#32 := by
    rw [odd_iff]
    omega
  have long := m.instructionLength_cases m.pc.toNat
  have low : ¬m.pc > n.toWord - 2#32 := by
    rw [outside_iff (by decide)]
    exact Nat.not_lt.2 (by simp; omega)
  have start : m.pc.toNat + 2 ≤ n.bytes := by omega
  have short := isCompressed_half (m := m) start
  unfold fetch
  rw [if_neg aligned, dif_neg low]
  rcases long with half | full
  · simp only [setWidth_readHalf, short, half, decide_true, if_true]
  · have high : ¬m.pc > n.toWord - 4#32 := by
      rw [outside_iff (by decide)]
      exact Nat.not_lt.2 (by simp; omega)
    simp only [setWidth_readHalf, short, full, Nat.reduceEqDiff, decide_false,
      Bool.false_eq_true, if_false, dif_neg high]

/-- The instruction at any even address, with `pc` there. -/
theorem fetch_at (even : addr % 2 = 0) (inside : addr + m.instructionLength addr ≤ n.bytes) :
    { m with pc := BitVec.ofNat 32 addr }.fetch =
      .ok (readInt 32 (slice m.memory addr _ inside)) := by
  have large := n.valid.2.2
  have pc : (BitVec.ofNat 32 addr).toNat = addr := by
    rw [BitVec.toNat_ofNat]
    omega
  have fetched := fetch_inside (m := { m with pc := BitVec.ofNat 32 addr })
    (by simpa only [pc] using even) (by simp only [pc]; exact inside)
  simp only [pc] at fetched
  exact fetched

/-- The low bits of the number say how long the instruction is. -/
theorem instruction_bits (inside : addr + m.instructionLength addr ≤ n.bytes) :
    let raw : Word := readInt 32 (slice m.memory addr (m.instructionLength addr) inside)
    m.instructionLength addr = 2 ∧ raw.toNat ≤ 0xFFFF ∧ raw.toNat % 4 ≠ 3 ∨
      m.instructionLength addr = 4 ∧ raw.toNat % 4 = 3 := by
  have short := isCompressed_instruction inside
  rw [isCompressed_eq, decide_eq_decide] at short
  rcases m.instructionLength_cases addr with half | full
  · have bound := ofLeBytes_lt (slice m.memory addr _ inside)
    rw [← toNat_readInt_slice inside (by omega), length_slice] at bound
    refine .inl ⟨half, ?_, short.2 half⟩
    simp only [half] at bound ⊢
    exact Nat.le_of_lt_succ bound
  · exact .inr ⟨full, by omega⟩

/-- **What `fetch` returns**, in every case. -/
theorem fetch_eq (m : Machine n) :
    if m.pc.toNat % 2 = 1 then m.fetch = .error .misalignedPC
    else if inside : m.pc.toNat + m.instructionLength m.pc.toNat ≤ n.bytes then
      ∃ raw : Word, m.fetch = .ok raw ∧
        raw.toNat = ofLeBytes (slice m.memory m.pc.toNat _ inside) ∧
        (m.instructionLength m.pc.toNat = 2 ∧ raw.toNat ≤ 0xFFFF ∧ raw.toNat % 4 ≠ 3 ∨
          m.instructionLength m.pc.toNat = 4 ∧ raw.toNat % 4 = 3)
    else m.fetch = .error .pcOutOfBounds := by
  split
  · rename_i odd
    exact fetch_misaligned odd
  · rename_i notOdd
    have even : m.pc.toNat % 2 = 0 := by omega
    split
    · rename_i inside
      have small : m.instructionLength m.pc.toNat ≤ 4 := by
        rcases m.instructionLength_cases m.pc.toNat with half | full <;> omega
      exact ⟨_, fetch_inside even inside, toNat_readInt_slice inside small, instruction_bits inside⟩
    · rename_i outside
      exact fetch_outOfBounds even (Nat.not_le.1 outside)

end Machine

end Determinant
