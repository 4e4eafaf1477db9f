import Determinant.Cli.Disasm
import Determinant.Cpu.Fetch
import Determinant.Foundations.Traps
import Determinant.Foundations.WhileLoops

/-!
# Listings

`printListing` finds the instructions in a part of memory by itself: it reads a halfword, and
if that is the first half of an instruction the word. Its loop is `listingBody`, over the part
of memory that it reads from; its subtractions and casts are checked, and so are its reads.
What it should list are the instructions that `fetch` would return one after the other
(`Listed`). It lists them, ends, and reads nothing outside the part (`fetch_and_listing`).
-/

set_option autoImplicit false

namespace Determinant

open Foundations

variable {n : MemSize} {ε : Type}

namespace Disasm

/-! ## The loop -/

/-- A slice of memory: `memory[addr..][0..len]`. -/
abbrev Reading (ε : Type) := Nat → Nat → Except (Failure ε) (List Byte)

/-- The instruction at `addr`, unless less than all of it is before `stop`. -/
def nextInstruction (memory : Reading ε) (stop : Word) (addr : Nat) :
    Except (Failure ε) (Option Word) := do
  if (← checkedSub stop.toNat addr) ≥ 2 then
    let half : Half := readInt 16 (← memory addr 2)
    if isCompressed (half.setWidth 32) then return some (half.setWidth 32)
    else if (← checkedSub stop.toNat addr) < 4 then return none
    else return some (readInt 32 (← memory addr 4))
  else return none

/-- The line of an instruction, and the address behind it. -/
def listInstruction (addr : Nat) (raw : Word) : Except (Failure ε) (List Byte × Nat) := do
  let line := printLine (← checkedCast 32 addr) raw ++ [newline]
  return (line, ← checkedAdd 64 addr (if isCompressed raw then 2 else 4))

/-- One turn of the loop; the state holds the address and what was printed. -/
def listingBody (memory : Reading ε) (stop : Word) :
    Nat × List Byte → Turn (Nat × List Byte) (Except (Failure ε) (List Byte))
  | (addr, out) =>
      match nextInstruction memory stop addr with
      | .error f => .done (.error f)
      | .ok none => .done (.ok out)
      | .ok (some raw) =>
          match listInstruction addr raw with
          | .error f => .done (.error f)
          | .ok (line, next) => .again (next, out ++ line)

/-- `printListing(memory, start, stop)` prints a text. -/
def PrintsListing (memory : Reading ε) (start stop : Word) (text : List Byte) : Prop :=
  Ends (listingBody memory stop) (start.toNat, []) (.ok text)

/-! ## What is to be listed -/

/-- The instructions from an address on, one behind the other, up to the first that does not
fit before `stop`. -/
inductive Listed (m : Machine n) (stop : Nat) : Nat → List (Word × Word) → Prop where
  | full {addr : Nat} (cut : stop < addr + m.instructionLength addr) : Listed m stop addr []
  | line {addr : Nat} {raw : Word} {lines : List (Word × Word)}
      (fits : addr + m.instructionLength addr ≤ stop)
      (fetched : { m with pc := BitVec.ofNat 32 addr }.fetch = .ok raw)
      (rest : Listed m stop (addr + m.instructionLength addr) lines) :
      Listed m stop addr ((BitVec.ofNat 32 addr, raw) :: lines)

/-- Each on a line of its own. -/
def listingText (lines : List (Word × Word)) : List Byte :=
  lines.flatMap fun (addr, raw) => printLine addr raw ++ [newline]

/-- All of the memory of a machine, as a slice. -/
def wholeMemory (m : Machine n) : Reading ε :=
  checkedRange (whole m.memory)

/-- The reading gives the memory of the machine between two addresses. Elsewhere it may do
anything. -/
def Reads (memory : Reading ε) (m : Machine n) (start stop : Nat) : Prop :=
  ∀ addr len (inside : addr + len ≤ n.bytes), start ≤ addr → addr + len ≤ stop →
    memory addr len = .ok (slice m.memory addr len inside)

/-! ## One turn -/

section Turn

variable {m : Machine n} {memory : Reading ε} {start addr : Nat} {stop : Word}

theorem nextInstruction_eq (reads : Reads memory m start stop.toNat)
    (inMemory : stop.toNat ≤ n.bytes) (after : start ≤ addr) (before : addr ≤ stop.toNat) :
    nextInstruction memory stop addr =
      if fits : addr + m.instructionLength addr ≤ stop.toNat then
        .ok (some (readInt 32 (slice m.memory addr _ (fits.trans inMemory))))
      else .ok none := by
  unfold nextInstruction
  rw [checkedSub_ok before]
  simp only [bind, Except.bind]
  by_cases room : addr + 2 ≤ stop.toNat
  · have inside : addr + 2 ≤ n.bytes := by omega
    have left : stop.toNat - addr ≥ 2 := by omega
    have short := Machine.isCompressed_half (m := m) inside
    simp only [if_pos left, reads addr 2 inside after room, Machine.setWidth_readHalf, short]
    rcases m.instructionLength_cases addr with half | full
    · simp [half, room, pure, Except.pure]
    · simp only [full, Nat.reduceEqDiff, decide_false, Bool.false_eq_true, if_false]
      by_cases whole : addr + 4 ≤ stop.toNat
      · have left' : ¬stop.toNat - addr < 4 := by omega
        simp only [if_neg left', reads addr 4 (by omega) after whole, dif_pos whole]
        rfl
      · have left' : stop.toNat - addr < 4 := by omega
        simp only [if_pos left', dif_neg whole]
        rfl
  · have left : ¬stop.toNat - addr ≥ 2 := by omega
    have cut : ¬addr + m.instructionLength addr ≤ stop.toNat := by
      rcases m.instructionLength_cases addr with half | full <;> omega
    simp only [if_neg left, dif_neg cut]
    rfl

theorem listInstruction_eq (inMemory : stop.toNat ≤ n.bytes)
    (fits : addr + m.instructionLength addr ≤ stop.toNat) :
    let raw : Word := readInt 32 (slice m.memory addr _ (fits.trans inMemory))
    (listInstruction addr raw : Except (Failure ε) (List Byte × Nat)) =
      .ok (printLine (BitVec.ofNat 32 addr) raw ++ [newline],
        addr + m.instructionLength addr) := by
  intro raw
  have bound := stop.isLt
  have long := m.instructionLength_cases addr
  have size : (if isCompressed raw then 2 else 4) = m.instructionLength addr := by
    rw [Machine.isCompressed_instruction]
    rcases long with half | full
    · simp [half]
    · simp [full]
  unfold listInstruction
  rw [size, checkedCast_ok (by omega), checkedAdd_ok (by omega)]
  rfl

/-- A turn prints the instruction at its address, if it fits. -/
theorem listingBody_eq (reads : Reads memory m start stop.toNat) (inMemory : stop.toNat ≤ n.bytes)
    (after : start ≤ addr) (before : addr ≤ stop.toNat) (out : List Byte) :
    listingBody memory stop (addr, out) =
      if fits : addr + m.instructionLength addr ≤ stop.toNat then
        .again (addr + m.instructionLength addr, out ++ (printLine (BitVec.ofNat 32 addr)
          (readInt 32 (slice m.memory addr _ (fits.trans inMemory))) ++ [newline]))
      else .done (.ok out) := by
  have next := nextInstruction_eq reads inMemory after before
  unfold listingBody
  by_cases fits : addr + m.instructionLength addr ≤ stop.toNat
  · rw [dif_pos fits] at next ⊢
    simp only [next, listInstruction_eq inMemory fits]
  · rw [dif_neg fits] at next ⊢
    simp only [next]

end Turn

/-! ## The whole listing -/

/-- From every even address there is a list of the instructions. -/
theorem listed_exists (m : Machine n) {stop : Nat} (inMemory : stop ≤ n.bytes) {addr : Nat}
    (even : addr % 2 = 0) : ∃ lines, Listed m stop addr lines := by
  induction left : stop - addr using Nat.strong_induction_on generalizing addr with
  | _ left' ih =>
    have long := m.instructionLength_cases addr
    by_cases fits : addr + m.instructionLength addr ≤ stop
    · have even' : (addr + m.instructionLength addr) % 2 = 0 := by omega
      obtain ⟨lines, rest⟩ := ih _ (by omega) even' rfl
      exact ⟨_, .line fits (Machine.fetch_at even (fits.trans inMemory)) rest⟩
    · exact ⟨[], .full (Nat.not_le.1 fits)⟩

/-- **The loop prints the instructions**, and ends, wherever it reads from. -/
theorem Listed.printed {m : Machine n} {memory : Reading ε} {start : Nat} {stop : Word}
    (reads : Reads memory m start stop.toNat) (inMemory : stop.toNat ≤ n.bytes) {addr : Nat}
    {lines : List (Word × Word)} (listed : Listed m stop.toNat addr lines)
    (even : addr % 2 = 0) (after : start ≤ addr) (before : addr ≤ stop.toNat) (out : List Byte) :
    Ends (listingBody memory stop) (addr, out) (.ok (out ++ listingText lines)) := by
  induction listed generalizing out with
  | @full addr cut =>
      have leaves := listingBody_eq reads inMemory after before out
      rw [dif_neg (Nat.not_le.2 cut)] at leaves
      simpa [listingText] using ends_of_done leaves
  | @line addr raw lines fits fetched rest ih =>
      have long := m.instructionLength_cases addr
      rw [Machine.fetch_at even (fits.trans inMemory)] at fetched
      cases fetched
      have turn := listingBody_eq reads inMemory after before out
      rw [dif_pos fits] at turn
      have others := ends_of_again turn (ih (by omega) (by omega) fits _)
      simpa only [listingText, List.flatMap_cons, List.append_assoc] using others

/-- Reading from the list of all of memory gives memory everywhere. -/
theorem reads_wholeMemory (m : Machine n) (start stop : Nat) :
    Reads (wholeMemory m : Reading ε) m start stop := by
  intro addr len inside _ _
  rw [wholeMemory, checkedRange_ok (by simpa using inside), take_drop_slice_all]

/-- **`fetch`, and the listing that agrees with it.** `fetch` fails when `pc` is odd, and
otherwise when the bytes of the instruction do not all lie inside memory; otherwise it gives
the number that they spell. For every part of memory that starts at an even address, the
listing ends, and it prints the instructions that `fetch` returns from the start on without
gaps, up to the first that does not fit. It does so from memory, and from anything that is
memory in that part, even if reading outside it is a trap. -/
theorem fetch_and_listing (m : Machine n) :
    (if m.pc.toNat % 2 = 1 then m.fetch = .error .misalignedPC
      else if inside : m.pc.toNat + m.instructionLength m.pc.toNat ≤ n.bytes then
        ∃ raw : Word, m.fetch = .ok raw ∧
          raw.toNat = ofLeBytes (slice m.memory m.pc.toNat _ inside) ∧
          (m.instructionLength m.pc.toNat = 2 ∧ raw.toNat ≤ 0xFFFF ∧ raw.toNat % 4 ≠ 3 ∨
            m.instructionLength m.pc.toNat = 4 ∧ raw.toNat % 4 = 3)
      else m.fetch = .error .pcOutOfBounds) ∧
    ∀ start stop : Word, start ≤ stop → stop.toNat ≤ n.bytes → start.toNat % 2 = 0 →
      ∃ lines, Listed m stop.toNat start.toNat lines ∧
        PrintsListing (wholeMemory m : Reading ε) start stop (listingText lines) ∧
        ∀ memory : Reading ε, Reads memory m start.toNat stop.toNat →
          PrintsListing memory start stop (listingText lines) := by
  refine ⟨m.fetch_eq, fun start stop le inMemory even => ?_⟩
  obtain ⟨lines, listed⟩ := listed_exists m inMemory even
  have printed : ∀ memory : Reading ε, Reads memory m start.toNat stop.toNat →
      PrintsListing memory start stop (listingText lines) := fun memory reads =>
    listed.printed reads inMemory even (Nat.le_refl _) le []
  exact ⟨lines, listed, printed _ (reads_wholeMemory m _ _), printed⟩

/-- An instruction of each length, and the first half of one. -/
def mixedCode : Machine .eight :=
  { (Machine.reset : Machine .eight) with
    memory := patch (fun _ => 0#8) 0
      (writeInt 4 0x06400093#32 ++ writeInt 2 0x0505#16 ++ writeInt 2 0x0013#16) }

example : runFuel (listingBody (wholeMemory mixedCode : Reading Empty) 8#32) 3 (0, []) =
    some (.ok (ascii
      "00000000  06400093  ADDI ra, zero, 100\n00000004  0505      C.ADDI a0, a0, 1\n")) := by
  decide +kernel

theorem fetch_and_listing_mixedCode :
    ∃ lines, Listed mixedCode 8 0 lines ∧
      PrintsListing (wholeMemory mixedCode : Reading Empty) 0#32 8#32 (listingText lines) := by
  obtain ⟨lines, listed, printed, _⟩ :=
    (fetch_and_listing mixedCode).2 0#32 8#32 (by decide) (by decide) rfl
  exact ⟨lines, listed, printed⟩

end Disasm

end Determinant
