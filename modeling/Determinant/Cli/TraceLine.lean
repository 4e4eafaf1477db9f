import Determinant.Cli.Report
import Determinant.Foundations.Reading

/-!
# Reading a line of the trace

A reader takes from a line of the trace what it says the instruction wrote: a register and its
value, or an address in memory and the bytes there, or nothing (`readTraceLine`). The only `=` of
a line is the one in front of the value, since no line of a listing has one
(`Disasm.printLine_clear`). The line is made from the format of the instruction and the state
after it, and so is what the reader takes from it (`readTraceLine_printTraceLine`).
-/

set_option autoImplicit false

namespace Determinant

open Foundations

variable {n : MemSize}

namespace Report

/-! ## The reader -/

/-- What a line says that the instruction wrote. -/
inductive Noted where
  | register (reg : Reg) (value : Word)
  | memory (addr : Word) (bytes : List Byte)
deriving DecidableEq, Repr

/-- The register with this name. -/
def namedReg (name : List Byte) : Option Reg :=
  ((List.finRange 32).map BitVec.ofFin).find? fun reg => Disasm.reg reg = name

/-- A place and the digits of its value. Two digits of a value in memory are one byte. -/
def noteOf (place digits : List Byte) : Option Noted :=
  if place.take 6 = ascii "mem[0x" then
    some (.memory (BitVec.ofNat 32 (readNumber 16 ((place.drop 6).takeWhile isHexDigit)))
      (leBytes (digits.length / 2) (readNumber 16 digits)))
  else
    (namedReg place).map fun reg => .register reg (BitVec.ofNat 32 (readNumber 16 digits))

/-- The place is the last word before the `=`, and the digits come after `0x`. -/
def readTraceLine (line : List Byte) : Option Noted :=
  match line.splitOn equalsSign with
  | [before, after] =>
      noteOf ((before.splitOn space).dropLast.getLastD []) ((after.drop 3).takeWhile isHexDigit)
  | _ => none

/-! ## What is printed -/

/-- The bytes that a store shows, in the width that was stored. -/
def shownBytes (op : Opcode) (val : Word) : List Byte :=
  match op with
  | .i .sb => writeInt 1 (val.setWidth 8)
  | .i .sh => writeInt 2 (val.setWidth 16)
  | _ => writeInt 4 val

/-- What the line of an instruction says, from its format and the state after it. -/
def noted (raw : Word) (m : Machine n) : Option Noted :=
  match decode raw with
  | .error _ => none
  | .ok inst =>
      match inst.op.format with
      | .S =>
          some (.memory (m.readReg inst.rs1 + inst.immUnsigned)
            (shownBytes inst.op (m.readReg inst.rs2)))
      | .B => none
      | _ => if inst.rd ≠ 0#5 then some (.register inst.rd (m.readReg inst.rd)) else none

/-- A line without a note has no `=`. -/
theorem readTraceLine_plain {line : List Byte} (plain : equalsSign ∉ line) :
    readTraceLine line = none := by
  rw [readTraceLine, List.splitOn_eq_singleton plain]

/-- A line with a note. -/
theorem readTraceLine_note {front place : List Byte} (k v : Nat) (plain : equalsSign ∉ front)
    (word : equalsSign ∉ place ∧ space ∉ place) :
    readTraceLine (front ++ space :: place ++ ascii " = 0x" ++ hex k v ++ [newline]) =
      noteOf place (hex k v) := by
  have before : equalsSign ∉ front ++ space :: place ++ [space] := by
    have blank : ¬equalsSign = space := by decide
    simp [plain, word.1, blank]
  have after : equalsSign ∉ ascii " 0x" ++ (hex k v ++ [newline]) := by
    have radix : equalsSign ∉ ascii " 0x" := by decide
    have ending : ¬equalsSign = newline := by decide
    have digits : equalsSign ∉ hex k v := not_mem_hex .equals k v
    simp [radix, ending, digits]
  have shape : front ++ space :: place ++ ascii " = 0x" ++ hex k v ++ [newline] =
      (front ++ space :: place ++ [space]) ++
        equalsSign :: (ascii " 0x" ++ (hex k v ++ [newline])) := by
    have parts : ascii " = 0x" = [space] ++ equalsSign :: ascii " 0x" := by decide
    rw [parts]
    simp [List.append_assoc]
  have words : (front ++ space :: place ++ [space]).splitOn space =
      front.splitOn space ++ [place, []] := by
    rw [List.append_assoc, List.cons_append, List.splitOn_append_cons_self,
      List.splitOn_append_cons_self, List.splitOn_eq_singleton word.2]
    rfl
  have digits : ((ascii " 0x" ++ (hex k v ++ [newline])).drop 3).takeWhile isHexDigit =
      hex k v := by
    have other : ∀ c ∈ [newline].head?, isHexDigit c = false := by
      rintro c ⟨⟩
      rfl
    exact (span_hex k v other).1
  have last : (front.splitOn space ++ [place, []]).dropLast.getLastD [] = place := by
    have shorter : front.splitOn space ++ [place, []] =
        (front.splitOn space ++ [place]) ++ [[]] := by simp
    rw [shorter, List.dropLast_concat, List.getLastD_concat]
  rw [shape, readTraceLine, List.splitOn_append_cons_self_of_not_mem before,
    List.splitOn_eq_singleton after]
  dsimp only
  rw [words, digits, last]

theorem namedReg_reg (k : Reg) : namedReg (Disasm.reg k) = some k := by
  have every : ∀ i : Fin 32, namedReg (Disasm.reg (BitVec.ofFin i)) = some (BitVec.ofFin i) := by
    decide +kernel
  exact every k.toFin

/-- The note of a register. -/
theorem noteOf_reg (reg : Reg) (value : Word) :
    noteOf (Disasm.reg reg) (hex 8 value.toNat) = some (.register reg value) := by
  have notMemory : (Disasm.reg reg).take 6 ≠ ascii "mem[0x" := by
    intro same
    have short := (Disasm.reg_clear .newline reg).1
    have long := congrArg List.length same
    rw [List.length_take] at long
    have six : (ascii "mem[0x").length = 6 := by decide
    omega
  rw [noteOf, if_neg notMemory, namedReg_reg, readNumber_hex, BitVec.ofNat_toNat,
    BitVec.setWidth_eq]
  rfl

/-- The note of a store of `k` bytes. -/
theorem noteOf_memory {k v : Nat} (addr : Word) (some : 0 < k) (small : v < 16 ^ (2 * k)) :
    noteOf (ascii "mem[0x" ++ hex 8 addr.toNat ++ ascii "]") (hex (2 * k) v) =
      .some (.memory addr (leBytes k v)) := by
  have six : (ascii "mem[0x").length = 6 := by decide
  have bracket : ∀ c ∈ (ascii "]").head?, isHexDigit c = false := by
    rintro c ⟨⟩
    rfl
  have length : (hex (2 * k) v).length / 2 = k := by
    rw [length_hex (by omega) small]
    omega
  have front : (ascii "mem[0x" ++ (hex 8 addr.toNat ++ ascii "]")).take 6 = ascii "mem[0x" :=
    List.take_left' six
  have back : (ascii "mem[0x" ++ (hex 8 addr.toNat ++ ascii "]")).drop 6 =
      hex 8 addr.toNat ++ ascii "]" := List.drop_left' six
  rw [List.append_assoc, noteOf, if_pos front, back, (span_hex 8 addr.toNat bracket).1,
    readNumber_hex, readNumber_hex, length, BitVec.ofNat_toNat, BitVec.setWidth_eq]

theorem space_not_mem_hex (k v : Nat) : space ∉ hex k v := by
  intro listed
  have digit := isSome_charToDigit_of_mem_hex listed
  cases digit

theorem reg_word (k : Reg) : equalsSign ∉ Disasm.reg k ∧ space ∉ Disasm.reg k := by
  have every : ∀ i : Fin 32, space ∉ Disasm.reg (BitVec.ofFin i) := by decide
  exact ⟨(Disasm.reg_clear .equals k).2, every k.toFin⟩

theorem memory_word (addr : Word) :
    equalsSign ∉ ascii "mem[0x" ++ hex 8 addr.toNat ++ ascii "]" ∧
      space ∉ ascii "mem[0x" ++ hex 8 addr.toNat ++ ascii "]" := by
  have opening : equalsSign ∉ ascii "mem[0x" ∧ space ∉ ascii "mem[0x" := by decide
  have closing : equalsSign ∉ ascii "]" ∧ space ∉ ascii "]" := by decide
  have digits : equalsSign ∉ hex 8 addr.toNat := not_mem_hex .equals 8 _
  have solid := space_not_mem_hex 8 addr.toNat
  constructor
  · simp [opening.1, closing.1, digits]
  · simp [opening.2, closing.2, solid]

section

variable {start : List Byte}

theorem readTraceLine_register (plain : equalsSign ∉ start) (reg : Reg) (value : Word) :
    readTraceLine (start ++ ascii "  " ++ Disasm.reg reg ++ ascii " = " ++ wordText value ++
      [newline]) = some (.register reg value) := by
  have front : equalsSign ∉ start ++ [space] := by
    have blank : equalsSign ∉ [space] := by decide
    rw [List.mem_append]
    exact fun listed => listed.elim plain blank
  have gap : ascii "  " = [space] ++ [space] := by decide
  have value0x : ascii " = 0x" = ascii " = " ++ ascii "0x" := by decide
  rw [← noteOf_reg, ← readTraceLine_note 8 value.toNat front (reg_word reg), gap, value0x, wordText]
  simp only [List.append_assoc, List.cons_append, List.nil_append]

theorem readTraceLine_memory (plain : equalsSign ∉ start) (addr : Word) {k v : Nat}
    (some : 0 < k) (small : v < 16 ^ (2 * k)) :
    readTraceLine (start ++ ascii "  mem[" ++ wordText addr ++ ascii "] = " ++ ascii "0x" ++
      hex (2 * k) v ++ [newline]) = .some (.memory addr (leBytes k v)) := by
  have front : equalsSign ∉ start ++ [space] := by
    have blank : equalsSign ∉ [space] := by decide
    rw [List.mem_append]
    exact fun listed => listed.elim plain blank
  have opening : ascii "  mem[" = [space] ++ space :: ascii "mem[" := by decide
  have place : ascii "mem[0x" = ascii "mem[" ++ ascii "0x" := by decide
  have closing : ascii "] = " ++ ascii "0x" = ascii "]" ++ ascii " = 0x" := by decide
  rw [← noteOf_memory addr some small, ← readTraceLine_note _ _ front (memory_word addr), opening,
    place, wordText, List.append_assoc _ (ascii "] = "), closing]
  simp only [List.append_assoc, List.cons_append, List.nil_append]

end

/-- **What is read from a line of the trace**, whatever the instruction is. -/
theorem readTraceLine_printTraceLine (cycle : Count) (pc raw : Word) (m : Machine n) :
    readTraceLine (printTraceLine cycle pc raw m) = noted raw m := by
  have blank : equalsSign ≠ space := by decide
  have cycleColumn : equalsSign ∉ (decimal cycle.toNat).leftpad 8 space ++ ascii "  " := by
    have gap : equalsSign ∉ ascii "  " := by decide
    have digits : equalsSign ∉ decimal cycle.toNat := not_mem_decimal .equals _
    simp [List.leftpad, gap, digits, blank]
  have listing : equalsSign ∉ (Disasm.printLine pc raw).take 128 := fun listed =>
    (Disasm.printLine_clear .equals pc raw).2 (List.mem_of_mem_take listed)
  have unnoted : readTraceLine ((decimal cycle.toNat).leftpad 8 space ++ ascii "  " ++
      ((Disasm.printLine pc raw).take 128 ++ [newline])) = none := by
    have ends : equalsSign ∉ [newline] := by decide
    refine readTraceLine_plain fun listed => ?_
    rcases List.mem_append.1 listed with column | rest
    · exact cycleColumn column
    · exact (List.mem_append.1 rest).elim listing ends
  have start : equalsSign ∉ (decimal cycle.toNat).leftpad 8 space ++ ascii "  " ++
      ((Disasm.printLine pc raw).take 128).rightpad 46 space := by
    have padded : equalsSign ∉ ((Disasm.printLine pc raw).take 128).rightpad 46 space := by
      simp [List.rightpad, listing, blank]
    exact fun listed => (List.mem_append.1 listed).elim cycleColumn padded
  have registers : ∀ inst : Instruction,
      readTraceLine ((decimal cycle.toNat).leftpad 8 space ++ ascii "  " ++
        if inst.rd ≠ 0#5 then
          ((Disasm.printLine pc raw).take 128).rightpad 46 space ++ ascii "  " ++
            Disasm.reg inst.rd ++ ascii " = " ++ wordText (m.readReg inst.rd) ++ [newline]
        else (Disasm.printLine pc raw).take 128 ++ [newline]) =
      if inst.rd ≠ 0#5 then some (.register inst.rd (m.readReg inst.rd)) else none := by
    intro inst
    split
    · have read := readTraceLine_register start inst.rd (m.readReg inst.rd)
      simpa only [List.append_assoc] using read
    · exact unnoted
  unfold printTraceLine noted
  dsimp only
  cases decode raw with
  | error _ => exact unnoted
  | ok inst =>
      dsimp only
      cases inst.op.format with
      | S =>
          -- The width of the value is the number of the bytes that were stored.
          dsimp only
          generalize inst.op = op
          split
          · have read := readTraceLine_memory start (m.readReg inst.rs1 + inst.immUnsigned)
              Nat.one_pos ((m.readReg inst.rs2).setWidth 8).isLt
            simp only [List.append_assoc] at read ⊢
            exact read
          · have read := readTraceLine_memory start (m.readReg inst.rs1 + inst.immUnsigned)
              Nat.two_pos ((m.readReg inst.rs2).setWidth 16).isLt
            simp only [List.append_assoc] at read ⊢
            exact read
          · rename_i notByte notHalfword
            have read := readTraceLine_memory start (m.readReg inst.rs1 + inst.immUnsigned)
              (by decide : 0 < 4) (m.readReg inst.rs2).isLt
            have word : shownBytes op (m.readReg inst.rs2) = writeInt 4 (m.readReg inst.rs2) := by
              unfold shownBytes
              split
              · exact absurd rfl notByte
              · exact absurd rfl notHalfword
              · rfl
            rw [word]
            simp only [wordText, List.append_assoc] at read ⊢
            exact read
      | B => exact unnoted
      | R | I | U | J => exact registers inst

end Report

end Determinant
