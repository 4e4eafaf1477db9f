import Determinant.Foundations.Text
import Determinant.Instructions.Base

/-!
# Memory dumps

A dump of memory is a listing in the style of `hexdump -C`, in which a full line equal to the
one before is not printed again, or the digits alone, 32 bytes a line.
-/

set_option autoImplicit false

namespace Determinant

open Foundations

namespace Dump

inductive Format where
  | hexdump
  | raw
deriving DecidableEq, Repr

/-- What the loop of the listing keeps: the last full line, whether the run of lines equal to
it is marked, and what was printed. -/
structure Progress where
  prevLine : Option (List Byte) := none
  collapsing : Bool := false
  out : List Byte := []

/-- The columns of a line: 16 bytes with a gap in the middle, or blanks. -/
def byteColumns (bytes : List Byte) : List Byte :=
  (List.range 16).flatMap fun j =>
    (if j = 8 then ascii " " else []) ++
      match bytes[j]? with
      | some byte => hex 2 byte.toNat ++ ascii " "
      | none => ascii "   "

def printable (c : Byte) : Byte := if 0x20#8 ≤ c ∧ c ≤ 0x7E#8 then c else 0x2E#8

/-- One turn of the loop, for the line at an offset. -/
def hexdumpLine (memory : List Byte) (base : Word) (p : Progress) (offset : Nat) : Progress :=
  let line := (memory.drop offset).take (min 16 (memory.length - offset))
  if line.length = 16 ∧ p.prevLine = some line then
    if p.collapsing then p
    else { p with out := p.out ++ ascii "*" ++ [newline], collapsing := true }
  else
    { prevLine := if line.length = 16 then some line else none
      collapsing := false
      out := p.out ++ hex 8 (base.toNat + offset) ++ ascii "  " ++ byteColumns line ++
        ascii " |" ++ line.map printable ++ ascii "|" ++ [newline] }

/-- The lines at the offsets 0, 16, and so on below the length, and the address behind them. -/
def dumpHexdump (memory : List Byte) (base : Word) : List Byte :=
  let offsets := (List.range ((memory.length + 15) / 16)).map (16 * ·)
  (offsets.foldl (hexdumpLine memory base) {}).out ++
    hex 8 (base.toNat + memory.length) ++ [newline]

def dumpRaw (memory : List Byte) : List Byte :=
  (List.range ((memory.length + 31) / 32)).flatMap fun i =>
    ((memory.drop (32 * i)).take (min 32 (memory.length - 32 * i))).flatMap
      (fun byte => hex 2 byte.toNat) ++ [newline]

/-- Dump memory, whose first byte is at address `base`. -/
def dumpMemory (memory : List Byte) (base : Word) : Format → List Byte
  | .hexdump => dumpHexdump memory base
  | .raw => dumpRaw memory

example : dumpHexdump (List.replicate 32 0x41#8) 0x100#32 =
    ascii "00000100  41 41 41 41 41 41 41 41  41 41 41 41 41 41 41 41  |AAAAAAAAAAAAAAAA|\n" ++
      ascii "*\n00000120\n" := by
  decide +kernel

end Dump

end Determinant
