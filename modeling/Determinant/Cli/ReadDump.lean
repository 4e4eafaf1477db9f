import Determinant.Cli.Dump
import Determinant.Foundations.Reading

/-!
# Reading a hexdump

A reader of the listing that `dumpHexdump` prints takes the bytes from the columns of each line,
and where a `*` stands it puts copies of the line before, up to the next address that is printed.
The last line is an address alone, and says where the bytes end.

The loop that prints keeps in `prevLine` and `collapsing` what its reader will need: when it
comes to an offset, the reader has the bytes before it, except for the copies of its last line
that the `*` stands for (`ReadsBack`). So the reader gets the whole memory
(`hexdump_loses_nothing`).
-/

set_option autoImplicit false

namespace Determinant

open Foundations

namespace Dump

/-! ## The reader -/

/-- What a reader of the lines keeps: the first and the last address, the line at the last
address, whether a `*` came after it, and the bytes. -/
structure Reading where
  start : Option Nat := none
  last : Nat := 0
  line : List Byte := []
  starred : Bool := false
  bytes : List Byte := []

/-- The bytes of the columns: two digits each, with blanks between them. -/
def readColumns : List Byte → List Byte
  | [] | [_] => []
  | a :: b :: rest =>
      if a = space then readColumns (b :: rest)
      else match charToDigit 16 a, charToDigit 16 b with
        | some high, some low => BitVec.ofNat 8 (16 * high + low) :: readColumns rest
        | _, _ => []

/-- Copies of the line at the last address, as many full lines as there are up to an address. -/
def Reading.fill (r : Reading) (start addr : Nat) : List Byte :=
  if r.starred then
    (List.replicate ((addr - (start + r.bytes.length)) / 16) r.line).flatten
  else []

def readLine (r : Reading) (text : List Byte) : Reading :=
  if text = ascii "*" then { r with starred := true }
  else
    let addr := readNumber 16 (text.takeWhile isHexDigit)
    let line := readColumns (text.dropWhile isHexDigit)
    let start := r.start.getD addr
    { start := some start
      last := addr
      line := line
      starred := false
      bytes := r.bytes ++ r.fill start addr ++ line }

/-- The bytes of a dump, as many as there are from the first address to the last. -/
def readHexdump (text : List Byte) : List Byte :=
  let r := (lines text).foldl readLine {}
  r.bytes.take (r.last - r.start.getD 0)

/-! ## The columns -/

/-- The text of a full or a last line, without its newline. -/
def row (base : Word) (offset : Nat) (line : List Byte) : List Byte :=
  hex 8 (base.toNat + offset) ++ (ascii "  " ++ byteColumns line ++ ascii " |" ++
    line.map printable ++ ascii "|")

/-- One column, with the gap in the middle before it. -/
def column (bytes : List Byte) (j : Nat) : List Byte :=
  (if j = 8 then ascii " " else []) ++
    match bytes[j]? with
    | some byte => hex 2 byte.toNat ++ ascii " "
    | none => ascii "   "

theorem byteColumns_eq (line : List Byte) :
    byteColumns line = (List.range' 0 16).flatMap (column line) := rfl

@[simp] theorem readColumns_space (text : List Byte) :
    readColumns (space :: text) = readColumns text := by
  cases text with
  | nil => rfl
  | cons b rest => rw [readColumns, if_pos rfl]

theorem readColumns_hex (byte : Byte) (text : List Byte) :
    readColumns (hex 2 byte.toNat ++ text) = byte :: readColumns text := by
  have bound : byte.toNat < 256 := byte.isLt
  have high : byte.toNat / 16 < 16 := by omega
  have low : byte.toNat % 16 < 16 := Nat.mod_lt _ (by decide)
  have digit : upperDigit (byte.toNat / 16) ≠ space := by
    intro same
    have value := charToDigit_upperDigit high
    rw [same] at value
    cases value
  have whole : BitVec.ofNat 8 (16 * (byte.toNat / 16) + byte.toNat % 16) = byte := by
    rw [Nat.div_add_mod, BitVec.ofNat_toNat, BitVec.setWidth_eq]
  rw [hex_byte, List.cons_append, List.cons_append, List.nil_append, readColumns, if_neg digit,
    charToDigit_upperDigit high, charToDigit_upperDigit low]
  dsimp only
  rw [whole]

/-- The columns from `j` give the bytes from there, and then what comes after them. -/
theorem readColumns_columns (bytes text : List Byte) (j count : Nat) :
    readColumns ((List.range' j count).flatMap (column bytes) ++ text) =
      (bytes.drop j).take count ++ readColumns text := by
  induction count generalizing j with
  | zero => simp
  | succ count ih =>
      have gap : ∀ rest, readColumns ((if j = 8 then ascii " " else []) ++ rest) =
          readColumns rest := by
        intro rest
        split
        · exact readColumns_space rest
        · rfl
      rw [List.range'_succ, List.flatMap_cons, column, List.append_assoc, List.append_assoc, gap]
      cases read : bytes[j]? with
      | none =>
          have short : bytes.length ≤ j := List.getElem?_eq_none_iff.1 read
          rw [List.drop_eq_nil_of_le short]
          have next := ih (j + 1)
          rw [List.drop_eq_nil_of_le (by omega), List.take_nil, List.nil_append] at next
          have blanks : ∀ rest, readColumns (ascii "   " ++ rest) = readColumns rest := by
            intro rest
            exact (readColumns_space _).trans ((readColumns_space _).trans (readColumns_space _))
          dsimp only
          rw [blanks, next, List.take_nil, List.nil_append]
      | some byte =>
          obtain ⟨inside, rfl⟩ := List.getElem?_eq_some_iff.1 read
          have blank : ∀ rest, readColumns (ascii " " ++ rest) = readColumns rest :=
            readColumns_space
          dsimp only
          rw [List.append_assoc, readColumns_hex, blank, ih (j + 1),
            List.drop_eq_getElem_cons inside, List.take_succ_cons, List.cons_append]

theorem readColumns_row {line : List Byte} (short : line.length ≤ 16) (text : List Byte) :
    readColumns (ascii "  " ++ byteColumns line ++ ascii " |" ++ text) = line := by
  have bar : ∀ rest, readColumns (ascii " |" ++ rest) = [] := by
    intro rest
    refine (readColumns_space _).trans ?_
    cases rest with
    | nil => rfl
    | cons b rest => rfl
  have front : ∀ rest, readColumns (ascii "  " ++ rest) = readColumns rest := by
    intro rest
    exact (readColumns_space _).trans (readColumns_space _)
  rw [List.append_assoc, List.append_assoc, front, byteColumns_eq,
    readColumns_columns, bar, List.append_nil, List.drop_zero]
  exact List.take_of_length_le short

theorem oneLine_byteColumns (line : List Byte) : OneLine (byteColumns line) := by
  intro listed
  obtain ⟨j, -, listed⟩ := List.mem_flatMap.1 (byteColumns_eq line ▸ listed)
  have gap : OneLine (if j = 8 then ascii " " else []) := by
    split <;> decide
  have blank : OneLine (ascii " ") := by decide
  have blanks : OneLine (ascii "   ") := by decide
  have oneLine : OneLine (column line j) := by
    rw [column, oneLine_append]
    refine ⟨gap, ?_⟩
    split
    · exact oneLine_append.2 ⟨oneLine_hex 2 _, blank⟩
    · exact blanks
  exact oneLine listed

theorem printable_ne_newline (c : Byte) : printable c ≠ newline := by
  unfold printable
  split
  · rename_i visible
    rintro rfl
    exact absurd visible.1 (by decide)
  · decide

theorem oneLine_row (base : Word) (offset : Nat) (line : List Byte) :
    OneLine (row base offset line) := by
  have front : OneLine (ascii "  ") := by decide
  have bar : OneLine (ascii " |") := by decide
  have close : OneLine (ascii "|") := by decide
  have text : OneLine (line.map printable) := by
    intro listed
    obtain ⟨c, -, same⟩ := List.mem_map.1 listed
    exact printable_ne_newline c same
  simp only [row, oneLine_append, oneLine_hex, oneLine_byteColumns, front, bar, close, text,
    and_self]

/-! ## A line that is read -/

theorem readLine_star (r : Reading) : readLine r (ascii "*") = { r with starred := true } :=
  if_pos rfl

/-- What is read from a line that begins with an address. -/
theorem readLine_address (r : Reading) (k : Nat) {rest : List Byte}
    (other : ∀ c ∈ rest.head?, isHexDigit c = false) :
    readLine r (hex 8 k ++ rest) =
      { start := some (r.start.getD k)
        last := k
        line := readColumns rest
        starred := false
        bytes := r.bytes ++ r.fill (r.start.getD k) k ++ readColumns rest } := by
  have wide : 8 ≤ (hex 8 k ++ rest).length := by
    rw [List.length_append, hex, List.length_leftpad]
    omega
  have notStar : hex 8 k ++ rest ≠ ascii "*" := by
    intro same
    rw [same] at wide
    exact absurd wide (by decide)
  obtain ⟨address, columns⟩ := span_hex 8 k other
  rw [readLine, if_neg notStar, address, columns, readNumber_hex]

/-! ## The loop and its reader -/

/-- When the loop comes to an offset, its reader has the bytes before it, except for the copies
of its last line that a `*` stands for. -/
structure ReadsBack (memory : List Byte) (base : Word) (offset : Nat) (p : Progress)
    (r : Reading) (copies : Nat) : Prop where
  start : r.start = none ∧ offset = 0 ∨ r.start = some base.toNat
  starred : r.starred = p.collapsing
  prev : ∀ line, p.prevLine = some line →
    r.start = some base.toNat ∧ r.line = line ∧ line.length = 16
  full : p.collapsing = true → r.line.length = 16
  none : p.collapsing = false → copies = 0
  bytes : r.bytes ++ (List.replicate copies r.line).flatten = memory.take offset

namespace ReadsBack

variable {memory : List Byte} {base : Word} {offset copies : Nat} {p : Progress} {r : Reading}

theorem initial (memory : List Byte) (base : Word) : ReadsBack memory base 0 {} {} 0 where
  start := .inl ⟨rfl, rfl⟩
  starred := rfl
  prev := nofun
  full := nofun
  none _ := rfl
  bytes := rfl

theorem start_getD (reads : ReadsBack memory base offset p r copies) :
    r.start.getD (base.toNat + offset) = base.toNat := by
  rcases reads.start with ⟨first, rfl⟩ | started
  · rw [first]
    rfl
  · rw [started]
    rfl

/-- The reader puts as many copies as are missing. -/
theorem fill_eq (reads : ReadsBack memory base offset p r copies)
    (inside : offset ≤ memory.length) :
    r.fill base.toNat (base.toNat + offset) = (List.replicate copies r.line).flatten := by
  unfold Reading.fill
  split
  · rename_i starred
    have full := reads.full (reads.starred ▸ starred)
    have total := congrArg List.length reads.bytes
    rw [List.length_append, List.length_flatten, List.map_replicate, List.sum_replicate_nat, full,
      List.length_take_of_le inside] at total
    have missing : (base.toNat + offset - (base.toNat + r.bytes.length)) / 16 = copies := by
      omega
    rw [missing]
  · rename_i unmarked
    have nothing := reads.none (by rw [← reads.starred]; exact Bool.eq_false_iff.2 unmarked)
    rw [nothing]
    rfl

/-- A line that begins with the address of the offset, and its bytes. -/
theorem readLine_eq (reads : ReadsBack memory base offset p r copies)
    (inside : offset ≤ memory.length) {rest : List Byte}
    (other : ∀ c ∈ rest.head?, isHexDigit c = false) :
    readLine r (hex 8 (base.toNat + offset) ++ rest) =
      { start := some base.toNat
        last := base.toNat + offset
        line := readColumns rest
        starred := false
        bytes := memory.take offset ++ readColumns rest } := by
  rw [readLine_address r _ other, reads.start_getD, reads.fill_eq inside, reads.bytes]

end ReadsBack

/-- The lines that were printed, for the reader. -/
structure Printed (memory : List Byte) (base : Word) (offset : Nat) (p : Progress)
    (texts : List (List Byte)) : Prop where
  out : p.out = unlines texts
  oneLine : ∀ text ∈ texts, OneLine text
  reads : ∃ copies, ReadsBack memory base offset p (texts.foldl readLine {}) copies

/-- The bytes of a turn of the loop. -/
def lineAt (memory : List Byte) (offset : Nat) : List Byte :=
  (memory.drop offset).take (min 16 (memory.length - offset))

theorem take_lineAt (memory : List Byte) (offset : Nat) :
    memory.take offset ++ lineAt memory offset = memory.take (min (offset + 16) memory.length) := by
  have same : min (offset + 16) memory.length =
      min (offset + min 16 (memory.length - offset)) memory.length := by omega
  rw [lineAt, same, ← List.take_eq_take_min, List.take_add]

theorem length_lineAt_le (memory : List Byte) (offset : Nat) :
    (lineAt memory offset).length ≤ 16 := by
  rw [lineAt, List.length_take]
  omega

namespace ReadsBack

variable {memory : List Byte} {base : Word} {offset copies : Nat} {p : Progress} {r : Reading}

/-- The line is one more copy of the line before, and a `*` stands for it. -/
theorem again (reads : ReadsBack memory base offset p r copies)
    (equal : p.prevLine = some (lineAt memory offset)) (out : List Byte) :
    ReadsBack memory base (min (offset + 16) memory.length)
      { p with out := out, collapsing := true } { r with starred := true } (copies + 1) := by
  obtain ⟨started, same, full⟩ := reads.prev _ equal
  exact
    { start := .inr started
      starred := rfl
      prev := reads.prev
      full := fun _ => same ▸ full
      none := nofun
      bytes := by
        rw [List.replicate_succ', List.flatten_append, ← List.append_assoc, reads.bytes,
          List.flatten_singleton, same, take_lineAt] }

/-- The line is printed in full. -/
theorem printed (reads : ReadsBack memory base offset p r copies) (inside : offset < memory.length)
    (out : List Byte) :
    ReadsBack memory base (min (offset + 16) memory.length)
      { prevLine :=
          if (lineAt memory offset).length = 16 then some (lineAt memory offset) else .none
        collapsing := false
        out := out }
      (readLine r (row base offset (lineAt memory offset))) 0 := by
  have blank : ∀ c ∈ (ascii "  " ++ byteColumns (lineAt memory offset) ++ ascii " |" ++
      (lineAt memory offset).map printable ++ ascii "|").head?, isHexDigit c = false := by
    rintro c ⟨⟩
    rfl
  rw [row, reads.readLine_eq inside.le blank, List.append_assoc _ (List.map _ _),
    readColumns_row (length_lineAt_le memory offset)]
  exact
    { start := .inr rfl
      starred := rfl
      prev := by
        intro line kept
        split at kept
        · rename_i full
          cases kept
          exact ⟨rfl, rfl, full⟩
        · cases kept
      full := nofun
      none := fun _ => rfl
      bytes := by
        rw [List.replicate_zero, List.flatten_nil, List.append_nil, take_lineAt] }

end ReadsBack

theorem hexdumpLine_eq (memory : List Byte) (base : Word) (p : Progress) (offset : Nat) :
    hexdumpLine memory base p offset =
      if (lineAt memory offset).length = 16 ∧ p.prevLine = some (lineAt memory offset) then
        if p.collapsing then p
        else { p with out := p.out ++ unlines [ascii "*"], collapsing := true }
      else
        { prevLine := if (lineAt memory offset).length = 16 then some (lineAt memory offset)
            else none
          collapsing := false
          out := p.out ++ unlines [row base offset (lineAt memory offset)] } := by
  have star : p.out ++ unlines [ascii "*"] = p.out ++ ascii "*" ++ [newline] := by
    simp [unlines]
  have text : p.out ++ unlines [row base offset (lineAt memory offset)] =
      p.out ++ hex 8 (base.toNat + offset) ++ ascii "  " ++ byteColumns (lineAt memory offset) ++
        ascii " |" ++ (lineAt memory offset).map printable ++ ascii "|" ++ [newline] := by
    simp [unlines, row, List.append_assoc]
  rw [star, text]
  rfl

namespace Printed

variable {memory : List Byte} {base : Word} {offset : Nat} {p : Progress}
  {texts : List (List Byte)}

theorem initial (memory : List Byte) (base : Word) : Printed memory base 0 {} [] where
  out := rfl
  oneLine := by simp
  reads := ⟨0, .initial memory base⟩

/-- One more line, and what its reader has then. -/
theorem concat (printed : Printed memory base offset p texts) {text : List Byte}
    (oneLine : OneLine text) {offset' copies : Nat} {p' : Progress}
    (out : p'.out = p.out ++ unlines [text])
    (reads : ReadsBack memory base offset' p' (readLine (texts.foldl readLine {}) text) copies) :
    Printed memory base offset' p' (texts ++ [text]) where
  out := by rw [out, printed.out, unlines_append]
  oneLine := by
    intro text' listed
    rcases List.mem_append.1 listed with before | last
    · exact printed.oneLine text' before
    · exact List.mem_singleton.1 last ▸ oneLine
  reads := ⟨copies, by rwa [List.foldl_append]⟩

/-- **What one turn of the loop preserves.** -/
theorem hexdumpLine (printed : Printed memory base offset p texts)
    (inside : offset < memory.length) :
    ∃ texts', Printed memory base (min (offset + 16) memory.length)
      (hexdumpLine memory base p offset) texts' := by
  obtain ⟨copies, reads⟩ := printed.reads
  rw [hexdumpLine_eq]
  split
  · rename_i repeated
    split
    · -- The line is one more that the `*` stands for.
      rename_i collapsing
      have starred := reads.starred.trans collapsing
      have loop : { p with out := p.out, collapsing := true } = p := by rw [← collapsing]
      have reader : { texts.foldl readLine {} with starred := true } = texts.foldl readLine {} := by
        rw [← starred]
      have next := reads.again repeated.2 p.out
      rw [loop, reader] at next
      exact ⟨texts, printed.out, printed.oneLine, copies + 1, next⟩
    · -- The first line of a run that is not printed: a `*` is.
      have star : OneLine (ascii "*") := by decide
      have next := reads.again repeated.2 (p.out ++ unlines [ascii "*"])
      rw [← readLine_star] at next
      exact ⟨_, printed.concat star rfl next⟩
  · exact ⟨_, printed.concat (oneLine_row base offset _) rfl (reads.printed inside _)⟩

/-- What the whole loop preserves, by induction on the number of lines. -/
theorem lines (memory : List Byte) (base : Word) (count : Nat)
    (within : 16 * count ≤ memory.length + 15) :
    ∃ texts, Printed memory base (min (16 * count) memory.length)
      (((List.range count).map (16 * ·)).foldl (Dump.hexdumpLine memory base) {}) texts := by
  induction count with
  | zero =>
      rw [Nat.mul_zero, Nat.zero_min]
      exact ⟨[], .initial memory base⟩
  | succ count ih =>
      obtain ⟨texts, printed⟩ := ih (by omega)
      have inside : 16 * count < memory.length := by omega
      rw [Nat.min_eq_left inside.le] at printed
      rw [List.range_succ, List.map_append, List.foldl_append]
      exact printed.hexdumpLine inside

end Printed

/-- What was dumped is read back. -/
theorem readHexdump_dumpHexdump (memory : List Byte) (base : Word) :
    readHexdump (dumpHexdump memory base) = memory := by
  obtain ⟨texts, printed⟩ := Printed.lines memory base ((memory.length + 15) / 16) (by omega)
  have whole : min (16 * ((memory.length + 15) / 16)) memory.length = memory.length := by omega
  rw [whole] at printed
  obtain ⟨copies, reads⟩ := printed.reads
  have dump : dumpHexdump memory base =
      unlines (texts ++ [hex 8 (base.toNat + memory.length) ++ []]) := by
    rw [unlines_append, ← printed.out, dumpHexdump, List.append_nil]
    simp [unlines, List.append_assoc]
  have oneLine : ∀ text ∈ texts ++ [hex 8 (base.toNat + memory.length) ++ []], OneLine text := by
    intro text listed
    rcases List.mem_append.1 listed with before | last
    · exact printed.oneLine text before
    · rw [List.mem_singleton.1 last, List.append_nil]
      exact oneLine_hex 8 _
  rw [readHexdump, dump, lines_unlines oneLine, List.foldl_append, List.foldl_cons, List.foldl_nil,
    reads.readLine_eq le_rfl (by simp)]
  simp [readColumns]

/-- **A hexdump loses nothing.** The text of a dump determines the bytes: its reader gets them
back. So two different byte strings never have the same dump from the same address. -/
theorem hexdump_loses_nothing (base : Word) :
    (∀ memory, readHexdump (dumpHexdump memory base) = memory) ∧
      ∀ memory memory', memory ≠ memory' → dumpHexdump memory base ≠ dumpHexdump memory' base := by
  refine ⟨fun memory => readHexdump_dumpHexdump memory base, ?_⟩
  intro memory memory' different same
  apply different
  rw [← readHexdump_dumpHexdump memory base, same, readHexdump_dumpHexdump]

end Dump

end Determinant
