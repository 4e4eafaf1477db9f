import Determinant.Host.Loader

/-!
# The segments of an image

When the table of the program headers lies inside the image (`Table`), no read of a header
and no sum on the way to it fails, so every header is what its bytes say (`headerAt`), and the
cursor finds the PT_LOAD headers that are left in their order (`Segments.ahead`): one call of
`next` finds the first of them (`next_spec`), and a loop over the cursor is the loop over their
list (`forEach_eq`).
-/

set_option autoImplicit false

namespace Determinant

open Foundations

namespace Loader

/-! ## Reads inside the image -/

/-- The word at an offset. -/
def wordAt (image : List Byte) (offset : Nat) : Word := readInt 32 ((image.drop offset).take 4)

/-- The halfword at an offset. -/
def halfAt (image : List Byte) (offset : Nat) : Half := readInt 16 ((image.drop offset).take 2)

variable {image : List Byte}

theorem byteAt_ok {offset : Nat} (inside : offset + 1 ≤ image.length) :
    byteAt image offset = .ok (readInt 8 ((image.drop offset).take 1)) := by
  rw [byteAt, checkedRange_ok inside]
  rfl

theorem u16At_ok {offset : Nat} (inside : offset + 2 ≤ image.length) :
    u16At image offset = .ok (halfAt image offset) := by
  rw [u16At, checkedRange_ok inside]
  rfl

theorem u32At_ok {offset : Nat} (inside : offset + 4 ≤ image.length) :
    u32At image offset = .ok (wordAt image offset) := by
  rw [u32At, checkedRange_ok inside]
  rfl

/-- The segment that the 32 bytes of a program header describe, if its type is PT_LOAD. -/
def headerAt (image : List Byte) (ph : Nat) : Option Segment :=
  if (wordAt image ph).toNat = ptLoad then
    some
      { offset := wordAt image (ph + 4)
        vaddr := wordAt image (ph + 8)
        filesz := wordAt image (ph + 16)
        memsz := wordAt image (ph + 20)
        flags := wordAt image (ph + 24) }
  else none

theorem segment_ok {ph : Nat} (inside : ph + 32 ≤ image.length) (small : ph + 32 < 2 ^ 64) :
    segment image ph = .ok (headerAt image ph) := by
  unfold segment headerAt
  rw [u32At_ok (by omega)]
  simp (disch := omega) only [checkedAdd_ok, u32At_ok, bind, Except.bind]
  split <;> simp_all [pure, Except.pure]

/-! ## The cursor -/

/-- The table of the program headers lies inside the image, and its numbers are those of a
32-bit file. -/
structure Table (s : Segments) : Prop where
  inside : s.phoff + s.phentsize * s.phnum ≤ s.image.length
  entries : s.phnum ≠ 0 → programHeaderLen ≤ s.phentsize
  phoff : s.phoff < 2 ^ 32
  phentsize : s.phentsize < 2 ^ 16
  phnum : s.phnum < 2 ^ 16

variable {s : Segments}

theorem Table.moved (table : Table s) (i : Nat) : Table { s with index := i } :=
  ⟨table.inside, table.entries, table.phoff, table.phentsize, table.phnum⟩

namespace Segments

/-- The program header with a number. -/
def header (s : Segments) (i : Nat) : Option Segment :=
  headerAt s.image (s.phoff + i * s.phentsize)

/-- The segments that the cursor has not passed. -/
def ahead (s : Segments) : List Segment :=
  (List.range' s.index (s.phnum - s.index)).filterMap s.header

/-- A program header of the table lies inside the image. -/
theorem header_inside (table : Table s) {i : Nat} (listed : i < s.phnum) :
    s.phoff + i * s.phentsize + 32 ≤ s.image.length ∧ s.phoff + i * s.phentsize + 32 < 2 ^ 64 := by
  have entries := table.entries (by omega)
  have inside := table.inside
  have phoff := table.phoff
  have last : (i + 1) * s.phentsize ≤ s.phnum * s.phentsize :=
    Nat.mul_le_mul_right _ listed
  have bound : s.phnum * s.phentsize ≤ 2 ^ 16 * 2 ^ 16 :=
    Nat.mul_le_mul (Nat.le_of_lt table.phnum) (Nat.le_of_lt table.phentsize)
  rw [Nat.mul_comm s.phentsize] at inside
  rw [Nat.succ_mul] at last
  unfold programHeaderLen at entries
  omega

/-- Passing a program header. -/
theorem ahead_eq_cons (before : s.index < s.phnum) :
    s.ahead = match s.header s.index with
      | some found => found :: ahead { s with index := s.index + 1 }
      | none => ahead { s with index := s.index + 1 } := by
  have count : s.phnum - s.index = (s.phnum - (s.index + 1)) + 1 := by omega
  unfold ahead
  rw [count, List.range'_succ, List.filterMap_cons]
  cases s.header s.index <;> rfl

/-- **The cursor finds the first segment that is left**, or none when none is left. -/
theorem next_spec (table : Table s) :
    ∃ r i, s.next = .ok (r, { s with index := i }) ∧
      (r = none ∧ s.ahead = [] ∨
        ∃ found, r = some found ∧ s.ahead = found :: ahead { s with index := i }) := by
  induction steps : s.phnum - s.index generalizing s with
  | zero =>
      have atEnd : ¬s.index < s.phnum := by omega
      refine ⟨none, s.index, ?_, .inl ⟨rfl, ?_⟩⟩
      · rw [next, if_neg atEnd]
        rfl
      · rw [ahead, steps]
        rfl
  | succ k ih =>
      have before : s.index < s.phnum := by omega
      obtain ⟨inside, small⟩ := header_inside table before
      have phnum := table.phnum
      rw [next, if_pos before, checkedMul_ok (by omega), ahead_eq_cons before]
      simp only [bind, Except.bind]
      rw [checkedAdd_ok (by omega), checkedAdd_ok (by omega)]
      have named : headerAt s.image (s.phoff + s.index * s.phentsize) = s.header s.index := rfl
      simp only [segment_ok inside small, named]
      cases s.header s.index with
      | some found => exact ⟨some found, s.index + 1, rfl, .inr ⟨found, rfl, rfl⟩⟩
      | none => exact ih (table.moved _) (by dsimp only; omega)

/-- Calling `next` until it finds no more yields these segments. -/
inductive Yields : Segments → List Segment → Prop where
  | done {s rest : Segments} (stopped : s.next = .ok (none, rest)) : Yields s []
  | found {s rest : Segments} {first : Segment} {list : List Segment}
      (moved : s.next = .ok (some first, rest)) (more : Yields rest list) :
      Yields s (first :: list)

theorem yields_ahead (table : Table s) : s.Yields s.ahead := by
  induction left : s.ahead generalizing s with
  | nil =>
      obtain ⟨r, i, moved, ⟨rfl, _⟩ | ⟨found, rfl, more⟩⟩ := next_spec table
      · exact .done moved
      · rw [left] at more
        cases more
  | cons first rest ih =>
      obtain ⟨r, i, moved, ⟨rfl, none⟩ | ⟨found, rfl, more⟩⟩ := next_spec table
      · rw [left] at none
        cases none
      · rw [left] at more
        cases more
        exact .found moved (ih (table.moved i) rfl)

variable {m : Type → Type} [Monad m] [MonadExceptOf (Failure LoadError) m]

/-- A loop over the cursor is the loop over what it yields. -/
theorem Yields.forEach_eq {list : List Segment} (yields : s.Yields list)
    (body : Segment → m Unit) : s.forEach body = forM list body := by
  induction yields with
  | done stopped =>
      rw [forEach]
      split
      · rename_i same
        rw [stopped] at same
        cases same
      · rfl
      · rename_i same
        rw [stopped] at same
        cases same
  | found moved _ ih =>
      rw [forEach]
      split
      · rename_i same
        rw [moved] at same
        cases same
      · rename_i same
        rw [moved] at same
        cases same
      · rename_i same
        rw [moved] at same
        cases same
        rw [ih, List.forM_cons]

/-- **A loop over the cursor is a loop over the segments that are left.** -/
theorem forEach_eq (table : Table s) (body : Segment → m Unit) :
    s.forEach body = forM s.ahead body :=
  (yields_ahead table).forEach_eq body

end Segments

end Loader

end Determinant
