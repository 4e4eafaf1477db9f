import Determinant.Host.Requests
import Determinant.Host.Segments

/-!
# Loading is all or nothing

What `parse` accepts has passed every check that the later loops rely on (`parse_valid`), and
what it refuses it refuses with `InvalidElf`, never with a trap (`parse_onlyFails`). The loop
that checks the segments against the memory changes nothing (`checkFits_apply`), and after it
the loop that loads cannot fail: it places the segments one after the other (`load_apply`).
So an image is loaded whole or not at all (`loadElf_all_or_nothing`).
-/

set_option autoImplicit false

namespace Determinant

open Foundations

namespace Loader

variable {n : MemSize} {image : List Byte}

/-! ## Parsing -/

/-- What `parse` checks about a segment. -/
structure Segment.InFile (image : List Byte) (s : Segment) : Prop where
  inside : s.offset.toNat + s.filesz.toNat ≤ image.length
  filesz : s.filesz.toNat ≤ s.memsz.toNat

/-- The two checks of a segment in `parse`. -/
def checkInFile (image : List Byte) (s : Segment) : Parsing Unit := do
  refuseIf .invalidElf ((← checkedAdd 64 s.offset.toNat s.filesz.toNat) > image.length)
  refuseIf .invalidElf (s.filesz > s.memsz)

/-- The sum of two words fits in 64 bits. -/
theorem add_words_small (a b : Word) : a.toNat + b.toNat < 2 ^ 64 := by
  omega

theorem checkInFile_eq_ok {s : Segment} : checkInFile image s = .ok () ↔ s.InFile image := by
  simp only [checkInFile, bind_eq_ok, checkedAdd_ok (add_words_small _ _), refuseIf_eq_ok,
    Except.ok.injEq, exists_eq_left', exists_const]
  constructor
  · rintro ⟨inside, filesz⟩
    exact ⟨Nat.not_lt.1 inside, Nat.not_lt.1 filesz⟩
  · rintro ⟨inside, filesz⟩
    exact ⟨Nat.not_lt.2 inside, Nat.not_lt.2 filesz⟩

theorem checkInFile_onlyFails (s : Segment) :
    OnlyFails .invalidElf (checkInFile image s) :=
  .bind_ok (checkedAdd_ok (add_words_small _ _)) (.bind_refuse fun _ => .refuse _)

/-- What is true of an image that `parse` accepts. -/
structure Elf.Valid (image : List Byte) (elf : Elf) : Prop where
  entry : elf.entry.toNat % 2 = 0
  source : elf.segments.image = image
  start : elf.segments.index = 0
  table : Table elf.segments
  inFile : ∀ s ∈ elf.segments.ahead, s.InFile image

/-- The end of the table, computed without a trap from numbers of a 32-bit file. -/
theorem tableEnd_ok (phoff : Word) (phentsize phnum : Half) :
    (checkedMul 64 phentsize.toNat phnum.toNat : Parsing Nat) =
        .ok (phentsize.toNat * phnum.toNat) ∧
      (checkedAdd 64 phoff.toNat (phentsize.toNat * phnum.toNat) : Parsing Nat) =
        .ok (phoff.toNat + phentsize.toNat * phnum.toNat) := by
  have product : phentsize.toNat * phnum.toNat ≤ 2 ^ 16 * 2 ^ 16 :=
    Nat.mul_le_mul (Nat.le_of_lt phentsize.isLt) (Nat.le_of_lt phnum.isLt)
  have := phoff.isLt
  exact ⟨checkedMul_ok (by omega), checkedAdd_ok (by omega)⟩

theorem table_of_checks {phoff : Word} {phentsize phnum : Half}
    (entries : ¬(phnum.toNat ≠ 0 ∧ phentsize.toNat < programHeaderLen))
    (inside : ¬phoff.toNat + phentsize.toNat * phnum.toNat > image.length) :
    Table ⟨image, phoff.toNat, phentsize.toNat, phnum.toNat, 0⟩ where
  inside := Nat.not_lt.1 inside
  entries nonempty := Nat.not_lt.1 fun short => entries ⟨nonempty, short⟩
  phoff := phoff.isLt
  phentsize := phentsize.isLt
  phnum := phnum.isLt

/-- **What `parse` accepts it has checked.** -/
theorem parse_valid {elf : Elf} (accepted : parse image = .ok elf) : elf.Valid image := by
  simp only [parse, bind_eq_ok, refuseIf_eq_ok, exists_const] at accepted
  -- The identification of the file, and then the fields of the table.
  obtain ⟨_, _, _, _, _, _, _, _, _, _, _, _, _, _, _, _, _, _, _, accepted⟩ := accepted
  obtain ⟨entry, _, phoff, _, phentsize, _, phnum, _, even, entries, accepted⟩ := accepted
  obtain ⟨mul, add⟩ := tableEnd_ok phoff phentsize phnum
  simp only [mul, add, Except.ok.injEq, exists_eq_left'] at accepted
  obtain ⟨inside, _, checked, built⟩ := accepted
  cases built
  have table := table_of_checks entries inside
  rw [Segments.forEach_eq table] at checked
  refine ⟨?_, rfl, rfl, table, fun s listed => ?_⟩
  · have := BitVec.toNat_inj.2 (not_not.1 even)
    rwa [BitVec.toNat_umod] at this
  · exact checkInFile_eq_ok.1 (forM_eq_ok.1 checked s listed)

/-- **The segments are those of the table in the image**: where it starts, how long its headers
are and how many there are is in the bytes at 28, 42 and 44. -/
theorem parse_segments {elf : Elf} (accepted : parse image = .ok elf) :
    elf.segments = ⟨image, (wordAt image 28).toNat, (halfAt image 42).toNat,
      (halfAt image 44).toNat, 0⟩ := by
  simp only [parse, bind_eq_ok, refuseIf_eq_ok, exists_const] at accepted
  obtain ⟨header, _, _, _, _, _, _, _, _, _, _, _, _, _, _, _, _, _, _, accepted⟩ := accepted
  obtain ⟨_, _, phoff, at28, phentsize, at42, phnum, at44, _, _, accepted⟩ := accepted
  obtain ⟨_, _, _, _, _, _, _, built⟩ := accepted
  have long : 52 ≤ image.length := Nat.not_lt.1 (not_or.1 header).1
  rw [u32At_ok (by omega)] at at28
  rw [u16At_ok (by omega)] at at42 at44
  cases at28
  cases at42
  cases at44
  cases built
  rfl

/-- **What `parse` refuses it refuses with `InvalidElf`**: it never traps. -/
theorem parse_onlyFails (image : List Byte) : OnlyFails .invalidElf (parse image) := by
  refine .bind_refuse fun header => ?_
  have long : 52 ≤ image.length := Nat.not_lt.1 (not_or.1 header).1
  refine .bind_ok (byteAt_ok (by omega)) (.bind_refuse fun _ => ?_)
  refine .bind_ok (byteAt_ok (by omega)) (.bind_refuse fun _ => ?_)
  refine .bind_ok (byteAt_ok (by omega)) (.bind_refuse fun _ => ?_)
  refine .bind_ok (u16At_ok (by omega)) (.bind_refuse fun _ => ?_)
  refine .bind_ok (u16At_ok (by omega)) (.bind_refuse fun _ => ?_)
  refine .bind_ok (u32At_ok (by omega)) (.bind_refuse fun _ => ?_)
  refine .bind_ok (u32At_ok (by omega)) (.bind_ok (u32At_ok (by omega)) ?_)
  refine .bind_ok (u16At_ok (by omega)) (.bind_ok (u16At_ok (by omega)) ?_)
  refine .bind_refuse fun _ => .bind_refuse fun entries => ?_
  obtain ⟨mul, add⟩ := tableEnd_ok (wordAt image 28)
    (readInt 16 ((image.drop 42).take 2)) (readInt 16 ((image.drop 44).take 2))
  refine .bind_ok mul (.bind_ok add (.bind_refuse fun inside => .bind ?_ fun _ _ => .ok _))
  rw [Segments.forEach_eq (table_of_checks entries inside)]
  exact .forM fun s _ => checkInFile_onlyFails s

/-! ## Loading -/

/-- The segment lies inside memory. -/
def Segment.Fits (n : MemSize) (s : Segment) : Prop := s.vaddr.toNat + s.memsz.toNat ≤ n.bytes

instance (n : MemSize) (s : Segment) : Decidable (s.Fits n) := by
  unfold Segment.Fits
  infer_instance

/-- The body of the loop that checks the segments against the memory. -/
def checkFits (s : Segment) : Loading n Unit := reads fun _ => do
  refuseIf .addressOutOfBounds ((← checkedAdd 64 s.vaddr.toNat s.memsz.toNat) > n.bytes)

theorem checkFits_apply (s : Segment) (m : Machine n) :
    checkFits s m =
      if s.Fits n then .ok () m else .error (.returned .addressOutOfBounds) m := by
  simp only [checkFits, reads, checkedAdd_ok (add_words_small _ _), bind, Except.bind, refuseIf]
  by_cases fits : s.Fits n
  · have passed : ¬s.vaddr.toNat + s.memsz.toNat > n.bytes := Nat.not_lt.2 fits
    simp only [passed, fits, if_false, if_true]
  · have refused : s.vaddr.toNat + s.memsz.toNat > n.bytes := Nat.not_le.1 fits
    simp only [refused, fits, if_false, if_true]

/-- The loop changes nothing, and passes when every segment fits. -/
theorem checkFits_list (list : List Segment) (m : Machine n) :
    forM list checkFits m =
      if ∀ s ∈ list, s.Fits n then .ok () m
      else .error (.returned .addressOutOfBounds) m := by
  induction list with
  | nil => simp
  | cons s rest ih =>
      rw [List.forM_cons, bind_apply, checkFits_apply]
      by_cases fits : s.Fits n
      · simp only [fits, if_true, ih, List.forall_mem_cons, true_and]
      · simp only [fits, if_false, List.forall_mem_cons, false_and]

/-- The body of the loop that loads. -/
def loadSegment (image : List Byte) (s : Segment) : Loading n Unit := do
  let program ← reads fun _ => checkedRange image s.offset.toNat s.filesz.toNat
  Hostcall.loadProgramOrTrap program s.vaddr
  let bssStart ← reads fun _ => checkedAdd 64 s.vaddr.toNat s.filesz.toNat
  let bssEnd ← reads fun _ => checkedAdd 64 s.vaddr.toNat s.memsz.toNat
  if bssEnd > bssStart then
    zeroFill bssStart bssEnd
    modify Machine.clearReservation

/-- The machine with a segment in its memory. -/
def Segment.place (image : List Byte) (m : Machine n) (s : Segment) : Machine n :=
  let placed := m.place s.vaddr.toNat ((image.drop s.offset.toNat).take s.filesz.toNat)
  if s.filesz.toNat < s.memsz.toNat then
    { placed with
      memory := patch placed.memory (s.vaddr.toNat + s.filesz.toNat)
        (List.replicate (s.memsz.toNat - s.filesz.toNat) 0#8)
      reservation := none }
  else placed

/-- A segment that was checked is placed: no check on the way fails. -/
theorem loadSegment_apply {s : Segment} (inFile : s.InFile image) (fits : s.Fits n)
    (m : Machine n) : loadSegment image s m = .ok () (Segment.place image m s) := by
  obtain ⟨inside, filesz⟩ := inFile
  unfold Segment.Fits at fits
  have long : ((image.drop s.offset.toNat).take s.filesz.toNat).length = s.filesz.toNat := by
    rw [List.length_take, List.length_drop]
    omega
  have copied := m.loadProgram_apply ((image.drop s.offset.toNat).take s.filesz.toNat) s.vaddr
  rw [long, if_pos (by omega)] at copied
  simp only [loadSegment, bind_apply, reads, checkedRange_ok inside,
    checkedAdd_ok (add_words_small _ _), Hostcall.loadProgramOrTrap, adaptExcept_apply, copied,
    Segment.place]
  by_cases bss : s.filesz.toNat < s.memsz.toNat
  · have range : s.vaddr.toNat + s.filesz.toNat ≤ s.vaddr.toNat + s.memsz.toNat ∧
        s.vaddr.toNat + s.memsz.toNat ≤ n.bytes := by omega
    have zeros : s.vaddr.toNat + s.memsz.toNat - (s.vaddr.toNat + s.filesz.toNat) =
        s.memsz.toNat - s.filesz.toNat := by omega
    simp only [gt_iff_lt, Nat.add_lt_add_iff_left, bss, if_true, zeroFill, range, and_self,
      not_true_eq_false, if_false, zeros]
    rfl
  · simp only [gt_iff_lt, Nat.add_lt_add_iff_left, bss, if_false]
    rfl

theorem loadSegment_list {list : List Segment} (inFile : ∀ s ∈ list, s.InFile image)
    (fits : ∀ s ∈ list, s.Fits n) (m : Machine n) :
    forM list (loadSegment image) m = .ok () (list.foldl (Segment.place image) m) := by
  induction list generalizing m with
  | nil => rfl
  | cons s rest ih =>
      rw [List.forM_cons, bind_apply, loadSegment_apply (inFile s (by simp)) (fits s (by simp))]
      exact ih (fun s listed => inFile s (by simp [listed]))
        (fun s listed => fits s (by simp [listed])) _

/-- **What loading does.** -/
theorem loadElf_apply (image : List Byte) (m : Machine n) :
    loadElf image m = match parse image with
      | .error f => .error f m
      | .ok elf =>
          if ∀ s ∈ elf.segments.ahead, s.Fits n then
            .ok elf.entry (elf.segments.ahead.foldl (Segment.place image) m)
          else .error (.returned .addressOutOfBounds) m := by
  have loops : (loadElf image : Loading n Word) = (do
      let elf ← reads fun _ => parse image
      elf.segments.forEach checkFits
      elf.segments.forEach (loadSegment image)
      return elf.entry) := rfl
  rw [loops, bind_apply, reads]
  cases parsed : parse image with
  | error f => rfl
  | ok elf =>
      have valid := parse_valid parsed
      simp only [bind_apply, Segments.forEach_eq valid.table, checkFits_list]
      by_cases fits : ∀ s ∈ elf.segments.ahead, s.Fits n
      · simp only [if_pos fits, loadSegment_list valid.inFile fits]
        rfl
      · simp only [if_neg fits]

end Loader

namespace Vm

open Loader

variable {n : MemSize} {o : Options} {image : List Byte} {vm vm' : Vm o n}

/-- An image that is not loaded has changed nothing. -/
theorem loadElf_error {f : Failure LoadError} (failed : Vm.loadElf image vm = .error f vm') :
    (f = .returned .invalidElf ∨ f = .returned .addressOutOfBounds) ∧ vm' = vm := by
  simp only [Vm.loadElf, onMachine, onPart, loadElf_apply] at failed
  cases parsed : parse image with
  | error f' =>
      rw [parsed] at failed
      cases failed
      exact ⟨.inl (parse_onlyFails image f parsed), rfl⟩
  | ok elf =>
      by_cases fits : ∀ s ∈ elf.segments.ahead, s.Fits n
      · simp only [parsed, if_pos fits, reduceCtorEq] at failed
      · simp only [parsed, if_neg fits] at failed
        cases failed
        exact ⟨.inr rfl, rfl⟩

/-- The segments of an image that is loaded lie inside the file and inside memory, and they
have been placed one after the other. -/
theorem loadElf_ok {entry : Word} (loaded : Vm.loadElf image vm = .ok entry vm') :
    entry.toNat % 2 = 0 ∧
      ∃ cursor list, segments image = .ok cursor ∧ cursor.image = image ∧
        cursor.Yields list ∧ list = (List.range cursor.phnum).filterMap cursor.header ∧
        (∀ s ∈ list, s.offset.toNat + s.filesz.toNat ≤ image.length ∧
          s.filesz.toNat ≤ s.memsz.toNat ∧ s.vaddr.toNat + s.memsz.toNat ≤ n.bytes) ∧
        vm' = { vm with toMachine := list.foldl (Segment.place image) vm.toMachine } := by
  simp only [Vm.loadElf, onMachine, onPart, loadElf_apply] at loaded
  cases parsed : parse image with
  | error f => simp only [parsed, reduceCtorEq] at loaded
  | ok elf =>
      have valid := parse_valid parsed
      have all : elf.segments.ahead =
          (List.range elf.segments.phnum).filterMap elf.segments.header := by
        rw [Segments.ahead, valid.start, Nat.sub_zero, List.range_eq_range']
      by_cases fits : ∀ s ∈ elf.segments.ahead, s.Fits n
      · simp only [parsed, if_pos fits] at loaded
        cases loaded
        refine ⟨valid.entry, elf.segments, elf.segments.ahead, ?_, valid.source,
          Segments.yields_ahead valid.table, all, fun s listed => ?_, rfl⟩
        · rw [segments, parsed]
          rfl
        · obtain ⟨inside, filesz⟩ := valid.inFile s listed
          exact ⟨inside, filesz, fits s listed⟩
      · simp only [parsed, if_neg fits, reduceCtorEq] at loaded

/-- **Loading an image is all or nothing, and safe on any bytes.** For every image it either
fails with `InvalidElf` or `AddressOutOfBounds`, never with a trap, and has changed nothing,
or it returns an even entry point. Then `segments` returns a cursor on the same image that
yields the PT_LOAD headers of its table in order, every one of them lies inside the file and
inside memory, and they have been placed one after the other, and nothing else has changed. -/
theorem loadElf_all_or_nothing (image : List Byte) (vm : Vm o n) :
    (∀ f vm', Vm.loadElf image vm = .error f vm' →
      (f = .returned .invalidElf ∨ f = .returned .addressOutOfBounds) ∧ vm' = vm) ∧
    ∀ entry vm', Vm.loadElf image vm = .ok entry vm' →
      entry.toNat % 2 = 0 ∧
      ∃ cursor list, segments image = .ok cursor ∧ cursor.image = image ∧
        cursor.Yields list ∧ list = (List.range cursor.phnum).filterMap cursor.header ∧
        (∀ s ∈ list, s.offset.toNat + s.filesz.toNat ≤ image.length ∧
          s.filesz.toNat ≤ s.memsz.toNat ∧ s.vaddr.toNat + s.memsz.toNat ≤ n.bytes) ∧
        vm' = { vm with toMachine := list.foldl (Segment.place image) vm.toMachine } :=
  ⟨fun _ _ failed => loadElf_error failed, fun _ _ loaded => loadElf_ok loaded⟩

/-- An executable with entry point 0 and one segment at address 0: the first two bytes of the
file, and two more bytes of memory. -/
def twoBytes : List Byte :=
  magic ++ [1#8, 1#8, 1#8] ++ List.replicate 9 0#8 ++ writeInt 2 2#16 ++ writeInt 2 243#16 ++
    writeInt 4 1#32 ++ writeInt 4 0#32 ++ writeInt 4 52#32 ++ List.replicate 10 0#8 ++
    writeInt 2 32#16 ++ writeInt 2 1#16 ++ List.replicate 6 0#8 ++
    writeInt 4 1#32 ++ List.replicate 12 0#8 ++ writeInt 4 2#32 ++ writeInt 4 4#32 ++
    List.replicate 8 0#8

theorem parse_twoBytes : parse twoBytes = .ok ⟨0#32, ⟨twoBytes, 52, 32, 1, 0⟩⟩ := by
  have table : Table ⟨twoBytes, 52, 32, 1, 0⟩ :=
    ⟨by decide, by decide, by decide, by decide, by decide⟩
  change (do
    Segments.forEach (checkInFile twoBytes) ⟨twoBytes, 52, 32, 1, 0⟩
    return (⟨0#32, ⟨twoBytes, 52, 32, 1, 0⟩⟩ : Elf)) = _
  rw [Segments.forEach_eq table]
  rfl

/-- Loading it into the smallest memory. -/
theorem loadElf_all_or_nothing_twoBytes :
    let vm : Vm Options.uncached .four := reset
    ∃ cursor list, segments twoBytes = .ok cursor ∧ cursor.Yields list ∧
      Vm.loadElf twoBytes vm =
        .ok 0#32 { vm with toMachine := list.foldl (Segment.place twoBytes) vm.toMachine } := by
  intro vm
  have loaded : ∃ vm', Vm.loadElf twoBytes vm = .ok 0#32 vm' := by
    simp only [Vm.loadElf, onMachine, onPart, loadElf_apply, parse_twoBytes]
    exact ⟨_, rfl⟩
  obtain ⟨vm', loaded⟩ := loaded
  obtain ⟨_, cursor, list, found, _, yields, _, _, rfl⟩ :=
    (loadElf_all_or_nothing twoBytes vm).2 _ _ loaded
  exact ⟨cursor, list, found, yields, loaded⟩

end Vm

end Determinant
