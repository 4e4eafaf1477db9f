import Determinant.Foundations.WriteLogs
import Determinant.Host.LoaderSafety

/-!
# The memory image of an executable

The PT_LOAD segments are read off the bytes of the image (`ptLoads`). Placing a segment is one
write: its bytes of the file, and zeros behind them (`contents`). So loading an image is a log of
writes, one for each segment in the order of the program headers, and what a byte of memory holds
afterwards is what the latest of them put there (`memory_placed`). The rest of the machine stays
(`frame_placed`), except that a reservation is dropped when a segment covers a byte of its word
(`reservation_placed`).
-/

set_option autoImplicit false

namespace Determinant

open Foundations

variable {n : MemSize} {image : List Byte}

namespace Loader

/-- The segment covers an address. -/
def Segment.Covers (s : Segment) (x : Nat) : Prop :=
  s.vaddr.toNat ≤ x ∧ x < s.vaddr.toNat + s.memsz.toNat

/-- The PT_LOAD segments of an image, in the order of its program headers: the table starts at the
offset in the word at 28, and the halfwords at 42 and 44 are the size and the number of its
headers. -/
def ptLoads (image : List Byte) : List Segment :=
  (List.range (halfAt image 44).toNat).filterMap fun i =>
    headerAt image ((wordAt image 28).toNat + i * (halfAt image 42).toNat)

/-- They are what `segments` finds. -/
theorem segments_eq {cursor : Segments} (found : segments image = .ok cursor) :
    cursor = ⟨image, (wordAt image 28).toNat, (halfAt image 42).toNat, (halfAt image 44).toNat,
        0⟩ ∧
      ptLoads image = (List.range cursor.phnum).filterMap cursor.header := by
  obtain ⟨elf, parsed, built⟩ := bind_eq_ok.1 found
  cases built
  have fields := parse_segments parsed
  refine ⟨fields, ?_⟩
  rw [fields]
  rfl

/-- The write that places a segment. -/
def Segment.contents (image : List Byte) (s : Segment) : Nat × List Byte :=
  (s.vaddr.toNat, (image.drop s.offset.toNat).take s.filesz.toNat ++
    List.replicate (s.memsz.toNat - s.filesz.toNat) 0#8)

variable {s : Segment}

theorem Segment.length_data (inFile : s.InFile image) :
    ((image.drop s.offset.toNat).take s.filesz.toNat).length = s.filesz.toNat := by
  have inside := inFile.inside
  rw [List.length_take, List.length_drop]
  omega

theorem Segment.length_contents (inFile : s.InFile image) :
    (s.contents image).2.length = s.memsz.toNat := by
  have filesz := inFile.filesz
  rw [contents, List.length_append, length_data inFile, List.length_replicate]
  omega

/-! ## One segment -/

theorem memory_place (inFile : s.InFile image) (m : Machine n) :
    (Segment.place image m s).memory =
      patch m.memory (s.contents image).1 (s.contents image).2 := by
  rw [Segment.contents, patch_append, Segment.length_data inFile]
  by_cases bss : s.filesz.toNat < s.memsz.toNat
  · simp only [Segment.place, bss, if_true, Machine.place,
      Machine.invalidateReservationRange_eq]
  · have empty : s.memsz.toNat - s.filesz.toNat = 0 := by omega
    simp only [Segment.place, bss, if_false, Machine.place,
      Machine.invalidateReservationRange_eq, empty, List.replicate_zero, patch_nil]

/-- The fields that placing a segment leaves alone. -/
structure Frame (m m' : Machine n) : Prop where
  pc : m'.pc = m.pc
  regs : m'.regs = m.regs
  cycleCount : m'.cycleCount = m.cycleCount
  csrs : m'.csrs = m.csrs
  stopPc : m'.stopPc = m.stopPc

theorem Frame.trans {m m' m'' : Machine n} (first : Frame m m') (second : Frame m' m'') :
    Frame m m'' :=
  ⟨second.pc.trans first.pc, second.regs.trans first.regs,
    second.cycleCount.trans first.cycleCount, second.csrs.trans first.csrs,
    second.stopPc.trans first.stopPc⟩

theorem frame_place (m : Machine n) (s : Segment) : Frame m (Segment.place image m s) := by
  simp only [Segment.place, Machine.place, Machine.invalidateReservationRange_eq]
  split <;> exact ⟨rfl, rfl, rfl, rfl, rfl⟩

/-- A reservation is kept or dropped, and dropped when the segment covers a byte of its word. -/
theorem reservation_place (inFile : s.InFile image) (m : Machine n) :
    ((Segment.place image m s).reservation = m.reservation ∨
      (Segment.place image m s).reservation = none) ∧
    ∀ res, m.reservation = some res → Overlap s.vaddr.toNat s.memsz.toNat res.toNat 4 →
      (Segment.place image m s).reservation = none := by
  have filesz := inFile.filesz
  have length := Segment.length_data inFile
  by_cases bss : s.filesz.toNat < s.memsz.toNat
  · have dropped : (Segment.place image m s).reservation = none := by
      simp only [Segment.place, bss, if_true]
    exact ⟨.inr dropped, fun _ _ _ => dropped⟩
  · have same : s.memsz.toNat = s.filesz.toNat := by omega
    simp only [Segment.place, bss, if_false, Machine.place,
      Machine.invalidateReservationRange_eq, length]
    refine ⟨?_, fun res reserved overlap => ?_⟩
    · cases m.reservation with
      | none => exact .inl rfl
      | some res =>
          simp only [Option.filter]
          split
          · exact .inl rfl
          · exact .inr rfl
    · rw [same, overlap_iff] at overlap
      obtain ⟨nonempty, _, before, after⟩ := overlap
      simp [reserved, Option.filter, nonempty, before, after]

/-! ## All segments -/

theorem memory_placed {list : List Segment} (inFile : ∀ s ∈ list, s.InFile image)
    (m : Machine n) :
    (list.foldl (Segment.place image) m).memory =
      patchAll m.memory (list.map (Segment.contents image)) := by
  induction list generalizing m with
  | nil => rfl
  | cons s rest ih =>
      rw [List.foldl_cons, ih fun t listed => inFile t (by simp [listed]),
        memory_place (inFile s (by simp))]
      rfl

theorem frame_placed (list : List Segment) (m : Machine n) :
    Frame m (list.foldl (Segment.place image) m) := by
  induction list generalizing m with
  | nil => exact ⟨rfl, rfl, rfl, rfl, rfl⟩
  | cons s rest ih => exact (frame_place m s).trans (ih _)

theorem reservation_placed {list : List Segment} (inFile : ∀ s ∈ list, s.InFile image)
    (m : Machine n) :
    ((list.foldl (Segment.place image) m).reservation = m.reservation ∨
      (list.foldl (Segment.place image) m).reservation = none) ∧
    ∀ res, m.reservation = some res →
      (∃ s ∈ list, Overlap s.vaddr.toNat s.memsz.toNat res.toNat 4) →
        (list.foldl (Segment.place image) m).reservation = none := by
  induction list generalizing m with
  | nil => simp
  | cons s rest ih =>
      obtain ⟨kept, dropped⟩ := reservation_place (inFile s (by simp)) m
      obtain ⟨later, laterDropped⟩ := ih (fun t listed => inFile t (by simp [listed]))
        (Segment.place image m s)
      rw [List.foldl_cons]
      refine ⟨?_, fun res reserved covered => ?_⟩
      · rcases later with same | gone
        · rwa [same]
        · exact .inr gone
      · rcases kept with same | gone
        · rw [reserved] at same
          obtain ⟨t, listed, overlap⟩ := covered
          rcases List.mem_cons.1 listed with rfl | listed
          · rw [dropped res reserved overlap] at same
            cases same
          · exact laterDropped res same ⟨t, listed, overlap⟩
        · rcases later with same | gone'
          · rw [same, gone]
          · exact gone'

/-- **The last segment that covers an address decides what is there**: a byte of the file, or
zero. -/
theorem memory_last {before after : List Segment} {m : Machine n}
    (inFile : ∀ t ∈ before ++ s :: after, t.InFile image) {x : Fin n.bytes}
    (covers : s.Covers x.val) (last : ∀ t ∈ after, ¬t.Covers x.val) :
    (x.val - s.vaddr.toNat < s.filesz.toNat →
      image[s.offset.toNat + (x.val - s.vaddr.toNat)]? =
        some (((before ++ s :: after).foldl (Segment.place image) m).memory x)) ∧
    (¬x.val - s.vaddr.toNat < s.filesz.toNat →
      ((before ++ s :: after).foldl (Segment.place image) m).memory x = 0#8) := by
  have listed : s ∈ before ++ s :: after := by simp
  have inside := (inFile s listed).inside
  obtain ⟨start, stop⟩ := covers
  have long := Segment.length_contents (inFile s listed)
  have within : x.val - s.vaddr.toNat < (s.contents image).2.length := by
    rw [long]
    exact Nat.sub_lt_left_of_lt_add start stop
  have put := written_inside (s.contents image) start within
  have unwritten : ∀ later ∈ after.map (Segment.contents image), written later x.val = none := by
    intro later put
    obtain ⟨t, member, rfl⟩ := List.mem_map.1 put
    rw [written_eq_none, Segment.length_contents (inFile t (by simp [member]))]
    exact last t member
  rw [memory_placed inFile, patchAll_apply, List.map_append, List.map_cons,
    latest_split unwritten (by simp [put]), put, Option.getD_some]
  have length := Segment.length_data (inFile s listed)
  refine ⟨fun data => ?_, fun bss => ?_⟩
  · rw [List.getElem?_eq_getElem (by omega)]
    simp only [Segment.contents]
    rw [List.getElem_append_left (by rw [length]; exact data), List.getElem_take,
      List.getElem_drop]
  · simp only [Segment.contents]
    rw [List.getElem_append_right (by rw [length]; exact Nat.not_lt.1 bss),
      List.getElem_replicate]

/-- Where no segment is, memory stays. -/
theorem memory_uncovered {list : List Segment} {m : Machine n}
    (inFile : ∀ s ∈ list, s.InFile image) {x : Fin n.bytes}
    (uncovered : ∀ s ∈ list, ¬s.Covers x.val) :
    (list.foldl (Segment.place image) m).memory x = m.memory x := by
  have unwritten : ∀ write ∈ list.map (Segment.contents image), written write x.val = none := by
    intro write put
    obtain ⟨t, member, rfl⟩ := List.mem_map.1 put
    rw [written_eq_none, Segment.length_contents (inFile t member)]
    exact uncovered t member
  rw [memory_placed inFile, patchAll_apply, latest_eq_none unwritten]
  rfl

end Loader

namespace Vm

open Loader

variable {o : Options} {vm vm' : Vm o n}

/-- **The memory image of an executable.** The program headers of an image lie one after the other
in the table that the word at 28 and the halfwords at 42 and 44 describe, and `segments` finds
them there. When an image is loaded, a byte of memory is, at an address that some PT_LOAD segment
covers, what the last of these in the order of the program headers has there, the byte of the file
or zero behind them; and elsewhere what it was. No other field is changed, except that a
reservation is gone when a byte of its word was written. -/
theorem loadElf_image {entry : Word} (loaded : Vm.loadElf image vm = .ok entry vm') :
    segments image = .ok ⟨image, (wordAt image 28).toNat, (halfAt image 42).toNat,
        (halfAt image 44).toNat, 0⟩ ∧
      (∀ x : Fin n.bytes,
        ((∀ s ∈ ptLoads image, ¬s.Covers x.val) → vm'.memory x = vm.memory x) ∧
        ∀ before s after, ptLoads image = before ++ s :: after → s.Covers x.val →
          (∀ t ∈ after, ¬t.Covers x.val) →
          (x.val - s.vaddr.toNat < s.filesz.toNat →
            image[s.offset.toNat + (x.val - s.vaddr.toNat)]? = some (vm'.memory x)) ∧
          (¬x.val - s.vaddr.toNat < s.filesz.toNat → vm'.memory x = 0#8)) ∧
      vm'.regs = vm.regs ∧ vm'.pc = vm.pc ∧ vm'.cycleCount = vm.cycleCount ∧
      vm'.csrs = vm.csrs ∧ vm'.stopPc = vm.stopPc ∧
      ∀ res, vm.reservation = some res →
        (∃ x, ∃ s ∈ ptLoads image, s.Covers x ∧ res.toNat ≤ x ∧ x < res.toNat + 4) →
          vm'.reservation = none := by
  obtain ⟨_, cursor, list, found, _, _, all, checked, rfl⟩ := loadElf_ok loaded
  obtain ⟨fields, same⟩ := segments_eq found
  subst fields
  rw [← all] at same
  subst same
  have inFile : ∀ s ∈ ptLoads image, s.InFile image := fun s listed =>
    ⟨(checked s listed).1, (checked s listed).2.1⟩
  have frame : Frame vm.toMachine ((ptLoads image).foldl (Segment.place image) vm.toMachine) :=
    frame_placed _ _
  refine ⟨found, fun x => ⟨memory_uncovered inFile, ?_⟩, frame.regs, frame.pc, frame.cycleCount,
    frame.csrs, frame.stopPc, fun res reserved covered => ?_⟩
  · intro before s after split covers last
    rw [split] at inFile ⊢
    exact memory_last inFile covers last
  · obtain ⟨x, s, listed, covers, above, below⟩ := covered
    exact (reservation_placed inFile _).2 res reserved ⟨s, listed, x, covers, above, below⟩

/-- A VM that has ones in its eight bytes of memory. -/
def dirty : Vm Options.uncached .eight :=
  { (reset : Vm Options.uncached .eight) with memory := fun _ => 0xFF#8 }

/-- An executable of two bytes of the file and two zeros, loaded at the start of this memory. -/
theorem loadElf_image_twoBytes :
    ∃ vm', Vm.loadElf twoBytes dirty = .ok 0#32 vm' ∧
      vm'.memory ⟨1, by decide⟩ = 0x45#8 ∧ vm'.memory ⟨2, by decide⟩ = 0#8 ∧
      vm'.memory ⟨4, by decide⟩ = 0xFF#8 := by
  have loaded : ∃ vm', Vm.loadElf twoBytes dirty = .ok 0#32 vm' := by
    simp only [Vm.loadElf, onMachine, onPart, loadElf_apply, parse_twoBytes]
    exact ⟨_, rfl⟩
  obtain ⟨vm', loaded⟩ := loaded
  obtain ⟨_, cells, _⟩ := loadElf_image loaded
  let s : Segment := ⟨0#32, 0#32, 2#32, 4#32, 0#32⟩
  have only : ptLoads twoBytes = [] ++ s :: [] := by decide
  have covered (x : Fin 8) (inside : x.val < 4) :=
    (cells x).2 [] s [] only ⟨Nat.zero_le _, inside⟩ fun t listed => absurd listed List.not_mem_nil
  refine ⟨vm', loaded, ?_, ?_, ?_⟩
  · exact (Option.some.inj ((covered 1 (by decide)).1 (by decide))).symm
  · exact (covered 2 (by decide)).2 (by decide)
  · refine (cells (4 : Fin 8)).1 fun t listed => ?_
    rw [only, List.nil_append, List.mem_singleton] at listed
    subst listed
    exact fun covers => absurd covers.2 (by decide)

end Vm

end Determinant
