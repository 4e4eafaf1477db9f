import Determinant.Cpu.Commit
import Determinant.Cpu.Snapshot

/-!
# The snapshot codec

A header *is of* a machine when every field read from it is the machine's (`HeaderOf`). The
header that is encoded is of the machine it was encoded from (`headerOf_encodeHeader`), and
two headers of one machine are equal, whatever the buffers held (`HeaderOf.encodeHeader_eq`).
A header of a well-formed machine passes the checks and sets the machine's fields
(`HeaderOf.check`, `HeaderOf.set`), and a header that passes the checks is of the machine it
sets, which is well formed (`headerOf_setHeader`, `wellFormed_setHeader`). The two round trips of
snapshots are these facts and the plain copy of the memory.
-/

set_option autoImplicit false

namespace Determinant

open Foundations

namespace Snapshot

variable {n : MemSize}

/-! ## Headers of a machine -/

/-- Every field of the header is the machine's. -/
structure HeaderOf (hdr : Header) (m : Machine n) : Prop where
  magic : slice hdr 0 4 (by decide) = Snapshot.magic
  version : readU32 hdr 4 = Snapshot.version
  size : readU32 hdr 8 = n.toWord
  pc : readU32 hdr 12 = m.pc
  regs : ∀ i (inside : 16 + 4 * i + 4 ≤ headerLen), i < 32 →
    readU32 hdr (16 + 4 * i) inside = m.regs (BitVec.ofNat 5 i)
  cycleCount : readInt 64 (slice hdr 144 8 (by decide)) = m.cycleCount
  flag : readU32 hdr 152 = if m.reservation.isSome then 1#32 else 0#32
  addr : readU32 hdr 156 = m.reservation.getD 0#32
  mscratch : readU32 hdr 160 = m.csrs.mscratch

/-- A word written to the header and read back. -/
theorem readU32_patch (hdr : Header) (offset : Nat) (inside : offset + 4 ≤ headerLen)
    (value : Word) : readU32 (patch hdr offset (writeInt 4 value)) offset inside = value := by
  rw [readU32, slice_patch_field _ _ (length_writeInt 4 value), readInt_writeInt (k := 4) rfl]

/-- A word read from the header past a write elsewhere. -/
theorem readU32_patch_disjoint (hdr : Header) (start : Nat) (xs : List Byte) (offset : Nat)
    (inside : offset + 4 ≤ headerLen)
    (disjoint : offset + 4 ≤ start ∨ start + xs.length ≤ offset) :
    readU32 (patch hdr start xs) offset inside = readU32 hdr offset inside := by
  rw [readU32, slice_patch_disjoint _ _ _ _ _ _ disjoint, readU32]

theorem readU32_patchChunks_outside (hdr : Header) (values : Nat → Word) (offset : Nat)
    (inside : offset + 4 ≤ headerLen) (disjoint : offset + 4 ≤ 16 ∨ 144 ≤ offset) :
    readU32 (patchChunks hdr 16 4 (fun i => writeInt 4 (values i)) 32) offset inside =
      readU32 hdr offset inside := by
  rw [readU32, slice_patchChunks_outside _ _ _ (fun i => length_writeInt 4 (values i)) _ _ _ _
    (by simpa using disjoint), readU32]

theorem headerOf_encodeHeader (buf : Header) (m : Machine n) :
    HeaderOf (encodeHeader buf m) m where
  magic := by
    unfold encodeHeader
    simp (disch := simp) only [slice_patch_disjoint, slice_patchChunks_outside]
    exact slice_patch_field _ _ rfl _
  version := by
    unfold encodeHeader
    simp (disch := simp) only [readU32_patch_disjoint, readU32_patchChunks_outside, readU32_patch]
  size := by
    unfold encodeHeader
    simp (disch := simp) only [readU32_patch_disjoint, readU32_patchChunks_outside, readU32_patch]
  pc := by
    unfold encodeHeader
    simp (disch := simp) only [readU32_patch_disjoint, readU32_patchChunks_outside, readU32_patch]
  regs i inside register := by
    unfold encodeHeader readU32
    simp (disch := simp; omega) only [slice_patch_disjoint]
    rw [slice_patchChunks _ _ _ (fun i => length_writeInt 4 _) _ register,
      readInt_writeInt (k := 4) rfl]
  cycleCount := by
    unfold encodeHeader
    simp (disch := simp) only [slice_patch_disjoint]
    rw [slice_patch_field _ _ (length_writeInt 8 _), readInt_writeInt (k := 8) rfl]
  flag := by
    unfold encodeHeader
    simp (disch := simp) only [readU32_patch_disjoint, readU32_patch]
  addr := by
    unfold encodeHeader
    simp (disch := simp) only [readU32_patch_disjoint, readU32_patch]
  mscratch := by
    unfold encodeHeader
    simp only [readU32_patch]

theorem writeInt_readU32 (hdr : Header) (offset : Nat) (inside : offset + 4 ≤ headerLen) :
    writeInt 4 (readU32 hdr offset inside) = slice hdr offset 4 inside :=
  writeInt_readInt rfl (length_slice _ _ _ _)

/-- **A machine has one header**, whatever the buffer held. The fields are written in order,
so the agreement with the header grows from field to field. -/
theorem HeaderOf.encodeHeader_eq {hdr : Header} {m : Machine n} (header : HeaderOf hdr m)
    (buf : Header) : encodeHeader buf m = hdr := by
  unfold encodeHeader
  have upTo0 := AgreeBelow.zero buf hdr
  have upTo4 := upTo0.patch 4 Snapshot.magic (by decide) header.magic.symm
  have upTo8 := upTo4.patch 4 (writeInt 4 Snapshot.version) (by decide)
    (by rw [← header.version, writeInt_readU32])
  have upTo12 := upTo8.patch 4 (writeInt 4 n.toWord) (by decide)
    (by rw [← header.size, writeInt_readU32])
  have upTo16 := upTo12.patch 4 (writeInt 4 m.pc) (by decide)
    (by rw [← header.pc, writeInt_readU32])
  have upTo144 := upTo16.patchChunks 4 (fun i => writeInt 4 (m.regs (BitVec.ofNat 5 i))) 32
    (by decide) fun i inside register => by
      rw [← header.regs i inside register, writeInt_readU32]
  have upTo152 := upTo144.patch 8 (writeInt 8 m.cycleCount) (by decide)
    (by rw [← header.cycleCount, writeInt_readInt rfl (length_slice _ _ _ _)])
  have upTo156 := upTo152.patch 4 (writeInt 4 (if m.reservation.isSome then 1#32 else 0#32))
    (by decide) (by rw [← header.flag, writeInt_readU32])
  have upTo160 := upTo156.patch 4 (writeInt 4 (m.reservation.getD 0#32)) (by decide)
    (by rw [← header.addr, writeInt_readU32])
  have upTo164 := upTo160.patch 4 (writeInt 4 m.csrs.mscratch) (by decide)
    (by rw [← header.mscratch, writeInt_readU32])
  exact upTo164.eq

/-! ## Reading a header -/

/-- The machine has the architectural state of the other; `stop_pc` is not part of it. -/
structure SameState (a b : Machine n) : Prop where
  pc : a.pc = b.pc
  regs : a.regs = b.regs
  memory : a.memory = b.memory
  cycleCount : a.cycleCount = b.cycleCount
  reservation : a.reservation = b.reservation
  csrs : a.csrs = b.csrs

theorem SameState.symm {a b : Machine n} (same : SameState a b) : SameState b a :=
  ⟨same.pc.symm, same.regs.symm, same.memory.symm, same.cycleCount.symm, same.reservation.symm,
    same.csrs.symm⟩

theorem SameState.trans {a b c : Machine n} (same : SameState a b) (same' : SameState b c) :
    SameState a c :=
  ⟨same.pc.trans same'.pc, same.regs.trans same'.regs, same.memory.trans same'.memory,
    same.cycleCount.trans same'.cycleCount, same.reservation.trans same'.reservation,
    same.csrs.trans same'.csrs⟩

/-- What the checks of a header ask, without their order. -/
theorem checkHeader_eq_ok {hdr : Header} :
    checkHeader n hdr = .ok () ↔
      slice hdr 0 4 (by decide) = magic ∧ readU32 hdr 4 = version ∧ readU32 hdr 8 = n.toWord ∧
        readU32 hdr 16 = 0#32 ∧
        (readU32 hdr 152 = 0#32 ∧ readU32 hdr 156 = 0#32 ∨
          readU32 hdr 152 = 1#32 ∧ (readU32 hdr 156).toNat % 4 = 0 ∧
            (readU32 hdr 156).toNat + 4 ≤ n.bytes) := by
  simp only [checkHeader, guard_eq_ok, not_not]
  refine and_congr_right fun _ => and_congr_right fun _ => and_congr_right fun _ =>
    and_congr_right fun _ => ?_
  split
  · rename_i none
    rw [guard_last_eq_ok, not_not]
    simp [none]
  · rename_i some
    have aligned := Machine.umod_eq_zero (k := 4#32) (readU32 hdr 156)
    have inside := MemSize.le_sub_iff (n := n) (k := 4#32) (by decide) (readU32 hdr 156)
    rw [guard_last_eq_ok, not_or, not_not, aligned, BitVec.not_lt, inside]
    simp [some]
  · rename_i notNone notSome
    refine iff_of_false (by simp [throw, throwThe, MonadExceptOf.throw]) ?_
    rintro (⟨none, _⟩ | ⟨some, _⟩)
    · exact notNone none
    · exact notSome some

/-- A header of a well-formed machine passes the checks. -/
theorem HeaderOf.check {hdr : Header} {m : Machine n} (header : HeaderOf hdr m)
    (wellFormed : m.WellFormed) : checkHeader n hdr = .ok () := by
  have x0 := header.regs 0 (by decide) (by decide)
  refine checkHeader_eq_ok.2 ⟨header.magic, header.version, header.size,
    x0.trans wellFormed.x0, ?_⟩
  have flag := header.flag
  have addr := header.addr
  cases reservation : m.reservation with
  | none => exact .inl ⟨by simpa [reservation] using flag, by simpa [reservation] using addr⟩
  | some res =>
      have bounds := wellFormed.reserved res reservation
      have same : readU32 hdr 156 = res := by simpa [reservation] using addr
      exact .inr ⟨by simpa [reservation] using flag, by rwa [same]⟩

/-- A header of a machine sets the machine's fields. -/
theorem HeaderOf.set {hdr : Header} {m : Machine n} (header : HeaderOf hdr m) (x : Machine n) :
    (setHeader hdr x).pc = m.pc ∧ (setHeader hdr x).regs = m.regs ∧
      (setHeader hdr x).cycleCount = m.cycleCount ∧
      (setHeader hdr x).reservation = m.reservation ∧ (setHeader hdr x).csrs = m.csrs := by
  refine ⟨header.pc, ?_, header.cycleCount, ?_, ?_⟩
  · funext reg
    have inside : 16 + 4 * reg.toNat + 4 ≤ headerLen := by
      have := reg.isLt
      unfold headerLen
      omega
    have same : BitVec.ofNat 5 reg.toNat = reg := by simp
    have field := header.regs reg.toNat inside reg.isLt
    rw [same] at field
    exact field
  · have flag := header.flag
    have addr := header.addr
    cases reservation : m.reservation with
    | none => simp [setHeader, flag, reservation]
    | some res => simp [setHeader, flag, addr, reservation]
  · have := header.mscratch
    simp only [setHeader, this]

/-- **A header that passes the checks is of the machine it sets.** -/
theorem headerOf_setHeader {hdr : Header} (checked : checkHeader n hdr = .ok ()) (x : Machine n) :
    HeaderOf hdr (setHeader hdr x) := by
  obtain ⟨magic, version, size, x0, reservation⟩ := checkHeader_eq_ok.1 checked
  refine ⟨magic, version, size, rfl, ?_, rfl, ?_, ?_, rfl⟩
  · intro i inside register
    have same : (BitVec.ofNat 5 i).toNat = i := Nat.mod_eq_of_lt register
    simp only [setHeader, same]
  · rcases reservation with ⟨none, _⟩ | ⟨some, _⟩
    · simp [setHeader, none]
    · simp [setHeader, some]
  · rcases reservation with ⟨none, addr⟩ | ⟨some, _⟩
    · simp [setHeader, none, addr]
    · simp [setHeader, some]

theorem wellFormed_setHeader {hdr : Header} (checked : checkHeader n hdr = .ok ())
    (x : Machine n) : (setHeader hdr x).WellFormed := by
  obtain ⟨_, _, _, x0, reservation⟩ := checkHeader_eq_ok.1 checked
  refine ⟨x0, fun addr reserved => ?_⟩
  rcases reservation with ⟨none, _⟩ | ⟨some, bounds⟩
  · simp [setHeader, none] at reserved
  · have same : readU32 hdr 156 = addr := by simpa [setHeader, some] using reserved
    rwa [same] at bounds

theorem HeaderOf.congr {hdr : Header} {m m' : Machine n} (header : HeaderOf hdr m)
    (pc : m.pc = m'.pc) (regs : m.regs = m'.regs) (cycleCount : m.cycleCount = m'.cycleCount)
    (reservation : m.reservation = m'.reservation) (csrs : m.csrs = m'.csrs) : HeaderOf hdr m' :=
  ⟨header.magic, header.version, header.size, pc ▸ header.pc, regs ▸ header.regs,
    cycleCount ▸ header.cycleCount, reservation ▸ header.flag, reservation ▸ header.addr,
    csrs ▸ header.mscratch⟩

/-! ## Whole snapshots -/

/-- The header that the first bytes of a stream leave in a buffer. -/
def received (buf : Header) (bytes : List Byte) : Header := patch buf 0 (bytes.take headerLen)

/-- **What restoring does when it succeeds.** -/
theorem restoreSnapshot_eq_ok {buf : Header} {r rest : Reader} {m m' : Machine n} :
    restoreSnapshot buf r m = .ok rest m' ↔
      headerLen + n.bytes ≤ r.bytes.length ∧ checkHeader n (received buf r.bytes) = .ok () ∧
        { r with bytes := r.bytes.drop (headerLen + n.bytes) } = rest ∧
        { setHeader (received buf r.bytes) m with
          memory := patch m.memory 0 ((r.bytes.drop headerLen).take n.bytes) } = m' := by
  have arrived : patch buf 0 (r.bytes.take headerLen) = received buf r.bytes := rfl
  simp only [restoreSnapshot, Reader.readSliceAll, bind_apply, adaptExcept_apply, reads, arrived]
  by_cases header : headerLen ≤ r.bytes.length
  · simp only [if_pos header, modify_apply]
    cases checkHeader n (received buf r.bytes) with
    | error e => simp
    | ok _ =>
        by_cases image : n.bytes ≤ r.bytes.length - headerLen
        · have all : headerLen + n.bytes ≤ r.bytes.length := by omega
          simp [image, all, setHeader, received]
        · have short : ¬headerLen + n.bytes ≤ r.bytes.length := by omega
          simp [image, short]
  · have short : ¬headerLen + n.bytes ≤ r.bytes.length := by omega
    simp [header, short]

/-- What is written to a writer that takes everything. -/
theorem writeSnapshot_unlimited (buf : Header) (m : Machine n) {w : Writer}
    (unlimited : w.room = none) :
    writeSnapshot buf m w = .ok () { w with
      written := w.written ++ (slice (encodeHeader buf m) 0 headerLen (whole_inside _) ++
        slice m.memory 0 n.bytes (whole_inside _)) } := by
  simp only [writeSnapshot, bind_apply, Writer.writeAll_unlimited unlimited]
  rw [Writer.writeAll_unlimited (by exact unlimited), List.append_assoc]

/-- The bytes of a header that was received whole. -/
theorem slice_received (buf : Header) {bytes : List Byte} (whole : headerLen ≤ bytes.length)
    (start len : Nat) (inside : start + len ≤ headerLen) :
    slice (received buf bytes) start len inside = (bytes.drop start).take len := by
  rw [received, slice_patch_zero _ _ _ _ _ (by rw [List.length_take]; omega), List.drop_take,
    List.take_take, Nat.min_eq_left (by omega)]

/-- **The third parser agrees with the other two**: it reads the same fields. -/
theorem memorySize_of_prefix {buf : Header} {bytes start : List Byte}
    (whole : headerLen ≤ bytes.length) (checked : checkHeader n (received buf bytes) = .ok ())
    (initial : start <+: bytes) (long : 12 ≤ start.length) : memorySize start = .ok n.toWord := by
  obtain ⟨hmagic, hversion, hsize, _⟩ := checkHeader_eq_ok.1 checked
  have field : ∀ offset (inside : offset + 4 ≤ headerLen), offset + 4 ≤ start.length →
      slice (received buf bytes) offset 4 inside = (start.drop offset).take 4 := by
    intro offset inside within
    obtain ⟨rest, rfl⟩ := initial
    rw [slice_received buf whole, List.drop_append_of_le_length (by omega),
      List.take_append_of_le_length (by rw [List.length_drop]; omega)]
  rw [field 0 (by decide) (by omega)] at hmagic
  rw [readU32, field 4 (by decide) (by omega)] at hversion
  rw [readU32, field 8 (by decide) (by omega)] at hsize
  have large : ¬n.toWord < 4#32 := by
    rw [BitVec.lt_def, MemSize.toNat_toWord, Nat.not_lt]
    exact n.valid.1
  have aligned : n.toWord % 4#32 = 0#32 := by
    rw [Machine.umod_eq_zero, MemSize.toNat_toWord]
    exact n.valid.2.1
  have short : ¬start.length < 12 := by omega
  rw [List.drop_zero] at hmagic
  simp only [memorySize, hmagic, hversion, hsize, short, large, aligned, if_false, ne_eq,
    not_true_eq_false, or_self]
  rfl

theorem memorySize_valid {start : List Byte} {size : Word} (parsed : memorySize start = .ok size) :
    validMemorySize size.toNat := by
  simp only [memorySize, guard_eq_ok, not_or, not_not] at parsed
  obtain ⟨_, _, _, ⟨large, aligned⟩, same⟩ := parsed
  cases same
  rw [BitVec.lt_def] at large
  rw [Machine.umod_eq_zero] at aligned
  exact ⟨Nat.not_lt.1 large, aligned, Nat.le_of_lt_succ (BitVec.isLt _)⟩

end Snapshot

/-! ## The codec of the VM -/

namespace Vm

open Snapshot

variable {o o' : Options} {n n' : MemSize}

/-- The VM writes these bytes to every writer that takes everything, whatever its buffer for
the header holds. -/
def Writes (vm : Vm o n) (bytes : List Byte) : Prop :=
  ∀ (buf : Header) (w : Writer), w.room = none →
    vm.writeSnapshot buf w = .ok () { w with written := w.written ++ bytes }

theorem restoreSnapshot_eq_ok {buf : Header} {r rest : Reader} {vm vm' : Vm o n} :
    restoreSnapshot buf r vm = .ok rest vm' ↔
      ∃ m, Snapshot.restoreSnapshot buf r vm.toMachine = .ok rest m ∧
        { m with stopPc := 0#32, decodeCache := fun _ => emptySlot } = vm' := by
  simp only [restoreSnapshot, onMachine, onPart, bind_apply]
  cases Snapshot.restoreSnapshot buf r vm.toMachine with
  | error e m => simp
  | ok rest' m => simp [and_assoc]

theorem writes_of_header {vm : Vm o n} {hdr : Header} (header : HeaderOf hdr vm.toMachine) :
    vm.Writes
      (slice hdr 0 headerLen (whole_inside _) ++ slice vm.memory 0 n.bytes (whole_inside _)) := by
  intro buf w unlimited
  rw [writeSnapshot, writeSnapshot_unlimited buf _ unlimited, header.encodeHeader_eq buf]

theorem Writes.unique {vm : Vm o n} {bytes bytes' : List Byte} (writes : vm.Writes bytes)
    (writes' : vm.Writes bytes') : bytes = bytes' := by
  have same := (writes (fun _ => 0#8) {} rfl).symm.trans (writes' (fun _ => 0#8) {} rfl)
  simpa using same

/-- The header of what a VM writes. -/
theorem Writes.header {vm : Vm o n} {bytes : List Byte} (writes : vm.Writes bytes) :
    ∃ hdr, HeaderOf hdr vm.toMachine ∧
      bytes =
        slice hdr 0 headerLen (whole_inside _) ++ slice vm.memory 0 n.bytes (whole_inside _) := by
  have header := headerOf_encodeHeader (fun _ => 0#8) vm.toMachine
  exact ⟨_, header, writes.unique (writes_of_header header)⟩

/-- Every VM writes exactly one snapshot. -/
theorem writes_exists (vm : Vm o n) :
    ∃ bytes, vm.Writes bytes ∧ bytes.length = vm.snapshotSize :=
  ⟨_, writes_of_header (headerOf_encodeHeader (fun _ => 0#8) vm.toMachine), by
    simp [snapshotSize]⟩

/-- **Restoring what was written gives the state that was written.** -/
theorem restore_written {a : Vm o n} (wellFormed : a.WellFormed) {bytes : List Byte}
    (writes : a.Writes bytes) (b : Vm o' n) (buf : Header) (ending : ReadError) :
    ∃ b', restoreSnapshot buf ⟨bytes, ending⟩ b = .ok ⟨[], ending⟩ b' ∧
      SameState b'.toMachine a.toMachine := by
  obtain ⟨hdr, header, rfl⟩ := writes.header
  have memory : n.bytes = (slice a.memory 0 n.bytes (whole_inside _)).length := by simp
  have sameHeader : received buf (slice hdr 0 headerLen (whole_inside _) ++
      slice a.memory 0 n.bytes (whole_inside _)) = hdr := by
    rw [received, List.take_left' (by simp), patch_slice_all]
  obtain ⟨pc, regs, cycleCount, reservation, csrs⟩ := header.set b.toMachine
  refine ⟨_, restoreSnapshot_eq_ok.2 ⟨_, Snapshot.restoreSnapshot_eq_ok.2
    ⟨by simp, ?_, ?_, rfl⟩, rfl⟩, ?_⟩
  · rw [sameHeader]
    exact header.check wellFormed
  · simp
  · rw [sameHeader]
    refine ⟨pc, regs, ?_, cycleCount, reservation, csrs⟩
    show patch b.memory 0 _ = a.memory
    rw [List.drop_left' (by simp), List.take_of_length_le (by simp), patch_slice_all]

/-- **Writing what was restored gives the bytes that were restored.** -/
theorem write_restored {vm vm' : Vm o n} {buf : Header} {bytes : List Byte} {ending : ReadError}
    {rest : Reader} (exact : bytes.length = vm.snapshotSize)
    (accepted : restoreSnapshot buf ⟨bytes, ending⟩ vm = .ok rest vm') : vm'.Writes bytes := by
  obtain ⟨m, restored, rfl⟩ := restoreSnapshot_eq_ok.1 accepted
  obtain ⟨long, checked, _, rfl⟩ := Snapshot.restoreSnapshot_eq_ok.1 restored
  dsimp only at long checked
  have image : ((bytes.drop headerLen).take n.bytes).length = n.bytes := by
    rw [List.length_take, List.length_drop]
    omega
  let restored' : Vm o n :=
    { setHeader (received buf bytes) vm.toMachine with
      memory := patch vm.memory 0 ((bytes.drop headerLen).take n.bytes)
      stopPc := 0#32
      decodeCache := fun _ => emptySlot }
  have header : HeaderOf (received buf bytes) restored'.toMachine :=
    (headerOf_setHeader checked vm.toMachine).congr rfl rfl rfl rfl rfl
  have written := writes_of_header header
  rw [slice_received buf (by omega), slice_patch_all _ image] at written
  have same : (bytes.drop 0).take headerLen ++ (bytes.drop headerLen).take n.bytes = bytes := by
    rw [List.drop_zero, List.take_of_length_le (l := bytes.drop headerLen), List.take_append_drop]
    rw [List.length_drop]
    unfold snapshotSize at exact
    omega
  rwa [same] at written

/-- **A snapshot determines the size and the state**, and is determined by them. -/
theorem writes_eq_iff {a : Vm o n} {b : Vm o' n'} (wellFormed : a.WellFormed)
    (wellFormed' : b.WellFormed) {bytes bytes' : List Byte} (writes : a.Writes bytes)
    (writes' : b.Writes bytes') :
    bytes = bytes' ↔ ∃ size : n = n', SameState (size ▸ a.toMachine) b.toMachine := by
  constructor
  · rintro rfl
    obtain ⟨_, writesAll, long⟩ := writes_exists a
    obtain ⟨_, writesAll', long'⟩ := writes_exists b
    rw [writesAll.unique writes] at long
    rw [writesAll'.unique writes'] at long'
    have size : n = n' := MemSize.ext (Nat.add_left_cancel (long.symm.trans long'))
    subst size
    obtain ⟨vm, restored, same⟩ := restore_written wellFormed writes a (fun _ => 0#8) .endOfStream
    obtain ⟨vm', restored', same'⟩ :=
      restore_written wellFormed' writes' a (fun _ => 0#8) .endOfStream
    rw [restored] at restored'
    cases restored'
    exact ⟨rfl, same.symm.trans same'⟩
  · rintro ⟨rfl, same⟩
    obtain ⟨hdr, header, rfl⟩ := writes.header
    have header' : HeaderOf hdr b.toMachine :=
      header.congr same.pc same.regs same.cycleCount same.reservation same.csrs
    rw [writes'.unique (writes_of_header header')]
    exact congrArg (_ ++ slice · 0 n.bytes _) same.memory

/-- **The snapshot codec.** What a well-formed VM writes, as many bytes as `snapshotSize` says,
restores its state into every VM of the size. What any VM restored from exactly so many bytes
is written as these bytes. Two well-formed VMs write the same exactly when they have one size
and one state. The size in the first bytes of an accepted snapshot is the VM's, and a size
that is read from any bytes is valid. -/
theorem snapshot_codec :
    (∀ (o : Options) (n : MemSize) (a : Vm o n), ∃ bytes, a.Writes bytes ∧
      bytes.length = a.snapshotSize ∧
      (a.WellFormed → ∀ (o' : Options) (b : Vm o' n) buf ending,
        ∃ b', restoreSnapshot buf ⟨bytes, ending⟩ b = .ok ⟨[], ending⟩ b' ∧
          SameState b'.toMachine a.toMachine)) ∧
    (∀ (o : Options) (n : MemSize) (vm vm' : Vm o n) buf bytes ending rest,
      bytes.length = vm.snapshotSize →
      restoreSnapshot buf ⟨bytes, ending⟩ vm = .ok rest vm' → vm'.Writes bytes) ∧
    (∀ (o o' : Options) (n n' : MemSize) (a : Vm o n) (b : Vm o' n'), a.WellFormed →
      b.WellFormed → ∀ bytes bytes', a.Writes bytes → b.Writes bytes' →
        (bytes = bytes' ↔ ∃ size : n = n', SameState (size ▸ a.toMachine) b.toMachine)) ∧
    (∀ (o : Options) (n : MemSize) (vm vm' : Vm o n) buf bytes ending rest,
      restoreSnapshot buf ⟨bytes, ending⟩ vm = .ok rest vm' →
        ∀ start, start <+: bytes → 12 ≤ start.length →
          snapshotMemorySize start = .ok n.toWord) ∧
    ∀ start size, snapshotMemorySize start = .ok size → validMemorySize size.toNat := by
  refine ⟨fun o n a => ?_, fun o n vm vm' buf bytes ending rest exact accepted =>
      write_restored exact accepted, fun o o' n n' a b wellFormed wellFormed' bytes bytes' writes
      writes' => writes_eq_iff wellFormed wellFormed' writes writes',
    fun o n vm vm' buf bytes ending rest accepted start initial long => ?_,
    fun start size parsed => memorySize_valid parsed⟩
  · obtain ⟨bytes, writes, long⟩ := writes_exists a
    exact ⟨bytes, writes, long, fun wellFormed _ b buf ending =>
      restore_written wellFormed writes b buf ending⟩
  · obtain ⟨m, restored, _⟩ := restoreSnapshot_eq_ok.1 accepted
    obtain ⟨whole, checked, _⟩ := Snapshot.restoreSnapshot_eq_ok.1 restored
    exact memorySize_of_prefix (Nat.le_of_add_right_le whole) checked initial long

/-- A VM with a reservation at address 0, restored into one that was just reset. -/
theorem snapshot_codec_reserved :
    let b : Vm Options.uncached .four := reset
    let a : Vm Options.uncached .four := { b with reservation := some 0#32 }
    ∃ bytes, a.Writes bytes ∧ bytes.length = 168 ∧
      ∃ b', restoreSnapshot (fun _ => 0#8) ⟨bytes, .endOfStream⟩ b =
          .ok ⟨[], .endOfStream⟩ b' ∧ b'.reservation = some 0#32 := by
  intro b a
  obtain ⟨bytes, writes, long, restores⟩ := snapshot_codec.1 _ _ a
  have wellFormed : a.WellFormed := ⟨rfl, fun addr reserved => by cases reserved; decide⟩
  obtain ⟨b', restored, same⟩ := restores wellFormed _ b (fun _ => 0#8) .endOfStream
  exact ⟨bytes, writes, long, b', restored, same.reservation⟩

end Vm

end Determinant
