import Determinant.Cpu.DecodeCache
import Determinant.Cpu.SnapshotCodec

/-!
# Snapshots that are not restored

Restoring has two phases. The header is read and checked first, and a stream that is too short
for it or a malformed header leaves the VM as it was. Then the fields are set and the memory is
read, and a stream that ends there leaves a VM that is partly restored, with its old decode
cache: one that is well formed nevertheless, and whose cache never decides what is executed.
-/

set_option autoImplicit false

namespace Determinant

open Foundations

variable {n : MemSize} {o : Options}

namespace Snapshot

theorem not_malformed_iff {hdr : Header} : ¬Malformed n hdr ↔ checkHeader n hdr = .ok () := by
  have large : 4 ≤ n.bytes := n.valid.1
  have distinct : ¬(0#32 : Word) = 1#32 := by decide
  rw [checkHeader_eq_ok, Malformed]
  constructor
  · intro wellFormed
    simp only [not_or, not_not, not_and] at wellFormed
    obtain ⟨magic, version, size, x0, flag, none, some⟩ := wellFormed
    refine ⟨magic, version, size, x0, ?_⟩
    by_cases unreserved : readU32 hdr 152 = 0#32
    · exact .inl ⟨unreserved, none unreserved⟩
    · have reserved := flag unreserved
      obtain ⟨aligned, inside⟩ := some reserved
      exact .inr ⟨reserved, aligned, by omega⟩
  · rintro ⟨magic, version, size, x0, ⟨unreserved, addr⟩ | ⟨reserved, aligned, inside⟩⟩
    · simp [magic, version, size, x0, unreserved, addr]
    · have last : ¬n.bytes - 4 < (readU32 hdr 156).toNat := by omega
      simp [magic, version, size, x0, reserved, aligned, last]

/-- A header is accepted, or refused with one error. -/
theorem checkHeader_cases (hdr : Header) :
    checkHeader n hdr = .ok () ∨ checkHeader n hdr = .error .invalidSnapshot := by
  have guarded {c : Prop} [Decidable c] {x : Except RestoreError Unit}
      (rest : x = .ok () ∨ x = .error .invalidSnapshot) :
      (if c then (throw .invalidSnapshot : Except RestoreError Unit) >>= fun _ => x else x) =
        .ok () ∨
      (if c then (throw .invalidSnapshot : Except RestoreError Unit) >>= fun _ => x else x) =
        .error .invalidSnapshot := by
    by_cases fails : c
    · rw [if_pos fails]
      exact .inr rfl
    · rwa [if_neg fails]
  have last {c : Prop} [Decidable c] :
      (if c then (throw .invalidSnapshot : Except RestoreError Unit) else pure ()) = .ok () ∨
      (if c then (throw .invalidSnapshot : Except RestoreError Unit) else pure ()) =
        .error .invalidSnapshot := by
    by_cases fails : c
    · exact .inr (if_pos fails)
    · exact .inl (if_neg fails)
  refine guarded (guarded (guarded (guarded ?_)))
  dsimp only
  split
  · exact last
  · exact last
  · exact .inr rfl

theorem checkHeader_malformed {hdr : Header} (malformed : Malformed n hdr) :
    checkHeader n hdr = .error .invalidSnapshot := by
  refine (checkHeader_cases hdr).resolve_left fun accepted => ?_
  exact not_malformed_iff.2 accepted malformed

variable {buf : Header} {r : Reader} {m : Machine n}

theorem restoreSnapshot_short (short : r.bytes.length < headerLen) :
    restoreSnapshot buf r m = .error (.read r.ending) m := by
  have incomplete : ¬headerLen ≤ r.bytes.length := Nat.not_le.2 short
  simp only [restoreSnapshot, Reader.readSliceAll, bind_apply, adaptExcept_apply, reads,
    if_neg incomplete]

theorem restoreSnapshot_malformed (whole : headerLen ≤ r.bytes.length)
    (malformed : Malformed n (received buf r.bytes)) :
    restoreSnapshot buf r m = .error .invalidSnapshot m := by
  have arrived : patch buf 0 (r.bytes.take headerLen) = received buf r.bytes := rfl
  simp only [restoreSnapshot, Reader.readSliceAll, bind_apply, adaptExcept_apply, reads, arrived,
    if_pos whole, checkHeader_malformed malformed]

/-- A stream that ends in the memory image leaves the fields of its header, and as much of the
memory as arrived. -/
theorem restoreSnapshot_partly (whole : headerLen ≤ r.bytes.length)
    (accepted : ¬Malformed n (received buf r.bytes))
    (incomplete : r.bytes.length < headerLen + n.bytes) :
    restoreSnapshot buf r m = .error (.read r.ending)
      { setHeader (received buf r.bytes) m with
        memory := patch m.memory 0 (r.bytes.drop headerLen) } := by
  have arrived : patch buf 0 (r.bytes.take headerLen) = received buf r.bytes := rfl
  have missing : ¬n.bytes ≤ (r.bytes.drop headerLen).length := by
    rw [List.length_drop]
    omega
  have all : (r.bytes.drop headerLen).take n.bytes = r.bytes.drop headerLen :=
    List.take_of_length_le (Nat.le_of_not_le missing)
  simp only [restoreSnapshot, Reader.readSliceAll, bind_apply, adaptExcept_apply, reads, arrived,
    if_pos whole, not_malformed_iff.1 accepted, modify_apply, if_neg missing, all]
  rfl

end Snapshot

/-! ## The VM -/

namespace Vm

open Snapshot

variable {buf : Header} {r : Reader} {vm : Vm o n}

theorem restoreSnapshot_error {e : RestoreError} {m : Machine n}
    (failed : Snapshot.restoreSnapshot buf r vm.toMachine = .error e m) :
    restoreSnapshot buf r vm = .error e { vm with toMachine := m } := by
  simp only [restoreSnapshot, onMachine, onPart, bind_apply, failed]

/-- The VM without its cache, for the same machine. -/
def withoutCache (vm : Vm o n) : Vm Options.uncached n :=
  { toMachine := vm.toMachine, decodeCache := fun _ => emptySlot }

/-- Whatever the cache holds, it never decides what is executed: every sequence of operations
can be carried out with the same answers and the same machines when there is none. -/
def CacheHarmless (vm : Vm o n) : Prop :=
  ∀ events last, Trace Performs vm events last →
    ∃ last', Trace Performs vm.withoutCache events last' ∧ last.toMachine = last'.toMachine

theorem cacheHarmless_of_coherent (standard : o.decode = decode)
    (coherent : Coherent o.decode vm.decodeCache) : vm.CacheHarmless := by
  intro events last trace
  have faithful : ∀ raw inst, o.decode raw = .ok inst → inst.raw = raw := by
    rw [standard]
    exact fun _ _ decoded => (decode_decoded decoded).raw
  have agree : Agree vm vm.withoutCache := ⟨rfl, coherent, .empty _⟩
  obtain ⟨last', trace', agree'⟩ := agree.trace standard faithful trace
  exact ⟨last', trace', agree'.machine⟩

/-- **A rejected snapshot changes nothing.** A stream that ends before the header does, or whose
header is malformed, is refused, and every field of the VM is what it was, the decode cache and
`stop_pc` too. No other header is refused: the snapshot is then restored, unless the stream ends
in the memory image. In that case restoring fails, but the VM is well formed, `regs[0]` is zero
and a reservation is of a word in memory, the cache is the old one, and if it held only what the
decoder answers then it never causes a wrong instruction to be executed. -/
theorem rejected_snapshot (buf : Header) (r : Reader) (vm : Vm o n) :
    (r.bytes.length < headerLen → restoreSnapshot buf r vm = .error (.read r.ending) vm) ∧
      (headerLen ≤ r.bytes.length → Malformed n (received buf r.bytes) →
        restoreSnapshot buf r vm = .error .invalidSnapshot vm) ∧
      (headerLen ≤ r.bytes.length → ¬Malformed n (received buf r.bytes) →
        headerLen + n.bytes ≤ r.bytes.length →
        ∃ rest vm', restoreSnapshot buf r vm = .ok rest vm') ∧
      (headerLen ≤ r.bytes.length → ¬Malformed n (received buf r.bytes) →
        r.bytes.length < headerLen + n.bytes →
        ∃ vm', restoreSnapshot buf r vm = .error (.read r.ending) vm' ∧
          vm'.regs 0#5 = 0#32 ∧
          (∀ res, vm'.reservation = some res → res.toNat % 4 = 0 ∧ res.toNat + 4 ≤ n.bytes) ∧
          vm'.decodeCache = vm.decodeCache ∧ vm'.stopPc = vm.stopPc ∧
          (o.decode = decode → Coherent o.decode vm.decodeCache → vm'.CacheHarmless)) := by
  refine ⟨?_, ?_, ?_, ?_⟩
  · intro short
    exact restoreSnapshot_error (restoreSnapshot_short short)
  · intro whole malformed
    exact restoreSnapshot_error (restoreSnapshot_malformed whole malformed)
  · intro whole accepted complete
    exact ⟨_, _, restoreSnapshot_eq_ok.2 ⟨_, Snapshot.restoreSnapshot_eq_ok.2
      ⟨complete, not_malformed_iff.1 accepted, rfl, rfl⟩, rfl⟩⟩
  · intro whole accepted incomplete
    have wellFormed := wellFormed_setHeader (not_malformed_iff.1 accepted) vm.toMachine
    refine ⟨_, restoreSnapshot_error (restoreSnapshot_partly whole accepted incomplete),
      wellFormed.x0, wellFormed.reserved, rfl, rfl, fun standard coherent => ?_⟩
    exact cacheHarmless_of_coherent standard coherent

/-- A stream that has only the magic. -/
theorem rejected_snapshot_magic :
    restoreSnapshot (fun _ => 0#8) ⟨magic, .endOfStream⟩ (reset : Vm Options.uncached .four) =
      .error (.read .endOfStream) reset :=
  (rejected_snapshot (fun _ => 0#8) ⟨magic, .endOfStream⟩ reset).1 (by decide)

end Vm

end Determinant
