import Determinant.Cpu.HostApi
import Determinant.Cpu.PreciseFaults
import Determinant.Decoders.Decoded

/-!
# The decode cache is invisible

A cache is *coherent* when every slot is the mark of an empty one or the decoder's answer for
the bits the slot names. The bits of an empty slot are never fetched (`fetch_ne_emptySlot`),
so a coherent cache answers every question of a step as the decoder does
(`Vm.decoder_of_coherent`), whatever the guest or the host wrote over the code. Every operation
keeps the cache coherent and treats the machine without looking at the cache, so two VMs with
one machine and coherent caches of any sizes are matched operation by operation
(`Agree.performs`), and no sequence of operations tells them apart
(`decode_cache_invisible`).
-/

set_option autoImplicit false

namespace Determinant

open Foundations

variable {n : MemSize} {o o' : Options}

/-! ## Fetched bits -/

namespace Machine

/-- A 16-bit instruction is fetched with its upper half zero, and a 32-bit one ends in
`0b11`. -/
theorem fetch_bits {m : Machine n} {raw : Word} (fetched : m.fetch = .ok raw) :
    raw.toNat < 2 ^ 16 ∨ isCompressed raw = false := by
  unfold fetch at fetched
  split at fetched
  · cases fetched
  · split at fetched
    · cases fetched
    · simp only at fetched
      split at fetched
      · cases fetched
        left
        rw [BitVec.toNat_setWidth]
        exact Nat.lt_of_le_of_lt (Nat.mod_le _ _) (BitVec.isLt _)
      · rename_i full
        split at fetched
        · cases fetched
        · rename_i high
          cases fetched
          right
          have inside := MemSize.inside_of_le (k := 4#32) (by decide) high
          rw [← isCompressed_setWidth, slice_add m.memory m.pc.toNat 2 2 inside,
            setWidth_readInt_append (k := 2) rfl (by decide) (by simp)]
          exact Bool.eq_false_iff.2 full

theorem fetch_ne_emptySlot {m : Machine n} {raw : Word} (fetched : m.fetch = .ok raw) :
    raw ≠ emptySlot.raw := by
  rintro rfl
  rcases fetch_bits fetched with small | full
  · exact absurd small (by decide)
  · exact absurd full (by decide)

end Machine

/-! ## Coherent caches -/

/-- Every slot is empty, or the decoder's answer for its bits. -/
def Coherent {k : Nat} (decode : Word → Except DecodeError Instruction)
    (cache : Fin k → Instruction) : Prop :=
  ∀ i, cache i = emptySlot ∨ decode (cache i).raw = .ok (cache i)

theorem Coherent.empty {k : Nat} (decode : Word → Except DecodeError Instruction) :
    Coherent decode fun _ : Fin k => emptySlot :=
  fun _ => .inl rfl

theorem Coherent.update {k : Nat} {decode : Word → Except DecodeError Instruction}
    {cache : Fin k → Instruction} (coherent : Coherent decode cache) (i : Fin k)
    {inst : Instruction} (own : decode inst.raw = .ok inst) :
    Coherent decode (Function.update cache i inst) := by
  intro j
  by_cases same : j = i
  · subst same
    rw [Function.update_self]
    exact .inr own
  · rw [Function.update_of_ne same]
    exact coherent j

namespace Vm

/-- Without slots there is nothing that could be stale. -/
theorem coherent_uncached (vm : Vm Options.uncached n) :
    Coherent Options.uncached.decode vm.decodeCache :=
  fun i => absurd i.isLt (Nat.not_lt_zero _)

/-- **A coherent cache answers what a step asks as the decoder does.** -/
theorem decoder_of_coherent {vm : Vm o n}
    (coherent : Coherent o.decode vm.decodeCache) {raw : Word} (fetched : vm.fetch = .ok raw) :
    vm.decoder raw = o.decode raw := by
  by_cases off : o.decodeCacheEntries = 0#32
  · rw [decoder, decodeCached_off off]
    cases o.decode raw <;> rfl
  · by_cases hit : (vm.decodeCache (slot off vm.pc)).raw = raw
    · rw [decoder, decodeCached_hit off hit, answer_ok]
      rcases coherent (slot off vm.pc) with unused | own
      · rw [unused] at hit
        exact absurd hit.symm (Machine.fetch_ne_emptySlot fetched)
      · rw [← own, hit]
    · rw [decoder, decodeCached_miss off hit]
      cases o.decode raw <;> rfl

/-- The answer of a coherent cache is one, or the decoder's. -/
theorem coherent_decodeCached {vm : Vm o n} (faithful : ∀ raw inst, o.decode raw = .ok inst →
    inst.raw = raw) (coherent : Coherent o.decode vm.decodeCache) (raw : Word) :
    Coherent o.decode (stateAfter (decodeCached raw vm)).decodeCache := by
  by_cases off : o.decodeCacheEntries = 0#32
  · rw [decodeCached_off off]
    cases o.decode raw <;> exact coherent
  · by_cases hit : (vm.decodeCache (slot off vm.pc)).raw = raw
    · rw [decodeCached_hit off hit]
      exact coherent
    · rw [decodeCached_miss off hit]
      cases decoded : o.decode raw with
      | error e => exact coherent
      | ok inst =>
          have own := faithful raw inst decoded
          exact coherent.update _ (by rw [own, decoded])

/-- A step that cannot fetch does not ask the cache. -/
theorem step_unfetched {vm : Vm o n} {e : StepError} (unfetched : vm.fetch = .error e) :
    step vm = .error e vm := by
  simp only [step, bind_apply, reads, unfetched]

theorem coherent_step {vm : Vm o n} (faithful : ∀ raw inst, o.decode raw = .ok inst →
    inst.raw = raw) (coherent : Coherent o.decode vm.decodeCache) :
    Coherent o.decode (stateAfter (step vm)).decodeCache := by
  cases fetched : vm.fetch with
  | error e =>
      rw [step_unfetched fetched]
      exact coherent
  | ok raw =>
      rw [step_cache vm fetched]
      exact coherent_decodeCached faithful coherent raw

/-- **With a coherent cache a step is the step of the machine with the decoder itself.** -/
theorem step_of_coherent {vm : Vm o n} (coherent : Coherent o.decode vm.decodeCache) :
    answer (step vm) = answer (Machine.stepWith o.decode vm.toMachine) ∧
      (stateAfter (step vm)).toMachine = stateAfter (Machine.stepWith o.decode vm.toMachine) := by
  have stepped := step_eq_stepWith vm
  rwa [Machine.stepWith_congr fun raw fetched => decoder_of_coherent coherent fetched] at stepped

/-! ## Two VMs with one machine -/

/-- The VMs have the same machine, and both caches are coherent. -/
structure Agree (vm : Vm o n) (vm' : Vm o' n) : Prop where
  machine : vm.toMachine = vm'.toMachine
  coherent : Coherent o.decode vm.decodeCache
  coherent' : Coherent o'.decode vm'.decodeCache

variable {vm : Vm o n} {vm' : Vm o' n}

/-- A method of the machine gives the same answer on both, and the caches stay. -/
theorem Agree.onMachine {ε α : Type} (agree : Agree vm vm') (x : EStateM ε (Machine n) α) :
    answer (Vm.onMachine x vm) = answer (Vm.onMachine x vm') ∧
      Agree (stateAfter (Vm.onMachine x vm)) (stateAfter (Vm.onMachine x vm')) := by
  simp only [Vm.onMachine, answer_onPart, stateAfter_onPart, agree.machine, true_and]
  exact ⟨rfl, agree.coherent, agree.coherent'⟩

/-- Restoring empties both caches, or leaves both as they were. -/
theorem Agree.restoreSnapshot (agree : Agree vm vm') (buf : Snapshot.Header) (r : Reader) :
    answer (Vm.restoreSnapshot buf r vm) = answer (Vm.restoreSnapshot buf r vm') ∧
      Agree (stateAfter (Vm.restoreSnapshot buf r vm))
        (stateAfter (Vm.restoreSnapshot buf r vm')) := by
  simp only [Vm.restoreSnapshot, Vm.onMachine, onPart, bind_apply, agree.machine]
  cases Snapshot.restoreSnapshot buf r vm'.toMachine with
  | error e m => exact ⟨rfl, rfl, agree.coherent, agree.coherent'⟩
  | ok rest m => exact ⟨rfl, rfl, .empty _, .empty _⟩

variable (same : o.decode = o'.decode)
  (faithful : ∀ raw inst, o.decode raw = .ok inst → inst.raw = raw)

include same faithful

theorem Agree.step : Indistinguishable (Agree : Vm o n → Vm o' n → Prop) Vm.step Vm.step := by
  intro vm vm' agree
  obtain ⟨answers, machines⟩ := step_of_coherent agree.coherent
  obtain ⟨answers', machines'⟩ := step_of_coherent agree.coherent'
  rw [agree.machine, same] at answers machines
  exact ⟨answers.trans answers'.symm, machines.trans machines'.symm,
    coherent_step faithful agree.coherent, coherent_step (same ▸ faithful) agree.coherent'⟩

/-- A run of one is matched by a run of the other. -/
theorem Agree.run (agree : Agree vm vm') {maxCycles : Option Count}
    {outcome : Outcome o n StepResult} (runs : Runs maxCycles vm outcome) :
    ∃ outcome', Runs maxCycles vm' outcome' ∧ answer outcome = answer outcome' ∧
      Agree (stateAfter outcome) (stateAfter outcome') :=
  runs.simulate (fun _ _ agree => congrArg Machine.cycleCount agree.machine)
    (Agree.step same faithful) agree

/-- **An operation on one is matched by the other**, and the host sees the same. -/
theorem Agree.performs (agree : Agree vm vm') {event : Event n} {next : Vm o n}
    (performs : vm.Performs event next) :
    ∃ next', vm'.Performs event next' ∧ Agree next next' := by
  obtain ⟨op, result, after⟩ := event
  obtain ⟨leads, rfl⟩ := performs
  cases op with
  | step =>
      obtain ⟨rfl, rfl⟩ := leads
      obtain ⟨answers, agree'⟩ := Agree.step same faithful agree
      exact ⟨_, ⟨⟨congrArg _ answers, rfl⟩, agree'.machine.symm⟩, agree'⟩
  | run maxCycles =>
      obtain ⟨outcome, runs, rfl, rfl⟩ := leads
      obtain ⟨outcome', runs', answers, agree'⟩ := agree.run same faithful runs
      exact ⟨_, ⟨⟨outcome', runs', congrArg _ answers, rfl⟩, agree'.machine.symm⟩, agree'⟩
  | host op =>
      obtain ⟨rfl, rfl⟩ := leads
      obtain ⟨answers, agree'⟩ := agree.onMachine op.call
      exact ⟨_, ⟨⟨congrArg _ answers, rfl⟩, agree'.machine.symm⟩, agree'⟩
  | reset =>
      obtain ⟨rfl, rfl⟩ := leads
      exact ⟨reset, ⟨⟨rfl, rfl⟩, rfl⟩, rfl, .empty _, .empty _⟩
  | restoreSnapshot buf r =>
      obtain ⟨rfl, rfl⟩ := leads
      obtain ⟨answers, agree'⟩ := agree.restoreSnapshot buf r
      exact ⟨_, ⟨⟨congrArg _ answers, rfl⟩, agree'.machine.symm⟩, agree'⟩

/-- What the host sees of one, it can see of the other. -/
theorem Agree.trace (agree : Agree vm vm') {events : List (Event n)} {last : Vm o n}
    (trace : Trace Performs vm events last) :
    ∃ last', Trace Performs vm' events last' ∧ Agree last last' := by
  have matched : ∀ (vm : Vm o n) (vm' : Vm o' n) event next, Agree vm vm' →
      Performs vm event next → ∃ next', Performs vm' event next' ∧ Agree next next' :=
    fun _ _ _ _ agree performs => agree.performs same faithful performs
  exact trace.simulate Agree matched agree

omit same faithful

/-- **The decode cache is invisible.** Take a VM with the default decoder and a cache of any
valid size, and a VM without a cache, both just reset. Every sequence of operations that one
carries out the other carries out too, with the same answers and the same machine after each.
The operations alone determine what is seen, so when both have carried out the same ones they
have given the same answers and have the same machine. -/
theorem decode_cache_invisible (o : Options) (default : o.decode = Determinant.decode)
    (n : MemSize) :
    (∀ events, (∃ vm, Trace Performs (reset : Vm o n) events vm) ↔
      ∃ vm, Trace Performs (reset : Vm Options.uncached n) events vm) ∧
    ∀ events events' vm vm', Trace Performs (reset : Vm o n) events vm →
      Trace Performs (reset : Vm Options.uncached n) events' vm' →
      events.map Event.op = events'.map Event.op →
        events = events' ∧ vm.toMachine = vm'.toMachine := by
  have faithful : ∀ raw inst, Determinant.decode raw = .ok inst → inst.raw = raw :=
    fun _ _ decoded => (decode_decoded decoded).raw
  have start : Agree (reset : Vm o n) (reset : Vm Options.uncached n) :=
    ⟨rfl, .empty _, .empty _⟩
  have start' : Agree (reset : Vm Options.uncached n) (reset : Vm o n) :=
    ⟨rfl, .empty _, .empty _⟩
  refine ⟨fun events => ⟨?_, ?_⟩, fun events events' vm vm' trace trace' same => ?_⟩
  · rintro ⟨vm, trace⟩
    obtain ⟨vm', trace', _⟩ := start.trace default (default ▸ faithful) trace
    exact ⟨vm', trace'⟩
  · rintro ⟨vm, trace⟩
    obtain ⟨vm', trace', _⟩ := start'.trace default.symm faithful trace
    exact ⟨vm', trace'⟩
  · obtain ⟨last, matched, agree⟩ := start.trace default (default ▸ faithful) trace
    have deterministic : ∀ (vm : Vm Options.uncached n) event event' next next',
        Performs vm event next → Performs vm event' next' → event.op = event'.op →
          event = event' ∧ next = next' :=
      fun _ _ _ _ _ performs performs' => performs.unique performs'
    obtain ⟨rfl, rfl⟩ := matched.unique Event.op deterministic trace' same
    exact ⟨rfl, agree.machine⟩

/-- A cache with a single slot. -/
def oneSlot : Options := { decodeCacheEntries := 1#32, valid := .inr ⟨0, rfl⟩ }

/-- ADDI x1, x0, 1 is executed, and then ADDI x1, x0, 2 at the same address. Both VMs do that, and
have a 2 in x1. -/
theorem decode_cache_invisible_one :
    ∃ (events : List (Event .four)) (vm : Vm oneSlot .four) (vm' : Vm Options.uncached .four),
      events.map Event.op = [.host (.writeWord 0#32 0x00100093#32), .step,
        .host (.setPc 0#32), .host (.writeWord 0#32 0x00200093#32), .step] ∧
      Trace Performs reset events vm ∧ Trace Performs reset events vm' ∧
      vm.regs 1#5 = 2#32 ∧ vm'.regs 1#5 = 2#32 := by
  have steps (vm : Vm oneSlot .four) : Performs vm ⟨.step, _, _⟩ (stateAfter (step vm)) :=
    ⟨⟨rfl, rfl⟩, rfl⟩
  have hosts (vm : Vm oneSlot .four) (op : HostOp .four) :
      Performs vm ⟨.host op, _, _⟩ (stateAfter (Vm.onMachine op.call vm)) := ⟨⟨rfl, rfl⟩, rfl⟩
  obtain ⟨both, unique⟩ := decode_cache_invisible oneSlot rfl .four
  have trace := Trace.snoc (.snoc (.snoc (.snoc (.snoc (.nil (reset : Vm oneSlot .four))
    (hosts _ (.writeWord 0#32 0x00100093#32))) (steps _)) (hosts _ (.setPc 0#32)))
      (hosts _ (.writeWord 0#32 0x00200093#32))) (steps _)
  obtain ⟨vm', trace'⟩ := (both _).1 ⟨_, trace⟩
  obtain ⟨_, machine⟩ := unique _ _ _ _ trace trace' rfl
  refine ⟨_, _, vm', rfl, trace, trace', rfl, ?_⟩
  rw [← machine]
  rfl

end Vm

end Determinant
