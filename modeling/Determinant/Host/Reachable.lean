import Determinant.Cpu.DecodeCache
import Determinant.Cpu.Effects
import Determinant.Cpu.SnapshotCodec
import Determinant.Host.Actions

/-!
# Reachable states

The states that guest code and an orderly host can reach are *sound*: `pc` is even,
`regs[0]` is zero, and a reservation is on an aligned word inside memory. Every instruction
keeps the machine sound (`Sound.stepWith`), because relative targets are even, registers are
masked, and LR.W checks its address; so does every operation of the host
(`Sound.act`). The decode cache matters only in that it is coherent. Hence no step from a
reachable state fails with a misaligned `pc` (`reachable_sound`).
-/

set_option autoImplicit false

namespace Determinant

open Foundations

variable {n : MemSize} {o : Options}

theorem even_of_bit {x : Word} (bit : x.getLsbD 0 = false) : x.toNat % 2 = 0 := by
  rw [BitVec.getLsbD, Nat.testBit_zero] at bit
  simpa using bit

theorem even_add {a b : Word} (even : a.toNat % 2 = 0) (even' : b.toNat % 2 = 0) :
    (a + b).toNat % 2 = 0 := by
  rw [BitVec.toNat_add]
  omega

theorem even_mask (x : Word) : (x &&& 0xFFFFFFFE#32).toNat % 2 = 0 :=
  even_of_bit (by simp)

namespace Machine

/-- What every reachable state keeps. -/
structure Sound (m : Machine n) : Prop where
  even : m.pc.toNat % 2 = 0
  wellFormed : m.WellFormed

variable {m m' : Machine n}

/-- A change of other fields, which may also drop the reservation. -/
theorem Sound.frame (sound : m.Sound) (even : m'.pc.toNat % 2 = 0) (x0 : m'.regs 0#5 = 0#32)
    (reserved : ∀ addr, m'.reservation = some addr → m.reservation = some addr) : m'.Sound :=
  ⟨even, x0, fun addr held => sound.wellFormed.reserved addr (reserved addr held)⟩

theorem Sound.writeReg (sound : m.Sound) (reg : Reg) (value : Word) :
    (m.writeReg reg value).Sound :=
  sound.frame sound.even (by simp [Machine.writeReg]) fun _ held => held

theorem Sound.store (sound : m.Sound) (addr : Word) (bytes : List Byte) :
    (m.store addr bytes).Sound := by
  rw [Machine.store, invalidateReservation_eq]
  exact sound.frame sound.even sound.wellFormed.x0
    fun _ held => Option.eq_some_of_filter_eq_some held

theorem Sound.place (sound : m.Sound) (addr : Nat) (bytes : List Byte) :
    (m.place addr bytes).Sound := by
  rw [Machine.place, invalidateReservationRange_eq]
  exact sound.frame sound.even sound.wellFormed.x0
    fun _ held => Option.eq_some_of_filter_eq_some held

/-! ## Steps -/

/-- **An instruction that retires keeps the machine sound.** -/
theorem Sound.retire (sound : m.Sound) {inst : Instruction} {raw raw' : Word}
    (decoded : Decoded raw inst) {d : Decision}
    (decided : decision inst (instSize raw') m = .ok d) : (m.retire d).Sound where
  even := by
    have size : (instSize raw').toNat % 2 = 0 := by
      unfold instSize
      split <;> rfl
    show d.nextPc.toNat % 2 = 0
    rcases decision_nextPc decided with next | ⟨op, known, relative, target⟩ | ⟨target, masked⟩
    · rw [next]
      exact even_add sound.even size
    · rw [target]
      exact even_add sound.even (even_of_bit (decoded.even op known relative))
    · rw [masked]
      exact even_mask target
  wellFormed := by
    have retired := retire_x0 m d
    rw [zeroX0_eq_self sound.wellFormed.x0] at retired
    refine ⟨retired, fun addr held => ?_⟩
    have effect := decision_memory decided
    cases kind : memoryEffect inst m with
    | loadReserved addr' =>
        rw [kind] at effect
        obtain ⟨_, taken, _, read, _⟩ := effect
        simp only [Machine.retire, taken, Option.some.injEq] at held
        subst held
        exact access_eq_ok.1 (readWord_ok read)
    | storeConditional addr' =>
        rw [kind] at effect
        obtain ⟨_, dropped, _⟩ := effect
        simp [Machine.retire, dropped] at held
    | stores addr' len =>
        rw [kind] at effect
        obtain ⟨bytes, stored, _, _, kept⟩ := effect
        simp only [Machine.retire, kept, stored] at held
        exact sound.wellFormed.reserved addr (Option.eq_some_of_filter_eq_some held)
    | nothing =>
        rw [kind] at effect
        obtain ⟨none, kept⟩ := effect
        simp only [Machine.retire, kept, none] at held
        exact sound.wellFormed.reserved addr held

variable {decode : Word → Except DecodeError Instruction}

/-- **A step keeps the machine sound**, whether it fails or not. -/
theorem Sound.stepWith (sound : m.Sound)
    (decodes : ∀ raw inst, decode raw = .ok inst → Decoded raw inst) :
    (stateAfter (stepWith decode m)).Sound := by
  have zero := zeroX0_eq_self sound.wellFormed.x0
  cases stepped : Machine.stepWith decode m with
  | error e m' =>
      rcases stepWith_error stepped with same | same
      · exact same ▸ sound
      · rw [stateAfter_error, same, zero]
        exact sound
  | ok result m' =>
      obtain ⟨raw, inst, d, ⟨_, decoded, decided⟩, _, rfl⟩ := stepWith_eq_ok.1 stepped
      rw [zero] at decided
      rw [stateAfter_ok, zero]
      exact sound.retire (decodes raw inst decoded) decided

/-- A step of a sound machine does not fail with a misaligned `pc`. -/
theorem Sound.stepWith_error (sound : m.Sound) {e : StepError}
    (failed : Machine.stepWith decode m = .error e m') : e ≠ .misalignedPC := by
  cases fetched : m.fetch with
  | error e' =>
      simp only [Machine.stepWith, bind_apply, reads, fetched, EStateM.Result.error.injEq] at failed
      obtain ⟨rfl, _⟩ := failed
      have even : m.pc % 2#32 = 0#32 := (umod_eq_zero m.pc).2 sound.even
      unfold fetch at fetched
      split at fetched
      · rename_i odd
        exact absurd even odd
      · split at fetched
        · cases fetched
          intro same
          cases same
        · simp only at fetched
          split at fetched
          · cases fetched
          · split at fetched
            · cases fetched
              intro same
              cases same
            · cases fetched
  | ok raw =>
      cases decoded : decode raw with
      | error e' =>
          simp only [Machine.stepWith, bind_apply, reads, fetched, decoded, liftDecode,
            EStateM.Result.error.injEq] at failed
          obtain ⟨rfl, _⟩ := failed
          cases e'
          intro same
          cases same
      | ok inst =>
          simp only [Machine.stepWith, bind_apply, reads, fetched, decoded, liftDecode,
            execute_eq] at failed
          cases decided : decision inst (instSize raw) m.zeroX0 with
          | ok d => simp [decided] at failed
          | error e' =>
              simp only [decided, EStateM.Result.error.injEq] at failed
              obtain ⟨rfl, _⟩ := failed
              exact decision_error decided

end Machine

/-! ## The host -/

/-- The operations of an orderly host: it sets `pc` to even values only, and does not assign
to the registers past `writeReg`. -/
def HostOp.Orderly : HostOp n → Prop
  | .setPc value => value.toNat % 2 = 0
  | .setReg reg _ => reg ≠ 0#5
  | _ => True

theorem Machine.Sound.host {m : Machine n} (sound : m.Sound) {op : HostOp n}
    (orderly : op.Orderly) : (stateAfter (op.call m)).Sound := by
  cases op with
  | loadProgram program offset =>
      rw [HostOp.call, Machine.loadProgram_apply]
      split
      · exact sound.place _ _
      · exact sound
  | writeByte addr value =>
      rw [HostOp.call, Machine.writeByte_apply]
      split
      · exact sound.store _ _
      · exact sound
  | writeHalfword addr value =>
      rw [HostOp.call, Machine.writeHalfword_apply]
      split
      · exact sound.store _ _
      · exact sound
  | writeWord addr value =>
      rw [HostOp.call, Machine.writeWord_apply]
      split
      · exact sound.store _ _
      · exact sound
  | writeReg reg value => exact sound.writeReg reg value
  | clearReservation => exact sound.frame sound.even sound.wellFormed.x0 nofun
  | setPc value => exact sound.frame orderly sound.wellFormed.x0 fun _ held => held
  | setReg reg value =>
      refine sound.frame sound.even ?_ fun _ held => held
      exact (Function.update_of_ne (Ne.symm orderly) _ _).trans sound.wellFormed.x0
  | setByte | setCycleCount | setMscratch =>
      exact sound.frame sound.even sound.wellFormed.x0 fun _ held => held

/-- Handling a call keeps the machine sound, whatever the environment. -/
theorem Machine.Sound.handle {m : Machine n} (sound : m.Sound) (env : Hostcall.Env) :
    (stateAfter (Hostcall.handle (m, env))).1.Sound := by
  rw [Hostcall.handle_eq]
  cases Hostcall.request m with
  | exit | unknown => exact sound
  | badFd | badBuffer => exact sound.writeReg _ _
  | write fd bytes =>
      dsimp only
      cases Writer.writeAll bytes (env.out fd) with
      | ok => exact sound.writeReg _ _
      | error => exact sound
  | read addr len =>
      dsimp only
      split
      · exact (sound.place _ _).writeReg _ _
      · exact sound

theorem Machine.Sound.placeSegments {m : Machine n} (sound : m.Sound) (image : List Byte)
    (list : List Loader.Segment) : (list.foldl (Loader.Segment.place image) m).Sound := by
  induction list generalizing m with
  | nil => exact sound
  | cons s rest ih =>
      refine ih ?_
      have placed := sound.place s.vaddr.toNat ((image.drop s.offset.toNat).take s.filesz.toNat)
      unfold Loader.Segment.place
      dsimp only
      split
      · exact placed.frame placed.even placed.wellFormed.x0 nofun
      · exact placed

/-! ## Runs of guest and host -/

/-- The host's assignments are orderly; everything else always is. -/
def Action.Orderly : Action n → Prop
  | .host op => op.Orderly
  | _ => True

namespace Vm

/-- An orderly action leads from one VM to another. -/
def Acts (vm : Vm o n) (action : Action n) (vm' : Vm o n) : Prop :=
  action.Orderly ∧ vm' = action.act vm

/-- The states from which runs start: just reset, or restored from a snapshot with an even
`pc`. -/
inductive Start : Vm o n → Prop where
  | reset : Start reset
  | restored {vm vm' : Vm o n} {buf : Snapshot.Header} {r rest : Reader}
      (restored : restoreSnapshot buf r vm = .ok rest vm') (even : vm'.pc.toNat % 2 = 0) :
      Start vm'

/-- A sound machine, and a cache that does not lie. -/
structure Sound (vm : Vm o n) : Prop where
  machine : vm.toMachine.Sound
  coherent : Coherent o.decode vm.decodeCache

theorem Start.sound {vm : Vm o n} (start : Start vm) : vm.Sound := by
  cases start with
  | reset => exact ⟨⟨rfl, rfl, nofun⟩, .empty _⟩
  | @restored vm _ _ _ _ restored even =>
      obtain ⟨m, machine, rfl⟩ := restoreSnapshot_eq_ok.1 restored
      obtain ⟨_, checked, _, rfl⟩ := Snapshot.restoreSnapshot_eq_ok.1 machine
      obtain ⟨x0, reserved⟩ := Snapshot.wellFormed_setHeader checked vm.toMachine
      exact ⟨⟨even, x0, reserved⟩, .empty _⟩

/-- **Every action keeps the VM sound.** -/
theorem Sound.acts {vm vm' : Vm o n} {action : Action n}
    (decodes : ∀ raw inst, o.decode raw = .ok inst → Decoded raw inst) (sound : vm.Sound)
    (acts : Acts vm action vm') : vm'.Sound := by
  obtain ⟨orderly, rfl⟩ := acts
  cases action with
  | step =>
      obtain ⟨_, machine⟩ := step_of_coherent sound.coherent
      refine ⟨?_, coherent_step (fun raw inst decoded => (decodes raw inst decoded).raw)
        sound.coherent⟩
      show (stateAfter (step vm)).toMachine.Sound
      rw [machine]
      exact sound.machine.stepWith decodes
  | host op =>
      rw [Action.act_host]
      exact ⟨sound.machine.host orderly, sound.coherent⟩
  | handle env =>
      rw [Action.act_handle]
      exact ⟨sound.machine.handle env, sound.coherent⟩
  | loadElf image =>
      rw [Action.act_loadElf]
      cases parsed : Loader.parse image with
      | error f => exact sound
      | ok elf =>
          dsimp only
          split
          · have loaded := sound.machine.placeSegments image elf.segments.ahead
            exact ⟨loaded.frame (Loader.parse_valid parsed).entry loaded.wellFormed.x0
              fun _ held => held, sound.coherent⟩
          · exact sound
  | reset => exact Start.sound .reset

/-- **Reachable states.** Take a VM with the default decoder that was just reset, or restored
from a snapshot with an even `pc`. After any sequence of steps, failed or not, and of orderly
operations of the host, failed or not, `pc` is even, `regs[0]` is zero, and a reservation is
on a multiple of 4 that is at most the size of the memory less 4. So a step from there never
fails with `MisalignedPC`. -/
theorem reachable_sound (default : o.decode = Determinant.decode) {start vm : Vm o n}
    (starts : Start start) {actions : List (Action n)} (trace : Trace Acts start actions vm) :
    vm.pc.toNat % 2 = 0 ∧ vm.regs 0#5 = 0#32 ∧
      (∀ addr, vm.reservation = some addr →
        addr.toNat % 4 = 0 ∧ addr.toNat ≤ n.bytes - 4) ∧
      ∀ e vm', step vm = .error e vm' → e ≠ .misalignedPC := by
  have decodes : ∀ raw inst, o.decode raw = .ok inst → Decoded raw inst := by
    intro raw inst decoded
    rw [default] at decoded
    exact decode_decoded decoded
  have sound : vm.Sound :=
    trace.invariant Sound (fun _ _ _ acts sound => sound.acts decodes acts) starts.sound
  refine ⟨sound.machine.even, sound.machine.wellFormed.x0, fun addr held => ?_, ?_⟩
  · obtain ⟨aligned, inside⟩ := sound.machine.wellFormed.reserved addr held
    exact ⟨aligned, Nat.le_sub_of_add_le inside⟩
  · intro e vm' failed
    obtain ⟨answers, _⟩ := step_of_coherent sound.coherent
    rw [failed, answer_error] at answers
    cases machine : Machine.stepWith o.decode vm.toMachine with
    | ok result m' => simp [machine] at answers
    | error e' m' =>
        rw [machine, answer_error, Except.error.injEq] at answers
        exact answers ▸ sound.machine.stepWith_error machine

/-- After a reset, a step that fails, because zeros are no instruction, and a jump of the
host. -/
theorem reachable_sound_jump :
    let vm : Vm Options.uncached .four := reset
    ∃ vm', Trace Acts vm [.step, .host (.setPc 2#32)] vm' ∧ vm'.pc.toNat % 2 = 0 := by
  intro vm
  have stepped : Trace Acts vm [.step] _ := .snoc (.nil vm) ⟨trivial, rfl⟩
  have trace : Trace Acts vm [.step, .host (.setPc 2#32)] _ := .snoc stepped ⟨rfl, rfl⟩
  exact ⟨_, trace, (reachable_sound rfl .reset trace).1⟩

end Vm

end Determinant
