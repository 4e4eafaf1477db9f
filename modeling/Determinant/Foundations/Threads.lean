import Determinant.Foundations.WhileLoops
import Mathlib.Algebra.BigOperators.Group.Finset.Basic
import Mathlib.Algebra.Order.BigOperators.Group.Finset
import Mathlib.Data.Fintype.Basic

/-!
# Threads that share nothing

Each of some threads runs a loop on a state of its own, and returns what the loop leaves with. An
interleaving is a sequence of turns, each of any thread that still runs (`Interleaved`). A turn
changes nothing about what any thread will return (`Thread.leaves_turn`), so that in the end every
thread has returned what its loop alone ends with, in whatever order the turns came
(`Interleaved.leaves`). When every loop ends, there is an end to every interleaving
(`Interleaved.bounded`), and each can be continued until all threads have returned
(`exists_joined`).
-/

set_option autoImplicit false

namespace Determinant.Foundations

variable {ι σ ρ : Type}

/-- A thread runs its loop, or has returned. -/
inductive Thread (σ ρ : Type) where
  | running (s : σ)
  | finished (r : ρ)

namespace Thread

/-- A thread behind a turn of its loop. -/
def after : Turn σ ρ → Thread σ ρ
  | .again s => running s
  | .done r => finished r

/-- The thread will return this, or has. -/
def Leaves (body : σ → Turn σ ρ) : Thread σ ρ → ρ → Prop
  | running s, r => Ends body s r
  | finished r', r => r' = r

/-- The loop of the thread ends within this many turns more. -/
def Within (body : σ → Turn σ ρ) : Thread σ ρ → Nat → Prop
  | running s, fuel => ∃ r, runFuel body fuel s = some r
  | finished _, _ => True

variable {body : σ → Turn σ ρ}

/-- **A turn does not change what a thread returns.** -/
theorem leaves_turn (s : σ) (r : ρ) :
    (after (body s)).Leaves body r ↔ (running s).Leaves body r := by
  cases turn : body s with
  | again t => exact ⟨ends_of_again turn, fun ends => Ends.of_again ends turn⟩
  | done r' =>
      constructor
      · intro same
        cases same
        exact ends_of_done turn
      · intro ends
        exact (Ends.of_done ends turn).symm

/-- A turn is one of the turns that are left. -/
theorem within_turn {s : σ} {fuel : Nat} (within : (running s).Within body fuel) :
    ∃ less, fuel = less + 1 ∧ (after (body s)).Within body less := by
  obtain ⟨r, ran⟩ := within
  cases fuel with
  | zero => cases ran
  | succ less =>
      refine ⟨less, rfl, ?_⟩
      rw [runFuel] at ran
      cases turn : body s with
      | again t =>
          rw [turn] at ran
          exact ⟨r, ran⟩
      | done r' => trivial

theorem Leaves.within {thread : Thread σ ρ} {r : ρ} (leaves : thread.Leaves body r) :
    ∃ fuel, thread.Within body fuel := by
  cases thread with
  | running s =>
      obtain ⟨fuel, ran⟩ := leaves
      exact ⟨fuel, r, ran⟩
  | finished r' => exact ⟨0, trivial⟩

end Thread

variable [DecidableEq ι]

/-- Some turns, each of a thread that still runs. -/
inductive Interleaved (body : ι → σ → Turn σ ρ) :
    Nat → (ι → Thread σ ρ) → (ι → Thread σ ρ) → Prop where
  | refl (threads : ι → Thread σ ρ) : Interleaved body 0 threads threads
  | turn {k : Nat} {threads joined : ι → Thread σ ρ} (i : ι) {s : σ}
      (runs : threads i = .running s)
      (rest : Interleaved body k (Function.update threads i (Thread.after (body i s))) joined) :
      Interleaved body (k + 1) threads joined

namespace Interleaved

variable {body : ι → σ → Turn σ ρ}

theorem leaves_update {threads : ι → Thread σ ρ} {i : ι} {s : σ} (runs : threads i = .running s)
    (j : ι) (r : ρ) :
    (Function.update threads i (Thread.after (body i s)) j).Leaves (body j) r ↔
      (threads j).Leaves (body j) r := by
  by_cases same : j = i
  · subst same
    rw [Function.update_self, runs]
    exact Thread.leaves_turn s r
  · rw [Function.update_of_ne same]

/-- **No order of the turns changes what the threads return**, by induction on the turns. -/
theorem leaves {k : Nat} {threads joined : ι → Thread σ ρ}
    (interleaved : Interleaved body k threads joined) (j : ι) (r : ρ) :
    (joined j).Leaves (body j) r ↔ (threads j).Leaves (body j) r := by
  induction interleaved with
  | refl threads => exact Iff.rfl
  | turn i runs _ ih => exact ih.trans (leaves_update runs j r)

theorem trans {k k' : Nat} {threads middle joined : ι → Thread σ ρ}
    (first : Interleaved body k threads middle) (second : Interleaved body k' middle joined) :
    ∃ total, Interleaved body total threads joined := by
  induction first with
  | refl threads => exact ⟨k', second⟩
  | turn i runs _ ih =>
      obtain ⟨total, rest⟩ := ih second
      exact ⟨total + 1, .turn i runs rest⟩

/-- One thread alone, until it returns. -/
theorem alone {i : ι} {s : σ} {r : ρ} (ends : Ends (body i) s r) (threads : ι → Thread σ ρ)
    (runs : threads i = .running s) :
    ∃ k, Interleaved body k threads (Function.update threads i (.finished r)) := by
  induction ends using Ends.induct generalizing threads with
  | leave s r leaves =>
      have last : Thread.after (body i s) = .finished r := by
        rw [leaves]
        rfl
      exact ⟨1, .turn i runs (by rw [last]; exact .refl _)⟩
  | round s t r turn _ ih =>
      have next : Function.update threads i (Thread.after (body i s)) i = .running t := by
        rw [Function.update_self, turn]
        rfl
      obtain ⟨k, rest⟩ := ih _ next
      rw [Function.update_idem] at rest
      exact ⟨k + 1, .turn i runs rest⟩

variable [Fintype ι]

/-- **An interleaving has no more turns than the loops have together.** -/
theorem bounded {k : Nat} {threads joined : ι → Thread σ ρ}
    (interleaved : Interleaved body k threads joined) {fuel : ι → Nat}
    (within : ∀ i, (threads i).Within (body i) (fuel i)) : k ≤ ∑ i, fuel i := by
  induction interleaved generalizing fuel with
  | refl threads => exact Nat.zero_le _
  | turn i runs _ ih =>
      have here := within i
      rw [runs] at here
      obtain ⟨less, one, next⟩ := Thread.within_turn here
      have total : ∑ j, fuel j = ∑ j, Function.update fuel i less j + 1 := by
        rw [← Finset.add_sum_erase _ _ (Finset.mem_univ i),
          ← Finset.add_sum_erase _ (Function.update fuel i less) (Finset.mem_univ i),
          Function.update_self, one]
        have others : ∑ j ∈ Finset.univ.erase i, Function.update fuel i less j =
            ∑ j ∈ Finset.univ.erase i, fuel j :=
          Finset.sum_congr rfl fun j other =>
            Function.update_of_ne (Finset.ne_of_mem_erase other) _ _
        omega
      rw [total]
      refine Nat.succ_le_succ (ih fun j => ?_)
      by_cases same : j = i
      · subst same
        rw [Function.update_self, Function.update_self]
        exact next
      · rw [Function.update_of_ne same, Function.update_of_ne same]
        exact within j

end Interleaved

/-- **Threads whose loops end can all return**, one after the other for instance. -/
theorem exists_joined [Fintype ι] (body : ι → σ → Turn σ ρ) (threads : ι → Thread σ ρ)
    {result : ι → ρ} (ends : ∀ i, (threads i).Leaves (body i) (result i)) :
    ∃ k, Interleaved body k threads fun i => .finished (result i) := by
  have some : ∀ done : Finset ι, ∃ k, Interleaved body k threads fun i =>
      if i ∈ done then .finished (result i) else threads i := by
    intro done
    induction done using Finset.induction_on with
    | empty => exact ⟨0, .refl _⟩
    | insert i done fresh ih =>
        obtain ⟨k, before⟩ := ih
        have shape : (fun j => if j ∈ insert i done then .finished (result j) else threads j) =
            Function.update (fun j => if j ∈ done then .finished (result j) else threads j) i
              (.finished (result i)) := by
          funext j
          by_cases same : j = i
          · subst same
            rw [Function.update_self, if_pos (Finset.mem_insert_self j done)]
          · rw [Function.update_of_ne same]
            simp only [Finset.mem_insert, same, false_or]
        rw [shape]
        have here := ends i
        cases state : threads i with
        | running s =>
            rw [state] at here
            obtain ⟨k', last⟩ := Interleaved.alone here
              (fun j => if j ∈ done then .finished (result j) else threads j)
              (by rw [if_neg fresh, state])
            exact before.trans last
        | finished r =>
            rw [state] at here
            have same : r = result i := here
            refine ⟨k, ?_⟩
            rwa [Function.update_eq_self_iff.2 (by rw [if_neg fresh, state, same])]
  obtain ⟨k, all⟩ := some Finset.univ
  refine ⟨k, ?_⟩
  simpa only [Finset.mem_univ, if_true] using all

end Determinant.Foundations
