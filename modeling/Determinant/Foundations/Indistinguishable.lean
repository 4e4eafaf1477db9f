import Determinant.Foundations.FallibleState

/-!
# Computations that cannot tell two states apart

Two computations are indistinguishable over a relation between their states when, started in
related states, they give the same answer and leave related states. With one computation on
both sides this is noninterference: what the relation allows to differ never shows in an
answer. There is a rule for each former of computations; what only looks at the state has to
see the same in related states, and what changes it has to keep them related.
-/

set_option autoImplicit false

namespace Determinant.Foundations

variable {ε ε' σ σ' τ τ' α β : Type}

/-- From related states, the same answer and related states. -/
def Indistinguishable (related : σ → σ' → Prop) (x : EStateM ε σ α) (y : EStateM ε σ' α) : Prop :=
  ∀ ⦃s s'⦄, related s s' →
    answer (x s) = answer (y s') ∧ related (stateAfter (x s)) (stateAfter (y s'))

namespace Indistinguishable

variable {related : σ → σ' → Prop} {x : EStateM ε σ α} {y : EStateM ε σ' α}

theorem symm (same : Indistinguishable related x y) :
    Indistinguishable (fun s' s => related s s') y x := fun _ _ start =>
  ⟨(same start).1.symm, (same start).2⟩

theorem pure (a : α) :
    Indistinguishable related (Pure.pure a : EStateM ε σ α) (Pure.pure a : EStateM ε σ' α) :=
  fun _ _ same => ⟨rfl, same⟩

theorem throw (e : ε) :
    Indistinguishable related (throw e : EStateM ε σ α) (throw e : EStateM ε σ' α) :=
  fun _ _ same => ⟨rfl, same⟩

theorem modify {f : σ → σ} {g : σ' → σ'} (keeps : ∀ s s', related s s' → related (f s) (g s')) :
    Indistinguishable related (modify f : EStateM ε σ PUnit) (modify g : EStateM ε σ' PUnit) :=
  fun s s' same => ⟨rfl, keeps s s' same⟩

theorem reads {f : σ → Except ε α} {g : σ' → Except ε α}
    (sees : ∀ s s', related s s' → f s = g s') :
    Indistinguishable related (Foundations.reads f) (Foundations.reads g) := by
  intro s s' same
  unfold Foundations.reads
  rw [sees s s' same]
  cases g s' <;> exact ⟨rfl, same⟩

theorem bind {f : α → EStateM ε σ β} {g : α → EStateM ε σ' β}
    (first : Indistinguishable related x y)
    (rest : ∀ a, Indistinguishable related (f a) (g a)) :
    Indistinguishable related (x >>= f) (y >>= g) := by
  intro s s' same
  obtain ⟨answers, states⟩ := first same
  rw [bind_apply, bind_apply]
  cases left : x s with
  | ok a t =>
      cases right : y s' with
      | ok b t' =>
          rw [left, right] at answers states
          cases answers
          exact rest a states
      | error e t' =>
          rw [left, right] at answers
          cases answers
  | error e t =>
      cases right : y s' with
      | ok b t' =>
          rw [left, right] at answers
          cases answers
      | error e' t' =>
          rw [left, right] at answers states
          cases answers
          exact ⟨rfl, states⟩

theorem ite {c : Prop} [Decidable c] {x' : EStateM ε σ α} {y' : EStateM ε σ' α}
    (first : Indistinguishable related x y) (second : Indistinguishable related x' y') :
    Indistinguishable related (if c then x else x') (if c then y else y') := by
  split
  · exact first
  · exact second

theorem adaptExcept (f : ε → ε') (first : Indistinguishable related x y) :
    Indistinguishable related (EStateM.adaptExcept f x) (EStateM.adaptExcept f y) := by
  intro s s' same
  obtain ⟨answers, states⟩ := first same
  rw [adaptExcept_apply, adaptExcept_apply]
  cases left : x s <;> cases right : y s' <;> rw [left, right] at answers states <;>
    cases answers <;> exact ⟨rfl, states⟩

/-- Parts that cannot be told apart, inside states that cannot be told apart otherwise. -/
theorem onPart {whole : τ → τ' → Prop} {view : τ → σ} {put : σ → τ → τ} {view' : τ' → σ'}
    {put' : σ' → τ' → τ'} (parts : ∀ s s', whole s s' → related (view s) (view' s'))
    (puts : ∀ a a' s s', related a a' → whole s s' → whole (put a s) (put' a' s'))
    (part : Indistinguishable related x y) :
    Indistinguishable whole (Foundations.onPart view put x) (Foundations.onPart view' put' y) := by
  intro s s' same
  obtain ⟨answers, states⟩ := part (parts s s' same)
  rw [answer_onPart, answer_onPart, stateAfter_onPart, stateAfter_onPart]
  exact ⟨answers, puts _ _ _ _ states same⟩

end Indistinguishable

end Determinant.Foundations
