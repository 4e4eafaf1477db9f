import Mathlib.Data.List.Induction

/-!
# Traces

A system takes steps, each with a label that says what was done and what could be seen of it.
A trace is a finite number of steps with their labels in order. What holds of a state and of
the labels that led to it is proved by `Trace.history`, what holds of every state by
`Trace.invariant`, and that two systems have the same traces by a simulation in each direction
(`Trace.simulate`). When a part of each label leaves no choice, there is one trace for these
parts (`Trace.unique`). `Since` says that some event happened and none after it has undone it.
-/

set_option autoImplicit false

namespace Determinant.Foundations

variable {σ τ ℓ : Type}

/-- The labelled steps `labels` lead from one state to another. -/
inductive Trace (step : σ → ℓ → σ → Prop) : σ → List ℓ → σ → Prop where
  | nil (s : σ) : Trace step s [] s
  | snoc {s t u : σ} {labels : List ℓ} {label : ℓ} (trace : Trace step s labels t)
      (last : step t label u) : Trace step s (labels ++ [label]) u

variable {step : σ → ℓ → σ → Prop}

/-- **What every step adds to the history, every trace does.** -/
theorem Trace.history (inv : List ℓ → σ → Prop)
    (preserved : ∀ labels t label u, step t label u → inv labels t → inv (labels ++ [label]) u)
    {s t : σ} {labels : List ℓ} (trace : Trace step s labels t) (start : inv [] s) :
    inv labels t := by
  induction trace with
  | nil => exact start
  | snoc _ last ih => exact preserved _ _ _ _ last ih

/-- A property that every step preserves holds at the end of every trace. -/
theorem Trace.invariant (inv : σ → Prop)
    (preserved : ∀ t label u, step t label u → inv t → inv u) {s t : σ} {labels : List ℓ}
    (trace : Trace step s labels t) (start : inv s) : inv t :=
  trace.history (fun _ => inv) (fun _ t label u => preserved t label u) start

/-- **Simulation.** When the steps from related states are matched by steps with the same
label to related states, so are the traces. -/
theorem Trace.simulate {step' : τ → ℓ → τ → Prop} (related : σ → τ → Prop)
    (matched : ∀ s s' label t, related s s' → step s label t →
      ∃ t', step' s' label t' ∧ related t t')
    {s t : σ} {labels : List ℓ} (trace : Trace step s labels t) {s' : τ}
    (start : related s s') : ∃ t', Trace step' s' labels t' ∧ related t t' := by
  induction trace with
  | nil => exact ⟨s', .nil s', start⟩
  | snoc _ last ih =>
      obtain ⟨t', trace', same⟩ := ih
      obtain ⟨u', last', same'⟩ := matched _ _ _ _ same last
      exact ⟨u', .snoc trace' last', same'⟩

/-- **Determinism.** When the part `key` of a label leaves only one step from a state, the
parts of the labels leave only one trace. -/
theorem Trace.unique {κ : Type} (key : ℓ → κ)
    (deterministic : ∀ s label label' t t', step s label t → step s label' t' →
      key label = key label' → label = label' ∧ t = t')
    {s t t' : σ} {labels labels' : List ℓ} (trace : Trace step s labels t)
    (trace' : Trace step s labels' t') (same : labels.map key = labels'.map key) :
    labels = labels' ∧ t = t' := by
  induction trace generalizing labels' t' with
  | nil =>
      cases trace' with
      | nil => exact ⟨rfl, rfl⟩
      | snoc => simp at same
  | snoc _ last ih =>
      cases trace' with
      | nil => simp at same
      | snoc trace' last' =>
          simp only [List.map_append, List.map_cons, List.map_nil] at same
          obtain ⟨before, final⟩ := List.append_inj' same rfl
          obtain ⟨rfl, rfl⟩ := ih trace' before
          obtain ⟨rfl, rfl⟩ := deterministic _ _ _ _ _ last last' (List.singleton_inj.1 final)
          exact ⟨rfl, rfl⟩

/-! ## What has held since -/

/-- Some event satisfied `first`, and every event after it satisfied `later`. -/
def Since (first later : ℓ → Prop) (events : List ℓ) : Prop :=
  ∃ before event after, events = before ++ event :: after ∧ first event ∧ ∀ e ∈ after, later e

variable {first later : ℓ → Prop}

@[simp] theorem not_since_nil : ¬Since first later [] := by
  rintro ⟨before, event, after, split, _⟩
  simp at split

/-- **The last event decides**: it is the first one, or it comes later. -/
theorem since_concat {events : List ℓ} {event : ℓ} :
    Since first later (events ++ [event]) ↔
      first event ∨ Since first later events ∧ later event := by
  constructor
  · rintro ⟨before, found, after, split, starts, keep⟩
    cases after using List.reverseRecOn with
    | nil =>
        obtain ⟨rfl, same⟩ := List.append_inj' split rfl
        cases same
        exact .inl starts
    | append_singleton after last =>
        rw [← List.cons_append, ← List.append_assoc] at split
        obtain ⟨rfl, same⟩ := List.append_inj' split rfl
        cases same
        exact .inr ⟨⟨before, found, after, rfl, starts, fun e listed => keep e (by simp [listed])⟩,
          keep event (by simp)⟩
  · rintro (starts | ⟨⟨before, found, after, rfl, starts, keep⟩, last⟩)
    · exact ⟨events, event, [], rfl, starts, nofun⟩
    · refine ⟨before, found, after ++ [event], by simp, starts, fun e listed => ?_⟩
      rcases List.mem_append.1 listed with earlier | final
      · exact keep e earlier
      · cases List.mem_singleton.1 final
        exact last

/-- Events that are not the first one and may come later do not matter. -/
theorem since_filter {counts : ℓ → Bool}
    (idle : ∀ event, counts event = false → ¬first event ∧ later event) (events : List ℓ) :
    Since first later (events.filter counts) ↔ Since first later events := by
  induction events using List.reverseRecOn with
  | nil => rfl
  | append_singleton events event ih =>
      rw [List.filter_append, since_concat]
      cases count : counts event with
      | true => rw [List.filter_cons_of_pos count, List.filter_nil, since_concat, ih]
      | false =>
          obtain ⟨other, keeps⟩ := idle event count
          rw [List.filter_cons_of_neg (by simp [count]), List.filter_nil, List.append_nil, ih]
          simp only [other, keeps, false_or, and_true]

end Determinant.Foundations
