import Mathlib.Tactic.Basic

/-!
# While loops

The body of a loop is a function from the loop's state to a *turn*: go round again from a
new state, or leave with a result. `runFuel` runs a loop for a bounded number of turns and
can be evaluated. A loop ends with a result when some bound is enough (`Ends`); a loop that
never leaves has no result, and a loop has at most one (`Ends.unique`).

A run that ends is a number of turns that go round, and then one that leaves
(`ends_iff_turns`). The rules that other modules use are an induction over the turns
(`Ends.induct`), an invariant (`Turns.invariant`), a measure that bounds the number of turns
(`runFuel_of_measure`), a simulation of one loop by another (`Ends.simulate`), and the
slicing of a loop: a loop that may be left early and entered again does what the loop without
the early exit does (`Ends.slice`).
-/

set_option autoImplicit false

namespace Determinant.Foundations

variable {σ τ ρ π : Type}

/-- One turn of a loop. -/
inductive Turn (σ ρ : Type) where
  | again (s : σ)
  | done (r : ρ)

/-- The loop from `s`, run for at most `fuel` turns. -/
def runFuel (body : σ → Turn σ ρ) : Nat → σ → Option ρ
  | 0, _ => none
  | fuel + 1, s =>
      match body s with
      | .again t => runFuel body fuel t
      | .done r => some r

/-- The loop from `s` ends with `r`. -/
def Ends (body : σ → Turn σ ρ) (s : σ) (r : ρ) : Prop := ∃ fuel, runFuel body fuel s = some r

/-- `k` turns, each of which goes round again, lead from one state to another. -/
inductive Turns (body : σ → Turn σ ρ) : Nat → σ → σ → Prop where
  | refl (s : σ) : Turns body 0 s s
  | head {k : Nat} {s t u : σ} (turn : body s = .again t) (rest : Turns body k t u) :
      Turns body (k + 1) s u

variable {body : σ → Turn σ ρ}

/-! ## One turn at the front -/

theorem ends_of_done {s : σ} {r : ρ} (leaves : body s = .done r) : Ends body s r :=
  ⟨1, by simp [runFuel, leaves]⟩

theorem ends_of_again {s t : σ} {r : ρ} (turn : body s = .again t) (rest : Ends body t r) :
    Ends body s r := by
  obtain ⟨fuel, h⟩ := rest
  exact ⟨fuel + 1, by simpa [runFuel, turn] using h⟩

theorem Ends.of_done {s : σ} {r r' : ρ} (ends : Ends body s r) (leaves : body s = .done r') :
    r = r' := by
  obtain ⟨fuel, h⟩ := ends
  cases fuel with
  | zero => simp [runFuel] at h
  | succ fuel => simpa [runFuel, leaves, eq_comm] using h

theorem Ends.of_again {s t : σ} {r : ρ} (ends : Ends body s r) (turn : body s = .again t) :
    Ends body t r := by
  obtain ⟨fuel, h⟩ := ends
  cases fuel with
  | zero => simp [runFuel] at h
  | succ fuel => exact ⟨fuel, by simpa [runFuel, turn] using h⟩

/-- **Induction over the turns of a loop that ends.** -/
theorem Ends.induct {motive : ∀ s r, Ends body s r → Prop}
    (leave : ∀ s r (leaves : body s = .done r), motive s r (ends_of_done leaves))
    (round : ∀ s t r (turn : body s = .again t) (rest : Ends body t r), motive t r rest →
      motive s r (ends_of_again turn rest))
    {s : σ} {r : ρ} (ends : Ends body s r) : motive s r ends := by
  obtain ⟨fuel, h⟩ := ends
  induction fuel generalizing s with
  | zero => simp [runFuel] at h
  | succ fuel ih =>
      cases turn : body s with
      | done r' =>
          have same : r' = r := by simpa [runFuel, turn] using h
          exact leave s r (same ▸ turn)
      | again t =>
          have rest : runFuel body fuel t = some r := by simpa [runFuel, turn] using h
          exact round s t r turn ⟨fuel, rest⟩ (ih rest)

/-- **A loop has at most one result.** -/
theorem Ends.unique {s : σ} {r r' : ρ} (ends : Ends body s r) (ends' : Ends body s r') :
    r = r' := by
  induction ends using Ends.induct with
  | leave s r leaves => exact (ends'.of_done leaves).symm
  | round s t r turn _ ih => exact ih (ends'.of_again turn)

/-! ## Counting the turns -/

theorem Turns.tail {k : Nat} {s t u : σ} (turns : Turns body k s t) (turn : body t = .again u) :
    Turns body (k + 1) s u := by
  induction turns with
  | refl s => exact .head turn (.refl u)
  | head first _ ih => exact .head first (ih turn)

/-- A property that every turn preserves holds at every state the loop goes through. -/
theorem Turns.invariant {inv : σ → Prop} (preserved : ∀ s t, body s = .again t → inv s → inv t)
    {k : Nat} {s t : σ} (turns : Turns body k s t) (start : inv s) : inv t := by
  induction turns with
  | refl s => exact start
  | head turn _ ih => exact ih (preserved _ _ turn start)

theorem Turns.ends {k : Nat} {s t : σ} {r : ρ} (turns : Turns body k s t) (ends : Ends body t r) :
    Ends body s r := by
  induction turns with
  | refl s => exact ends
  | head turn _ ih => exact ends_of_again turn (ih ends)

/-- **A run that ends is some turns that go round, and one that leaves.** -/
theorem ends_iff_turns {s : σ} {r : ρ} :
    Ends body s r ↔ ∃ k t, Turns body k s t ∧ body t = .done r := by
  constructor
  · intro ends
    induction ends using Ends.induct with
    | leave s r leaves => exact ⟨0, s, .refl s, leaves⟩
    | round s t r turn _ ih =>
        obtain ⟨k, u, turns, leaves⟩ := ih
        exact ⟨k + 1, u, .head turn turns, leaves⟩
  · rintro ⟨k, t, turns, leaves⟩
    exact turns.ends (ends_of_done leaves)

/-- A measure that every turn makes smaller bounds the number of turns. -/
theorem runFuel_of_measure {measure : σ → Nat}
    (decreases : ∀ s t, body s = .again t → measure t < measure s) (s : σ) :
    ∃ r, runFuel body (measure s + 1) s = some r := by
  have enough : ∀ fuel s, measure s < fuel → ∃ r, runFuel body fuel s = some r := by
    intro fuel
    induction fuel with
    | zero => intro s h; exact absurd h (Nat.not_lt_zero _)
    | succ fuel ih =>
        intro s h
        cases turn : body s with
        | done r => exact ⟨r, by simp [runFuel, turn]⟩
        | again t =>
            have smaller := decreases s t turn
            obtain ⟨r, hr⟩ := ih t (by omega)
            exact ⟨r, by simp [runFuel, turn, hr]⟩
  exact enough _ s (Nat.lt_succ_self _)

/-! ## Two loops -/

/-- **Simulation.** When related states take turns that go round to related states or leave
with related results, a loop that ends is matched by the other. -/
theorem Ends.simulate {body' : τ → Turn τ π} (related : σ → τ → Prop) (results : ρ → π → Prop)
    (round : ∀ s s' t, related s s' → body s = .again t →
      ∃ t', body' s' = .again t' ∧ related t t')
    (leave : ∀ s s' r, related s s' → body s = .done r →
      ∃ r', body' s' = .done r' ∧ results r r')
    {s : σ} {r : ρ} (ends : Ends body s r) {s' : τ} (start : related s s') :
    ∃ r', Ends body' s' r' ∧ results r r' := by
  induction ends using Ends.induct generalizing s' with
  | leave s r leaves =>
      obtain ⟨r', leaves', same⟩ := leave s s' r start leaves
      exact ⟨r', ends_of_done leaves', same⟩
  | round s t r turn _ ih =>
      obtain ⟨t', turn', next⟩ := round s s' t start turn
      obtain ⟨r', ends', same⟩ := ih next
      exact ⟨r', ends_of_again turn' ends', same⟩

/-- **Slicing.** Suppose `early` does at every state what `body` does, except that it may
leave with the state it is at, packed by `paused`. Then it either leaves so, and `body`
entered again from that state ends as it does from the start, or it ends as `body` does. -/
theorem Ends.slice {early : σ → Turn σ ρ} (paused : σ → ρ)
    (agree : ∀ s, early s = body s ∨ early s = .done (paused s))
    {s : σ} {r : ρ} (ends : Ends early s r) :
    (∃ s', r = paused s' ∧ ∀ r', Ends body s' r' ↔ Ends body s r') ∨ Ends body s r := by
  induction ends using Ends.induct with
  | leave s r leaves =>
      rcases agree s with same | pauses
      · exact .inr (ends_of_done (same.symm.trans leaves))
      · rw [leaves] at pauses
        cases pauses
        exact .inl ⟨s, rfl, fun _ => Iff.rfl⟩
  | round s t r turn _ ih =>
      rcases agree s with same | pauses
      · have turn' : body s = .again t := same.symm.trans turn
        rcases ih with ⟨s', hr, onward⟩ | rest
        · refine .inl ⟨s', hr, fun r' => (onward r').trans ?_⟩
          exact ⟨fun h => ends_of_again turn' h, fun h => h.of_again turn'⟩
        · exact .inr (ends_of_again turn' rest)
      · rw [turn] at pauses
        cases pauses

end Determinant.Foundations
