import Determinant.Foundations.Behaviours

/-!
# Loops inside loops, and loops that end

The body of a loop may be a loop itself. What the two do is one loop, whose turns are those of
the inner one; where that would leave, the rest of the outer body is done (`loop_nested`).
Changing errors, and working on a part of the state, may be done at every turn as well
(`mapError_loop`, `onPart_loop`). So nested loops can be brought to the form of a loop over a
computation that ends.

A behaviour halts when it has an outcome (`Halts`). There is a rule for every way to put
behaviours together; a loop halts when a measure gets smaller at every turn that goes round.
-/

set_option autoImplicit false

namespace Determinant.Foundations.Behaviour

variable {ε ε' σ τ α β : Type}

/-! ## One turn at the front -/

/-- How a loop ends after a turn with this outcome. -/
def Onward (body : Behaviour ε σ (Option α)) :
    EStateM.Result ε σ (Option α) → EStateM.Result ε σ α → Prop
  | .ok none t, r => loop body t r
  | .ok (some a) t, r => r = .ok a t
  | .error e t, r => r = .error e t

/-- A loop takes a turn, and ends or goes on. -/
theorem loop_iff {body : Behaviour ε σ (Option α)} {s : σ} {r : EStateM.Result ε σ α} :
    loop body s r ↔ ∃ turn, body s turn ∧ Onward body turn r := by
  constructor
  · intro loops
    cases loops with
    | leave left => exact ⟨_, left, rfl⟩
    | fail failed => exact ⟨_, failed, rfl⟩
    | again round rest => exact ⟨_, round, rest⟩
  · rintro ⟨turn, outcome, onward⟩
    match turn, onward with
    | .ok none t, rest => exact .again outcome rest
    | .ok (some a) t, same =>
        cases same
        exact .leave outcome
    | .error e t, same =>
        cases same
        exact .fail outcome

/-! ## Loops inside loops -/

/-- The body of the one loop. -/
def nested (inner : Behaviour ε σ (Option α)) (after : α → Behaviour ε σ (Option β)) :
    Behaviour ε σ (Option β) := do
  match ← inner with
  | some a => after a
  | none => pure none

section Nested

variable {inner : Behaviour ε σ (Option α)} {after : α → Behaviour ε σ (Option β)}

/-- A turn of the outer loop is some turns of the one loop. -/
theorem loop_nested_of_turn {s : σ} {middle : EStateM.Result ε σ α}
    {turn : EStateM.Result ε σ (Option β)} {r : EStateM.Result ε σ β}
    (rest : match middle with
      | .ok a t => after a t turn
      | .error e t => turn = .error e t)
    (loops : Loops inner s middle) (onward : Onward (nested inner after) turn r) :
    loop (nested inner after) s r := by
  induction loops with
  | leave left => exact loop_iff.2 ⟨turn, ⟨_, left, rest⟩, onward⟩
  | fail failed => exact loop_iff.2 ⟨turn, ⟨_, failed, rest⟩, onward⟩
  | again round _ ih => exact .again ⟨_, round, rfl⟩ (ih rest)

/-- **A loop whose body begins with a loop is one loop.** -/
theorem loop_nested : loop (loop inner >>= after) = loop (nested inner after) := by
  funext s r
  apply propext
  constructor
  · intro loops
    induction loops with
    | leave left =>
        obtain ⟨middle, looped, rest⟩ := left
        exact loop_nested_of_turn rest looped rfl
    | fail failed =>
        obtain ⟨middle, looped, rest⟩ := failed
        exact loop_nested_of_turn rest looped rfl
    | again round _ ih =>
        obtain ⟨middle, looped, rest⟩ := round
        exact loop_nested_of_turn rest looped ih
  · intro loops
    -- The turns of the inner loop that were taken before it leaves are added at the front.
    have started : ∀ {s : σ} {turn : EStateM.Result ε σ (Option β)}, nested inner after s turn →
        Onward (loop inner >>= after) turn r → loop (loop inner >>= after) s r := by
      rintro s turn ⟨first, outcome, rest⟩ onward
      match first, rest with
      | .ok (some a) t, rest => exact loop_iff.2 ⟨turn, ⟨_, .leave outcome, rest⟩, onward⟩
      | .error e t, rest => exact loop_iff.2 ⟨turn, ⟨_, .fail outcome, rest⟩, onward⟩
      | .ok none t, rest =>
          cases rest
          obtain ⟨turn', ⟨middle, looped, rest⟩, onward'⟩ := loop_iff.1 onward
          exact loop_iff.2 ⟨turn', ⟨middle, .again outcome looped, rest⟩, onward'⟩
    induction loops with
    | leave left => exact started left rfl
    | fail failed => exact started failed rfl
    | again round _ ih => exact started round (ih started)

end Nested

/-! ## Computations that end -/

theorem lift_bind (x : EStateM ε σ α) (f : α → EStateM ε σ β) :
    lift (x >>= f) = (lift x >>= fun a => lift (f a)) := by
  funext s r
  apply propext
  have first : (x >>= f) s = match x s with
      | .ok a t => f a t
      | .error e t => .error e t := rfl
  constructor
  · rintro rfl
    refine ⟨x s, rfl, ?_⟩
    rw [first]
    cases x s <;> rfl
  · rintro ⟨_, rfl, rest⟩
    change (x >>= f) s = r
    rw [first]
    cases outcome : x s with
    | ok a t =>
        rw [outcome] at rest
        exact rest
    | error e t =>
        rw [outcome] at rest
        exact rest.symm

/-- What comes after a computation that ends. -/
theorem lift_andThen {x : EStateM ε σ α} {f : α → Behaviour ε σ β} {s : σ}
    {r : EStateM.Result ε σ β} :
    (lift x >>= f) s r ↔ match x s with
      | .ok a t => f a t r
      | .error e t => r = .error e t := by
  constructor
  · rintro ⟨_, rfl, rest⟩
    exact rest
  · exact fun rest => ⟨_, rfl, rest⟩

/-- What comes after a behaviour with one outcome. -/
theorem andThen_of_becomes {x : Behaviour ε σ α} {f : α → Behaviour ε σ β} {s t : σ} {a : α}
    (becomes : ∀ r, x s r ↔ r = .ok a t) {r : EStateM.Result ε σ β} :
    (x >>= f) s r ↔ f a t r := by
  constructor
  · rintro ⟨middle, outcome, rest⟩
    cases (becomes middle).1 outcome
    exact rest
  · exact fun rest => ⟨_, (becomes _).2 rfl, rest⟩

/-- What comes after an error that was caught, or none. -/
theorem attempt_andThen {x : Behaviour ε σ α} {f : Except ε α → Behaviour ε' σ β} {s : σ}
    {r : EStateM.Result ε' σ β} :
    (attempt x >>= f) s r ↔ ∃ middle, x s middle ∧ f (answer middle) (stateAfter middle) r := by
  constructor
  · rintro ⟨_, ⟨middle, outcome, rfl⟩, rest⟩
    exact ⟨middle, outcome, rest⟩
  · rintro ⟨middle, outcome, rest⟩
    exact ⟨_, ⟨middle, outcome, rfl⟩, rest⟩

/-- The same for computations that end. -/
def nestedTurn (inner : EStateM ε σ (Option α)) (after : α → EStateM ε σ (Option β)) :
    EStateM ε σ (Option β) := do
  match ← inner with
  | some a => after a
  | none => pure none

theorem nested_lift (inner : EStateM ε σ (Option α)) (after : α → EStateM ε σ (Option β)) :
    nested (lift inner) (fun a => lift (after a)) = lift (nestedTurn inner after) := by
  unfold nested nestedTurn
  rw [lift_bind]
  congr 1
  funext left
  cases left <;> rfl

theorem mapError_lift (f : ε → ε') (x : EStateM ε σ α) :
    mapError f (lift x) = lift (EStateM.adaptExcept f x) := by
  funext s r
  apply propext
  change (∃ r', x s = r' ∧ _) ↔ EStateM.adaptExcept f x s = r
  rw [adaptExcept_apply]
  cases x s <;> simp [eq_comm]

theorem onPart_lift (view : τ → σ) (put : σ → τ → τ) (x : EStateM ε σ α) :
    onPart view put (lift x) = lift (Foundations.onPart view put x) := by
  funext t r
  apply propext
  change (∃ r', x (view t) = r' ∧ _) ↔ Foundations.onPart view put x t = r
  unfold Foundations.onPart
  cases x (view t) <;> simp [eq_comm]

/-! ## At every turn -/

theorem mapError_loop (f : ε → ε') (body : Behaviour ε σ (Option α)) :
    mapError f (loop body) = loop (mapError f body) := by
  funext s r
  apply propext
  constructor
  · rintro ⟨r', loops, rfl⟩
    induction loops with
    | leave left => exact .leave ⟨_, left, rfl⟩
    | fail failed => exact .fail ⟨_, failed, rfl⟩
    | again round _ ih => exact .again ⟨_, round, rfl⟩ ih
  · intro loops
    induction loops with
    | leave left =>
        obtain ⟨turn, outcome, same⟩ := left
        cases turn <;> cases same
        exact ⟨_, .leave outcome, rfl⟩
    | fail failed =>
        obtain ⟨turn, outcome, same⟩ := failed
        cases turn <;> cases same
        exact ⟨_, .fail outcome, rfl⟩
    | again round _ ih =>
        obtain ⟨turn, outcome, same⟩ := round
        obtain ⟨r', rest, same'⟩ := ih
        cases turn <;> cases same
        exact ⟨r', .again outcome rest, same'⟩

/-- What was put back is what is seen next, and only the last of it stays. -/
theorem onPart_loop (view : τ → σ) (put : σ → τ → τ) (seen : ∀ s t, view (put s t) = s)
    (last : ∀ s s' t, put s (put s' t) = put s t) (body : Behaviour ε σ (Option α)) :
    onPart view put (loop body) = loop (onPart view put body) := by
  funext t r
  apply propext
  constructor
  · rintro ⟨r', loops, rfl⟩
    generalize started : view t = s at loops
    induction loops generalizing t with
    | leave left =>
        subst started
        exact .leave ⟨_, left, rfl⟩
    | fail failed =>
        subst started
        exact .fail ⟨_, failed, rfl⟩
    | @again s u r' round _ ih =>
        subst started
        have rest := ih (put u t) (seen u t)
        refine .again ⟨_, round, rfl⟩ ?_
        cases r' <;> simp only [last] at rest <;> exact rest
  · intro loops
    induction loops with
    | leave left =>
        obtain ⟨turn, outcome, same⟩ := left
        cases turn <;> cases same
        exact ⟨_, .leave outcome, rfl⟩
    | fail failed =>
        obtain ⟨turn, outcome, same⟩ := failed
        cases turn <;> cases same
        exact ⟨_, .fail outcome, rfl⟩
    | again round _ ih =>
        obtain ⟨turn, outcome, same⟩ := round
        obtain ⟨r', rest, same'⟩ := ih
        cases turn <;> cases same
        rw [seen] at rest
        refine ⟨r', .again outcome rest, ?_⟩
        cases r' <;> simpa only [last] using same'

/-! ## Leaving early -/

/-- A loop over a computation that ends, by its first turn. -/
theorem loop_lift_iff {body : EStateM ε σ (Option α)} {s : σ} {r : EStateM.Result ε σ α} :
    loop (lift body) s r ↔ Onward (lift body) (body s) r := by
  rw [loop_iff]
  constructor
  · rintro ⟨_, rfl, onward⟩
    exact onward
  · exact fun onward => ⟨_, rfl, onward⟩

/-- **Slicing.** Suppose `early` does at every state what `later` does, or leaves there with
`paused`, which it does nowhere else. A loop over `early` that leaves so has done the beginning of
the loop over `later`, which can be entered again from there; otherwise the two end in the same
way. -/
theorem loop_slice {early later : EStateM ε σ (Option α)} {paused : α}
    (agree : ∀ s, (early s = later s ∧ ∀ t, early s ≠ .ok (some paused) t) ∨
      early s = .ok (some paused) s) {s : σ} {r : EStateM.Result ε σ α}
    (loops : loop (lift early) s r) :
    (∃ t, r = .ok paused t ∧ ∀ r', loop (lift later) t r' ↔ loop (lift later) s r') ∨
      (∀ t, r ≠ .ok paused t) ∧ loop (lift later) s r := by
  induction loops with
  | @leave s t a left =>
      rcases agree s with ⟨same, onward⟩ | pauses
      · refine .inr ⟨fun t' paused => ?_, .leave (same.symm.trans left)⟩
        cases paused
        exact onward _ left
      · cases pauses.symm.trans left
        exact .inl ⟨s, rfl, fun _ => Iff.rfl⟩
  | @fail s t e failed =>
      rcases agree s with ⟨same, _⟩ | pauses
      · exact .inr ⟨nofun, .fail (same.symm.trans failed)⟩
      · cases pauses.symm.trans failed
  | @again s t r round _ ih =>
      rcases agree s with ⟨same, _⟩ | pauses
      · have turn : later s = .ok none t := same.symm.trans round
        have first : ∀ r', loop (lift later) s r' ↔ loop (lift later) t r' := by
          intro r'
          rw [loop_lift_iff, turn]
          rfl
        rcases ih with ⟨u, rfl, onward⟩ | ⟨ended, rest⟩
        · exact .inl ⟨u, rfl, fun r' => (onward r').trans (first r').symm⟩
        · exact .inr ⟨ended, (first r).2 rest⟩
      · cases pauses.symm.trans round

/-! ## Halting -/

/-- From states with a property there is an outcome. -/
def Halts (pre : σ → Prop) (x : Behaviour ε σ α) : Prop := ∀ ⦃s⦄, pre s → ∃ r, x s r

namespace Halts

variable {pre : σ → Prop} {x : Behaviour ε σ α}

theorem lift (x : EStateM ε σ α) : Halts pre (lift x) := fun s _ => ⟨x s, rfl⟩

theorem andThen {f : α → Behaviour ε σ β} {post : α → σ → Prop} {failed : ε → σ → Prop}
    (first : Halts pre x) (meets : Meets pre x post failed) (rest : ∀ a, Halts (post a) (f a)) :
    Halts pre (x >>= f) := by
  intro s start
  obtain ⟨middle, outcome⟩ := first start
  have holds := meets start outcome
  cases middle with
  | ok a t =>
      obtain ⟨r, onward⟩ := rest a holds
      exact ⟨r, _, outcome, onward⟩
  | error e t => exact ⟨_, _, outcome, rfl⟩

theorem attempt (halts : Halts pre x) : Halts pre (attempt x : Behaviour ε' σ (Except ε α)) :=
  fun _ start => (halts start).imp' _ fun _ outcome => ⟨_, outcome, rfl⟩

/-- **The rule of loops**: a measure gets smaller at every turn that goes round. -/
theorem loop (measure : σ → Nat) {body : Behaviour ε σ (Option α)}
    (turns : Halts pre body)
    (decreases : ∀ s t, pre s → body s (.ok none t) → pre t ∧ measure t < measure s) :
    Halts pre (loop body) := by
  intro s start
  induction fuel : measure s using Nat.strongRecOn generalizing s with
  | _ k ih =>
      obtain ⟨turn, outcome⟩ := turns start
      match turn, outcome with
      | .ok (some a) t, outcome => exact ⟨_, .leave outcome⟩
      | .error e t, outcome => exact ⟨_, .fail outcome⟩
      | .ok none t, outcome =>
          obtain ⟨next, less⟩ := decreases s t start outcome
          obtain ⟨r, rest⟩ := ih _ (fuel ▸ less) next rfl
          exact ⟨r, .again outcome rest⟩

end Halts

end Determinant.Foundations.Behaviour
