import Determinant.Foundations.Indistinguishable

/-!
# Computations that may not end

A behaviour relates a state to the outcomes that a computation may end with from it. If there
is none, it does not end. Behaviours are put together as computations of `EStateM` are, and
these are behaviours with one outcome each (`lift`). A loop goes round while its body returns
`none` (`loop`), and its body may itself not end.

Facts about behaviours are proved with a rule for every way to put them together: what every
outcome is (`Meets`), that one behaviour does what another can do (`Follows`), and that there is
at most one outcome (`Deterministic`).
-/

set_option autoImplicit false

namespace Determinant.Foundations

variable {ε ε' σ σ' τ α β : Type}

/-- The outcomes that a computation may end with, from each state. -/
def Behaviour (ε σ α : Type) : Type := σ → EStateM.Result ε σ α → Prop

namespace Behaviour

/-- A computation that ends. -/
def lift (x : EStateM ε σ α) : Behaviour ε σ α := fun s r => x s = r

/-- One behaviour, and then another if the first did not fail. -/
def andThen (x : Behaviour ε σ α) (f : α → Behaviour ε σ β) : Behaviour ε σ β := fun s r =>
  ∃ r', x s r' ∧
    match r' with
    | .ok a t => f a t r
    | .error e t => r = .error e t

instance : Monad (Behaviour ε σ) where
  pure a := lift (pure a)
  bind := andThen

instance : MonadLift (EStateM ε σ) (Behaviour ε σ) := ⟨lift⟩

/-- The outcomes of a loop. -/
inductive Loops (body : Behaviour ε σ (Option α)) : σ → EStateM.Result ε σ α → Prop where
  | leave {s t : σ} {a : α} (left : body s (.ok (some a) t)) : Loops body s (.ok a t)
  | fail {s t : σ} {e : ε} (failed : body s (.error e t)) : Loops body s (.error e t)
  | again {s t : σ} {r : EStateM.Result ε σ α} (turn : body s (.ok none t))
      (rest : Loops body t r) : Loops body s r

/-- `while (true)`: round while the body returns `none`. -/
def loop (body : Behaviour ε σ (Option α)) : Behaviour ε σ α := Loops body

/-- The same with other errors. -/
def mapError (f : ε → ε') (x : Behaviour ε σ α) : Behaviour ε' σ α := fun s r =>
  ∃ r', x s r' ∧
    r = match r' with
    | .ok a t => .ok a t
    | .error e t => .error (f e) t

/-- On a part of a larger state. -/
def onPart (view : τ → σ) (put : σ → τ → τ) (x : Behaviour ε σ α) : Behaviour ε τ α := fun t r =>
  ∃ r', x (view t) r' ∧
    r = match r' with
    | .ok a s => .ok a (put s t)
    | .error e s => .error e (put s t)

/-- Catch an error: the answer of the behaviour, whether it failed or not. -/
def attempt (x : Behaviour ε σ α) : Behaviour ε' σ (Except ε α) := fun s r =>
  ∃ r', x s r' ∧ r = .ok (answer r') (stateAfter r')

/-! ## Specifications -/

/-- From states with the property `pre`, every outcome is as specified: one property of what
is returned and the state, another of an error and the state. -/
def Meets (pre : σ → Prop) (x : Behaviour ε σ α) (post : α → σ → Prop) (failed : ε → σ → Prop) :
    Prop :=
  ∀ ⦃s r⦄, pre s → x s r →
    match r with
    | .ok a t => post a t
    | .error e t => failed e t

/-- Where a turn of a loop leads: round it, or out of it with a result. -/
def Turned (again : σ → Prop) (post : α → σ → Prop) : Option α → σ → Prop
  | some a => post a
  | none => again

/-- A turn that keeps a property, wherever it leads. -/
theorem Turned.const {keeps : σ → Prop} (a : Option α) {s : σ} (kept : keeps s) :
    Turned keeps (fun _ => keeps) a s := by
  cases a <;> exact kept

namespace Meets

variable {pre : σ → Prop} {x : Behaviour ε σ α} {post : α → σ → Prop} {failed : ε → σ → Prop}

theorem lift {x : EStateM ε σ α}
    (ends : ∀ s, pre s → match x s with
      | .ok a t => post a t
      | .error e t => failed e t) :
    Meets pre (lift x) post failed := by
  intro s r start outcome
  cases outcome
  exact ends s start

theorem pure {a : α} (holds : ∀ s, pre s → post a s) :
    Meets pre (Pure.pure a : Behaviour ε σ α) post failed :=
  lift fun s start => holds s start

theorem modifies (f : σ → σ) (s : σ) :
    Meets (· = s) (Behaviour.lift (modify f : EStateM ε σ PUnit)) (fun _ t => t = f s) failed :=
  lift fun _ same => congrArg f same

theorem modify {f : σ → σ} {post : PUnit → σ → Prop} (keeps : ∀ s, pre s → post ⟨⟩ (f s)) :
    Meets pre (Behaviour.lift (modify f : EStateM ε σ PUnit)) post failed :=
  lift fun s start => keeps s start

theorem lift_bind {x : EStateM ε σ α} {f : α → EStateM ε σ β} {post' : β → σ → Prop}
    (first : Meets pre (Behaviour.lift x) post failed)
    (rest : ∀ a, Meets (post a) (Behaviour.lift (f a)) post' failed) :
    Meets pre (Behaviour.lift (x >>= f)) post' failed := by
  rintro s r start rfl
  have middle := first start rfl
  rw [bind_apply]
  cases outcome : x s with
  | ok a t =>
      rw [outcome] at middle
      exact rest a middle rfl
  | error e t =>
      rw [outcome] at middle
      exact middle

theorem andThen {f : α → Behaviour ε σ β} {post' : β → σ → Prop}
    (first : Meets pre x post failed) (rest : ∀ a, Meets (post a) (f a) post' failed) :
    Meets pre (x >>= f) post' failed := by
  rintro s r start ⟨r', outcome, onward⟩
  have middle := first start outcome
  cases r' with
  | ok a t => exact rest a middle onward
  | error e t =>
      cases onward
      exact middle

/-- One state at a time. -/
theorem each (single : ∀ s, pre s → Meets (· = s) x post failed) : Meets pre x post failed :=
  fun s _ start outcome => single s start rfl outcome

/-- What ended may be used later on. -/
theorem remember {s : σ} (meets : Meets (· = s) x post failed) :
    Meets (· = s) x (fun a t => x s (.ok a t) ∧ post a t) failed := by
  rintro s r rfl outcome
  have holds := meets rfl outcome
  cases r with
  | ok a t => exact ⟨outcome, holds⟩
  | error e t => exact holds

/-- A weaker property at the start, and stronger ones at the end. -/
theorem weaken {pre' : σ → Prop} {post' : α → σ → Prop} {failed' : ε → σ → Prop}
    (meets : Meets pre x post failed) (start : ∀ s, pre' s → pre s)
    (ok : ∀ a s, post a s → post' a s) (error : ∀ e s, failed e s → failed' e s) :
    Meets pre' x post' failed' := by
  intro s r given outcome
  have holds := meets (start s given) outcome
  cases r with
  | ok a t => exact ok a t holds
  | error e t => exact error e t holds

/-- **The rule of loops**: what every turn that goes round keeps holds at every turn. -/
theorem loop {body : Behaviour ε σ (Option α)}
    (turn : Meets pre body (Turned pre post) failed) : Meets pre (loop body) post failed := by
  intro s r start outcome
  induction outcome with
  | leave left => exact turn start left
  | fail broke => exact turn start broke
  | again round _ ih => exact ih (turn start round)

theorem mapError {f : ε → ε'} {failed : ε' → σ → Prop}
    (meets : Meets pre x post fun e s => failed (f e) s) :
    Meets pre (mapError f x) post failed := by
  rintro s r start ⟨r', outcome, rfl⟩
  have holds := meets start outcome
  cases r' <;> exact holds

theorem onPart {view : τ → σ} {put : σ → τ → τ} {post : α → τ → Prop} {failed : ε → τ → Prop}
    {pre : τ → Prop}
    (meets : ∀ t, pre t → Meets (fun s => s = view t) x (fun a s => post a (put s t))
      fun e s => failed e (put s t)) :
    Meets pre (onPart view put x) post failed := by
  rintro t r start ⟨r', outcome, rfl⟩
  have holds := meets t start rfl outcome
  cases r' <;> exact holds

theorem attempt {post : Except ε α → σ → Prop} {failed : ε' → σ → Prop}
    (meets : Meets pre x (fun a s => post (.ok a) s) fun e s => post (.error e) s) :
    Meets pre (attempt x) post failed := by
  rintro s r start ⟨r', outcome, rfl⟩
  have holds := meets start outcome
  cases r' <;> exact holds

end Meets

/-! ## One behaviour and another -/

/-- Whatever the first may end with is matched by the second from related states: with the
same answer, and related states after it. -/
def Follows (related : σ → σ' → Prop) (x : Behaviour ε σ α) (y : Behaviour ε σ' α) : Prop :=
  ∀ ⦃s s' r⦄, related s s' → x s r →
    ∃ r', y s' r' ∧ answer r = answer r' ∧ related (stateAfter r) (stateAfter r')

namespace Follows

variable {related : σ → σ' → Prop} {x : Behaviour ε σ α} {y : Behaviour ε σ' α}

/-- Computations that cannot be told apart follow each other. -/
theorem lift {x : EStateM ε σ α} {y : EStateM ε σ' α} (same : Indistinguishable related x y) :
    Follows related (lift x) (lift y) := by
  rintro s s' r start rfl
  exact ⟨y s', rfl, same start⟩

theorem andThen {f : α → Behaviour ε σ β} {g : α → Behaviour ε σ' β} (first : Follows related x y)
    (rest : ∀ a, Follows related (f a) (g a)) : Follows related (x >>= f) (y >>= g) := by
  rintro s s' r start ⟨middle, outcome, onward⟩
  obtain ⟨middle', outcome', answers, states⟩ := first start outcome
  cases middle with
  | ok a t =>
      cases middle' with
      | error e t' => cases answers
      | ok b t' =>
          cases answers
          obtain ⟨r', onward', same⟩ := rest a states onward
          exact ⟨r', ⟨_, outcome', onward'⟩, same⟩
  | error e t =>
      cases onward
      cases middle' with
      | ok b t' => cases answers
      | error e' t' =>
          cases answers
          exact ⟨_, ⟨_, outcome', rfl⟩, rfl, states⟩

theorem loop {body : Behaviour ε σ (Option α)} {body' : Behaviour ε σ' (Option α)}
    (turn : Follows related body body') : Follows related (loop body) (loop body') := by
  intro s s' r start outcome
  induction outcome generalizing s' with
  | leave left =>
      obtain ⟨r', left', answers, states⟩ := turn start left
      cases r' with
      | error e t' => cases answers
      | ok a t' =>
          cases answers
          exact ⟨_, .leave left', rfl, states⟩
  | fail broke =>
      obtain ⟨r', broke', answers, states⟩ := turn start broke
      cases r' with
      | ok a t' => cases answers
      | error e t' =>
          cases answers
          exact ⟨_, .fail broke', rfl, states⟩
  | again round _ ih =>
      obtain ⟨r', round', answers, states⟩ := turn start round
      cases r' with
      | error e t' => cases answers
      | ok a t' =>
          cases answers
          obtain ⟨r', rest', same⟩ := ih states
          exact ⟨r', .again round' rest', same⟩

theorem mapError (f : ε → ε') (follows : Follows related x y) :
    Follows related (mapError f x) (mapError f y) := by
  rintro s s' r start ⟨middle, outcome, rfl⟩
  obtain ⟨middle', outcome', answers, states⟩ := follows start outcome
  refine ⟨_, ⟨middle', outcome', rfl⟩, ?_⟩
  cases middle <;> cases middle' <;> cases answers <;> exact ⟨rfl, states⟩

end Follows

/-! ## One outcome -/

/-- From each state there is at most one outcome. -/
def Deterministic (x : Behaviour ε σ α) : Prop := ∀ ⦃s r r'⦄, x s r → x s r' → r = r'

namespace Deterministic

variable {x : Behaviour ε σ α}

theorem lift (x : EStateM ε σ α) : Deterministic (lift x) := by
  rintro s r r' rfl rfl
  rfl

theorem andThen {f : α → Behaviour ε σ β} (first : Deterministic x)
    (rest : ∀ a, Deterministic (f a)) : Deterministic (x >>= f) := by
  rintro s r r' ⟨middle, outcome, onward⟩ ⟨middle', outcome', onward'⟩
  cases first outcome outcome'
  cases middle with
  | ok a t => exact rest a onward onward'
  | error e t => exact onward.trans onward'.symm

theorem loop {body : Behaviour ε σ (Option α)} (turn : Deterministic body) :
    Deterministic (loop body) := by
  intro s r r' outcome outcome'
  induction outcome with
  | leave left =>
      cases outcome' with
      | leave left' =>
          cases turn left left'
          rfl
      | fail broke => cases turn left broke
      | again round _ => cases turn left round
  | fail broke =>
      cases outcome' with
      | leave left => cases turn broke left
      | fail broke' =>
          cases turn broke broke'
          rfl
      | again round _ => cases turn broke round
  | again round _ ih =>
      cases outcome' with
      | leave left => cases turn round left
      | fail broke => cases turn round broke
      | again round' rest' =>
          cases turn round round'
          exact ih rest'

theorem mapError (f : ε → ε') (one : Deterministic x) : Deterministic (mapError f x) := by
  rintro s r r' ⟨middle, outcome, rfl⟩ ⟨middle', outcome', rfl⟩
  rw [one outcome outcome']

theorem onPart (view : τ → σ) (put : σ → τ → τ) (one : Deterministic x) :
    Deterministic (onPart view put x) := by
  rintro s r r' ⟨middle, outcome, rfl⟩ ⟨middle', outcome', rfl⟩
  rw [one outcome outcome']

theorem attempt (one : Deterministic x) :
    Deterministic (attempt x : Behaviour ε' σ (Except ε α)) := by
  rintro s r r' ⟨middle, outcome, rfl⟩ ⟨middle', outcome', rfl⟩
  rw [one outcome outcome']

end Deterministic

end Behaviour

end Determinant.Foundations
