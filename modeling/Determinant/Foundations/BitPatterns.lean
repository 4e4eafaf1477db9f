import Mathlib.Tactic.Basic

/-!
# Bit patterns

A word matches a pattern when the bits of a mask have given values. A pattern over two
disjoint masks is matched exactly when both parts are (`matches_or`), and a pattern over one
field of the word is matched exactly when the field has the value (`matches_field`). A field
that may be left free adds its bits to the mask only when it is given (`optMask`,
`optValue`), and so it adds its condition to the pattern (`PatternOf.opt`).

A list of partial functions, tried one after the other, answers the same in every order when
no two of them answer (`findSome_perm`).
-/

set_option autoImplicit false

namespace Determinant.Foundations

variable {w k : Nat}

/-! ## Two masks -/

/-- **A pattern over two disjoint masks is matched when both parts are.** -/
theorem matches_or {m₁ m₂ v₁ v₂ : BitVec w} (raw : BitVec w) (disjoint : m₁ &&& m₂ = 0#w)
    (within₁ : v₁ &&& m₁ = v₁) (within₂ : v₂ &&& m₂ = v₂) :
    raw &&& (m₁ ||| m₂) = v₁ ||| v₂ ↔ raw &&& m₁ = v₁ ∧ raw &&& m₂ = v₂ := by
  simp only [BitVec.eq_of_getElem_eq_iff, BitVec.getElem_and, BitVec.getElem_or,
    BitVec.getElem_zero] at *
  constructor
  · intro both
    refine ⟨fun i hi => ?_, fun i hi => ?_⟩
    all_goals
      have := both i hi
      have := disjoint i hi
      have := within₁ i hi
      have := within₂ i hi
      revert this
      grind
  · rintro ⟨first, second⟩ i hi
    rw [← first i hi, ← second i hi]
    cases raw[i] <;> simp

/-! ## One field -/

/-- The `k` bits of a word from bit `s` on. -/
def field (s k : Nat) (raw : BitVec w) : BitVec k := (raw >>> s).setWidth k

/-- **A pattern over one field is matched when the field has the value.** -/
theorem matches_field {s : Nat} (fits : s + k ≤ w) (raw : BitVec w) (x : BitVec k) :
    raw &&& ((BitVec.allOnes k).setWidth w <<< s) = x.setWidth w <<< s ↔ field s k raw = x := by
  simp only [field, BitVec.eq_of_getElem_eq_iff, BitVec.getElem_and, BitVec.getElem_shiftLeft,
    BitVec.getElem_setWidth, BitVec.getLsbD_allOnes, BitVec.getLsbD_ushiftRight]
  constructor
  · intro same i hi
    have bit := same (s + i) (by omega)
    have after : ¬s + i < s := by omega
    rw [BitVec.getLsbD_eq_getElem (by omega)]
    simpa [after, hi, BitVec.getLsbD_eq_getElem] using bit
  · intro same i hi
    by_cases below : i < s
    · simp [below]
    · by_cases inside : i - s < k
      · have bit := same (i - s) inside
        rw [show s + (i - s) = i by omega, BitVec.getLsbD_eq_getElem hi] at bit
        simp [below, inside, bit, BitVec.getLsbD_eq_getElem]
      · simp [inside, BitVec.getLsbD_of_ge x (i - s) (by omega)]

/-- The mask of a field that may be free: `ones` at bit `s`, when the field is given. -/
def optMask (ones : BitVec w) (s : Nat) (f : Option (BitVec k)) : BitVec w :=
  if f.isSome then ones <<< s else 0#w

/-- The value of a field that may be free, at bit `s`. -/
def optValue (s : Nat) (f : Option (BitVec k)) : BitVec w :=
  match f with
  | some x => x.setWidth w <<< s
  | none => 0#w

/-- The value of a field lies within its mask. -/
theorem optValue_within {ones : BitVec w} (full : ones = (BitVec.allOnes k).setWidth w) (s : Nat)
    (f : Option (BitVec k)) : optValue s f &&& optMask ones s f = optValue s f := by
  subst full
  cases f with
  | none => simp [optValue, optMask]
  | some x =>
      simp only [optValue, optMask, Option.isSome_some, if_true]
      apply BitVec.eq_of_getElem_eq
      intro i hi
      simp only [BitVec.getElem_and, BitVec.getElem_shiftLeft, BitVec.getElem_setWidth,
        BitVec.getLsbD_allOnes]
      by_cases below : i < s
      · simp [below]
      · by_cases inside : i - s < k
        · simp [below, inside]
        · simp [inside, BitVec.getLsbD_of_ge x (i - s) (by omega)]

theorem optMask_disjoint {k' : Nat} {ones ones' : BitVec w} {s s' : Nat} {f : Option (BitVec k)}
    {f' : Option (BitVec k')}
    (apart : ones <<< s &&& ones' <<< s' = 0#w ∨ f = none ∨ f' = none) :
    optMask ones s f &&& optMask ones' s' f' = 0#w := by
  unfold optMask
  rcases apart with bits | free | free'
  · split
    · split
      · exact bits
      · simp
    · simp
  · simp [free]
  · simp [free']

theorem mask_disjoint {m ones : BitVec w} {s : Nat} (f : Option (BitVec k))
    (apart : m &&& ones <<< s = 0#w) : m &&& optMask ones s f = 0#w := by
  unfold optMask
  split
  · exact apart
  · simp

theorem or_disjoint {a b c : BitVec w} (left : a &&& c = 0#w) (right : b &&& c = 0#w) :
    (a ||| b) &&& c = 0#w := by
  rw [BitVec.and_or_distrib_right, left, right, BitVec.zero_or]

/-! ## Patterns built field by field -/

/-- The words with the values `v` under the mask `m` are those that satisfy `p`. -/
structure PatternOf (m v : BitVec w) (p : BitVec w → Prop) : Prop where
  within : v &&& m = v
  iff : ∀ raw, raw &&& m = v ↔ p raw

theorem within_or {m₁ m₂ v₁ v₂ : BitVec w} (within₁ : v₁ &&& m₁ = v₁)
    (within₂ : v₂ &&& m₂ = v₂) : (v₁ ||| v₂) &&& (m₁ ||| m₂) = v₁ ||| v₂ := by
  rw [← within₁, ← within₂]
  apply BitVec.eq_of_getElem_eq
  intro i hi
  simp only [BitVec.getElem_and, BitVec.getElem_or]
  cases v₁[i] <;> cases v₂[i] <;> cases m₁[i] <;> cases m₂[i] <;> rfl

/-- The pattern of the lowest field. -/
theorem PatternOf.low (fits : k ≤ w) (x : BitVec k) :
    PatternOf ((BitVec.allOnes k).setWidth w) (x.setWidth w) fun raw => raw.setWidth k = x where
  within := by simpa [optMask, optValue] using optValue_within (w := w) rfl 0 (some x)
  iff raw := by simpa [field] using matches_field (s := 0) (by simpa using fits) raw x

/-- **One more field, which may be free.** -/
theorem PatternOf.opt {m v ones : BitVec w} {p : BitVec w → Prop} (pattern : PatternOf m v p)
    {s : Nat} (fits : s + k ≤ w) (full : ones = (BitVec.allOnes k).setWidth w)
    (f : Option (BitVec k)) (disjoint : m &&& optMask ones s f = 0#w) :
    PatternOf (m ||| optMask ones s f) (v ||| optValue s f)
      fun raw => p raw ∧ ∀ x, f = some x → field s k raw = x where
  within := within_or pattern.within (optValue_within full s f)
  iff raw := by
    rw [matches_or raw disjoint pattern.within (optValue_within full s f), pattern.iff]
    subst full
    cases f with
    | none => simp [optMask, optValue]
    | some x => simp [optMask, optValue, matches_field fits]

/-! ## Trying partial functions in turn -/

/-- When no two of the tries answer, the first answer is the answer of any of them. -/
theorem findSome_eq_some_iff {α β : Type} {tries : List (α → Option β)} {a : α} {b : β}
    (apart : tries.Pairwise fun f g => f a = none ∨ g a = none) :
    tries.findSome? (fun f => f a) = some b ↔ ∃ f ∈ tries, f a = some b := by
  induction tries with
  | nil => simp
  | cons f rest ih =>
      rw [List.pairwise_cons] at apart
      simp only [List.findSome?_cons, List.mem_cons, exists_eq_or_imp, ← ih apart.2]
      cases answer : f a with
      | none => simp
      | some c =>
          have silent : rest.findSome? (fun g => g a) = none := by
            rw [List.findSome?_eq_none_iff]
            intro g listed
            simpa [answer] using apart.1 g listed
          simp [silent]

/-- **The order of the tries does not matter when no two of them answer.** -/
theorem findSome_perm {α β : Type} {tries tries' : List (α → Option β)} {a : α}
    (reordered : tries.Perm tries')
    (apart : tries.Pairwise fun f g => f a = none ∨ g a = none) :
    tries.findSome? (fun f => f a) = tries'.findSome? (fun f => f a) := by
  have symmetric : ∀ {f g : α → Option β}, f a = none ∨ g a = none → g a = none ∨ f a = none :=
    fun h => h.symm
  induction reordered with
  | nil => rfl
  | cons f _ ih =>
      rw [List.pairwise_cons] at apart
      rw [List.findSome?_cons, List.findSome?_cons, ih apart.2]
  | swap f g rest =>
      rw [List.pairwise_cons] at apart
      rcases apart.1 f (by simp) with silent | silent
      · simp [silent, List.findSome?_cons]
      · simp [silent, List.findSome?_cons]
  | trans first _ ih ih' =>
      rw [ih apart, ih' ((first.pairwise_iff symmetric).1 apart)]

end Determinant.Foundations
