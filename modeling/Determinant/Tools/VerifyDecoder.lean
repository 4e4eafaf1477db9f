import Determinant.Decoders.Agreement
import Determinant.Foundations.Threads
import Determinant.Foundations.Traps
import Determinant.Instructions.Names

/-!
# The exhaustive check of a decoder

The tool that compares a decoder with the registry on every encoding of 32 bits. Threads share
the encodings out among them (`bounds`), and each counts on its own; then the counts are added up
and reported. In whatever order the threads take their turns, every encoding is looked at once
(`flatten_parts`), the counts are those of one pass over all of them (`checks_iff`), and nothing
overflows. The tool succeeds exactly on the decoders that meet the registry (`verifies`).
-/

set_option autoImplicit false

namespace Determinant

open Foundations

namespace VerifyDecoder

/-- A part of the tool: it has no errors, but it may trap. -/
abbrev Checked (α : Type) := Except (Failure Empty) α

def maxSamples : Nat := 16

/-- What a thread counts. -/
structure Stats where
  legal : Nat := 0
  illegal : Nat := 0
  mismatches : Nat := 0
  /-- `samples[0..n_samples]` -/
  samples : List Word := []

variable (decode : Word → Except DecodeError Instruction)

/-- Whether the decoder agrees with the registry about a word. One that both of them accept is
counted even if they disagree about its instruction. -/
def agrees (raw : Word) (stats : Stats) : Checked (Bool × Stats) :=
  match Registry.lookup raw with
  | some e =>
      match decode raw with
      | .error _ => .ok (false, stats)
      | .ok inst => do
          let legal ← checkedAdd 64 stats.legal 1
          return (inst = Registry.instruction e raw, { stats with legal := legal })
  | none =>
      match decode raw with
      | .ok _ => .ok (false, stats)
      | .error _ => do
          let illegal ← checkedAdd 64 stats.illegal 1
          return (true, { stats with illegal := illegal })

/-- Keep a sample if there is room. -/
def keep (samples : List Word) (raw : Word) : List Word :=
  if samples.length < maxSamples then samples ++ [raw] else samples

/-- The body of a thread's loop, with its `x += 1`. -/
def workerBody (x : Nat) (stats : Stats) : Checked (Nat × Stats) := do
  let raw ← checkedCast 32 ((x <<< 2) % 2 ^ 64 ||| 0b11)
  let (same, stats) ← agrees decode raw stats
  let stats ← if same then pure stats else do
    let mismatches ← checkedAdd 64 stats.mismatches 1
    pure { stats with mismatches := mismatches, samples := keep stats.samples raw }
  let x ← checkedAdd 64 x 1
  return (x, stats)

/-- One turn of a thread. -/
def workerTurn (stop : Nat) : Nat × Stats → Turn (Nat × Stats) (Checked Stats)
  | (x, stats) =>
      if x < stop then
        match workerBody decode x stats with
        | .ok next => .again next
        | .error f => .done (.error f)
      else .done (.ok stats)

def total : Nat := 1 <<< 30

/-- What a thread looks at: from the first number on, in front of the second. -/
def bounds (threads t : Nat) : Nat × Nat :=
  let chunk := total / threads
  (t * chunk, if t + 1 = threads then total else (t + 1) * chunk)

/-- The counts of one thread, added to those of the threads before it. -/
def add (sum s : Stats) : Checked Stats := do
  let legal ← checkedAdd 64 sum.legal s.legal
  let illegal ← checkedAdd 64 sum.illegal s.illegal
  let mismatches ← checkedAdd 64 sum.mismatches s.mismatches
  return { legal, illegal, mismatches, samples := s.samples.foldl keep sum.samples }

/-- How the tool ends. -/
structure Outcome where
  stderr : List Byte
  exit : Byte
deriving DecidableEq

def summary (threads : Nat) (sum : Stats) : List Byte :=
  ascii "decoder vs registry over all 2^30 32-bit encodings (" ++ decimal threads ++
    ascii " threads): " ++ decimal sum.legal ++ ascii " legal, " ++ decimal sum.illegal ++
    ascii " illegal, " ++ decimal sum.mismatches ++ ascii " mismatches" ++ [newline]

/-- A word as eight digits of lower-case hexadecimal. -/
def wordDigits (raw : Word) : List Byte :=
  (charBytes (Nat.toDigits 16 raw.toNat)).leftpad 8 0x30#8

def mismatchLine (raw : Word) : List Byte :=
  let expected := match Registry.lookup raw with
    | some e => ascii e.op.name
    | none => ascii "illegal"
  let got := match decode raw with
    | .ok inst => ascii inst.op.name
    | .error .illegalInstruction => ascii "IllegalInstruction"
  ascii "  mismatch at 0x" ++ wordDigits raw ++ ascii ": registry says " ++ expected ++
    ascii ", decoder says " ++ got ++ [newline]

def countError (checked : Nat) : List Byte :=
  ascii "error: checked " ++ decimal checked ++ ascii " encodings, expected " ++ decimal total ++
    [newline]

def report (threads : Nat) (sum : Stats) : Checked Outcome := do
  let checked ← checkedAdd 64 (← checkedAdd 64 sum.legal sum.illegal) sum.mismatches
  if checked ≠ total then
    return { stderr := summary threads sum ++ countError checked, exit := 1#8 }
  else if sum.mismatches ≠ 0 then
    return {
      stderr := summary threads sum ++ sum.samples.flatMap (mismatchLine decode), exit := 1#8 }
  else return { stderr := summary threads sum, exit := 0#8 }

/-- The number of threads: 4 if the number of CPUs cannot be found out, and 64 at most. -/
def threadCount (cpuCount : Option Nat) : Nat := min (cpuCount.getD 4) 64

/-- Some turns of the threads, in some order. One that is not started yet has taken none. -/
def Schedule (threads k : Nat)
    (joined : Fin threads → Thread (Nat × Stats) (Checked Stats)) : Prop :=
  Interleaved (fun t : Fin threads => workerTurn decode (bounds threads t).2) k
    (fun t => .running ((bounds threads t).1, {})) joined

/-- The tool ends so, when every thread was started and they take their turns in some order until
all have returned. -/
def Checks (cpuCount : Option Nat) (outcome : Checked Outcome) : Prop :=
  let threads := threadCount cpuCount
  if threads = 0 then outcome = .error (.trapped .divideByZero)
  else ∃ k joined stats, Schedule decode threads k joined ∧
    (∀ t, joined t = .finished (stats t)) ∧
    outcome = do
      let sum ← (List.ofFn stats).foldlM (fun sum s => do add sum (← s)) {}
      report decode threads sum

/-! ## One pass over encodings -/

/-- The decoder says about a word what the registry does. -/
def Agrees (raw : Word) : Prop :=
  decode raw = match Registry.lookup raw with
    | some e => .ok (Registry.instruction e raw)
    | none => .error .illegalInstruction

instance (raw : Word) : Decidable (Agrees decode raw) := by
  unfold Agrees
  infer_instance

/-- What is counted for some words. -/
def tally (raws : List Word) : Stats where
  legal := raws.countP fun raw => (Registry.lookup raw).isSome ∧ (decode raw).isOk
  illegal := raws.countP fun raw => Registry.lookup raw = none ∧ ¬(decode raw).isOk
  mismatches := raws.countP fun raw => ¬Agrees decode raw
  samples := (raws.filter fun raw => ¬Agrees decode raw).take maxSamples

/-- The encodings of 32 bits, by their upper 30. -/
def encoding (x : Nat) : Word := BitVec.ofNat 32 (4 * x + 3)

def encodings : List Word := (List.range total).map encoding

variable {decode}

theorem foldl_keep {samples raws : List Word} (few : samples.length ≤ maxSamples) :
    raws.foldl keep samples = (samples ++ raws).take maxSamples := by
  induction raws generalizing samples with
  | nil => rw [List.foldl_nil, List.append_nil, List.take_of_length_le few]
  | cons raw rest ih =>
      rw [List.foldl_cons, keep]
      split
      · rename_i room
        have few' : (samples ++ [raw]).length ≤ maxSamples := by
          rw [List.length_append, List.length_singleton]
          exact room
        rw [ih few', List.append_assoc, List.singleton_append]
      · rename_i full
        have all : samples.length = maxSamples := by omega
        rw [ih few, ← all, List.take_left, List.take_left]

theorem take_append_take {α : Type} (k : Nat) (xs ys : List α) :
    (xs.take k ++ ys.take k).take k = (xs ++ ys).take k := by
  have room : k - (xs.take k).length = k - xs.length := by
    rw [List.length_take]
    omega
  rw [List.take_append, List.take_append, List.take_take, List.take_take, room, min_self,
    min_eq_left (Nat.sub_le _ _)]

/-- **The counts of two passes are those of one**, and so are the samples. -/
theorem tally_append (raws raws' : List Word) :
    tally decode (raws ++ raws') = {
      legal := (tally decode raws).legal + (tally decode raws').legal
      illegal := (tally decode raws).illegal + (tally decode raws').illegal
      mismatches := (tally decode raws).mismatches + (tally decode raws').mismatches
      samples := (tally decode raws').samples.foldl keep (tally decode raws).samples } := by
  have few : (tally decode raws).samples.length ≤ maxSamples := List.length_take_le _ _
  rw [foldl_keep few]
  simp only [tally, List.countP_append, List.filter_append, take_append_take]

/-- No count is more than the number of words. -/
theorem tally_le (raws : List Word) : (tally decode raws).legal ≤ raws.length ∧
    (tally decode raws).illegal ≤ raws.length ∧ (tally decode raws).mismatches ≤ raws.length :=
  ⟨List.countP_le_length, List.countP_le_length, List.countP_le_length⟩

/-! ## A thread -/

theorem encoding_eq {x : Nat} (small : x < total) :
    (checkedCast 32 ((x <<< 2) % 2 ^ 64 ||| 0b11) : Checked Word) = .ok (encoding x) := by
  have bound : x < 2 ^ 30 := small
  have fits : x <<< 2 < 2 ^ 64 := by
    rw [Nat.shiftLeft_eq]
    omega
  have value : (x <<< 2) % 2 ^ 64 ||| 0b11 = 4 * x + 3 := by
    rw [Nat.mod_eq_of_lt fits, ← Nat.shiftLeft_add_eq_or_of_lt (by decide : 0b11 < 2 ^ 2),
      Nat.shiftLeft_eq]
    omega
  rw [value]
  exact checkedCast_ok (by omega)

/-- What is counted for one word. -/
theorem agrees_eq (raw : Word) {stats : Stats} (legal : stats.legal + 1 < 2 ^ 64)
    (illegal : stats.illegal + 1 < 2 ^ 64) :
    agrees decode raw stats = .ok (decide (Agrees decode raw),
      { stats with
        legal := stats.legal + (tally decode [raw]).legal
        illegal := stats.illegal + (tally decode [raw]).illegal }) := by
  have addLegal : (checkedAdd 64 stats.legal 1 : Checked Nat) = .ok _ := checkedAdd_ok legal
  have addIllegal : (checkedAdd 64 stats.illegal 1 : Checked Nat) = .ok _ := checkedAdd_ok illegal
  cases found : Registry.lookup raw with
  | none =>
      cases outcome : decode raw with
      | ok inst =>
          have differ : ¬Agrees decode raw := by simp [Agrees, found, outcome]
          simp [agrees, tally, found, outcome, differ, Except.isOk, Except.toBool]
      | error e =>
          cases e
          have same : Agrees decode raw := by simp [Agrees, found, outcome]
          simp [agrees, tally, found, outcome, same, addIllegal, Except.isOk, Except.toBool, bind,
            Except.bind, pure, Except.pure]
  | some e =>
      cases outcome : decode raw with
      | ok inst =>
          have same : Agrees decode raw ↔ inst = Registry.instruction e raw := by
            simp [Agrees, found, outcome]
          simp [agrees, tally, found, outcome, same, addLegal, Except.isOk, Except.toBool, bind,
            Except.bind, pure, Except.pure]
      | error f =>
          have differ : ¬Agrees decode raw := by simp [Agrees, found, outcome]
          simp [agrees, tally, found, outcome, differ, Except.isOk, Except.toBool]

/-- **A turn counts its encoding.** -/
theorem workerBody_tally {x : Nat} (small : x < total) {raws : List Word}
    (few : raws.length < total) :
    workerBody decode x (tally decode raws) =
      .ok (x + 1, tally decode (raws ++ [encoding x])) := by
  have bound : x < 2 ^ 30 := small
  have bound' : raws.length < 2 ^ 30 := few
  obtain ⟨legal, illegal, mismatches⟩ := @tally_le decode raws
  have next : (checkedAdd 64 x 1 : Checked Nat) = .ok (x + 1) := checkedAdd_ok (by omega)
  have more : (checkedAdd 64 (tally decode raws).mismatches 1 : Checked Nat) = .ok _ :=
    checkedAdd_ok (by omega)
  have counted := @agrees_eq decode (encoding x) (tally decode raws) (by omega) (by omega)
  rw [tally_append, workerBody, encoding_eq small]
  change (agrees decode (encoding x) (tally decode raws) >>= _) = _
  rw [counted]
  by_cases same : Agrees decode (encoding x)
  · have none : (tally decode [encoding x]).mismatches = 0 ∧
        (tally decode [encoding x]).samples = [] := by simp [tally, same]
    simp only [bind, Except.bind, decide_eq_true same, if_true, pure, Except.pure, next, none,
      Nat.add_zero, List.foldl_nil]
  · have one : (tally decode [encoding x]).mismatches = 1 ∧
        (tally decode [encoding x]).samples = [encoding x] := by simp [tally, same, maxSamples]
    simp only [bind, Except.bind, decide_eq_false same, Bool.false_eq_true, if_false, pure,
      Except.pure, more, next, one, List.foldl_cons, List.foldl_nil]

/-- The encodings from one number to another. -/
def encodingsFrom (start stop : Nat) : List Word := (List.range' start (stop - start)).map encoding

theorem length_encodingsFrom (start stop : Nat) :
    (encodingsFrom start stop).length = stop - start := by
  rw [encodingsFrom, List.length_map, List.length_range']

theorem encodingsFrom_succ {start x : Nat} (le : start ≤ x) :
    encodingsFrom start x ++ [encoding x] = encodingsFrom start (x + 1) := by
  have one : x + 1 - start = x - start + 1 := by omega
  rw [encodingsFrom, encodingsFrom, one, List.range'_concat, List.map_append, List.map_singleton,
    Nat.one_mul, Nat.add_sub_of_le le]

/-- **A thread alone counts its encodings**, by induction on those that are left. -/
theorem worker_ends {start stop : Nat} (inside : stop ≤ total) (x : Nat) (le : start ≤ x)
    (more : x ≤ stop) :
    Ends (workerTurn decode stop) (x, tally decode (encodingsFrom start x))
      (.ok (tally decode (encodingsFrom start stop))) := by
  induction left : stop - x generalizing x with
  | zero =>
      have last : x = stop := by omega
      subst last
      refine ends_of_done ?_
      rw [workerTurn, if_neg (Nat.lt_irrefl x)]
  | succ left' ih =>
      have below : x < stop := by omega
      have few : (encodingsFrom start x).length < total := by
        rw [length_encodingsFrom]
        omega
      refine ends_of_again ?_ (ih (x + 1) (by omega) below (by omega))
      rw [workerTurn, if_pos below, workerBody_tally (by omega) few, encodingsFrom_succ le]

/-! ## The threads together -/

theorem bounds_le {threads t : Nat} (listed : t < threads) :
    (bounds threads t).1 ≤ (bounds threads t).2 ∧ (bounds threads t).2 ≤ total := by
  have whole : threads * (total / threads) ≤ total := Nat.mul_div_le total threads
  have upTo : (t + 1) * (total / threads) ≤ threads * (total / threads) :=
    Nat.mul_le_mul_right _ listed
  have front : t * (total / threads) ≤ (t + 1) * (total / threads) :=
    Nat.mul_le_mul_right _ (Nat.le_succ t)
  unfold bounds
  dsimp only
  split <;> omega

/-- What a thread is to look at. -/
def part (threads t : Nat) : List Word :=
  encodingsFrom (bounds threads t).1 (bounds threads t).2

theorem encodingsFrom_append {start middle stop : Nat} (le : start ≤ middle) (le' : middle ≤ stop) :
    encodingsFrom start middle ++ encodingsFrom middle stop = encodingsFrom start stop := by
  have sum : stop - start = (middle - start) + (stop - middle) := by omega
  have next : List.range' (start + (middle - start)) (stop - middle) =
      List.range' middle (stop - middle) := by
    rw [Nat.add_sub_of_le le]
  rw [encodingsFrom, encodingsFrom, encodingsFrom, sum, ← List.map_append, ← next,
    List.range'_append_1]

/-- **Every encoding is looked at once**: the parts of the threads, one after the other, are all
the encodings. -/
theorem flatten_parts {threads : Nat} (some : 0 < threads) :
    ((List.range threads).map (part threads)).flatten = encodings := by
  have front : ∀ t < threads, ((List.range t).map (part threads)).flatten =
      encodingsFrom 0 (bounds threads t).1 := by
    intro t
    induction t with
    | zero => simp [bounds, encodingsFrom]
    | succ t ih =>
        intro listed
        have notLast : t + 1 ≠ threads := by omega
        have meets : (bounds threads t).2 = (bounds threads (t + 1)).1 := by
          simp only [bounds, if_neg notLast]
        have order := (@bounds_le threads t (by omega)).1
        rw [List.range_succ, List.map_append, List.flatten_append, ih (by omega),
          List.map_singleton, List.flatten_singleton, part,
          encodingsFrom_append (Nat.zero_le _) order, meets]
  obtain ⟨last, rfl⟩ : ∃ last, threads = last + 1 := ⟨threads - 1, by omega⟩
  have ends : (bounds (last + 1) last).2 = total := by simp only [bounds, if_true]
  have order := (@bounds_le (last + 1) last (by omega)).1
  rw [List.range_succ, List.map_append, List.flatten_append, front last (by omega),
    List.map_singleton, List.flatten_singleton, part, encodingsFrom_append (Nat.zero_le _) order,
    ends, encodingsFrom, encodings, List.range_eq_range']
  rfl

/-- The counts of passes are added up to those of one, by induction on the passes. -/
theorem collect_tally (parts : List (List Word)) (before : List Word)
    (small : (before ++ parts.flatten).length < 2 ^ 64) :
    (parts.map fun raws => (.ok (tally decode raws) : Checked Stats)).foldlM
        (fun sum s => do add sum (← s)) (tally decode before) =
      .ok (tally decode (before ++ parts.flatten)) := by
  induction parts generalizing before with
  | nil => simp [pure, Except.pure]
  | cons raws rest ih =>
      rw [List.flatten_cons, ← List.append_assoc] at small ⊢
      have few : before.length + raws.length < 2 ^ 64 := by
        rw [List.length_append, List.length_append] at small
        omega
      obtain ⟨legal, illegal, mismatches⟩ := @tally_le decode before
      obtain ⟨legal', illegal', mismatches'⟩ := @tally_le decode raws
      have added : add (tally decode before) (tally decode raws) =
          .ok (tally decode (before ++ raws)) := by
        rw [tally_append]
        exact bind_eq_ok.2 ⟨_, checkedAdd_ok (by omega), bind_eq_ok.2 ⟨_, checkedAdd_ok (by omega),
          bind_eq_ok.2 ⟨_, checkedAdd_ok (by omega), rfl⟩⟩⟩
      rw [List.map_cons, List.foldlM_cons]
      refine Eq.trans ?_ (ih (before ++ raws) small)
      change (add _ _ >>= _) = _
      rw [added]
      rfl

theorem length_encodings : encodings.length = total := by
  rw [encodings, List.length_map, List.length_range]

/-- A thread alone. -/
theorem thread_ends {threads t : Nat} (listed : t < threads) :
    Ends (workerTurn decode (bounds threads t).2) ((bounds threads t).1, {})
      (.ok (tally decode (part threads t))) := by
  obtain ⟨order, inside⟩ := bounds_le listed
  have alone := @worker_ends decode _ _ inside _ (Nat.le_refl _) order
  have start : tally decode (encodingsFrom (bounds threads t).1 (bounds threads t).1) = {} := by
    simp [encodingsFrom, tally]
  rwa [start] at alone

/-- What a thread returns, in whatever order the threads took their turns. -/
theorem returns_tally {threads k : Nat}
    {joined : Fin threads → Thread (Nat × Stats) (Checked Stats)}
    (schedule : Schedule decode threads k joined) {t : Fin threads} {r : Checked Stats}
    (returned : joined t = .finished r) : r = .ok (tally decode (part threads t)) := by
  have leaves := (schedule.leaves t _).2 (thread_ends t.isLt)
  rw [returned] at leaves
  exact leaves

theorem threadCount_pos {cpuCount : Option Nat} (counted : cpuCount ≠ some 0) :
    0 < threadCount cpuCount := by
  cases cpuCount with
  | none => decide
  | some cpus =>
      have some : cpus ≠ 0 := fun none => counted (by rw [none])
      simp only [threadCount, Option.getD_some]
      omega

/-- **In whatever order the threads take their turns, the report is that of one pass over all
encodings.** -/
theorem checks_iff {cpuCount : Option Nat} (counted : cpuCount ≠ some 0)
    {outcome : Checked Outcome} :
    Checks decode cpuCount outcome ↔
      outcome = report decode (threadCount cpuCount) (tally decode encodings) := by
  have some := threadCount_pos counted
  have passed : ∀ sum, ((.ok sum : Checked Stats) >>= report decode (threadCount cpuCount)) =
      report decode (threadCount cpuCount) sum := fun _ => rfl
  have collected : ∀ stats : Fin (threadCount cpuCount) → Checked Stats,
      (∀ t, stats t = .ok (tally decode (part (threadCount cpuCount) t))) →
      (List.ofFn stats).foldlM (fun sum s => do add sum (← s)) ({} : Stats) =
        .ok (tally decode encodings) := by
    intro stats each
    have shape : List.ofFn stats = ((List.range (threadCount cpuCount)).map
        (part (threadCount cpuCount))).map fun raws => .ok (tally decode raws) := by
      rw [List.map_map, ← List.map_coe_finRange_eq_range, List.map_map, List.ofFn_eq_map]
      exact List.map_congr_left fun t _ => each t
    have sum := @collect_tally decode
      ((List.range (threadCount cpuCount)).map (part (threadCount cpuCount))) []
      (by rw [List.nil_append, flatten_parts some, length_encodings]; decide)
    rw [List.nil_append, flatten_parts some] at sum
    rw [shape]
    exact sum
  unfold Checks
  dsimp only
  rw [if_neg (by omega)]
  constructor
  · rintro ⟨k, joined, stats, schedule, returned, same⟩
    rw [same, collected stats fun t => returns_tally schedule (returned t), passed]
  · intro same
    have ends : ∀ t : Fin (threadCount cpuCount),
        Ends (workerTurn decode (bounds (threadCount cpuCount) t).2)
          ((bounds (threadCount cpuCount) t).1, {})
          (.ok (tally decode (part (threadCount cpuCount) t))) := by
      intro t
      exact thread_ends t.isLt
    obtain ⟨k, joined⟩ := exists_joined (fun t : Fin (threadCount cpuCount) =>
      workerTurn decode (bounds (threadCount cpuCount) t).2)
      (fun t => .running ((bounds (threadCount cpuCount) t).1, {})) ends
    refine ⟨k, _, _, joined, fun _ => rfl, ?_⟩
    rw [same, collected _ fun _ => rfl, passed]

/-! ## The report -/

/-- Both accept the word, but as different instructions. Such a word is counted twice. -/
def Confused (decode : Word → Except DecodeError Instruction) (raw : Word) : Prop :=
  (Registry.lookup raw).isSome ∧ (decode raw).isOk ∧ ¬Agrees decode raw

instance (raw : Word) : Decidable (Confused decode raw) := by
  unfold Confused
  infer_instance

/-- Every word is counted once, or twice. -/
theorem counted_once (raws : List Word) :
    (tally decode raws).legal + (tally decode raws).illegal + (tally decode raws).mismatches =
      raws.length + raws.countP fun raw => Confused decode raw := by
  induction raws with
  | nil => rfl
  | cons raw rest ih =>
      have one : (tally decode [raw]).legal + (tally decode [raw]).illegal +
          (tally decode [raw]).mismatches = 1 + if Confused decode raw then 1 else 0 := by
        cases found : Registry.lookup raw with
        | none =>
            cases outcome : decode raw with
            | ok inst => simp [tally, Confused, Agrees, found, outcome, Except.isOk, Except.toBool]
            | error e =>
                cases e
                simp [tally, Confused, Agrees, found, outcome, Except.isOk, Except.toBool]
        | some e =>
            cases outcome : decode raw with
            | ok inst => simp [tally, Confused, Agrees, found, outcome, Except.isOk, Except.toBool]
            | error f => simp [tally, Confused, Agrees, found, outcome, Except.isOk, Except.toBool]
      have split := @tally_append decode [raw] rest
      rw [List.singleton_append] at split
      rw [split, List.length_cons, List.countP_cons]
      dsimp only
      simp only [decide_eq_true_eq]
      omega

theorem mem_encodings {raw : Word} : raw ∈ encodings ↔ raw &&& 0b11#32 = 0b11#32 := by
  have low : raw &&& 0b11#32 = 0b11#32 ↔ raw.toNat % 4 = 3 := by
    rw [← BitVec.toNat_inj, BitVec.toNat_and]
    have mask : raw.toNat &&& (0b11#32).toNat = raw.toNat % 4 :=
      Nat.and_two_pow_sub_one_eq_mod raw.toNat 2
    rw [mask]
    rfl
  have bound := raw.isLt
  rw [low, encodings, List.mem_map]
  constructor
  · rintro ⟨x, _, rfl⟩
    rw [encoding, BitVec.toNat_ofNat]
    omega
  · intro three
    refine ⟨raw.toNat / 4, List.mem_range.2 ?_, ?_⟩
    · change raw.toNat / 4 < 2 ^ 30
      omega
    · have whole : 4 * (raw.toNat / 4) + 3 = raw.toNat := by omega
      rw [encoding, whole, BitVec.ofNat_toNat, BitVec.setWidth_eq]

theorem mismatches_eq_zero {raws : List Word} :
    (tally decode raws).mismatches = 0 ↔ ∀ raw ∈ raws, Agrees decode raw := by
  unfold tally
  simp only [List.countP_eq_zero, decide_eq_true_eq, Decidable.not_not]

theorem tally_samples (raws : List Word) : (tally decode raws).samples =
    (raws.filter fun raw => ¬Agrees decode raw).take maxSamples := rfl

theorem samples_eq_nil {raws : List Word} (none : (tally decode raws).mismatches = 0) :
    (tally decode raws).samples = [] := by
  have all := mismatches_eq_zero.1 none
  have empty : raws.filter (fun raw => ¬Agrees decode raw) = [] :=
    List.filter_eq_nil_iff.2 fun raw listed => by simpa using all raw listed
  rw [tally_samples, empty, List.take_nil]

/-- What is reported about some counts. -/
theorem report_eq (threads : Nat) {sum : Stats}
    (small : sum.legal + sum.illegal + sum.mismatches < 2 ^ 64) :
    ∃ o, report decode threads sum = .ok o ∧
      (o.exit = 0#8 ↔ sum.legal + sum.illegal + sum.mismatches = total ∧ sum.mismatches = 0) ∧
      (sum.legal + sum.illegal + sum.mismatches = total → (sum.mismatches = 0 → sum.samples = []) →
        o.stderr = summary threads sum ++ sum.samples.flatMap (mismatchLine decode)) ∧
      (sum.legal + sum.illegal + sum.mismatches ≠ total → o.stderr = summary threads sum ++
        countError (sum.legal + sum.illegal + sum.mismatches)) := by
  have first : (checkedAdd 64 sum.legal sum.illegal : Checked Nat) = .ok _ :=
    checkedAdd_ok (by omega)
  have second : (checkedAdd 64 (sum.legal + sum.illegal) sum.mismatches : Checked Nat) = .ok _ :=
    checkedAdd_ok small
  simp only [report, first, second, bind, Except.bind]
  by_cases all : sum.legal + sum.illegal + sum.mismatches = total
  · by_cases none : sum.mismatches = 0
    · refine ⟨_, by rw [if_neg (not_not.2 all), if_neg (not_not.2 none)]; rfl,
        iff_of_true rfl ⟨all, none⟩, ?_, fun other => absurd all other⟩
      intro _ empty
      rw [empty none, List.flatMap_nil, List.append_nil]
    · exact ⟨_, by rw [if_neg (not_not.2 all), if_pos none]; rfl, by simp [none], fun _ _ => rfl,
        fun other => absurd all other⟩
  · exact ⟨_, by rw [if_pos all]; rfl, by simp [all], fun counted => absurd counted all,
      fun _ => rfl⟩

/-- **The tool finds out whether a decoder meets the registry, in whatever order its threads take
their turns**, if they can be started. It comes to an end; it has one outcome; it succeeds exactly
if the decoder says about every encoding what the registry does. Otherwise it lists the first
mismatches, unless the decoder confuses instructions: then the counts do not add up, since every
encoding that is confused is counted twice, and it says so. -/
theorem verifies (decode : Word → Except DecodeError Instruction) {cpuCount : Option Nat}
    (counted : cpuCount ≠ some 0) :
    (∃ limit, ∀ k joined, Schedule decode (threadCount cpuCount) k joined → k ≤ limit) ∧
      ∃ o, (∀ outcome, Checks decode cpuCount outcome ↔ outcome = .ok o) ∧
        (o.exit = 0#8 ↔ ∀ raw, raw &&& 0b11#32 = 0b11#32 → Agrees decode raw) ∧
        ((∀ raw, raw &&& 0b11#32 = 0b11#32 → ¬Confused decode raw) →
          o.stderr = summary (threadCount cpuCount) (tally decode encodings) ++
            ((encodings.filter fun raw => ¬Agrees decode raw).take maxSamples).flatMap
              (mismatchLine decode)) ∧
        ((∃ raw, raw &&& 0b11#32 = 0b11#32 ∧ Confused decode raw) →
          o.stderr = summary (threadCount cpuCount) (tally decode encodings) ++
            countError (total + encodings.countP fun raw => Confused decode raw)) := by
  constructor
  · have within : ∀ t : Fin (threadCount cpuCount), ∃ fuel,
        (Thread.running ((bounds (threadCount cpuCount) t).1, {})).Within
          (workerTurn decode (bounds (threadCount cpuCount) t).2) fuel := by
      intro t
      have leaves : (Thread.running ((bounds (threadCount cpuCount) t).1, {})).Leaves
          (workerTurn decode (bounds (threadCount cpuCount) t).2) _ := thread_ends t.isLt
      exact leaves.within
    choose fuel within using within
    exact ⟨∑ t, fuel t, fun k joined schedule => schedule.bounded within⟩
  · have size : total = 2 ^ 30 := rfl
    have once := @counted_once decode encodings
    have twice : (encodings.countP fun raw => Confused decode raw) ≤ encodings.length :=
      List.countP_le_length
    rw [length_encodings] at once twice
    obtain ⟨o, reported, succeeds, lists, complains⟩ := @report_eq decode (threadCount cpuCount)
      (tally decode encodings) (by omega)
    have all : (tally decode encodings).mismatches = 0 ↔
        ∀ raw, raw &&& 0b11#32 = 0b11#32 → Agrees decode raw := by
      rw [mismatches_eq_zero]
      simp only [mem_encodings]
    have none : (encodings.countP fun raw => Confused decode raw) = 0 ↔
        ∀ raw, raw &&& 0b11#32 = 0b11#32 → ¬Confused decode raw := by
      simp only [List.countP_eq_zero, decide_eq_true_eq, mem_encodings]
    refine ⟨o, fun outcome => ?_, ?_, fun clear => ?_, ?_⟩
    · rw [checks_iff counted, reported]
    · rw [succeeds, ← all]
      refine ⟨And.right, fun meets => ⟨?_, meets⟩⟩
      have clear := none.2 fun raw low confused => confused.2.2 (all.1 meets raw low)
      omega
    · have sum := none.2 clear
      rw [← tally_samples]
      exact lists (by omega) samples_eq_nil
    · rintro ⟨raw, low, confused⟩
      have some : (encodings.countP fun raw => Confused decode raw) ≠ 0 :=
        fun zero => none.1 zero raw low confused
      rw [← once]
      exact complains (by omega)

/-- The decoder of the VM, with four threads, passes. -/
theorem verifies_four :
    ∃ o, (∀ outcome, Checks Determinant.decode none outcome ↔ outcome = .ok o) ∧
      o.exit = 0#8 := by
  obtain ⟨_, o, checks, succeeds, _⟩ := @verifies Determinant.decode none (by decide)
  refine ⟨o, checks, succeeds.2 fun raw low => ?_⟩
  exact Registry.decode_eq_lookup (by simp [isCompressed, low])

end VerifyDecoder

end Determinant
