import Determinant.Cli.TraceLine
import Determinant.Foundations.Differences
import Determinant.Foundations.Digits
import Determinant.Tools.SpikeRunner

/-!
# The trace of a job

With `--trace` the tool prints a line for every instruction that retires, with everything that is
not as before, and at last how the job ended. The script that compares traces reads the lines back
(`readTrace`). It gets what was written (`readStep_line`), and nothing is missing from it: the
steps, applied one after the other to the state at the start, lead to the state at the end
(`trace_reproduces`).
-/

set_option autoImplicit false

namespace Determinant

open Foundations
open VerifyDecoder (wordDigits)

namespace SpikeRunner

variable {o : Options} {n : MemSize}

/-! ## Writing -/

/-- A word of memory. -/
def wordAt (m : Machine n) (k : Fin (n.bytes / 4)) : Word :=
  readInt 32 (slice m.memory (4 * k) 4 (by have := k.isLt; omega))

/-- All registers but x0. -/
def shownRegs : List Reg := (List.range 31).map fun i => BitVec.ofNat 5 (i + 1)

def registerChanges (before after : Machine n) : List (Reg × Word) :=
  differences shownRegs before.regs after.regs

/-- The words of memory are compared if any byte is not as before. -/
def memoryChanges (before after : Machine n) : List (Fin (n.bytes / 4) × Word) :=
  if after.memory = before.memory then []
  else differences (List.finRange (n.bytes / 4)) (wordAt before) (wordAt after)

def equation (key value : List Byte) : List Byte := key ++ equalsSign :: value

def registerText (change : Reg × Word) : List Byte :=
  equation (ascii "x" ++ decimal change.1.toNat) (wordDigits change.2)

def memoryText (change : Fin (n.bytes / 4) × Word) : List Byte :=
  equation (ascii "mem[" ++ wordDigits (BitVec.ofNat 32 (4 * change.1)) ++ ascii "]")
    (wordDigits change.2)

/-- What is not as before. -/
def changeTexts (before after : Machine n) : List (List Byte) :=
  (registerChanges before after).map registerText ++
    (if after.csrs.mscratch = before.csrs.mscratch then []
      else [equation (ascii "mscratch") (wordDigits after.csrs.mscratch)]) ++
    (memoryChanges before after).map memoryText ++
    (if after.reservation = before.reservation then []
      else [equation (ascii "resv") (reservationText after.reservation)])

/-- The line of an instruction. -/
def traceLine (before : Machine n) (raw : Word) (after : Machine n) : List Byte :=
  wordDigits before.pc ++ space :: wordDigits raw ++
    (changeTexts before after).flatMap fun text => space :: text

/-- One turn of the loop. The state is the VM and what was printed. -/
def traceTurn (maxSteps : Count) :
    Vm o n × List Byte → Turn (Vm o n × List Byte) (String × Vm o n × List Byte)
  | (vm, text) =>
      if vm.cycleCount < maxSteps then
        let raw := vm.fetch.toOption.getD 0#32
        let line := fun vm' : Vm o n => traceLine vm.toMachine raw vm'.toMachine ++ [newline]
        match Vm.step vm with
        | .error e vm' => .done (statusName (.error e), vm', text)
        | .ok .continue vm' => .again (vm', text ++ line vm')
        | .ok result vm' => .done (statusName (.ok result), vm', text ++ line vm')
      else .done ("limit", vm, text)

/-- The last line. -/
def endLine (status : String) (pc : Word) : List Byte :=
  ascii "end" ++ space :: ascii status ++ space :: wordDigits pc

/-- `traceJob` prints a text, or fails. -/
def TracesJob (bin : List Byte) (load entry : Word) (maxSteps : Count)
    (outcome : Except Error (List Byte)) : Prop :=
  match (startVm load entry bin : Except Error (Vm cached memSize)) with
  | .error e => outcome = .error e
  | .ok vm => ∃ status vm' text, Ends (traceTurn maxSteps) (vm, []) (status, vm', text) ∧
      outcome = .ok (text ++ endLine status vm'.pc ++ [newline])

/-! ## Reading -/

/-- A step as the script has it. -/
structure TraceStep where
  pc : Nat
  raw : Nat
  regs : List (Nat × Nat) := []
  mscratch : Option Nat := none
  mem : List (Nat × Nat) := []
  resv : Option (List Byte) := none
deriving DecidableEq, Repr

/-- What separates the tokens of a line. -/
def whitespace : List Byte :=
  [space, 0x09#8, newline, 0x0B#8, 0x0C#8, 0x0D#8, 0x1C#8, 0x1D#8, 0x1E#8, 0x1F#8]

/-- `int` of a text. The texts with a sign, a prefix or an underscore are left out: there are none
in a trace. -/
def intOf (base : Nat) (text : List Byte) : Option Nat :=
  if !text.isEmpty && text.all fun c => (charToDigit base c).isSome then
    some (readNumber base text)
  else none

/-- A token with a key and a value. -/
def readToken (step : TraceStep) (token : List Byte) : Option TraceStep :=
  match token.splitOn equalsSign with
  | [key, value] =>
      if key.head? = some 0x78#8 then do
        let reg ← intOf 10 (key.drop 1)
        let word ← intOf 16 value
        return { step with regs := step.regs ++ [(reg, word)] }
      else if key = ascii "mscratch" then do
        let word ← intOf 16 value
        return { step with mscratch := some word }
      else if key.take 4 = ascii "mem[" then do
        let address ← intOf 16 (key.drop 4).dropLast
        let word ← intOf 16 value
        return { step with mem := step.mem ++ [(address, word)] }
      else if key = ascii "resv" then some { step with resv := some value }
      else some step
  | _ => none

def readStep : List (List Byte) → Option TraceStep
  | pc :: raw :: rest => do
      let pc ← intOf 16 pc
      let raw ← intOf 16 raw
      rest.foldlM readToken { pc, raw }
  | _ => none

/-- `det_trace`: the steps of a trace, and how it ended. -/
def readTrace : List (List Byte) → Option (List TraceStep × Option (List Byte × Nat))
  | [] => some ([], none)
  | line :: rest =>
      match tokens whitespace line with
      | [] => none
      | first :: more =>
          if first = ascii "end" then
            match more with
            | status :: pc :: _ => (intOf 16 pc).map fun pc => ([], some (status, pc))
            | _ => none
          else do
            let step ← readStep (first :: more)
            let (steps, stop) ← readTrace rest
            return (step :: steps, stop)

/-! ## Tokens -/

/-- A text that is a single token. -/
def IsToken (text : List Byte) : Prop := text ≠ [] ∧ ∀ c ∈ text, c ∉ whitespace

/-- What separates tokens comes no later than the space in the order of bytes. -/
theorem isToken_of_above {text : List Byte} (nonempty : text ≠ [])
    (above : text.all (fun c => space.toNat < c.toNat) = true) : IsToken text := by
  have below : ∀ b ∈ whitespace, b.toNat ≤ space.toNat := by decide
  refine ⟨nonempty, fun c listed blank => ?_⟩
  have order := of_decide_eq_true (List.all_eq_true.1 above c listed)
  have := below c blank
  omega

theorem isToken_end : IsToken (ascii "end") :=
  isToken_of_above (by decide) (by decide)

theorem IsToken.append {text text' : List Byte} (first : IsToken text) (second : IsToken text') :
    IsToken (text ++ text') := by
  refine ⟨by simp [first.1], fun c listed => ?_⟩
  rcases List.mem_append.1 listed with front | back
  · exact first.2 c front
  · exact second.2 c back

theorem IsToken.equation {key value : List Byte} (first : IsToken key) (second : IsToken value) :
    IsToken (equation key value) := by
  have sign : IsToken [equalsSign] := isToken_of_above (by decide) (by decide)
  exact first.append (sign.append second)

theorem not_mem_whitespace {c : Byte} (digit : isHexDigit c = true) : c ∉ whitespace := by
  intro listed
  simp only [whitespace, List.mem_cons, List.not_mem_nil, or_false] at listed
  rcases listed with rfl | rfl | rfl | rfl | rfl | rfl | rfl | rfl | rfl | rfl <;>
    exact absurd digit (by decide)

theorem isToken_wordDigits (w : Word) : IsToken (wordDigits w) := by
  refine ⟨?_, fun c listed => not_mem_whitespace (isHexDigit_of_mem_padded listed)⟩
  intro empty
  have none := congrArg List.length empty
  rw [wordDigits, List.length_leftpad, List.length_nil] at none
  omega

theorem isToken_decimal (k : Nat) : IsToken (decimal k) :=
  ⟨decimal_ne_nil k, fun _ listed => not_mem_whitespace
    (isSome_charToDigit_of_mem_digits (by decide) listed (by decide) (by decide))⟩

/-- **Tokens with spaces in front of them are taken apart**, by induction on them. -/
theorem tokens_eq {first : List Byte} {rest : List (List Byte)} (token : IsToken first)
    (each : ∀ text ∈ rest, IsToken text) :
    tokens whitespace (first ++ rest.flatMap fun text => space :: text) = first :: rest := by
  have plain : ∀ {text : List Byte}, IsToken text →
      ∀ c ∈ text, (whitespace.contains c) = false := by
    intro text token c listed
    simpa using token.2 c listed
  have kept : ∀ {text : List Byte}, IsToken text → ∀ rest : List (List Byte),
      (text :: rest).filter (fun token => !token.isEmpty) =
        text :: rest.filter fun token => !token.isEmpty := by
    intro text token rest
    simp [token.1]
  unfold tokens
  induction rest generalizing first with
  | nil =>
      rw [List.flatMap_nil, List.append_nil, List.splitOnP_eq_singleton (plain token),
        kept token, List.filter_nil]
  | cons text rest ih =>
      have next := ih (each text (by simp)) fun text listed => each text (by simp [listed])
      rw [List.flatMap_cons, List.cons_append,
        List.splitOnP_append_cons_of_forall_mem (plain token) space (by decide),
        kept token, next]

theorem intOf_digits {base : Nat} {text : List Byte} (nonempty : text ≠ [])
    (digits : ∀ c ∈ text, (charToDigit base c).isSome) :
    intOf base text = some (readNumber base text) := by
  rw [intOf, if_pos]
  rw [Bool.and_eq_true, List.all_eq_true]
  exact ⟨by simpa using nonempty, digits⟩

theorem intOf_wordDigits (w : Word) : intOf 16 (wordDigits w) = some w.toNat := by
  rw [intOf_digits (isToken_wordDigits w).1 fun _ listed => isHexDigit_of_mem_padded listed]
  exact congrArg some (readNumber_padded 8 w.toNat)

theorem intOf_decimal (k : Nat) : intOf 10 (decimal k) = some k := by
  rw [intOf_digits (decimal_ne_nil k) fun _ listed =>
    isSome_charToDigit_of_mem_digits (by decide) listed (by decide) (by decide)]
  exact congrArg some (readNumber_digits (by decide) (by decide) k)

/-- A word in digits is no text with another byte in it. -/
theorem wordDigits_ne {w : Word} {text : List Byte} {c : Byte} (listed : c ∈ text)
    (other : isHexDigit c = false) : wordDigits w ≠ text := by
  rintro rfl
  have digit := isHexDigit_of_mem_padded listed
  rw [other] at digit
  cases digit

/-! ## Reading back -/

/-- What the script takes from the line of an instruction. -/
def stepOf (before : Machine n) (raw : Word) (after : Machine n) : TraceStep where
  pc := before.pc.toNat
  raw := raw.toNat
  regs := (registerChanges before after).map fun change => (change.1.toNat, change.2.toNat)
  mscratch :=
    if after.csrs.mscratch = before.csrs.mscratch then none else some after.csrs.mscratch.toNat
  mem := (memoryChanges before after).map fun change => (4 * change.1.val, change.2.toNat)
  resv :=
    if after.reservation = before.reservation then none
    else some (reservationText after.reservation)

theorem splitOn_equation {key value : List Byte} (plain : equalsSign ∉ key)
    (plain' : equalsSign ∉ value) : (equation key value).splitOn equalsSign = [key, value] := by
  rw [equation, List.splitOn_append_cons_self_of_not_mem plain, List.splitOn_eq_singleton plain']

theorem equalsSign_not_mem_wordDigits (w : Word) : equalsSign ∉ wordDigits w := by
  intro listed
  exact absurd (isHexDigit_of_mem_padded listed) (by decide)

theorem readToken_register (step : TraceStep) (change : Reg × Word) :
    readToken step (registerText change) =
      some { step with regs := step.regs ++ [(change.1.toNat, change.2.toNat)] } := by
  have plain : equalsSign ∉ ascii "x" ++ decimal change.1.toNat := by
    rw [List.mem_append, not_or]
    refine ⟨by decide, fun listed => ?_⟩
    have digit : (charToDigit 16 equalsSign).isSome :=
      isSome_charToDigit_of_mem_digits (by decide) listed (by decide) (by decide)
    exact absurd digit (by decide)
  have head : (ascii "x" ++ decimal change.1.toNat).head? = some 0x78#8 := rfl
  have tail : (ascii "x" ++ decimal change.1.toNat).drop 1 = decimal change.1.toNat := rfl
  rw [readToken, registerText, splitOn_equation plain (equalsSign_not_mem_wordDigits _)]
  dsimp only
  rw [if_pos head, tail, intOf_decimal, intOf_wordDigits]
  rfl

theorem readToken_mscratch (step : TraceStep) (value : Word) :
    readToken step (equation (ascii "mscratch") (wordDigits value)) =
      some { step with mscratch := some value.toNat } := by
  rw [readToken, splitOn_equation (by decide) (equalsSign_not_mem_wordDigits _)]
  dsimp only
  rw [if_neg (by decide), if_pos rfl, intOf_wordDigits]
  rfl

theorem readToken_memory (step : TraceStep) (change : Fin (n.bytes / 4) × Word) :
    readToken step (memoryText change) =
      some { step with mem := step.mem ++ [(4 * change.1.val, change.2.toNat)] } := by
  obtain ⟨k, value⟩ := change
  have bound : 4 * k.val < 2 ^ 32 := by
    have := k.isLt
    have := n.valid.2.2
    omega
  let digits := wordDigits (BitVec.ofNat 32 (4 * k.val))
  have plain : equalsSign ∉ ascii "mem[" ++ digits ++ ascii "]" := by
    rw [List.mem_append, List.mem_append, not_or, not_or]
    exact ⟨⟨by decide, equalsSign_not_mem_wordDigits _⟩, by decide⟩
  have head : (ascii "mem[" ++ digits ++ ascii "]").head? ≠ some 0x78#8 := by
    have first : (ascii "mem[" ++ digits ++ ascii "]").head? = some 0x6D#8 := rfl
    rw [first]
    decide
  have other : ascii "mem[" ++ digits ++ ascii "]" ≠ ascii "mscratch" := by
    intro same
    have second : (ascii "mem[" ++ digits ++ ascii "]")[1]? = some 0x65#8 := rfl
    rw [same] at second
    exact absurd second (by decide)
  have front : (ascii "mem[" ++ digits ++ ascii "]").take 4 = ascii "mem[" := rfl
  have inner : ((ascii "mem[" ++ digits ++ ascii "]").drop 4).dropLast = digits := by
    have dropped : (ascii "mem[" ++ digits ++ ascii "]").drop 4 = digits ++ [0x5D#8] := rfl
    rw [dropped, List.dropLast_concat]
  rw [readToken, memoryText, splitOn_equation plain (equalsSign_not_mem_wordDigits _)]
  dsimp only
  rw [if_neg head, if_neg other, if_pos front, inner, intOf_wordDigits, intOf_wordDigits,
    BitVec.toNat_ofNat, Nat.mod_eq_of_lt bound]
  rfl

theorem equalsSign_not_mem_reservation (res : Option Word) :
    equalsSign ∉ reservationText res := by
  cases res with
  | some res => exact equalsSign_not_mem_wordDigits res
  | none => decide

theorem readToken_reservation (step : TraceStep) (res : Option Word) :
    readToken step (equation (ascii "resv") (reservationText res)) =
      some { step with resv := some (reservationText res) } := by
  rw [readToken, splitOn_equation (by decide) (equalsSign_not_mem_reservation res)]
  dsimp only
  rw [if_neg (by decide), if_neg (by decide), if_neg (by decide), if_pos rfl]

theorem readTokens_registers (step : TraceStep) (changes : List (Reg × Word)) :
    (changes.map registerText).foldlM readToken step =
      some { step with
        regs := step.regs ++ changes.map fun change => (change.1.toNat, change.2.toNat) } := by
  induction changes generalizing step with
  | nil => simp
  | cons change rest ih =>
      rw [List.map_cons, List.foldlM_cons, readToken_register, Option.bind_eq_bind,
        Option.bind_some, ih]
      simp

theorem readTokens_memory (step : TraceStep) (changes : List (Fin (n.bytes / 4) × Word)) :
    (changes.map memoryText).foldlM readToken step =
      some { step with
        mem := step.mem ++ changes.map fun change => (4 * change.1.val, change.2.toNat) } := by
  induction changes generalizing step with
  | nil => simp
  | cons change rest ih =>
      rw [List.map_cons, List.foldlM_cons, readToken_memory, Option.bind_eq_bind,
        Option.bind_some, ih]
      simp

/-- **The script gets what was written.** -/
theorem readStep_line (before : Machine n) (raw : Word) (after : Machine n) :
    readStep (wordDigits before.pc :: wordDigits raw :: changeTexts before after) =
      some (stepOf before raw after) := by
  have scratch : ∀ step : TraceStep, (if after.csrs.mscratch = before.csrs.mscratch then []
      else [equation (ascii "mscratch") (wordDigits after.csrs.mscratch)]).foldlM readToken step =
      some { step with
        mscratch := if after.csrs.mscratch = before.csrs.mscratch then step.mscratch
          else some after.csrs.mscratch.toNat } := by
    intro step
    split
    · rfl
    · rw [List.foldlM_cons, readToken_mscratch]
      rfl
  have reserved : ∀ step : TraceStep, (if after.reservation = before.reservation then []
      else [equation (ascii "resv") (reservationText after.reservation)]).foldlM readToken step =
      some { step with
        resv := if after.reservation = before.reservation then step.resv
          else some (reservationText after.reservation) } := by
    intro step
    split
    · rfl
    · rw [List.foldlM_cons, readToken_reservation]
      rfl
  rw [readStep, intOf_wordDigits, intOf_wordDigits, changeTexts]
  simp only [Option.bind_eq_bind, Option.bind_some, List.foldlM_append, readTokens_registers,
    scratch, readTokens_memory, reserved, stepOf, List.nil_append]

theorem isToken_changes (before after : Machine n) :
    ∀ text ∈ changeTexts before after, IsToken text := by
  have reserved : ∀ res, IsToken (reservationText res) := by
    intro res
    cases res with
    | some res => exact isToken_wordDigits res
    | none => exact isToken_of_above (by decide) (by decide)
  intro text listed
  simp only [changeTexts, List.mem_append, List.mem_map] at listed
  rcases listed with ((⟨change, _, rfl⟩ | listed) | ⟨change, _, rfl⟩) | listed
  · have key : IsToken (ascii "x") := isToken_of_above (by decide) (by decide)
    exact (key.append (isToken_decimal _)).equation (isToken_wordDigits _)
  · split at listed
    · cases listed
    · cases List.mem_singleton.1 listed
      have key : IsToken (ascii "mscratch") := isToken_of_above (by decide) (by decide)
      exact key.equation (isToken_wordDigits _)
  · have key : IsToken (ascii "mem[") := isToken_of_above (by decide) (by decide)
    have bracket : IsToken (ascii "]") := isToken_of_above (by decide) (by decide)
    exact ((key.append (isToken_wordDigits _)).append bracket).equation (isToken_wordDigits _)
  · split at listed
    · cases listed
    · cases List.mem_singleton.1 listed
      have key : IsToken (ascii "resv") := isToken_of_above (by decide) (by decide)
      exact key.equation (reserved _)

theorem traceLine_eq (before : Machine n) (raw : Word) (after : Machine n) :
    traceLine before raw after = wordDigits before.pc ++
      (wordDigits raw :: changeTexts before after).flatMap fun text => space :: text := by
  rw [traceLine, List.flatMap_cons, List.append_assoc]

theorem isToken_rest (before : Machine n) (raw : Word) (after : Machine n) :
    ∀ text ∈ wordDigits raw :: changeTexts before after, IsToken text := by
  intro text listed
  rcases List.mem_cons.1 listed with rfl | listed
  · exact isToken_wordDigits raw
  · exact isToken_changes before after text listed

theorem tokens_line (before : Machine n) (raw : Word) (after : Machine n) :
    tokens whitespace (traceLine before raw after) =
      wordDigits before.pc :: wordDigits raw :: changeTexts before after := by
  rw [traceLine_eq]
  exact tokens_eq (isToken_wordDigits before.pc) (isToken_rest before raw after)

theorem endLine_eq (status : String) (pc : Word) :
    endLine status pc = ascii "end" ++
      [ascii status, wordDigits pc].flatMap fun text => space :: text := by
  rw [endLine, List.flatMap_cons, List.flatMap_cons, List.flatMap_nil, List.append_nil,
    List.append_assoc]

theorem isToken_endFields (result : Except StepError StepResult) (pc : Word) :
    ∀ text ∈ [ascii (statusName result), wordDigits pc], IsToken text := by
  intro text listed
  simp only [List.mem_cons, List.not_mem_nil, or_false] at listed
  rcases listed with rfl | rfl
  · cases result with
    | error e => cases e <;> exact isToken_of_above (by decide) (by decide)
    | ok stop => cases stop <;> exact isToken_of_above (by decide) (by decide)
  · exact isToken_wordDigits pc

theorem tokens_endLine (result : Except StepError StepResult) (pc : Word) :
    tokens whitespace (endLine (statusName result) pc) =
      [ascii "end", ascii (statusName result), wordDigits pc] := by
  rw [endLine_eq]
  exact tokens_eq isToken_end (isToken_endFields result pc)

/-- Tokens with spaces in front of them are a single line. -/
theorem oneLine_of_tokens {first : List Byte} {rest : List (List Byte)} (token : IsToken first)
    (each : ∀ text ∈ rest, IsToken text) :
    OneLine (first ++ rest.flatMap fun text => space :: text) := by
  have blank : newline ∈ whitespace := by decide
  have apart : ∀ {text : List Byte}, IsToken text → newline ∉ text := by
    intro text token member
    exact token.2 newline member blank
  intro member
  rcases List.mem_append.1 member with front | back
  · exact apart token front
  · obtain ⟨text, inside, member⟩ := List.mem_flatMap.1 back
    rcases List.mem_cons.1 member with same | member
    · exact absurd same (by decide)
    · exact apart (each text inside) member

/-! ## Applying the steps -/

/-- What a trace shows of the state: registers, `mscratch`, the words of memory and the
reservation. -/
@[ext]
structure Visible (n : MemSize) where
  regs : Reg → Word
  mscratch : Word
  words : Fin (n.bytes / 4) → Word
  reservation : Option Word

def visible (m : Machine n) : Visible n where
  regs := m.regs
  mscratch := m.csrs.mscratch
  words := wordAt m
  reservation := m.reservation

/-- The state after a step. -/
def Visible.apply (v : Visible n) (step : TraceStep) : Visible n where
  regs := assign v.regs
    (step.regs.map fun change => (BitVec.ofNat 5 change.1, BitVec.ofNat 32 change.2))
  mscratch := (step.mscratch.map (BitVec.ofNat 32)).getD v.mscratch
  words := assign v.words (step.mem.filterMap fun change =>
    if inside : change.1 / 4 < n.bytes / 4 then
      some (⟨change.1 / 4, inside⟩, BitVec.ofNat 32 change.2)
    else none)
  reservation := step.resv.elim v.reservation fun text =>
    if text = ascii "none" then none else (intOf 16 text).map (BitVec.ofNat 32)

theorem shownRegs_nodup : shownRegs.Nodup := by
  decide

theorem eq_zero_of_not_shown {k : Reg} (hidden : k ∉ shownRegs) : k = 0#5 := by
  have every : ∀ i : Fin 32, BitVec.ofFin i ∉ shownRegs → BitVec.ofFin i = (0#5 : Reg) := by
    decide
  exact every k.toFin hidden

/-- **What is not as before is all in the step.** -/
theorem apply_stepOf {before after : Machine n} (raw : Word) (x0 : before.regs 0#5 = 0#32)
    (x0' : after.regs 0#5 = 0#32) :
    (visible before).apply (stepOf before raw after) = visible after := by
  apply Visible.ext
  case regs =>
    have same : ((stepOf before raw after).regs.map fun change =>
        ((BitVec.ofNat 5 change.1 : Reg), (BitVec.ofNat 32 change.2 : Word))) =
        registerChanges before after := by
      simp [stepOf, Function.comp_def]
    change assign before.regs _ = after.regs
    rw [same]
    refine assign_differences shownRegs_nodup fun k hidden => ?_
    rw [eq_zero_of_not_shown hidden, x0, x0']
  case mscratch =>
    simp only [Visible.apply, stepOf, visible]
    split
    · rename_i same
      exact same.symm
    · simp
  case words =>
    have same : ((stepOf before raw after).mem.filterMap fun change =>
        if inside : change.1 / 4 < n.bytes / 4 then
          some ((⟨change.1 / 4, inside⟩ : Fin (n.bytes / 4)), (BitVec.ofNat 32 change.2 : Word))
        else none) = memoryChanges before after := by
      rw [stepOf, List.filterMap_map]
      refine Eq.trans (List.filterMap_congr fun change _ => ?_) List.filterMap_some
      have quotient : 4 * change.1.val / 4 = change.1.val := Nat.mul_div_cancel_left _ (by decide)
      simp only [Function.comp_apply, quotient]
      rw [dif_pos change.1.isLt]
      simp
    change assign (wordAt before) _ = wordAt after
    rw [same, memoryChanges]
    split
    · rename_i same
      have words : wordAt after = wordAt before := by
        funext k
        rw [wordAt, wordAt, same]
      rw [words]
      rfl
    · exact assign_differences (List.nodup_finRange _) fun k hidden =>
        absurd (List.mem_finRange k) hidden
  case reservation =>
    simp only [Visible.apply, stepOf, visible]
    by_cases same : after.reservation = before.reservation
    · rw [if_pos same, Option.elim_none, same]
    · rw [if_neg same]
      cases after.reservation with
      | none => rfl
      | some res =>
          have shown : wordDigits res ≠ ascii "none" :=
            wordDigits_ne (c := 0x6E#8) (by decide) (by decide)
          simp only [Option.elim_some, reservationText, if_neg shown, intOf_wordDigits,
            Option.map_some, BitVec.ofNat_toNat, BitVec.setWidth_eq]

/-! ## A whole trace -/

/-- An instruction that retired: the machine before it, its bits, and the machine after it. -/
structure Retired (n : MemSize) where
  before : Machine n
  raw : Word
  after : Machine n

def Retired.line (r : Retired n) : List Byte := traceLine r.before r.raw r.after

def Retired.step (r : Retired n) : TraceStep := stepOf r.before r.raw r.after

/-- The VM retires instructions one after the other. -/
inductive Retires : Vm o n → List (Retired n) → Vm o n → Prop
  | nil (vm : Vm o n) : Retires vm [] vm
  | cons {vm vm' last : Vm o n} {raw : Word} {result : StepResult} {rest : List (Retired n)}
      (fetched : vm.fetch = .ok raw) (stepped : Vm.step vm = .ok result vm')
      (onward : Retires vm' rest last) :
      Retires vm (⟨vm.toMachine, raw, vm'.toMachine⟩ :: rest) last

/-- The first instruction that is retired on the way to a later state. -/
theorem Retires.head {vm vm' last : Vm o n} {trace : List (Retired n)} {raw : Word}
    {result : StepResult} (retires : Retires vm trace last) (fetched : vm.fetch = .ok raw)
    (stepped : Vm.step vm = .ok result vm') (later : last.cycleCount ≠ vm.cycleCount) :
    ∃ rest, trace = ⟨vm.toMachine, raw, vm'.toMachine⟩ :: rest ∧ Retires vm' rest last := by
  cases retires with
  | nil => exact absurd rfl later
  | cons fetched' stepped' onward =>
      cases fetched.symm.trans fetched'
      cases stepped.symm.trans stepped'
      exact ⟨_, rfl, onward⟩

/-- No step is retired by a VM that faults. -/
theorem Retires.eq_nil {vm last : Vm o n} {trace : List (Retired n)} {e : StepError}
    (retires : Retires vm trace last) (faults : answer (Vm.step vm) = .error e) : trace = [] := by
  cases retires with
  | nil => rfl
  | cons _ stepped _ =>
      rw [stepped] at faults
      cases faults

/-- **The steps lead from the state at the start to that at the end**, by induction on them. -/
theorem apply_steps {vm last : Vm o n} {trace : List (Retired n)} (retires : Retires vm trace last)
    (x0 : vm.regs 0#5 = 0#32) :
    (trace.map Retired.step).foldl Visible.apply (visible vm.toMachine) =
      visible last.toMachine := by
  induction retires with
  | nil vm => rfl
  | @cons vm vm' last raw result rest _ stepped _ ih =>
      have x0' := Vm.step_ok_x0 stepped
      rw [List.map_cons, List.foldl_cons]
      change List.foldl Visible.apply
        ((visible vm.toMachine).apply (stepOf vm.toMachine raw vm'.toMachine)) _ = _
      rw [apply_stepOf raw x0 x0', ih x0']

theorem fetched_of_step {vm vm' : Vm o n} {result : StepResult}
    (stepped : Vm.step vm = .ok result vm') : ∃ raw, vm.fetch = .ok raw := by
  obtain ⟨raw, _, _, retires, _⟩ := Machine.stepWith_eq_ok.1 (Vm.step_ok_machine stepped)
  exact ⟨raw, retires.fetched⟩

/-- **The trace has a line for every instruction of the run**, by induction on its turns. -/
theorem trace_of_runs {maxSteps : Count} {vm : Vm o n} {outcome : Outcome o n StepResult}
    (x0 : vm.regs 0#5 = 0#32) (runs : Vm.Runs (some maxSteps) vm outcome) :
    ∃ trace last, Retires vm trace last ∧ last.toMachine = (stateAfter outcome).toMachine ∧
      ∀ text, Ends (traceTurn maxSteps) (vm, text) (statusName (answer outcome),
        stateAfter outcome, text ++ unlines (trace.map Retired.line)) := by
  have loops : Behaviour.Loops (.lift (Vm.runTurn (some maxSteps))) vm outcome :=
    Vm.runs_iff_loop.1 runs
  clear runs
  induction loops with
  | @leave vm vm' result left =>
      rcases Vm.runTurn_eq_leave.1 left with ⟨reached, rfl, rfl⟩ | ⟨below, stopped, stepped⟩
      · refine ⟨[], vm, .nil vm, rfl, fun text => ends_of_done ?_⟩
        rw [traceTurn, if_neg (limitReached_true.1 reached)]
        exact congrArg Turn.done (by simp [unlines, statusName])
      · obtain ⟨raw, fetched⟩ := fetched_of_step stepped
        refine ⟨_, vm', .cons fetched stepped (.nil vm'), rfl, fun text => ends_of_done ?_⟩
        rw [traceTurn, if_pos (limitReached_false.1 below), stepped, fetched]
        cases result with
        | «continue» => exact absurd rfl stopped
        | ecall | ebreak => simp [unlines, Retired.line, Except.toOption]
  | @fail vm vm' e failed =>
      obtain ⟨below, stepped⟩ := Vm.runTurn_eq_error.1 failed
      refine ⟨[], vm, .nil vm, (Vm.step_error_unchanged x0 stepped).symm,
        fun text => ends_of_done ?_⟩
      rw [traceTurn, if_pos (limitReached_false.1 below), stepped]
      exact congrArg Turn.done (by simp [unlines])
  | @again vm vm' outcome turn rest ih =>
      obtain ⟨below, stepped⟩ := Vm.runTurn_eq_again.1 turn
      obtain ⟨raw, fetched⟩ := fetched_of_step stepped
      obtain ⟨trace, last, retires, same, ends⟩ := ih (Vm.step_ok_x0 stepped)
      refine ⟨_, last, .cons fetched stepped retires, same, fun text => ?_⟩
      have onward := ends (text ++ (traceLine vm.toMachine raw vm'.toMachine ++ [newline]))
      have shape : text ++ unlines
          ((⟨vm.toMachine, raw, vm'.toMachine⟩ :: trace : List (Retired n)).map Retired.line) =
          text ++ (traceLine vm.toMachine raw vm'.toMachine ++ [newline]) ++
            unlines (trace.map Retired.line) := by
        simp [unlines, Retired.line]
      rw [shape]
      refine ends_of_again ?_ onward
      rw [traceTurn, if_pos (limitReached_false.1 below), stepped, fetched]
      rfl

/-- The script reads a whole trace, by induction on its lines. -/
theorem readTrace_lines (trace : List (Retired n)) (result : Except StepError StepResult)
    (pc : Word) :
    readTrace (trace.map Retired.line ++ [endLine (statusName result) pc]) =
      some (trace.map Retired.step, some (ascii (statusName result), pc.toNat)) := by
  induction trace with
  | nil =>
      rw [List.map_nil, List.nil_append, readTrace, tokens_endLine]
      dsimp only
      rw [if_pos rfl, intOf_wordDigits]
      rfl
  | cons first rest ih =>
      have other : wordDigits first.before.pc ≠ ascii "end" :=
        wordDigits_ne (c := 0x6E#8) (by decide) (by decide)
      rw [List.map_cons, List.cons_append, readTrace, Retired.line, tokens_line]
      dsimp only
      rw [if_neg other, readStep_line, ih]
      rfl

theorem oneLine_trace (trace : List (Retired n)) (result : Except StepError StepResult)
    (pc : Word) :
    ∀ line ∈ trace.map Retired.line ++ [endLine (statusName result) pc], OneLine line := by
  intro line listed
  rcases List.mem_append.1 listed with listed | last
  · obtain ⟨r, _, rfl⟩ := List.mem_map.1 listed
    rw [Retired.line, traceLine_eq]
    exact oneLine_of_tokens (isToken_wordDigits _) (isToken_rest _ _ _)
  · rw [List.mem_singleton.1 last, endLine_eq]
    exact oneLine_of_tokens isToken_end (isToken_endFields result pc)

/-- **A trace reproduces its run.** For every program that fits, and every limit, the tool prints
one trace. The script reads it as the instructions that the VM retires in a run to this limit, in
order, each with its address, its bits and everything that it changed, and then as the end of this
run. The steps that are read, applied to the state at the start, lead to the state at the end. -/
theorem trace_reproduces {bin : List Byte} {load : Word} (entry : Word)
    (fits : load.toNat + bin.length ≤ memSize.bytes) (maxSteps : Count) :
    ∃ (text : List Byte) (outcome : Outcome cached memSize StepResult)
      (trace : List (Retired memSize)) (last : Vm cached memSize),
      (∀ result, TracesJob bin load entry maxSteps result ↔ result = .ok text) ∧
        Vm.Runs (some maxSteps) (started load entry bin) outcome ∧
        Retires (started load entry bin) trace last ∧
        last.toMachine = (stateAfter outcome).toMachine ∧
        readTrace (lines text) = some (trace.map Retired.step,
          some (ascii (statusName (answer outcome)), (stateAfter outcome).pc.toNat)) ∧
        (trace.map Retired.step).foldl Visible.apply
            (visible (started load entry bin : Vm cached memSize).toMachine) =
          visible (stateAfter outcome).toMachine := by
  obtain ⟨outcome, runs⟩ := Vm.runs_exists maxSteps (started load entry bin : Vm cached memSize)
  obtain ⟨trace, last, retires, same, ends⟩ := trace_of_runs rfl runs
  have here := ends []
  rw [List.nil_append] at here
  let status := statusName (answer outcome)
  let lastLine := endLine status (stateAfter outcome).pc
  have shape : unlines (trace.map Retired.line) ++ lastLine ++ [newline] =
      unlines (trace.map Retired.line ++ [lastLine]) := by
    rw [unlines_append, List.append_assoc]
    simp [unlines]
  refine ⟨unlines (trace.map Retired.line) ++ lastLine ++ [newline], outcome, trace, last,
    fun result => ?_, runs, retires, same, ?_, ?_⟩
  · unfold TracesJob
    rw [startVm_eq, if_pos fits]
    dsimp only
    constructor
    · rintro ⟨status', vm', text, ends', rfl⟩
      cases ends'.unique here
      rfl
    · rintro rfl
      exact ⟨_, _, _, here, rfl⟩
  · rw [shape, lines_unlines (oneLine_trace trace (answer outcome) _)]
    exact readTrace_lines trace (answer outcome) _
  · rw [apply_steps retires rfl, same]

/-- A store of a word is one change. -/
theorem memoryChanges_patch {before after : Machine n} (k : Fin (n.bytes / 4)) {value : Word}
    (stored : after.memory = patch before.memory (4 * k) (writeInt 4 value))
    (changed : value ≠ wordAt before k) : memoryChanges before after = [(k, value)] := by
  have words : wordAt after = Function.update (wordAt before) k value := by
    funext j
    by_cases same : j = k
    · subst same
      rw [Function.update_self, wordAt]
      simp only [stored]
      rw [slice_patch_field _ _ (length_writeInt 4 value), readInt_writeInt (k := 4) rfl]
    · have apart : j.val ≠ k.val := fun equal => same (Fin.ext equal)
      rw [Function.update_of_ne same, wordAt, wordAt]
      simp only [stored]
      rw [slice_patch_disjoint _ _ _ _ _ _ (by rw [length_writeInt]; omega)]
  have other : after.memory ≠ before.memory := by
    intro same
    have word : wordAt after k = wordAt before k := by
      unfold wordAt
      simp only [same]
    rw [words, Function.update_self] at word
    exact changed word
  rw [memoryChanges, if_neg other, words]
  exact differences_update (List.nodup_finRange _) (List.mem_finRange k) changed

/-- A program of ADDI x1, x0, 5, SW x1, 0x100(x0) and ECALL. -/
def storeFive : List Byte :=
  writeInt 4 0x00500093#32 ++ writeInt 4 0x10102023#32 ++ writeInt 4 0x00000073#32

/-- The VM after some instructions of it. -/
def storedFive : Nat → Vm cached memSize
  | 0 => started 0x1000#32 0x1000#32 storeFive
  | k + 1 => stateAfter (Vm.step (storedFive k))

theorem step_storedFive (k : Nat) {result : StepResult}
    (answered : answer (Vm.step (storedFive k)) = .ok result) :
    Vm.step (storedFive k) = .ok result (storedFive (k + 1)) := by
  rw [storedFive]
  cases stepped : Vm.step (storedFive k) with
  | error e vm =>
      rw [stepped] at answered
      cases answered
  | ok result' vm =>
      rw [stepped] at answered
      cases answered
      rfl

/-- The trace of it, with what each instruction changed. -/
theorem trace_reproduces_storeFive :
    ∃ text,
      (∀ result, TracesJob storeFive 0x1000#32 0x1000#32 10#64 result ↔ result = .ok text) ∧
        readTrace (lines text) = some (
          [{ pc := 0x1000, raw := 0x00500093, regs := [(1, 5)] },
            { pc := 0x1004, raw := 0x10102023, mem := [(0x100, 5)] },
            { pc := 0x1008, raw := 0x00000073 }], some (ascii "ecall", 0x100C)) := by
  obtain ⟨text, outcome, trace, last, prints, runs, retires, same, reads, _⟩ :=
    @trace_reproduces storeFive 0x1000#32 0x1000#32 (by decide) 10#64
  have first : Vm.step (storedFive 0) = .ok .continue (storedFive 1) := step_storedFive 0 rfl
  have second : Vm.step (storedFive 1) = .ok .continue (storedFive 2) := step_storedFive 1 rfl
  have third : Vm.step (storedFive 2) = .ok .ecall (storedFive 3) := step_storedFive 2 rfl
  have ended : outcome = .ok .ecall (storedFive 3) := by
    change Vm.Runs _ (storedFive 0) _ at runs
    rw [Vm.runs_iff, if_neg (by decide), first] at runs
    dsimp only at runs
    rw [Vm.runs_iff, if_neg (by decide), second] at runs
    dsimp only at runs
    rw [Vm.runs_iff, if_neg (by decide), third] at runs
    exact runs
  subst ended
  have count : last.cycleCount = 3#64 := congrArg Machine.cycleCount same
  have add : (storedFive 0).fetch = .ok 0x00500093#32 := rfl
  have store : (storedFive 1).fetch = .ok 0x10102023#32 := rfl
  have call : (storedFive 2).fetch = .ok 0x00000073#32 := rfl
  change Retires (storedFive 0) trace last at retires
  obtain ⟨_, rfl, onward⟩ := retires.head add first (by rw [count]; decide)
  obtain ⟨_, rfl, stopped⟩ := onward.head store second (by rw [count]; decide)
  obtain ⟨_, rfl, halted⟩ := stopped.head call third (by rw [count]; decide)
  cases halted.eq_nil (e := .illegalInstruction) rfl
  have stored : memoryChanges (storedFive 1).toMachine (storedFive 2).toMachine =
      [(⟨0x40, by decide⟩, 5#32)] :=
    memoryChanges_patch _ rfl (by decide)
  have kept : ∀ k, (storedFive (k + 1)).memory = (storedFive k).memory →
      memoryChanges (storedFive k).toMachine (storedFive (k + 1)).toMachine = [] :=
    fun k same => if_pos same
  refine ⟨text, prints, reads.trans ?_⟩
  simp only [List.map_cons, List.map_nil, Retired.step, stepOf, stored, kept 0 rfl, kept 2 rfl]
  rfl

end SpikeRunner

end Determinant
