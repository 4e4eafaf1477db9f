import Determinant.Decoders.Registry

/-!
# The decoder and the registry

The decoder is a tree of switches, and the registry is a flat table of masks. They describe
the same encodings. The condition an entry puts on a word is one equation for each field it
gives (`isMatch_iff`), and the decoder of each extension answers exactly for the words of the
extension's group of entries (`zbbR_lists` and its siblings). The decoders that try several
extensions in turn do not depend on the order, because no two of the extensions answer for
one word (`rTries_apart`, `iAluTries_apart`).

The results are that a full-size word decodes to an instruction exactly when some entry
matches it and gives that instruction (`decode_iff`), that at most one entry does
(`match_unique`), and that the decoder computes what the table's own search specifies
(`decode_eq_lookup`).
-/

set_option autoImplicit false

namespace Determinant
namespace Registry

open Foundations Bitfields

variable {raw : Word} {op : Opcode} {inst : Instruction}

/-! ## The fields of an entry -/

/-- The word has the value of every field that the entry gives. -/
def Entry.Fields (e : Entry) (raw : Word) : Prop :=
  Bitfields.opcode7 raw = e.opcode7 ∧ (∀ x, e.f3 = some x → funct3 raw = x) ∧
    (∀ x, e.f7 = some x → funct7 raw = x) ∧ (∀ x, e.rs2Eq = some x → rs2 raw = x) ∧
    (∀ x, e.f5 = some x → funct5 raw = x) ∧ (∀ x, e.f12 = some x → funct12 raw = x) ∧
    (∀ x, e.rdEq = some x → rd raw = x) ∧ (∀ x, e.rs1Eq = some x → rs1 raw = x)

/-- The fields `f7`, `f5`, `rs2` and `f12` share bits; an entry gives no two that overlap. -/
def Entry.Separate (e : Entry) : Prop :=
  (e.f7 = none ∨ e.f5 = none) ∧ (e.f7 = none ∨ e.f12 = none) ∧ (e.rs2Eq = none ∨ e.f12 = none) ∧
    (e.f5 = none ∨ e.f12 = none)

instance (e : Entry) : Decidable e.Separate := by
  unfold Entry.Separate
  infer_instance

theorem registry_separate : ∀ e ∈ registry, e.Separate := by
  decide

/-- **A word matches an entry when it has the entry's fields.** The pattern is built field by
field, in the order of `mask` and `match`. -/
theorem isMatch_iff {e : Entry} (separate : e.Separate) (raw : Word) :
    e.isMatch raw = true ↔ e.Fields raw := by
  obtain ⟨f7f5, f7f12, rs2f12, f5f12⟩ := separate
  have p0 := PatternOf.low (w := 32) (by decide) e.opcode7
  have p1 := p0.opt (s := 12) (by decide) (rfl : 0x7#32 = _) e.f3 ?d1
  have p2 := p1.opt (s := 25) (by decide) (rfl : 0x7F#32 = _) e.f7 ?d2
  have p3 := p2.opt (s := 20) (by decide) (rfl : 0x1F#32 = _) e.rs2Eq ?d3
  have p4 := p3.opt (s := 27) (by decide) (rfl : 0x1F#32 = _) e.f5 ?d4
  have p5 := p4.opt (s := 20) (by decide) (rfl : 0xFFF#32 = _) e.f12 ?d5
  have p6 := p5.opt (s := 7) (by decide) (rfl : 0x1F#32 = _) e.rdEq ?d6
  have p7 := p6.opt (s := 15) (by decide) (rfl : 0x1F#32 = _) e.rs1Eq ?d7
  · rw [Entry.isMatch, decide_eq_true_eq]
    refine (p7.iff raw).trans ?_
    simp only [and_assoc]
    exact Iff.rfl
  all_goals
    repeat' apply or_disjoint
  all_goals
    first
    | exact mask_disjoint _ (by decide)
    | exact optMask_disjoint (.inl (by decide))
    | exact optMask_disjoint (.inr ‹_›)

/-! ## Groups of entries -/

/-- Some entry of the group fits the word, and has the opcode. -/
def Lists (group : List Entry) (raw : Word) (op : Opcode) : Prop :=
  ∃ e ∈ group, e.Fields raw ∧ e.op = op

/-- Some entry of the group fits the word, and gives the instruction. -/
def Gives (group : List Entry) (raw : Word) (inst : Instruction) : Prop :=
  ∃ e ∈ group, e.Fields raw ∧ instruction e raw = inst

theorem lists_nil : Lists [] raw op ↔ False := by
  simp [Lists]

theorem lists_cons (e : Entry) (group : List Entry) :
    Lists (e :: group) raw op ↔ e.Fields raw ∧ e.op = op ∨ Lists group raw op := by
  simp [Lists]

theorem lists_append (group group' : List Entry) :
    Lists (group ++ group') raw op ↔ Lists group raw op ∨ Lists group' raw op := by
  simp only [Lists, List.mem_append, or_and_right, exists_or]

theorem gives_nil : Gives [] raw inst ↔ False := by
  simp [Gives]

theorem gives_cons (e : Entry) (group : List Entry) :
    Gives (e :: group) raw inst ↔ e.Fields raw ∧ instruction e raw = inst ∨
      Gives group raw inst := by
  simp [Gives]

/-- A group whose entries take their operands in one way gives what it lists. -/
theorem gives_iff_lists {group : List Entry} (operands : Opcode → Instruction)
    (uniform : ∀ e ∈ group, instruction e raw = operands e.op) :
    Gives group raw inst ↔ ∃ op, Lists group raw op ∧ operands op = inst := by
  constructor
  · rintro ⟨e, listed, fields, same⟩
    exact ⟨e.op, ⟨e, listed, fields, rfl⟩, (uniform e listed).symm.trans same⟩
  · rintro ⟨op, ⟨e, listed, fields, rfl⟩, same⟩
    exact ⟨e, listed, fields, (uniform e listed).trans same⟩

/-- Only entries of the word's own major opcode count. -/
theorem gives_registry_iff :
    Gives registry raw inst ↔ Gives (byOpcode (opcode7 raw)) raw inst := by
  constructor
  · rintro ⟨e, listed, fields, same⟩
    exact ⟨e, List.mem_filter.2 ⟨listed, by simp [fields.1]⟩, fields, same⟩
  · rintro ⟨e, listed, fields, same⟩
    exact ⟨e, (List.mem_filter.1 listed).1, fields, same⟩

/-! ## The register-register instructions

Each extension's decoder is compared with its own group of entries. -/

section Register

variable (major : opcode7 raw = 0b0110011#7)
include major

theorem rv32mR_lists (op : Opcode) :
    (if funct7 raw = 0b0000001#7 then some (Opcode.m (Rv32m.decodeR (funct3 raw))) else none) =
      some op ↔ Lists rv32mR raw op := by
  simp only [rv32mR, lists_cons, lists_nil, Entry.Fields, major]
  generalize funct3 raw = f3
  generalize funct7 raw = f7
  fun_cases Rv32m.decodeR <;> simp

theorem rv32iR_lists (op : Opcode) :
    (Rv32i.decodeR (funct3 raw) (funct7 raw)).map .i = some op ↔ Lists rv32iR raw op := by
  simp only [rv32iR, lists_cons, lists_nil, Entry.Fields, major]
  generalize funct3 raw = f3
  generalize funct7 raw = f7
  fun_cases Rv32i.decodeR <;> simp_all

theorem zbaR_lists (op : Opcode) :
    (Zba.decodeR (funct3 raw) (funct7 raw)).map .zba = some op ↔ Lists zbaR raw op := by
  simp only [zbaR, lists_cons, lists_nil, Entry.Fields, major]
  generalize funct3 raw = f3
  generalize funct7 raw = f7
  fun_cases Zba.decodeR <;> simp_all

theorem zbbR_lists (op : Opcode) :
    (Zbb.decodeR (funct3 raw) (funct7 raw) (rs2 raw)).map .zbb = some op ↔
      Lists zbbR raw op := by
  simp only [zbbR, lists_cons, lists_nil, Entry.Fields, major]
  generalize funct3 raw = f3
  generalize funct7 raw = f7
  generalize rs2 raw = r
  fun_cases Zbb.decodeR <;> simp_all

theorem zbsR_lists (op : Opcode) :
    (Zbs.decodeR (funct3 raw) (funct7 raw)).map .zbs = some op ↔ Lists zbsR raw op := by
  simp only [zbsR, lists_cons, lists_nil, Entry.Fields, major]
  generalize funct3 raw = f3
  generalize funct7 raw = f7
  fun_cases Zbs.decodeR <;> simp_all

end Register

/-- What the extensions answer for a register-register word, in the order of `decodeR`. -/
def rTries : List (Word → Option Opcode) := [
  fun raw => if funct7 raw = 0b0000001#7 then some (.m (Rv32m.decodeR (funct3 raw))) else none,
  fun raw => (Rv32i.decodeR (funct3 raw) (funct7 raw)).map .i,
  fun raw => (Zba.decodeR (funct3 raw) (funct7 raw)).map .zba,
  fun raw => (Zbb.decodeR (funct3 raw) (funct7 raw) (rs2 raw)).map .zbb,
  fun raw => (Zbs.decodeR (funct3 raw) (funct7 raw)).map .zbs ]

/-- The decoder that takes the first answer of a list of extensions. -/
def decodeBy (operands : Opcode → Word → Instruction) (tries : List (Word → Option Opcode))
    (raw : Word) : Except DecodeError Instruction :=
  match tries.findSome? fun attempt => attempt raw with
  | some op => .ok (operands op raw)
  | none => .error .illegalInstruction

theorem decodeR_eq_decodeBy (raw : Word) : decodeR raw = decodeBy regInstruction rTries raw := by
  simp only [decodeR, decodeBy, rTries, List.findSome?_cons, List.findSome?_nil]
  by_cases multiply : funct7 raw = 0b0000001#7
  · simp [multiply]
  · simp only [multiply, if_false]
    cases Rv32i.decodeR (funct3 raw) (funct7 raw) <;>
      cases Zba.decodeR (funct3 raw) (funct7 raw) <;>
      cases Zbb.decodeR (funct3 raw) (funct7 raw) (rs2 raw) <;>
      cases Zbs.decodeR (funct3 raw) (funct7 raw) <;> rfl

/-- **No two extensions answer for one register-register word.** -/
theorem rTries_apart (raw : Word) : rTries.Pairwise fun f g => f raw = none ∨ g raw = none := by
  simp only [rTries, List.pairwise_cons, List.mem_cons, List.mem_nil_iff, or_false,
    forall_eq_or_imp, forall_eq, List.Pairwise.nil, false_imp_iff, implies_true, and_true,
    Option.map_eq_none_iff]
  generalize funct3 raw = f3
  generalize funct7 raw = f7
  generalize rs2 raw = r
  refine ⟨⟨?_, ?_, ?_, ?_⟩, ⟨?_, ?_, ?_⟩, ⟨?_, ?_⟩, ?_⟩
  · fun_cases Rv32i.decodeR <;> simp_all
  · fun_cases Zba.decodeR <;> simp_all
  · fun_cases Zbb.decodeR <;> simp_all
  · fun_cases Zbs.decodeR <;> simp_all
  · fun_cases Zba.decodeR <;> simp_all [Rv32i.decodeR]
  · fun_cases Zbb.decodeR <;> simp_all [Rv32i.decodeR]
  · fun_cases Zbs.decodeR <;> simp_all [Rv32i.decodeR]
  · fun_cases Zbb.decodeR <;> simp_all [Zba.decodeR]
  · fun_cases Zbs.decodeR <;> simp_all [Zba.decodeR]
  · fun_cases Zbs.decodeR <;> simp_all [Zbb.decodeR]

theorem decodeBy_eq_ok {operands : Opcode → Word → Instruction}
    {tries : List (Word → Option Opcode)}
    (apart : tries.Pairwise fun f g => f raw = none ∨ g raw = none) :
    decodeBy operands tries raw = .ok inst ↔
      ∃ op, (∃ attempt ∈ tries, attempt raw = some op) ∧ operands op raw = inst := by
  simp only [← findSome_eq_some_iff apart, decodeBy]
  cases tries.findSome? fun attempt => attempt raw <;> simp

theorem instruction_of_R {e : Entry} (format : e.op.format = .R) (raw : Word) :
    instruction e raw = regInstruction e.op raw := by
  obtain ⟨op, _⟩ := e
  cases op with
  | i op => cases op <;> first | rfl | cases format
  | zbb op => cases op <;> first | rfl | cases format
  | zbs op => cases op <;> first | rfl | cases format
  | csr op => cases format
  | m op => rfl
  | a op => rfl
  | zba op => rfl

theorem decodeR_iff (major : opcode7 raw = 0b0110011#7) :
    decodeR raw = .ok inst ↔
      Gives (rv32iR ++ rv32mR ++ zbaR ++ zbbR ++ zbsR) raw inst := by
  have registers : ∀ e ∈ rv32iR ++ rv32mR ++ zbaR ++ zbbR ++ zbsR, e.op.format = .R := by
    decide
  rw [decodeR_eq_decodeBy, decodeBy_eq_ok (rTries_apart raw),
    gives_iff_lists (fun op => regInstruction op raw)
      fun e listed => instruction_of_R (registers e listed) raw]
  simp only [rTries, List.mem_cons, List.mem_nil_iff, or_false, exists_eq_or_imp, exists_eq_left,
    lists_append, rv32mR_lists major, rv32iR_lists major, zbaR_lists major, zbbR_lists major,
    zbsR_lists major]
  refine exists_congr fun op => and_congr_left fun _ => ?_
  simp only [or_assoc, or_left_comm]

/-! ## The register-immediate instructions -/

section Immediate

variable (major : opcode7 raw = 0b0010011#7)
include major

theorem rv32iIAlu_lists (op : Opcode) :
    (Rv32i.decodeIAlu (funct3 raw) (funct7 raw)).map .i = some op ↔
      Lists (iAlu ++ iAluShift) raw op := by
  simp only [iAlu, iAluShift, lists_append, lists_cons, lists_nil, Entry.Fields, major]
  generalize funct3 raw = f3
  generalize funct7 raw = f7
  fun_cases Rv32i.decodeIAlu <;> simp_all

theorem zbbIAlu_lists (op : Opcode) :
    (Zbb.decodeIAlu (funct3 raw) (funct7 raw) (rs2 raw)).map .zbb = some op ↔
      Lists zbbIAlu raw op := by
  simp only [zbbIAlu, lists_cons, lists_nil, Entry.Fields, major]
  generalize funct3 raw = f3
  generalize funct7 raw = f7
  generalize rs2 raw = r
  fun_cases Zbb.decodeIAlu <;> simp_all

theorem zbsIAlu_lists (op : Opcode) :
    (Zbs.decodeIAlu (funct3 raw) (funct7 raw)).map .zbs = some op ↔ Lists zbsIAlu raw op := by
  simp only [zbsIAlu, lists_cons, lists_nil, Entry.Fields, major]
  generalize funct3 raw = f3
  generalize funct7 raw = f7
  fun_cases Zbs.decodeIAlu <;> simp_all

end Immediate

/-- What the extensions answer for a register-immediate word, in the order of `decodeIAlu`. -/
def iAluTries : List (Word → Option Opcode) := [
  fun raw => (Rv32i.decodeIAlu (funct3 raw) (funct7 raw)).map .i,
  fun raw => (Zbb.decodeIAlu (funct3 raw) (funct7 raw) (rs2 raw)).map .zbb,
  fun raw => (Zbs.decodeIAlu (funct3 raw) (funct7 raw)).map .zbs ]

/-- The operands of a register-immediate instruction. -/
def iAluInstruction (op : Opcode) (raw : Word) : Instruction :=
  immInstruction op raw (iAluImm raw)

theorem decodeIAlu_eq_decodeBy (raw : Word) :
    decodeIAlu raw = decodeBy iAluInstruction iAluTries raw := by
  simp only [decodeIAlu, decodeBy, iAluTries, List.findSome?_cons, List.findSome?_nil]
  cases Rv32i.decodeIAlu (funct3 raw) (funct7 raw) <;>
    cases Zbb.decodeIAlu (funct3 raw) (funct7 raw) (rs2 raw) <;>
    cases Zbs.decodeIAlu (funct3 raw) (funct7 raw) <;> rfl

/-- **No two extensions answer for one register-immediate word.** -/
theorem iAluTries_apart (raw : Word) :
    iAluTries.Pairwise fun f g => f raw = none ∨ g raw = none := by
  simp only [iAluTries, List.pairwise_cons, List.mem_cons, List.mem_nil_iff, or_false,
    forall_eq_or_imp, forall_eq, List.Pairwise.nil, false_imp_iff, implies_true, and_true,
    Option.map_eq_none_iff]
  generalize funct3 raw = f3
  generalize funct7 raw = f7
  generalize rs2 raw = r
  refine ⟨⟨?_, ?_⟩, ?_⟩
  · fun_cases Zbb.decodeIAlu <;> simp_all [Rv32i.decodeIAlu]
  · fun_cases Zbs.decodeIAlu <;> simp_all [Rv32i.decodeIAlu]
  · fun_cases Zbs.decodeIAlu <;> simp_all [Zbb.decodeIAlu]

theorem instruction_of_I {e : Entry} (format : e.op.format = .I)
    (operands : e.op ∉ [Opcode.i .ecall, .i .ebreak, .i .fence, .i .fenceI]) (raw : Word) :
    instruction e raw = immInstruction e.op raw
      (if e.opcode7 = 0b0010011#7 ∧ (funct3 raw = 0b001#3 ∨ funct3 raw = 0b101#3) then
        (rs2 raw).setWidth 32
      else immI raw) := by
  obtain ⟨op, _⟩ := e
  cases op with
  | i op => cases op <;> first | rfl | (simp at operands; done) | cases format
  | zbb op => cases op <;> first | rfl | cases format
  | zbs op => cases op <;> first | rfl | cases format
  | csr op => rfl
  | m op => cases format
  | a op => cases format
  | zba op => cases format

theorem decodeIAlu_iff (major : opcode7 raw = 0b0010011#7) :
    decodeIAlu raw = .ok inst ↔ Gives (iAlu ++ iAluShift ++ zbbIAlu ++ zbsIAlu) raw inst := by
  have immediates : ∀ e ∈ iAlu ++ iAluShift ++ zbbIAlu ++ zbsIAlu,
      e.op.format = .I ∧ e.opcode7 = 0b0010011#7 ∧
        e.op ∉ [Opcode.i .ecall, .i .ebreak, .i .fence, .i .fenceI] := by
    decide
  have uniform : ∀ e ∈ iAlu ++ iAluShift ++ zbbIAlu ++ zbsIAlu,
      instruction e raw = iAluInstruction e.op raw := by
    intro e listed
    obtain ⟨format, opcode, operands⟩ := immediates e listed
    rw [instruction_of_I format operands, iAluInstruction, iAluImm]
    simp only [opcode, true_and]
  rw [decodeIAlu_eq_decodeBy, decodeBy_eq_ok (iAluTries_apart raw),
    gives_iff_lists (fun op => iAluInstruction op raw) uniform]
  simp only [iAluTries, List.mem_cons, List.mem_nil_iff, or_false, exists_eq_or_imp,
    exists_eq_left, lists_append _ zbbIAlu, lists_append _ zbsIAlu, rv32iIAlu_lists major,
    zbbIAlu_lists major, zbsIAlu_lists major, or_assoc]

/-! ## The other major opcodes -/

theorem decodeLoad_iff (major : opcode7 raw = 0b0000011#7) :
    decodeLoad raw = .ok inst ↔ Gives loads raw inst := by
  simp only [decodeLoad, loads, gives_cons, gives_nil, Entry.Fields, major]
  generalize funct3 raw = f3
  fun_cases Rv32i.decodeLoad <;> simp_all [instruction, Opcode.format, Rv32i.Opcode.format]

theorem decodeStore_iff (major : opcode7 raw = 0b0100011#7) :
    decodeStore raw = .ok inst ↔ Gives stores raw inst := by
  simp only [decodeStore, stores, gives_cons, gives_nil, Entry.Fields, major]
  generalize funct3 raw = f3
  fun_cases Rv32i.decodeStore <;> simp_all [instruction, Opcode.format, Rv32i.Opcode.format]

theorem decodeBranch_iff (major : opcode7 raw = 0b1100011#7) :
    decodeBranch raw = .ok inst ↔ Gives branches raw inst := by
  simp only [decodeBranch, branches, gives_cons, gives_nil, Entry.Fields, major]
  generalize funct3 raw = f3
  fun_cases Rv32i.decodeBranch <;> simp_all [instruction, Opcode.format, Rv32i.Opcode.format]

theorem decodeAtomic_iff (major : opcode7 raw = 0b0101111#7) :
    decodeAtomic raw = .ok inst ↔ Gives atomics raw inst := by
  simp only [decodeAtomic, atomics, gives_cons, gives_nil, Entry.Fields, major]
  by_cases word : funct3 raw = 0b010#3
  · simp only [word]
    generalize funct5 raw = f5
    by_cases plain : rs2 raw = 0#5
    all_goals
      fun_cases Rv32a.decodeR <;> simp_all [instruction, Opcode.format, Rv32a.Opcode.format]
  · simp [word]

theorem decodeSystem_iff (major : opcode7 raw = 0b1110011#7) :
    decodeSystem raw = .ok inst ↔ Gives systems raw inst := by
  simp only [decodeSystem, systems, gives_cons, gives_nil, Entry.Fields, major]
  by_cases call : funct3 raw = 0b000#3
  · by_cases plain : rd raw = 0#5 ∧ rs1 raw = 0#5
    · simp only [call, plain, if_true, ne_eq, not_true_eq_false, or_self, if_false]
      generalize funct12 raw = f12
      split <;> simp_all [instruction]
    · have reserved : rd raw ≠ 0#5 ∨ rs1 raw ≠ 0#5 := by
        rwa [← not_and_or]
      simp_all
  · simp only [call, if_false]
    generalize funct3 raw = f3 at *
    fun_cases Zicsr.decodeSystem <;>
      simp_all [instruction, Opcode.format, Zicsr.Opcode.format]

theorem decodeFence_iff (major : opcode7 raw = 0b0001111#7) :
    decodeFence raw = .ok inst ↔
      Gives [{ op := .i .fence, opcode7 := 0b0001111#7, f3 := some 0b000#3 },
        { op := .i .fenceI, opcode7 := 0b0001111#7, f3 := some 0b001#3 }] raw inst := by
  simp only [decodeFence, gives_cons, gives_nil, Entry.Fields, major]
  generalize funct3 raw = f3
  split <;> simp_all [instruction]

theorem decodeJalr_iff (major : opcode7 raw = 0b1100111#7) :
    decodeJalr raw = .ok inst ↔
      Gives [{ op := .i .jalr, opcode7 := 0b1100111#7, f3 := some 0b000#3 }] raw inst := by
  simp only [decodeJalr, gives_cons, gives_nil, Entry.Fields, major]
  by_cases jalr : funct3 raw = 0b000#3 <;>
    simp [jalr, instruction, Opcode.format, Rv32i.Opcode.format]

/-- An opcode that needs no other field. -/
theorem fixed_iff {e : Entry} (major : opcode7 raw = e.opcode7)
    (fixed : e = { op := e.op, opcode7 := e.opcode7 }) :
    .ok (instruction e raw) = (.ok inst : Except DecodeError Instruction) ↔
      Gives [e] raw inst := by
  rw [gives_cons, gives_nil, or_false, Except.ok.injEq, fixed]
  simp [Entry.Fields, major]

/-! ## The decoder -/

theorem registry_majors : ∀ e ∈ registry, e.opcode7 ∈
    [0b0110011#7, 0b0010011#7, 0b0000011#7, 0b0100011#7, 0b1100011#7, 0b0110111#7, 0b0010111#7,
      0b1101111#7, 0b1100111#7, 0b0001111#7, 0b0101111#7, 0b1110011#7] := by
  decide

/-- **A full-size word decodes to an instruction exactly when an entry gives it.** -/
theorem decode_iff_gives (full : isCompressed raw = false) :
    decode raw = .ok inst ↔ Gives registry raw inst := by
  rw [gives_registry_iff]
  simp only [decode, full, Bool.false_eq_true, if_false]
  change _ ↔ Gives (byOpcode (raw.setWidth 7)) raw inst
  generalize major : BitVec.setWidth 7 raw = opcodeBits
  split
  · exact decodeR_iff major
  · exact decodeIAlu_iff major
  · exact decodeLoad_iff major
  · exact decodeStore_iff major
  · exact decodeBranch_iff major
  · exact fixed_iff (e := { op := .i .lui, opcode7 := 0b0110111#7 }) major rfl
  · exact fixed_iff (e := { op := .i .auipc, opcode7 := 0b0010111#7 }) major rfl
  · exact fixed_iff (e := { op := .i .jal, opcode7 := 0b1101111#7 }) major rfl
  · exact decodeJalr_iff major
  · exact decodeFence_iff major
  · exact decodeAtomic_iff major
  · exact decodeSystem_iff major
  · refine iff_of_false (by simp) ?_
    rintro ⟨e, listed, _⟩
    obtain ⟨listed, same⟩ := List.mem_filter.1 listed
    have known := registry_majors e listed
    simp_all

theorem decode_iff (full : isCompressed raw = false) :
    decode raw = .ok inst ↔ ∃ e ∈ registry, e.isMatch raw ∧ instruction e raw = inst := by
  rw [decode_iff_gives full]
  refine exists_congr fun e => and_congr_right fun listed => and_congr_left fun _ => ?_
  exact (isMatch_iff (registry_separate e listed) raw).symm

/-- The opcode of an entry is the one its words decode to, also where there are no operands. -/
theorem instruction_op (e : Entry) (raw : Word) : (instruction e raw).op = e.op := by
  unfold instruction
  split
  all_goals first | rfl | skip
  split <;> rfl

theorem registry_ops_nodup : (registry.map Entry.op).Nodup := by
  decide

/-- **At most one entry matches a full-size word.** -/
theorem match_unique (full : isCompressed raw = false) {e e' : Entry} (listed : e ∈ registry)
    (listed' : e' ∈ registry) (isMatch : e.isMatch raw) (isMatch' : e'.isMatch raw) : e = e' := by
  have first := (decode_iff full).2 ⟨e, listed, isMatch, rfl⟩
  have second := (decode_iff full).2 ⟨e', listed', isMatch', rfl⟩
  have sameOp : e.op = e'.op := by
    rw [← instruction_op e raw, ← instruction_op e' raw]
    exact congrArg Instruction.op (Except.ok.inj (first.symm.trans second))
  exact List.inj_on_of_nodup_map registry_ops_nodup listed listed' sameOp

theorem length_matches (full : isCompressed raw = false) :
    (registry.filter fun e => e.isMatch raw).length ≤ 1 := by
  have distinct : (registry.filter fun e => e.isMatch raw).Nodup :=
    registry_ops_nodup.of_map.filter _
  have unique : ∀ e ∈ registry.filter fun e => e.isMatch raw,
      ∀ e' ∈ registry.filter fun e => e.isMatch raw, e = e' := by
    intro e listed e' listed'
    rw [List.mem_filter] at listed listed'
    exact match_unique full listed.1 listed'.1 listed.2 listed'.2
  generalize registry.filter (fun e => e.isMatch raw) = found at *
  match found with
  | [] => simp
  | [_] => simp
  | e :: e' :: _ =>
      have same := unique e (by simp) e' (by simp)
      simp [same] at distinct

theorem decode_error (full : isCompressed raw = false)
    (unmatched : ∀ e ∈ registry, ¬ e.isMatch raw) : decode raw = .error .illegalInstruction := by
  cases outcome : decode raw with
  | error e => cases e; rfl
  | ok inst =>
      obtain ⟨e, listed, isMatch, _⟩ := (decode_iff full).1 outcome
      exact absurd isMatch (unmatched e listed)

/-- The search of `lookup` looks only at the word's own major opcode, and misses no entry. -/
theorem lookup_eq_find (raw : Word) : lookup raw = registry.find? fun e => e.isMatch raw := by
  have low : (raw &&& 0x7F#32).setWidth 7 = opcode7 raw := by
    rw [opcode7, BitVec.setWidth_and]
    exact BitVec.and_allOnes
  rw [lookup, low, byOpcode, List.find?_filter]
  rw [← List.head?_filter, ← List.head?_filter]
  refine congrArg List.head? (List.filter_congr fun e listed => ?_)
  cases isMatch : e.isMatch raw with
  | false => simp
  | true =>
      have fields := (isMatch_iff (registry_separate e listed) raw).1 isMatch
      simp [fields.1]

/-- **The decoder computes what the search of the table specifies.** -/
theorem decode_eq_lookup (full : isCompressed raw = false) :
    decode raw = match lookup raw with
      | some e => .ok (instruction e raw)
      | none => .error .illegalInstruction := by
  rw [lookup_eq_find]
  cases found : registry.find? fun e => e.isMatch raw with
  | none => exact decode_error full (by simpa using found)
  | some e =>
      have isMatch := List.find?_some found
      exact (decode_iff full).2 ⟨e, List.mem_of_find?_eq_some found, isMatch, rfl⟩

/-- **The order in which `decodeR` tries the extensions does not matter.** -/
theorem decodeR_order {tries : List (Word → Option Opcode)} (reordered : rTries.Perm tries)
    (raw : Word) : decodeBy regInstruction tries raw = decodeR raw := by
  rw [decodeR_eq_decodeBy, decodeBy, decodeBy, findSome_perm reordered (rTries_apart raw)]

/-- **The order in which `decodeIAlu` tries the extensions does not matter.** -/
theorem decodeIAlu_order {tries : List (Word → Option Opcode)} (reordered : iAluTries.Perm tries)
    (raw : Word) : decodeBy iAluInstruction tries raw = decodeIAlu raw := by
  rw [decodeIAlu_eq_decodeBy, decodeBy, decodeBy, findSome_perm reordered (iAluTries_apart raw)]

/-! ## The decoder meets its specification -/

/-- **The decoder equals its specification.** For a word whose low two bits are set, at most
one entry of the registry matches; the word decodes exactly when one does, to the instruction
that the entry specifies, and is illegal otherwise; and trying the extensions in another
order would not change what `decodeR` and `decodeIAlu` return. -/
theorem decoder_meets_registry (raw : Word) (low : raw &&& 0b11#32 = 0b11#32) :
    (registry.filter fun e => raw &&& e.mask = e.match).length ≤ 1 ∧
      (∀ inst, decode raw = .ok inst ↔
        ∃ e ∈ registry, raw &&& e.mask = e.match ∧ inst = instruction e raw) ∧
      ((∀ e ∈ registry, raw &&& e.mask ≠ e.match) → decode raw = .error .illegalInstruction) ∧
      (decode raw = match lookup raw with
        | some e => .ok (instruction e raw)
        | none => .error .illegalInstruction) ∧
      (∀ tries, rTries.Perm tries → decodeBy regInstruction tries raw = decodeR raw) ∧
      ∀ tries, iAluTries.Perm tries → decodeBy iAluInstruction tries raw = decodeIAlu raw := by
  have full : isCompressed raw = false := by
    simp [isCompressed, low]
  refine ⟨length_matches full, fun inst => ?_, fun unmatched => ?_, decode_eq_lookup full,
    fun _ reordered => decodeR_order reordered raw,
    fun _ reordered => decodeIAlu_order reordered raw⟩
  · have characterised : decode raw = .ok inst ↔ _ := decode_iff full
    simpa [Entry.isMatch, eq_comm] using characterised
  · exact decode_error full (by simpa [Entry.isMatch] using unmatched)

/-- ADD x3, x1, x2 decodes to what its entry specifies. -/
theorem decoder_meets_registry_add :
    decode 0x002081B3#32 = .ok (instruction
      { op := .i .add, opcode7 := 0b0110011#7, f3 := some 0b000#3, f7 := some 0b0000000#7 }
      0x002081B3#32) :=
  ((decoder_meets_registry 0x002081B3#32 (by decide)).2.1 _).2
    ⟨_, by decide, by decide, rfl⟩

end Registry
end Determinant
