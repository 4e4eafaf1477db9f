import Determinant.Cli.TraceLine
import Determinant.Cpu.CompressedCode
import Determinant.Decoders.CompressedForms
import Determinant.Foundations.ParseInt

/-!
# What the text of an instruction says

Assembly text loses nothing that matters. The text of an instruction is its name and its
operands, of one of some shapes (`printInstruction_eq`), and both can be read off it: names have no
space in them, and operands no comma (`written_injective`). Each operand determines the fields it
was written from, and the decoder leaves the other fields at values that the opcode determines
(`canonical_of_decode`). So two words with the same text decode to instructions that agree in
everything but their bits, and every machine executes them the same (`text_determines`).
-/

set_option autoImplicit false

namespace Determinant

open Foundations

namespace Disasm

/-! ## Shapes -/

/-- The operands that an instruction is written with. -/
inductive Shape where
  /-- `rd, rs1, rs2` -/
  | three
  /-- `rd, rs1` -/
  | two
  /-- `rd, rs1, imm` -/
  | immediate
  /-- `rd, imm(rs1)` -/
  | load
  /-- `rs2, imm(rs1)` -/
  | store
  /-- `rs1, rs2, target` -/
  | branch
  /-- `rd, imm` -/
  | upper
  /-- `rd, target` -/
  | jump
  /-- `rd, (rs1)` -/
  | reserve
  /-- `rd, rs2, (rs1)` -/
  | atomic
  /-- `rd, csr, rs1` -/
  | csrRegister
  /-- `rd, csr, uimm` -/
  | csrImmediate
  | bare
deriving DecidableEq

def shape : Opcode → Shape
  | .i .add | .i .sub | .i .sll | .i .slt | .i .sltu | .i .xor | .i .srl | .i .sra | .i .or
  | .i .and => .three
  | .i .lb | .i .lh | .i .lw | .i .lbu | .i .lhu | .i .jalr => .load
  | .i .fence | .i .fenceI | .i .ecall | .i .ebreak => .bare
  | .i .sb | .i .sh | .i .sw => .store
  | .i .beq | .i .bne | .i .blt | .i .bge | .i .bltu | .i .bgeu => .branch
  | .i .lui | .i .auipc => .upper
  | .i .jal => .jump
  | .i _ => .immediate
  | .m _ | .zba _ => .three
  | .a .lrW => .reserve
  | .a _ => .atomic
  | .csr .csrrw | .csr .csrrs | .csr .csrrc => .csrRegister
  | .csr _ => .csrImmediate
  | .zbb .clz | .zbb .ctz | .zbb .cpop | .zbb .sextB | .zbb .sextH | .zbb .zextH | .zbb .orcB
  | .zbb .rev8 => .two
  | .zbb .rori => .immediate
  | .zbb _ => .three
  | .zbs .bclr | .zbs .bext | .zbs .binv | .zbs .bset => .three
  | .zbs _ => .immediate

def operands (inst : Instruction) (pc : Option Word) : Shape → List (List Byte)
  | .three => [reg inst.rd, reg inst.rs1, reg inst.rs2]
  | .two => [reg inst.rd, reg inst.rs1]
  | .immediate => [reg inst.rd, reg inst.rs1, signedDecimal inst.imm.toInt]
  | .load => [reg inst.rd, displaced inst.imm inst.rs1]
  | .store => [reg inst.rs2, displaced inst.imm inst.rs1]
  | .branch => [reg inst.rs1, reg inst.rs2, target pc inst.imm]
  | .upper => [reg inst.rd, ascii "0x" ++ hex 0 (inst.immUnsigned >>> 12).toNat]
  | .jump => [reg inst.rd, target pc inst.imm]
  | .reserve => [reg inst.rd, ascii "(" ++ reg inst.rs1 ++ ascii ")"]
  | .atomic => [reg inst.rd, reg inst.rs2, ascii "(" ++ reg inst.rs1 ++ ascii ")"]
  | .csrRegister => [reg inst.rd, csr inst.csrAddr, reg inst.rs1]
  | .csrImmediate => [reg inst.rd, csr inst.csrAddr, decimal inst.rs1.toNat]
  | .bare => []

/-- The name that an instruction is written with. -/
def nameOf (op : Opcode) : Option Rv32c.Opcode → List Byte
  | some cOp => ascii cOp.name
  | none => ascii op.name

/-- A name and its operands, if there are any. -/
def written (name : List Byte) (operands : List (List Byte)) : List Byte :=
  if operands = [] then name else form name operands

theorem printInstruction_eq (inst : Instruction) (pc : Option Word) :
    printInstruction inst pc =
      written (nameOf inst.op inst.compressedOp) (operands inst pc (shape inst.op)) := by
  obtain ⟨op, rd, rs1, rs2, imm, raw, compressedOp⟩ := inst
  cases op with
  | m op | zba op => rfl
  | i op | a op | csr op | zbb op | zbs op => cases op <;> rfl

/-! ## Names -/

/-- The opcodes with a name of their own. -/
abbrev Named := Rv32c.Opcode ⊕ Opcode

def nameText : Named → List Byte
  | .inl op => ascii op.name
  | .inr op => ascii op.name

def compressedOps : List Rv32c.Opcode :=
  [.cAddi4spn, .cLw, .cSw, .cAddi, .cJal, .cLi, .cAddi16sp, .cLui, .cSrli, .cSrai, .cAndi, .cSub,
    .cXor, .cOr, .cAnd, .cJ, .cBeqz, .cBnez, .cSlli, .cLwsp, .cJr, .cMv, .cEbreak, .cJalr, .cAdd,
    .cSwsp]

theorem mem_compressedOps (op : Rv32c.Opcode) : op ∈ compressedOps := by
  cases op <;> decide

def allNamed : List Named :=
  compressedOps.map .inl ++ Registry.registry.map fun e => .inr e.op

theorem mem_allNamed_compressed (op : Rv32c.Opcode) : .inl op ∈ allNamed :=
  List.mem_append_left _ (List.mem_map.2 ⟨op, mem_compressedOps op, rfl⟩)

theorem mem_allNamed_of_registry {e : Registry.Entry} (listed : e ∈ Registry.registry) :
    .inr e.op ∈ allNamed :=
  List.mem_append_right _ (List.mem_map.2 ⟨e, listed, rfl⟩)

theorem names_nodup : (allNamed.map nameText).Nodup := by
  decide +kernel

theorem names_plain : ∀ named ∈ allNamed, space ∉ nameText named := by
  decide +kernel

theorem nameText_injective {named named' : Named} (listed : named ∈ allNamed)
    (listed' : named' ∈ allNamed) (same : nameText named = nameText named') : named = named' :=
  List.inj_on_of_nodup_map names_nodup listed listed' same

/-! ## Operands -/

def comma : Byte := 0x2C#8

/-- A text of digits, letters and signs only. -/
theorem comma_not_mem_decimal (k : Nat) : comma ∉ decimal k := fun listed =>
  absurd (digit_of_mem_decimal listed) (by decide)

theorem comma_not_mem_hex (width k : Nat) : comma ∉ hex width k := fun listed =>
  absurd (isSome_charToDigit_of_mem_hex listed) (by decide)

theorem comma_not_mem_reg (k : Reg) : comma ∉ reg k := by
  have every : ∀ i : Fin 32, comma ∉ reg (BitVec.ofFin i) := by decide +kernel
  exact every k.toFin

theorem comma_not_mem_signedDecimal (i : Int) : comma ∉ signedDecimal i := by
  unfold signedDecimal
  split
  · rw [List.mem_append, not_or]
    exact ⟨by decide, comma_not_mem_decimal _⟩
  · exact comma_not_mem_decimal _

theorem comma_not_mem_target (pc : Option Word) (offset : Word) : comma ∉ target pc offset := by
  unfold target
  split
  · rw [List.mem_append, not_or]
    exact ⟨by decide, comma_not_mem_hex _ _⟩
  · split
    · exact comma_not_mem_signedDecimal _
    · rw [List.mem_append, not_or]
      exact ⟨by decide, comma_not_mem_signedDecimal _⟩

theorem comma_not_mem_csr (addr : BitVec 12) : comma ∉ csr addr := by
  unfold csr csrName
  split
  · rename_i name named
    split at named <;> cases named <;> decide
  · rw [List.mem_append, not_or]
    exact ⟨by decide, comma_not_mem_hex _ _⟩

theorem comma_not_mem_operands (inst : Instruction) (pc : Option Word) (s : Shape) :
    ∀ text ∈ operands inst pc s, comma ∉ text := by
  have parens : comma ∉ ascii "(" ∧ comma ∉ ascii ")" ∧ comma ∉ ascii "0x" := by decide
  cases s <;>
    simp [operands, displaced, parens, comma_not_mem_reg, comma_not_mem_signedDecimal,
      comma_not_mem_target, comma_not_mem_csr, comma_not_mem_hex, comma_not_mem_decimal]

/-- **The name and the operands can be read off a text.** -/
theorem written_injective {name name' : List Byte} {texts texts' : List (List Byte)}
    (plain : space ∉ name) (plain' : space ∉ name') (clear : ∀ text ∈ texts, comma ∉ text)
    (clear' : ∀ text ∈ texts', comma ∉ text) (same : written name texts = written name' texts') :
    name = name' ∧ texts = texts' := by
  have spaced : ∀ name texts, form name texts =
      name ++ space :: (ascii ", ").intercalate texts := by
    intro name texts
    rw [form, List.append_assoc]
    rfl
  unfold written at same
  split at same <;> rename_i none <;> split at same <;> rename_i none'
  · exact ⟨same, none.trans none'.symm⟩
  · rw [spaced] at same
    exact absurd (by rw [same]; simp) plain
  · rw [spaced] at same
    exact absurd (by rw [← same]; simp) plain'
  · rw [spaced, spaced] at same
    have split := congrArg (List.splitOn space) same
    rw [List.splitOn_append_cons_self_of_not_mem plain,
      List.splitOn_append_cons_self_of_not_mem plain'] at split
    cases List.head_eq_of_cons_eq split
    have behind := (List.cons.inj (List.append_cancel_left same)).2
    exact ⟨rfl, @intercalate_injective comma [space] _ _ clear clear' none none' behind⟩

theorem reg_injective {k k' : Reg} (same : reg k = reg k') : k = k' := by
  have named := Report.namedReg_reg k
  rw [same, Report.namedReg_reg k'] at named
  exact (Option.some.inj named).symm

theorem toInt_injective {w w' : Word} (same : signedDecimal w.toInt = signedDecimal w'.toInt) :
    w = w' := BitVec.toInt_inj.1 (signedDecimal_injective same)

theorem hex_injective {width k k' : Nat} (same : hex width k = hex width k') : k = k' := by
  have read := congrArg (readNumber 16) same
  rwa [readNumber_hex, readNumber_hex] at read

theorem displaced_injective {imm imm' : Word} {k k' : Reg}
    (same : displaced imm k = displaced imm' k') : imm = imm' ∧ k = k' := by
  have unbracketed : ∀ w : Word, 0x28#8 ∉ signedDecimal w.toInt := by
    intro w
    unfold signedDecimal
    split
    · rw [List.mem_append, not_or]
      exact ⟨by decide, fun listed => absurd (digit_of_mem_decimal listed) (by decide)⟩
    · exact fun listed => absurd (digit_of_mem_decimal listed) (by decide)
  have bracketed : ∀ (w : Word) (k : Reg), displaced w k =
      signedDecimal w.toInt ++ 0x28#8 :: (reg k ++ ascii ")") := by
    intro w k
    rw [displaced, List.append_assoc, List.append_assoc]
    rfl
  rw [bracketed, bracketed] at same
  have split := congrArg (List.splitOn 0x28#8) same
  rw [List.splitOn_append_cons_self_of_not_mem (unbracketed imm),
    List.splitOn_append_cons_self_of_not_mem (unbracketed imm')] at split
  cases toInt_injective (List.head_eq_of_cons_eq split)
  have behind := (List.cons.inj (List.append_cancel_left same)).2
  exact ⟨rfl, reg_injective (List.append_cancel_right behind)⟩

theorem target_injective {pc : Option Word} {imm imm' : Word}
    (same : target pc imm = target pc imm') : imm = imm' := by
  have unsigned : ∀ i i' : Int, ascii "+" ++ signedDecimal i ≠ signedDecimal i' := by
    intro i i' same
    have sign : 0x2B#8 ∈ signedDecimal i' := by
      rw [← same]
      exact List.mem_cons_self
    unfold signedDecimal at sign
    split at sign
    · rcases List.mem_append.1 sign with minus | digit
      · exact absurd minus (by decide)
      · exact absurd (digit_of_mem_decimal digit) (by decide)
    · exact absurd (digit_of_mem_decimal sign) (by decide)
  cases pc with
  | some pc =>
      have digits := hex_injective (List.append_cancel_left same)
      have sum : pc + imm = pc + imm' := BitVec.toNat_inj.1 digits
      simpa using sum
  | none =>
      simp only [target] at same
      split at same <;> split at same
      · exact toInt_injective same
      · exact absurd same.symm (unsigned _ _)
      · exact absurd same (unsigned _ _)
      · exact toInt_injective (List.append_cancel_left same)

/-- The CSRs with a name. -/
def namedCsrs : List (BitVec 12) :=
  [0x340#12, 0xC00#12, 0xC01#12, 0xC02#12, 0xC80#12, 0xC81#12, 0xC82#12]

theorem mem_namedCsrs {addr : BitVec 12} {name : String} (named : csrName addr = some name) :
    addr ∈ namedCsrs := by
  unfold csrName at named
  split at named
  all_goals first | decide | cases named

theorem csr_injective {addr addr' : BitVec 12} (same : csr addr = csr addr') : addr = addr' := by
  have nodup : (namedCsrs.map csr).Nodup := by decide +kernel
  -- No name begins as a number does.
  have letters : ∀ text ∈ namedCsrs.map csr, text.head? ≠ some 0x30#8 := by decide +kernel
  have digits : ∀ k, (ascii "0x" ++ hex 3 k).head? = some 0x30#8 := fun _ => rfl
  cases named : csrName addr with
  | some name =>
      have listed := mem_namedCsrs named
      cases named' : csrName addr' with
      | some name' => exact List.inj_on_of_nodup_map nodup listed (mem_namedCsrs named') same
      | none =>
          have number : csr addr' = ascii "0x" ++ hex 3 addr'.toNat := by rw [csr, named']
          exact absurd (by rw [same, number, digits]) (letters _ (List.mem_map_of_mem listed))
  | none =>
      have number : csr addr = ascii "0x" ++ hex 3 addr.toNat := by rw [csr, named]
      cases named' : csrName addr' with
      | some name' =>
          exact absurd (by rw [← same, number, digits])
            (letters _ (List.mem_map_of_mem (mem_namedCsrs named')))
      | none =>
          have number' : csr addr' = ascii "0x" ++ hex 3 addr'.toNat := by rw [csr, named']
          rw [number, number'] at same
          exact BitVec.toNat_inj.1 (hex_injective (List.append_cancel_left same))

/-! ## The fields that are not shown -/

/-- What selects the operation of an instruction with one operand. -/
def selector : Opcode → BitVec 5
  | .zbb .ctz => 1#5
  | .zbb .cpop => 2#5
  | .zbb .sextB => 4#5
  | .zbb .sextH => 5#5
  | .zbb .orcB => 7#5
  | .zbb .rev8 => 24#5
  | _ => 0#5

/-- The fields that the text does not show are determined by the opcode. -/
def Canonical (op : Opcode) (rd rs1 rs2 : Reg) (imm : Word) : Prop :=
  match shape op with
  | .three | .atomic => imm = 0#32
  | .two => rs2 = 0#5 ∧ imm = (selector op).setWidth 32
  | .immediate | .load => rs2 = 0#5
  | .store | .branch => rd = 0#5
  | .upper => rs1 = 0#5 ∧ rs2 = 0#5 ∧ imm &&& 0xFFF#32 = 0#32
  | .jump => rs1 = 0#5 ∧ rs2 = 0#5
  | .reserve => rs2 = 0#5 ∧ imm = 0#32
  | .csrRegister | .csrImmediate => rs2 = 0#5 ∧ imm = (imm.setWidth 12).signExtend 32
  | .bare => rd = 0#5 ∧ rs1 = 0#5 ∧ rs2 = 0#5 ∧ imm = 0#32

/-- The immediates of format I have twelve bits and their sign. -/
theorem immI_fits (raw : Word) : Rv32c.Fits12 (Bitfields.immI raw) := by
  rw [Bitfields.immI_eq]
  exact signExtend_fits (by decide) (by decide) (by decide) _

open Registry in
/-- The fields that an entry must fix for its words to be canonical. -/
def Fixes (e : Entry) : Prop :=
  match shape e.op with
  | .three | .atomic => e.op.format = .R
  | .two => e.rs2Eq = some (selector e.op) ∧ (e.op.format = .R ∧ selector e.op = 0#5 ∨
      e.op.format = .I ∧ e.opcode7 = 0b0010011#7 ∧ (e.f3 = some 0b001#3 ∨ e.f3 = some 0b101#3))
  | .immediate | .load => e.op.format = .I
  | .store => e.op.format = .S
  | .branch => e.op.format = .B
  | .upper => e.op.format = .U
  | .jump => e.op.format = .J
  | .reserve => e.op.format = .R ∧ e.rs2Eq = some 0#5
  | .csrRegister | .csrImmediate => e.op.format = .I ∧ e.opcode7 ≠ 0b0010011#7
  | .bare => e.op ∈ [Opcode.i .ecall, .i .ebreak, .i .fence, .i .fenceI]

instance (e : Registry.Entry) : Decidable (Fixes e) := by
  unfold Fixes
  cases shape e.op <;> infer_instance

theorem registry_fixes : ∀ e ∈ Registry.registry, Fixes e := by
  decide

section Entry

variable {e : Registry.Entry} (raw : Word)

theorem instruction_bare (bare : e.op ∈ [Opcode.i .ecall, .i .ebreak, .i .fence, .i .fenceI]) :
    Registry.instruction e raw = { op := e.op, raw := raw } := by
  obtain ⟨op, _⟩ := e
  simp only [List.mem_cons, List.not_mem_nil, or_false] at bare
  rcases bare with rfl | rfl | rfl | rfl <;> rfl

/-- Stores and branches have no `rd`. -/
theorem instruction_rd (format : e.op.format = .S ∨ e.op.format = .B) :
    (Registry.instruction e raw).rd = 0#5 := by
  unfold Registry.instruction
  split
  all_goals first | rfl | skip
  rcases format with format | format <;> rw [format]

/-- Upper immediates and jumps have no sources. -/
theorem instruction_sources (format : e.op.format = .U ∨ e.op.format = .J) :
    (Registry.instruction e raw).rs1 = 0#5 ∧ (Registry.instruction e raw).rs2 = 0#5 := by
  unfold Registry.instruction
  split
  all_goals first | exact ⟨rfl, rfl⟩ | skip
  rcases format with format | format <;> rw [format] <;> exact ⟨rfl, rfl⟩

/-- An upper immediate has no lower half. -/
theorem instruction_upper (format : e.op.format = .U) :
    (Registry.instruction e raw).imm &&& 0xFFF#32 = 0#32 := by
  have halves : 0xFFFFF000#32 &&& 0xFFF#32 = (0#32 : Word) := by decide
  unfold Registry.instruction
  split
  all_goals first | exact BitVec.zero_and | skip
  rw [format]
  change (raw &&& 0xFFFFF000#32) &&& 0xFFF#32 = 0#32
  rw [BitVec.and_assoc, halves, BitVec.and_zero]

/-- **An instruction of an entry is canonical.** -/
theorem canonical_of_entry (listed : e ∈ Registry.registry) (fields : e.Fields raw) :
    Canonical e.op (Registry.instruction e raw).rd (Registry.instruction e raw).rs1
      (Registry.instruction e raw).rs2 (Registry.instruction e raw).imm := by
  have fixed := registry_fixes e listed
  obtain ⟨_, f3, _, rs2Eq, _⟩ := fields
  -- An entry with operands is none of the four without any.
  have operands : shape e.op ≠ .bare →
      e.op ∉ [Opcode.i .ecall, .i .ebreak, .i .fence, .i .fenceI] := by
    intro shown listed
    simp only [List.mem_cons, List.not_mem_nil, or_false] at listed
    rcases listed with same | same | same | same <;> exact shown (by rw [same]; rfl)
  unfold Fixes at fixed
  unfold Canonical
  cases kind : shape e.op with
  | three | atomic =>
      rw [kind] at fixed
      dsimp only at fixed ⊢
      rw [Registry.instruction_of_R fixed]
      rfl
  | two =>
      rw [kind] at fixed operands
      dsimp only at fixed ⊢
      obtain ⟨selected, ⟨format, none⟩ | ⟨format, major, shifts⟩⟩ := fixed
      · rw [Registry.instruction_of_R format, none]
        exact ⟨(rs2Eq _ selected).trans none, rfl⟩
      · have minor : Bitfields.funct3 raw = 0b001#3 ∨ Bitfields.funct3 raw = 0b101#3 :=
          shifts.imp (f3 _) (f3 _)
        rw [Registry.instruction_of_I format (operands (by decide)), if_pos ⟨major, minor⟩,
          rs2Eq _ selected]
        exact ⟨rfl, rfl⟩
  | immediate | load =>
      rw [kind] at fixed operands
      dsimp only at fixed ⊢
      rw [Registry.instruction_of_I fixed (operands (by decide))]
      rfl
  | store =>
      rw [kind] at fixed
      exact instruction_rd raw (.inl fixed)
  | branch =>
      rw [kind] at fixed
      exact instruction_rd raw (.inr fixed)
  | upper =>
      rw [kind] at fixed
      obtain ⟨rs1, rs2⟩ := instruction_sources raw (.inl fixed)
      exact ⟨rs1, rs2, instruction_upper raw fixed⟩
  | jump =>
      rw [kind] at fixed
      exact instruction_sources raw (.inr fixed)
  | reserve =>
      rw [kind] at fixed
      obtain ⟨format, none⟩ := fixed
      dsimp only
      rw [Registry.instruction_of_R format]
      exact ⟨rs2Eq _ none, rfl⟩
  | csrRegister | csrImmediate =>
      rw [kind] at fixed operands
      obtain ⟨format, other⟩ := fixed
      dsimp only
      rw [Registry.instruction_of_I format (operands (by decide)), if_neg fun both => other both.1]
      exact ⟨rfl, (immI_fits raw).symm⟩
  | bare =>
      rw [kind] at fixed
      dsimp only
      rw [instruction_bare raw fixed]
      exact ⟨rfl, rfl, rfl, rfl⟩

end Entry

/-! ## Decoded instructions -/

/-- **The decoder returns canonical instructions only.** -/
theorem canonical_of_decode {raw : Word} {inst : Instruction} (decoded : decode raw = .ok inst) :
    Canonical inst.op inst.rd inst.rs1 inst.rs2 inst.imm := by
  have words : ∀ {raw inst}, isCompressed raw = false → decode raw = .ok inst →
      Canonical inst.op inst.rd inst.rs1 inst.rs2 inst.imm := by
    intro raw inst full decoded
    obtain ⟨e, listed, isMatch, rfl⟩ := (Registry.decode_iff full).1 decoded
    have fields := (Registry.isMatch_iff (Registry.registry_separate e listed) raw).1 isMatch
    rw [Registry.instruction_op]
    exact canonical_of_entry raw listed fields
  cases short : isCompressed raw with
  | false => exact words short decoded
  | true =>
      rw [decode, if_pos short] at decoded
      obtain ⟨exp, expanded, same⟩ := bind_eq_ok.1 decoded
      obtain ⟨op, _, expandedOp⟩ := bind_eq_ok.1 expanded
      -- It has a form of full size, with the same operands.
      obtain ⟨w, full, decodedWord⟩ := Rv32c.expandOp_hasWord expandedOp
      cases same
      have whole := words full decodedWord
      exact whole

/-- The opcode that a compressed one stands for. -/
def base : Rv32c.Opcode → Rv32i.Opcode
  | .cAddi4spn | .cAddi | .cLi | .cAddi16sp => .addi
  | .cLw | .cLwsp => .lw
  | .cSw | .cSwsp => .sw
  | .cJal | .cJ => .jal
  | .cLui => .lui
  | .cSrli => .srli
  | .cSrai => .srai
  | .cAndi => .andi
  | .cSub => .sub
  | .cXor => .xor
  | .cOr => .or
  | .cAnd => .and
  | .cBeqz => .beq
  | .cBnez => .bne
  | .cSlli => .slli
  | .cJr | .cJalr => .jalr
  | .cMv | .cAdd => .add
  | .cEbreak => .ebreak

theorem expandOp_base {op : Rv32c.Opcode} {half : Half} {exp : Rv32c.Expanded}
    (expanded : Rv32c.expandOp op half = .ok exp) : exp.op = base op ∧ exp.compressedOp = op := by
  cases op with
  | cAddi4spn | cAddi16sp | cLui | cSrli | cSrai | cSlli | cLwsp | cJr =>
      simp only [Rv32c.expandOp] at expanded
      split at expanded <;> cases expanded
      exact ⟨rfl, rfl⟩
  | _ =>
      cases expanded
      exact ⟨rfl, rfl⟩

/-- What the name of a decoded instruction is the name of. -/
theorem named_of_decode {raw : Word} {inst : Instruction} (decoded : decode raw = .ok inst) :
    inst.compressedOp = none ∧ isCompressed raw = false ∧ .inr inst.op ∈ allNamed ∨
      ∃ op, inst.compressedOp = some op ∧ isCompressed raw = true ∧ inst.op = .i (base op) := by
  cases short : isCompressed raw with
  | false =>
      obtain ⟨e, listed, _, rfl⟩ := (Registry.decode_iff short).1 decoded
      have plain : (Registry.instruction e raw).compressedOp = none := by
        unfold Registry.instruction
        split
        all_goals first | rfl | skip
        split <;> rfl
      refine .inl ⟨plain, rfl, ?_⟩
      rw [Registry.instruction_op]
      exact mem_allNamed_of_registry listed
  | true =>
      rw [decode, if_pos short] at decoded
      obtain ⟨exp, expanded, same⟩ := bind_eq_ok.1 decoded
      obtain ⟨op, _, expandedOp⟩ := bind_eq_ok.1 expanded
      obtain ⟨stands, named⟩ := expandOp_base expandedOp
      cases same
      exact .inr ⟨op, congrArg some named, rfl, congrArg Opcode.i stands⟩

section Two

variable {raw raw' : Word} {inst inst' : Instruction}

/-- The name of a decoded instruction determines its opcode, and whether it is compressed. -/
theorem nameOf_injective (decoded : decode raw = .ok inst) (decoded' : decode raw' = .ok inst')
    (same : nameOf inst.op inst.compressedOp = nameOf inst'.op inst'.compressedOp) :
    inst.op = inst'.op ∧ inst.compressedOp = inst'.compressedOp ∧
      isCompressed raw = isCompressed raw' := by
  rcases named_of_decode decoded with ⟨plain, full, listed⟩ | ⟨op, named, short, stands⟩
  · rcases named_of_decode decoded' with ⟨plain', full', listed'⟩ | ⟨op', named', short', stands'⟩
    · rw [plain, plain'] at same
      have equal := nameText_injective listed listed' same
      exact ⟨Sum.inr.inj equal, plain.trans plain'.symm, full.trans full'.symm⟩
    · rw [plain, named'] at same
      have equal := nameText_injective listed (mem_allNamed_compressed op') same
      cases equal
  · rcases named_of_decode decoded' with ⟨plain', full', listed'⟩ | ⟨op', named', short', stands'⟩
    · rw [named, plain'] at same
      have equal := nameText_injective (mem_allNamed_compressed op) listed' same
      cases equal
    · rw [named, named'] at same
      have equal := nameText_injective (mem_allNamed_compressed op) (mem_allNamed_compressed op')
        same
      cases equal
      exact ⟨stands.trans stands'.symm, named.trans named'.symm, short.trans short'.symm⟩

/-- A name has no space in it. -/
theorem nameOf_plain (decoded : decode raw = .ok inst) :
    space ∉ nameOf inst.op inst.compressedOp := by
  rcases named_of_decode decoded with ⟨plain, _, listed⟩ | ⟨op, named, _⟩
  · rw [plain]
    exact names_plain _ listed
  · rw [named]
    exact names_plain _ (mem_allNamed_compressed op)

/-- An upper immediate without its lower half determines the whole. -/
theorem upper_injective {imm imm' : Word} (low : imm &&& 0xFFF#32 = 0#32)
    (low' : imm' &&& 0xFFF#32 = 0#32)
    (same : hex 0 (imm >>> 12).toNat = hex 0 (imm' >>> 12).toNat) : imm = imm' := by
  have halves : ∀ w : Word, w &&& 0xFFF#32 = 0#32 → w.toNat % 2 ^ 12 = 0 := by
    intro w low
    have digits := congrArg BitVec.toNat low
    rwa [BitVec.toNat_and, BitVec.toNat_ofNat, BitVec.toNat_ofNat,
      Nat.and_two_pow_sub_one_eq_mod _ 12] at digits
  have uppers := hex_injective same
  rw [BitVec.toNat_ushiftRight, BitVec.toNat_ushiftRight, Nat.shiftRight_eq_div_pow,
    Nat.shiftRight_eq_div_pow] at uppers
  have low := halves imm low
  have low' := halves imm' low'
  apply BitVec.toNat_inj.1
  omega

/-- A CSR number determines the immediate that it was read from. -/
theorem csrAddr_injective (whole : inst.imm = (inst.imm.setWidth 12).signExtend 32)
    (whole' : inst'.imm = (inst'.imm.setWidth 12).signExtend 32)
    (same : inst.csrAddr = inst'.csrAddr) : inst.imm = inst'.imm := by
  have lower : inst.imm.setWidth 12 = inst'.imm.setWidth 12 := same
  rw [whole, lower, ← whole']

/-- **The operands of canonical instructions of one opcode determine their fields.** -/
theorem operands_injective {pc : Option Word} (op : inst'.op = inst.op)
    (canonical : Canonical inst.op inst.rd inst.rs1 inst.rs2 inst.imm)
    (canonical' : Canonical inst'.op inst'.rd inst'.rs1 inst'.rs2 inst'.imm)
    (same : operands inst pc (shape inst.op) = operands inst' pc (shape inst'.op)) :
    inst.rd = inst'.rd ∧ inst.rs1 = inst'.rs1 ∧ inst.rs2 = inst'.rs2 ∧ inst.imm = inst'.imm := by
  rw [op] at same canonical'
  have bracketed : ∀ {k k'}, ascii "(" ++ reg k ++ ascii ")" = ascii "(" ++ reg k' ++ ascii ")" →
      k = k' := fun same =>
    reg_injective (List.append_cancel_left (List.append_cancel_right same))
  unfold Canonical at canonical canonical'
  cases kind : shape inst.op with
  | three =>
      rw [kind] at same canonical canonical'
      simp only [operands, List.cons.injEq, and_true] at same
      obtain ⟨rd, rs1, rs2⟩ := same
      exact ⟨reg_injective rd, reg_injective rs1, reg_injective rs2,
        canonical.trans canonical'.symm⟩
  | two =>
      rw [kind] at same canonical canonical'
      simp only [operands, List.cons.injEq, and_true] at same
      obtain ⟨rd, rs1⟩ := same
      exact ⟨reg_injective rd, reg_injective rs1, canonical.1.trans canonical'.1.symm,
        canonical.2.trans canonical'.2.symm⟩
  | immediate =>
      rw [kind] at same canonical canonical'
      simp only [operands, List.cons.injEq, and_true] at same
      obtain ⟨rd, rs1, imm⟩ := same
      exact ⟨reg_injective rd, reg_injective rs1, canonical.trans canonical'.symm,
        toInt_injective imm⟩
  | load =>
      rw [kind] at same canonical canonical'
      simp only [operands, List.cons.injEq, and_true] at same
      obtain ⟨rd, address⟩ := same
      obtain ⟨imm, rs1⟩ := displaced_injective address
      exact ⟨reg_injective rd, rs1, canonical.trans canonical'.symm, imm⟩
  | store =>
      rw [kind] at same canonical canonical'
      simp only [operands, List.cons.injEq, and_true] at same
      obtain ⟨rs2, address⟩ := same
      obtain ⟨imm, rs1⟩ := displaced_injective address
      exact ⟨canonical.trans canonical'.symm, rs1, reg_injective rs2, imm⟩
  | branch =>
      rw [kind] at same canonical canonical'
      simp only [operands, List.cons.injEq, and_true] at same
      obtain ⟨rs1, rs2, imm⟩ := same
      exact ⟨canonical.trans canonical'.symm, reg_injective rs1, reg_injective rs2,
        target_injective imm⟩
  | upper =>
      rw [kind] at same canonical canonical'
      simp only [operands, List.cons.injEq, and_true] at same
      obtain ⟨rd, digits⟩ := same
      obtain ⟨rs1, rs2, low⟩ := canonical
      obtain ⟨rs1', rs2', low'⟩ := canonical'
      exact ⟨reg_injective rd, rs1.trans rs1'.symm, rs2.trans rs2'.symm,
        upper_injective low low' (List.append_cancel_left digits)⟩
  | jump =>
      rw [kind] at same canonical canonical'
      simp only [operands, List.cons.injEq, and_true] at same
      obtain ⟨rd, imm⟩ := same
      exact ⟨reg_injective rd, canonical.1.trans canonical'.1.symm,
        canonical.2.trans canonical'.2.symm, target_injective imm⟩
  | reserve =>
      rw [kind] at same canonical canonical'
      simp only [operands, List.cons.injEq, and_true] at same
      obtain ⟨rd, rs1⟩ := same
      exact ⟨reg_injective rd, bracketed rs1, canonical.1.trans canonical'.1.symm,
        canonical.2.trans canonical'.2.symm⟩
  | atomic =>
      rw [kind] at same canonical canonical'
      simp only [operands, List.cons.injEq, and_true] at same
      obtain ⟨rd, rs2, rs1⟩ := same
      exact ⟨reg_injective rd, bracketed rs1, reg_injective rs2, canonical.trans canonical'.symm⟩
  | csrRegister =>
      rw [kind] at same canonical canonical'
      simp only [operands, List.cons.injEq, and_true] at same
      obtain ⟨rd, addr, rs1⟩ := same
      exact ⟨reg_injective rd, reg_injective rs1, canonical.1.trans canonical'.1.symm,
        csrAddr_injective canonical.2 canonical'.2 (csr_injective addr)⟩
  | csrImmediate =>
      rw [kind] at same canonical canonical'
      simp only [operands, List.cons.injEq, and_true] at same
      obtain ⟨rd, addr, rs1⟩ := same
      exact ⟨reg_injective rd, BitVec.toNat_inj.1 (decimal_injective rs1),
        canonical.1.trans canonical'.1.symm,
        csrAddr_injective canonical.2 canonical'.2 (csr_injective addr)⟩
  | bare =>
      rw [kind] at canonical canonical'
      obtain ⟨rd, rs1, rs2, imm⟩ := canonical
      obtain ⟨rd', rs1', rs2', imm'⟩ := canonical'
      exact ⟨rd.trans rd'.symm, rs1.trans rs1'.symm, rs2.trans rs2'.symm, imm.trans imm'.symm⟩

/-- **Instructions with the same text are the same.** Two words that decode have the same text,
at an address or at none, exactly if they decode to the same operation with the same operands and
the same compressed form, so that only bits which the instruction does not use can differ. They
then have the same size, and every machine executes them the same. -/
theorem text_determines (pc : Option Word) (decoded : decode raw = .ok inst)
    (decoded' : decode raw' = .ok inst') :
    (printInstruction inst pc = printInstruction inst' pc ↔
        ({ inst with raw := 0#32 } : Instruction) = { inst' with raw := 0#32 }) ∧
      (printInstruction inst pc = printInstruction inst' pc →
        Machine.instSize raw = Machine.instSize raw' ∧
          ∀ (n : MemSize) (m : Machine n), Machine.execute inst (Machine.instSize raw) m =
            Machine.execute inst' (Machine.instSize raw') m) := by
  have fields : printInstruction inst pc = printInstruction inst' pc →
      inst.op = inst'.op ∧ inst.compressedOp = inst'.compressedOp ∧
        isCompressed raw = isCompressed raw' ∧ inst.rd = inst'.rd ∧ inst.rs1 = inst'.rs1 ∧
        inst.rs2 = inst'.rs2 ∧ inst.imm = inst'.imm := by
    intro same
    rw [printInstruction_eq, printInstruction_eq] at same
    obtain ⟨name, texts⟩ := written_injective (nameOf_plain decoded) (nameOf_plain decoded')
      (comma_not_mem_operands inst pc _) (comma_not_mem_operands inst' pc _) same
    obtain ⟨op, compressedOp, size⟩ := nameOf_injective decoded decoded' name
    obtain ⟨rd, rs1, rs2, imm⟩ := operands_injective op.symm (canonical_of_decode decoded)
      (canonical_of_decode decoded') texts
    exact ⟨op, compressedOp, size, rd, rs1, rs2, imm⟩
  refine ⟨⟨fun same => ?_, fun same => ?_⟩, fun same => ?_⟩
  · obtain ⟨op, compressedOp, _, rd, rs1, rs2, imm⟩ := fields same
    rw [op, compressedOp, rd, rs1, rs2, imm]
  · -- The bits are not part of the text.
    have texts := congrArg (fun i => printInstruction i pc) same
    exact texts
  · obtain ⟨op, _, size, rd, rs1, rs2, imm⟩ := fields same
    have sizes : Machine.instSize raw = Machine.instSize raw' := by
      rw [Machine.instSize, Machine.instSize, size]
    refine ⟨sizes, fun n m => ?_⟩
    rw [sizes, Machine.execute_eq, Machine.execute_eq,
      Machine.decision_congr op.symm rd.symm rs1.symm rs2.symm imm.symm]

/-- Two fences order different accesses, have the same text, and execute the same. -/
theorem text_determines_fences :
    decode 0x0FF0000F#32 = .ok { op := .i .fence, raw := 0x0FF0000F#32 } ∧
      decode 0x0330000F#32 = .ok { op := .i .fence, raw := 0x0330000F#32 } ∧
      ∀ (n : MemSize) (m : Machine n),
        Machine.execute { op := .i .fence, raw := 0x0FF0000F#32 } 4#32 m =
          Machine.execute { op := .i .fence, raw := 0x0330000F#32 } 4#32 m := by
  have decoded : decode 0x0FF0000F#32 = .ok { op := .i .fence, raw := 0x0FF0000F#32 } := by
    decide +kernel
  have decoded' : decode 0x0330000F#32 = .ok { op := .i .fence, raw := 0x0330000F#32 } := by
    decide +kernel
  obtain ⟨_, execute⟩ := (text_determines none decoded decoded').2 rfl
  exact ⟨decoded, decoded', execute⟩

end Two

end Disasm

end Determinant
