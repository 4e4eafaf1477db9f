import Determinant.Instructions.Base
import Determinant.Foundations.FallibleState

/-!
# The extensions M, A, Zba, Zbb, Zbs and Zicsr

For each extension its opcodes, the functions that find an opcode from the instruction's
fields, and the value an instruction computes. The value functions are pure: register and
memory accesses are made by the processor. The CSR file of Zicsr has one register of its
own, `mscratch`; the counters are read from the cycle count it is given.
-/

set_option autoImplicit false

namespace Determinant

open Foundations

/-- The larger of two words as signed integers. -/
def smax (a b : Word) : Word := if a.slt b then b else a

/-- The smaller of two words as signed integers. -/
def smin (a b : Word) : Word := if b.slt a then b else a

/-- The larger of two words as unsigned integers. -/
def umax (a b : Word) : Word := if a < b then b else a

/-- The smaller of two words as unsigned integers. -/
def umin (a b : Word) : Word := if b < a then b else a

/-! ## M: multiplication and division -/

namespace Rv32m

inductive Opcode where
  | mul | mulh | mulhsu | mulhu | div | divu | rem | remu
deriving DecidableEq, Repr

def Opcode.format : Opcode → Format := fun _ => .R

/-- Every `funct3` is an opcode; the caller has checked `funct7`. -/
def decodeR (f3 : BitVec 3) : Opcode :=
  match f3 with
  | 0b000#3 => .mul
  | 0b001#3 => .mulh
  | 0b010#3 => .mulhsu
  | 0b011#3 => .mulhu
  | 0b100#3 => .div
  | 0b101#3 => .divu
  | 0b110#3 => .rem
  | 0b111#3 => .remu

/-- The most negative 32-bit integer. -/
def minInt : Word := 0x80000000#32

def execute (op : Opcode) (rs1Val rs2Val : Word) : Word :=
  match op with
  | .mul => rs1Val * rs2Val
  | .mulh =>
      let a : BitVec 64 := rs1Val.signExtend 64
      let b : BitVec 64 := rs2Val.signExtend 64
      ((a * b) >>> 32).setWidth 32
  | .mulhsu =>
      let a : BitVec 64 := rs1Val.signExtend 64
      let b : BitVec 64 := rs2Val.setWidth 64
      ((a * b) >>> 32).setWidth 32
  | .mulhu =>
      let a : BitVec 64 := rs1Val.setWidth 64
      let b : BitVec 64 := rs2Val.setWidth 64
      ((a * b) >>> 32).setWidth 32
  | .div =>
      if rs2Val = 0#32 then -1#32
      else if rs1Val = minInt ∧ rs2Val = -1#32 then minInt
      else rs1Val.sdiv rs2Val
  | .divu => if rs2Val = 0#32 then 0xFFFFFFFF#32 else rs1Val / rs2Val
  | .rem =>
      if rs2Val = 0#32 then rs1Val
      else if rs1Val = minInt ∧ rs2Val = -1#32 then 0#32
      else rs1Val.srem rs2Val
  | .remu => if rs2Val = 0#32 then rs1Val else rs1Val % rs2Val

end Rv32m

/-! ## A: atomics -/

namespace Rv32a

inductive Opcode where
  | lrW | scW
  | amoswapW | amoaddW | amoxorW | amoandW | amoorW
  | amominW | amomaxW | amominuW | amomaxuW
deriving DecidableEq, Repr

def Opcode.format : Opcode → Format := fun _ => .R

/-- The nine operations that read a word and write it back. -/
def Opcode.isAmo (op : Opcode) : Prop := op ≠ .lrW ∧ op ≠ .scW

theorem Opcode.isAmo_intro {op : Opcode} (lr : op ≠ .lrW) (sc : op ≠ .scW) : op.isAmo := ⟨lr, sc⟩

/-- An atomic instruction from `funct5`; the `aq` and `rl` bits are not part of it. -/
def decodeR (f5 : BitVec 5) : Option Opcode :=
  match f5 with
  | 0b00010#5 => some .lrW
  | 0b00011#5 => some .scW
  | 0b00001#5 => some .amoswapW
  | 0b00000#5 => some .amoaddW
  | 0b00100#5 => some .amoxorW
  | 0b01100#5 => some .amoandW
  | 0b01000#5 => some .amoorW
  | 0b10000#5 => some .amominW
  | 0b10100#5 => some .amomaxW
  | 0b11000#5 => some .amominuW
  | 0b11100#5 => some .amomaxuW
  | _ => none

/-- The word an AMO stores. The source's `unreachable` for LR.W and SC.W is the argument
`amo`: a caller has to show that it does not pass them. -/
def execute (op : Opcode) (amo : op.isAmo) (old rs2Val : Word) : Word :=
  match op, amo with
  | .amoswapW, _ => rs2Val
  | .amoaddW, _ => old + rs2Val
  | .amoxorW, _ => old ^^^ rs2Val
  | .amoandW, _ => old &&& rs2Val
  | .amoorW, _ => old ||| rs2Val
  | .amominW, _ => smin old rs2Val
  | .amomaxW, _ => smax old rs2Val
  | .amominuW, _ => umin old rs2Val
  | .amomaxuW, _ => umax old rs2Val
  | .lrW, amo => absurd rfl amo.1
  | .scW, amo => absurd rfl amo.2

end Rv32a

/-! ## Zba: address generation -/

namespace Zba

inductive Opcode where
  | sh1add | sh2add | sh3add
deriving DecidableEq, Repr

def Opcode.format : Opcode → Format := fun _ => .R

def decodeR (f3 : BitVec 3) (f7 : BitVec 7) : Option Opcode :=
  if f7 ≠ 0b0010000#7 then none
  else
    match f3 with
    | 0b010#3 => some .sh1add
    | 0b100#3 => some .sh2add
    | 0b110#3 => some .sh3add
    | _ => none

def execute (op : Opcode) (rs1Val rs2Val : Word) : Word :=
  match op with
  | .sh1add => (rs1Val <<< 1) + rs2Val
  | .sh2add => (rs1Val <<< 2) + rs2Val
  | .sh3add => (rs1Val <<< 3) + rs2Val

end Zba

/-! ## Zbb: basic bit manipulation -/

namespace Zbb

inductive Opcode where
  | andn | orn | xnor | max | maxu | min | minu | rol | ror | zextH
  | clz | ctz | cpop | sextB | sextH | rori | orcB | rev8
deriving DecidableEq, Repr

def Opcode.format : Opcode → Format
  | .andn | .orn | .xnor | .max | .maxu | .min | .minu | .rol | .ror | .zextH => .R
  | .clz | .ctz | .cpop | .sextB | .sextH | .rori | .orcB | .rev8 => .I

def decodeR (f3 : BitVec 3) (f7 : BitVec 7) (rs2Field : Reg) : Option Opcode :=
  match f7 with
  | 0b0100000#7 =>
      match f3 with
      | 0b100#3 => some .xnor
      | 0b110#3 => some .orn
      | 0b111#3 => some .andn
      | _ => none
  | 0b0000101#7 =>
      match f3 with
      | 0b100#3 => some .min
      | 0b101#3 => some .minu
      | 0b110#3 => some .max
      | 0b111#3 => some .maxu
      | _ => none
  | 0b0110000#7 =>
      match f3 with
      | 0b001#3 => some .rol
      | 0b101#3 => some .ror
      | _ => none
  | 0b0000100#7 => if f3 = 0b100#3 ∧ rs2Field = 0#5 then some .zextH else none
  | _ => none

def decodeIAlu (f3 : BitVec 3) (f7 : BitVec 7) (rs2Field : Reg) : Option Opcode :=
  match f3 with
  | 0b001#3 =>
      if f7 = 0b0110000#7 then
        match rs2Field with
        | 0#5 => some .clz
        | 1#5 => some .ctz
        | 2#5 => some .cpop
        | 4#5 => some .sextB
        | 5#5 => some .sextH
        | _ => none
      else none
  | 0b101#3 =>
      match f7 with
      | 0b0110000#7 => some .rori
      | 0b0010100#7 => if rs2Field = 7#5 then some .orcB else none
      | 0b0110100#7 => if rs2Field = 24#5 then some .rev8 else none
      | _ => none
  | _ => none

/-- The bytes of a word in the opposite order. -/
def byteSwap (x : Word) : Word :=
  x.extractLsb' 0 8 ++ x.extractLsb' 8 8 ++ x.extractLsb' 16 8 ++ x.extractLsb' 24 8

/-- `src2` is the register `rs2` for the R format and the immediate for the I format. -/
def execute (op : Opcode) (rs1Val src2 : Word) : Word :=
  match op with
  | .andn => rs1Val &&& ~~~src2
  | .orn => rs1Val ||| ~~~src2
  | .xnor => rs1Val ^^^ ~~~src2
  | .clz => rs1Val.clz
  | .ctz => rs1Val.ctz
  | .cpop => rs1Val.cpop
  | .max => smax rs1Val src2
  | .maxu => umax rs1Val src2
  | .min => smin rs1Val src2
  | .minu => umin rs1Val src2
  | .sextB => (rs1Val.setWidth 8).signExtend 32
  | .sextH => (rs1Val.setWidth 16).signExtend 32
  | .zextH => rs1Val &&& 0xFFFF#32
  | .rol =>
      let shamt : BitVec 5 := src2.setWidth 5
      let compl : BitVec 5 := 0#5 - shamt
      (rs1Val <<< shamt) ||| (rs1Val >>> compl)
  | .ror | .rori =>
      let shamt : BitVec 5 := src2.setWidth 5
      let compl : BitVec 5 := 0#5 - shamt
      (rs1Val >>> shamt) ||| (rs1Val <<< compl)
  | .orcB =>
      let result : Word := 0#32
      let result := if rs1Val &&& 0x000000FF#32 ≠ 0#32 then result ||| 0x000000FF#32 else result
      let result := if rs1Val &&& 0x0000FF00#32 ≠ 0#32 then result ||| 0x0000FF00#32 else result
      let result := if rs1Val &&& 0x00FF0000#32 ≠ 0#32 then result ||| 0x00FF0000#32 else result
      if rs1Val &&& 0xFF000000#32 ≠ 0#32 then result ||| 0xFF000000#32 else result
  | .rev8 => byteSwap rs1Val

end Zbb

/-! ## Zbs: single-bit manipulation -/

namespace Zbs

inductive Opcode where
  | bclr | bext | binv | bset
  | bclri | bexti | binvi | bseti
deriving DecidableEq, Repr

def Opcode.format : Opcode → Format
  | .bclr | .bext | .binv | .bset => .R
  | .bclri | .bexti | .binvi | .bseti => .I

def decodeR (f3 : BitVec 3) (f7 : BitVec 7) : Option Opcode :=
  match f7 with
  | 0b0100100#7 =>
      match f3 with
      | 0b001#3 => some .bclr
      | 0b101#3 => some .bext
      | _ => none
  | 0b0110100#7 => if f3 = 0b001#3 then some .binv else none
  | 0b0010100#7 => if f3 = 0b001#3 then some .bset else none
  | _ => none

def decodeIAlu (f3 : BitVec 3) (f7 : BitVec 7) : Option Opcode :=
  match f7 with
  | 0b0100100#7 =>
      match f3 with
      | 0b001#3 => some .bclri
      | 0b101#3 => some .bexti
      | _ => none
  | 0b0110100#7 => if f3 = 0b001#3 then some .binvi else none
  | 0b0010100#7 => if f3 = 0b001#3 then some .bseti else none
  | _ => none

/-- `src2` is the register `rs2` for the R format and the immediate for the I format. -/
def execute (op : Opcode) (rs1Val src2 : Word) : Word :=
  let shamt : BitVec 5 := src2.setWidth 5
  match op with
  | .bclr | .bclri => rs1Val &&& ~~~(1#32 <<< shamt)
  | .bext | .bexti => (rs1Val >>> shamt) &&& 1#32
  | .binv | .binvi => rs1Val ^^^ (1#32 <<< shamt)
  | .bset | .bseti => rs1Val ||| (1#32 <<< shamt)

end Zbs

/-! ## Zicsr: control and status registers -/

namespace Zicsr

inductive Opcode where
  | csrrw | csrrs | csrrc | csrrwi | csrrsi | csrrci
deriving DecidableEq, Repr

def Opcode.format : Opcode → Format := fun _ => .I

/-- A SYSTEM instruction from `funct3`; `none` for ECALL and EBREAK, and for the reserved
value. -/
def decodeSystem (f3 : BitVec 3) : Option Opcode :=
  match f3 with
  | 0b001#3 => some .csrrw
  | 0b010#3 => some .csrrs
  | 0b011#3 => some .csrrc
  | 0b101#3 => some .csrrwi
  | 0b110#3 => some .csrrsi
  | 0b111#3 => some .csrrci
  | _ => none

/-- The registers that instructions can write. -/
structure Csr where
  mscratch : Word := 0#32
deriving DecidableEq, Repr

namespace Csr

/-- `cycle` and `instret` are one counter, and so are their upper halves. -/
def read (csr : Csr) (cycleCount : Count) (addr : BitVec 12) : Except DecodeError Word :=
  match addr with
  | 0xC00#12 | 0xC02#12 => .ok (cycleCount.setWidth 32)
  | 0xC80#12 | 0xC82#12 => .ok ((cycleCount >>> 32).setWidth 32)
  | 0x340#12 => .ok csr.mscratch
  | _ => .error .illegalInstruction

def write (addr : BitVec 12) (value : Word) : EStateM DecodeError Csr Unit := do
  -- The numbers with bits [11:10] = 0b11 are read-only by convention.
  if (addr >>> 10) &&& 0b11#12 = 0b11#12 then throw .illegalInstruction
  match addr with
  | 0x340#12 => modify fun csr => { csr with mscratch := value }
  | _ => throw .illegalInstruction

/-- A CSR instruction. `srcVal` is the register's value or the immediate, and `srcNonzero`
whether the `rs1` field is nonzero. The result is the value for `rd`, if there is one. -/
def execute (op : Opcode) (cycleCount : Count) (csrAddr : BitVec 12) (srcVal : Word)
    (rdNonzero srcNonzero : Bool) : EStateM DecodeError Csr (Option Word) := do
  match op with
  | .csrrw | .csrrwi =>
      let mut rdVal : Option Word := none
      if rdNonzero then
        rdVal := some (← reads fun csr => csr.read cycleCount csrAddr)
      write csrAddr srcVal
      return rdVal
  | .csrrs | .csrrsi =>
      let old ← reads fun csr => csr.read cycleCount csrAddr
      if srcNonzero then
        write csrAddr (old ||| srcVal)
      return some old
  | .csrrc | .csrrci =>
      let old ← reads fun csr => csr.read cycleCount csrAddr
      if srcNonzero then
        write csrAddr (old &&& ~~~srcVal)
      return some old

/-- `mscratch` is the only register that can be written. -/
theorem write_apply (addr : BitVec 12) (value : Word) (csr : Csr) :
    write addr value csr =
      if addr = 0x340#12 then .ok () { csr with mscratch := value }
      else .error .illegalInstruction csr := by
  by_cases scratch : addr = 0x340#12
  · subst scratch
    rfl
  · rw [if_neg scratch, write]
    · split <;> rfl
    · exact scratch

theorem write_atomic (addr : BitVec 12) (value : Word) : Atomic (write addr value) := by
  intro csr e csr' failed
  rw [write_apply] at failed
  split at failed
  · cases failed
  · cases failed
    rfl

/-- **A CSR instruction that fails changes nothing**: the read comes before the write. -/
theorem execute_atomic (op : Opcode) (cycleCount : Count) (csrAddr : BitVec 12) (srcVal : Word)
    (rdNonzero srcNonzero : Bool) :
    Atomic (execute op cycleCount csrAddr srcVal rdNonzero srcNonzero) := by
  have write_then : ∀ (addr : BitVec 12) (value : Word) (rdVal : Option Word),
      Atomic (write addr value >>= fun _ => pure rdVal) := fun addr value rdVal =>
    (write_atomic addr value).then_total fun _ _ _ _ => nofun
  cases op with
  | csrrw | csrrwi =>
      exact .ite _ (.after_reads _ fun _ => write_then _ _ _) (write_then _ _ _)
  | csrrs | csrrsi | csrrc | csrrci =>
      exact .after_reads _ fun _ => .ite _ (write_then _ _ _) (.pure _)

end Csr

end Zicsr

end Determinant
