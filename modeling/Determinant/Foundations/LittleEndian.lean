import Mathlib.Data.Nat.Digits.Defs
import Mathlib.Data.Nat.Digits.Lemmas
import Mathlib.Tactic.Ring

/-!
# Little-endian integers

`leBytes k v` is the low `k` bytes of a number, the least significant first, and `ofLeBytes`
the number that bytes spell. They are inverse to each other: writing and reading gives the
number modulo `256 ^ k` (`ofLeBytes_leBytes`), and reading and writing gives the bytes
(`leBytes_ofLeBytes`). `writeInt` and `readInt` are the same for bit vectors, and with `8 * k`
bits nothing is lost either way (`readInt_writeInt`, `writeInt_readInt`).
-/

set_option autoImplicit false

namespace Determinant.Foundations

/-- A byte. -/
abbrev Byte := BitVec 8

/-- The low `k` bytes of a number, the least significant first. -/
def leBytes : Nat → Nat → List Byte
  | 0, _ => []
  | k + 1, v => BitVec.ofNat 8 v :: leBytes k (v / 256)

/-- The number that bytes spell, the least significant first. -/
def ofLeBytes : List Byte → Nat
  | [] => 0
  | b :: bs => b.toNat + 256 * ofLeBytes bs

@[simp] theorem length_leBytes (k v : Nat) : (leBytes k v).length = k := by
  induction k generalizing v with
  | zero => rfl
  | succ k ih => simp [leBytes, ih]

theorem ofLeBytes_lt (bs : List Byte) : ofLeBytes bs < 256 ^ bs.length := by
  induction bs with
  | nil => simp [ofLeBytes]
  | cons b bs ih =>
      have digit : b.toNat < 256 := b.isLt
      simp only [ofLeBytes, List.length_cons, Nat.pow_succ]
      omega

theorem ofLeBytes_leBytes (k v : Nat) : ofLeBytes (leBytes k v) = v % 256 ^ k := by
  induction k generalizing v with
  | zero => simp [leBytes, ofLeBytes, Nat.mod_one]
  | succ k ih =>
      have digit : (BitVec.ofNat 8 v).toNat = v % 256 := BitVec.toNat_ofNat v 8
      rw [leBytes, ofLeBytes, ih, digit, Nat.pow_succ', Nat.mod_mul]

theorem leBytes_ofLeBytes (bs : List Byte) : leBytes bs.length (ofLeBytes bs) = bs := by
  induction bs with
  | nil => rfl
  | cons b bs ih =>
      have digit : b.toNat < 256 := b.isLt
      have tail : (b.toNat + 256 * ofLeBytes bs) / 256 = ofLeBytes bs := by omega
      have head : BitVec.ofNat 8 (b.toNat + 256 * ofLeBytes bs) = b := by
        apply BitVec.eq_of_toNat_eq
        rw [BitVec.toNat_ofNat]
        omega
      simp only [List.length_cons, leBytes, ofLeBytes, tail, head, ih]

theorem ofLeBytes_append (bs cs : List Byte) :
    ofLeBytes (bs ++ cs) = ofLeBytes bs + 256 ^ bs.length * ofLeBytes cs := by
  induction bs with
  | nil => simp [ofLeBytes]
  | cons b bs ih =>
      simp only [List.cons_append, ofLeBytes, ih, List.length_cons, Nat.pow_succ]
      ring

/-! ## Bit vectors -/

/-- The low `k` bytes of a machine integer. -/
def writeInt (k : Nat) {w : Nat} (v : BitVec w) : List Byte := leBytes k v.toNat

/-- The machine integer that bytes spell. -/
def readInt (w : Nat) (bs : List Byte) : BitVec w := BitVec.ofNat w (ofLeBytes bs)

@[simp] theorem length_writeInt (k : Nat) {w : Nat} (v : BitVec w) :
    (writeInt k v).length = k := length_leBytes k v.toNat

theorem writeInt_byte (b : Byte) : writeInt 1 b = [b] := by
  simp [writeInt, leBytes]

theorem pow_bytes (k : Nat) : 256 ^ k = 2 ^ (8 * k) := by
  rw [Nat.pow_mul]

theorem readInt_writeInt {k w : Nat} (fits : w = 8 * k) (v : BitVec w) :
    readInt w (writeInt k v) = v := by
  subst fits
  apply BitVec.eq_of_toNat_eq
  rw [readInt, writeInt, ofLeBytes_leBytes, pow_bytes, BitVec.toNat_ofNat, Nat.mod_mod,
    Nat.mod_eq_of_lt v.isLt]

theorem toNat_readInt {k w : Nat} (fits : w = 8 * k) {bs : List Byte} (len : bs.length = k) :
    (readInt w bs).toNat = ofLeBytes bs := by
  subst fits
  have small := ofLeBytes_lt bs
  rw [len, pow_bytes] at small
  rw [readInt, BitVec.toNat_ofNat, Nat.mod_eq_of_lt small]

theorem writeInt_readInt {k w : Nat} (fits : w = 8 * k) {bs : List Byte} (len : bs.length = k) :
    writeInt k (readInt w bs) = bs := by
  rw [writeInt, toNat_readInt fits len, ← len, leBytes_ofLeBytes]

/-- The first bytes spell the low bits. -/
theorem setWidth_readInt_append {k w w' : Nat} (fits : w' = 8 * k) (narrower : w' ≤ w)
    {bs : List Byte} (len : bs.length = k) (cs : List Byte) :
    (readInt w (bs ++ cs)).setWidth w' = readInt w' bs := by
  have divides : 2 ^ w' ∣ 2 ^ w := Nat.pow_dvd_pow 2 narrower
  apply BitVec.eq_of_toNat_eq
  rw [BitVec.toNat_setWidth, readInt, readInt, BitVec.toNat_ofNat, BitVec.toNat_ofNat,
    ofLeBytes_append, len, pow_bytes, ← fits, Nat.mod_mod_of_dvd _ divides,
    Nat.add_mul_mod_self_left]

end Determinant.Foundations
