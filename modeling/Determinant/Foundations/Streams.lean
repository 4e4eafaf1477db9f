import Determinant.Foundations.LittleEndian

/-!
# Byte streams

A reader delivers the bytes it holds and then ends, at the end of its stream or in a failure.
A read that wants more than is left delivers what there is, and then fails: the caller's
buffer is filled up to there. A writer takes bytes, for ever or up to some number and then
fails; what it took before it failed it has taken. Both keep the bytes in order and lose
none.
-/

set_option autoImplicit false

namespace Determinant.Foundations

/-- Why a reader delivers no more. -/
inductive ReadError where
  | endOfStream
  | readFailed
deriving DecidableEq, Repr

/-- A source of bytes. -/
structure Reader where
  bytes : List Byte
  ending : ReadError
deriving DecidableEq, Repr

namespace Reader

/-- Read into a buffer of `k` bytes: what arrives in the buffer, and the reader after it, or
the error when the buffer is not full. -/
def readSliceAll (k : Nat) (r : Reader) : List Byte × Except ReadError Reader :=
  (r.bytes.take k,
    if k ≤ r.bytes.length then .ok { r with bytes := r.bytes.drop k } else .error r.ending)

end Reader

/-- The one error of a writer. -/
inductive WriteError where
  | writeFailed
deriving DecidableEq, Repr

/-- A sink of bytes. It has taken `written`, and takes `room` more, or any number if there is
no limit. -/
structure Writer where
  written : List Byte := []
  room : Option Nat := none
deriving DecidableEq, Repr

namespace Writer

/-- Write all the bytes, or as many as there is room for and then fail. -/
def writeAll (bytes : List Byte) : EStateM WriteError Writer Unit := fun w =>
  match w.room with
  | none => .ok () { w with written := w.written ++ bytes }
  | some room =>
      if bytes.length ≤ room then
        .ok () { written := w.written ++ bytes, room := some (room - bytes.length) }
      else .error .writeFailed { written := w.written ++ bytes.take room, room := some 0 }

/-- A writer without a limit takes everything. -/
theorem writeAll_unlimited {w : Writer} (unlimited : w.room = none) (bytes : List Byte) :
    writeAll bytes w = .ok () { w with written := w.written ++ bytes } := by
  simp [writeAll, unlimited]

end Writer

end Determinant.Foundations
