import DocStore.Cursor
import DocStore.Packed.Width

/-!
# Reading packed values one by one

An unpacker takes bytes from its input only when a value needs them, so after the last value it
has consumed exactly the bytes of the array.
-/

namespace DocStore.Packed

/-- A packed array being read in order. -/
structure Unpacker where
  width : Width
  /-- How many values are still to come. -/
  remaining : Nat
  /-- The bits that were read and belong to no value yet, as a number. -/
  held : Nat := 0
  heldBits : Nat := 0
  deriving DecidableEq, Repr

variable {σ : Type} [Source σ]

/-- Append the next `count` bytes to the bits of `n`. -/
def appendBytes : (count : Nat) → (n : Nat) → Step σ Fault Nat
  | 0, n => pure n
  | count + 1, n => do
    let b ← Source.byte
    appendBytes count (n * 256 + b.toNat)

namespace Unpacker

/-- An unpacker for `count` values of `bits` bits. -/
def new (count bits : Nat) : Except Violation Unpacker := do
  let width ← Width.check bits
  pure { width, remaining := count }

/-- The next value, and the unpacker for those after it. -/
def next (u : Unpacker) : Step σ Fault (Nat × Unpacker) :=
  if u.remaining = 0 then Step.fail .arrayExhausted
  else do
    let missing := (u.width.bits - u.heldBits + 7) / 8
    let all ← appendBytes missing u.held
    let spare := u.heldBits + 8 * missing - u.width.bits
    pure (all / 2 ^ spare,
      { u with
        remaining := u.remaining - 1
        held := all % 2 ^ spare
        heldBits := spare })

end Unpacker

end DocStore.Packed
