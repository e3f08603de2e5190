import DocStore.Cursor
import DocStore.Packed.Width

/-!
# Packed arrays in memory

A packed array that is read whole answers for any of its values: the bytes that the value touches
are put together and the bits on either side are dropped.
-/

namespace DocStore.Packed

/-- A packed array held in memory. -/
structure PackedArray where
  width : Width
  size : Nat
  data : Array UInt8
  deriving DecidableEq, Repr

namespace PackedArray

/-- Read the bytes of `size` values. -/
def read {σ : Type} [Source σ] (width : Width) (size : Nat) : Step σ Fault PackedArray := do
  let bytes ← Source.take (byteCount size width.bits)
  pure ⟨width, size, bytes.toArray⟩

/-- The first of the bytes that the value at an index touches. -/
def firstByte (a : PackedArray) (index : Nat) : Nat :=
  index * a.width.bits / 8

/-- The last of the bytes that the value at an index touches. -/
def lastByte (a : PackedArray) (index : Nat) : Nat :=
  ((index + 1) * a.width.bits - 1) / 8

/-- The value whose bits begin `index * width` bits into the data. -/
def value (a : PackedArray) (index : Nat) : Nat :=
  let touched := ofBigEndian (a.data.extract (a.firstByte index) (a.lastByte index + 1)).toList
  touched / 2 ^ ((a.lastByte index + 1) * 8 - (index + 1) * a.width.bits) % 2 ^ a.width.bits

/-- The value at an index, which must be one of the array. The bytes that the value touches must be
there. -/
def get (a : PackedArray) (index : Nat) : Except Violation Nat :=
  if a.size ≤ index then .error (.indexOutOfBounds index a.size)
  else if a.data.size ≤ a.lastByte index then .error .sliceOutOfRange
  else .ok (a.value index)

end PackedArray

end DocStore.Packed
