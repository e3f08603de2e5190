import DocStore.Packed.Width

/-!
# Writing packed values one by one

A packer is promised a number of values and takes them in order. It emits a byte as soon as eight
bits are known, so between two values it holds fewer than eight bits; `finish` pads them with
zeros.
-/

namespace DocStore.Packed

/-- The whole bytes among the low `bits` bits of `n`, from the highest bit down. -/
def wholeBytes (n bits : Nat) : Bytes :=
  if bits < 8 then [] else UInt8.ofNat (n / 2 ^ (bits - 8)) :: wholeBytes n (bits - 8)
termination_by bits

/-- A packed array being written. -/
structure Packer where
  width : Width
  /-- How many values were promised. -/
  count : Nat
  /-- How many values were added. -/
  written : Nat := 0
  /-- The bits that are not emitted yet, as a number. -/
  held : Nat := 0
  heldBits : Nat := 0
  deriving DecidableEq, Repr

namespace Packer

/-- A packer for `count` values of `bits` bits. -/
def new (count bits : Nat) : Except Violation Packer := do
  let width ← Width.check bits
  pure { width, count }

/-- Append the bits of a value; the bytes that become whole are emitted. -/
def push (p : Packer) (value : Nat) : Bytes × Packer :=
  let bits := p.heldBits + p.width.bits
  let all := p.held * 2 ^ p.width.bits + value
  (wholeBytes all bits,
    { p with
      written := p.written + 1
      held := all % 2 ^ (bits % 8)
      heldBits := bits % 8 })

/-- Add a value, which must be among those promised and fit the width. -/
def add (p : Packer) (value : Nat) : Except Violation (Bytes × Packer) :=
  if p.count ≤ p.written then .error .tooManyValues
  else if maxValue p.width.bits < value then .error (.valueTooWide value p.width.bits)
  else .ok (p.push value)

/-- The padded rest of the bits. -/
def padding (p : Packer) : Bytes :=
  if p.heldBits = 0 then [] else [UInt8.ofNat (p.held * 2 ^ (8 - p.heldBits))]

/-- End the array, to which every promised value must have been added. -/
def finish (p : Packer) : Except Violation Bytes :=
  if p.written = p.count then .ok p.padding else .error .missingValues

/-- The bytes of the values from here to the end. -/
def pushAll (p : Packer) : List Nat → Bytes
  | [] => p.padding
  | value :: values =>
    let (bytes, p') := p.push value
    bytes ++ p'.pushAll values

end Packer

/-- The packed array of values that fit the width. -/
def pack (width : Width) (values : List Nat) : Bytes :=
  Packer.pushAll { width, count := values.length } values

end DocStore.Packed
