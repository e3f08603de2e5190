import DocStore.Bytes

/-!
# Bits of a byte array

The bits of an array are numbered from the lowest bit of its first byte. Tables are described in
bits that are read upwards; entropy-coded data is read downwards, from a marker bit that ends the
data to bit zero. Reading downwards may go past bit zero, and finds zeros there; how far it went
is remembered, because some decoders end that way.
-/

namespace DocStore.Zstd

/-- The number whose base-256 digits are the `count` bytes from `start` on, lowest first. Bytes
past the end are zero. -/
def littleEndianAt (data : Array UInt8) (start : Nat) : (count : Nat) → Nat
  | 0 => 0
  | count + 1 => (data[start]?.getD 0).toNat + 256 * littleEndianAt data (start + 1) count

/-- The number in the `count` bits from bit `start` on. -/
def bitsAt (data : Array UInt8) (start count : Nat) : Nat :=
  littleEndianAt data (start / 8) ((start % 8 + count + 7) / 8) / 2 ^ (start % 8) % 2 ^ count

/-- Bits being read downwards. -/
structure DownwardBits where
  data : Array UInt8
  /-- How many bits are left: the next one is bit `left - 1`. -/
  left : Nat
  /-- How many bits were read past bit zero. -/
  overrun : Nat
  deriving Repr

namespace DownwardBits

/-- The bits below the marker, which is the highest bit that is set in the last byte. -/
def ofArray? (data : Array UInt8) : Option DownwardBits :=
  match data.back? with
  | none => none
  | some last =>
    if last = 0 then none
    else some { data, left := 8 * (data.size - 1) + last.toNat.log2, overrun := 0 }

/-- The number in the next `count` bits, without moving. -/
def peek (b : DownwardBits) (count : Nat) : Nat :=
  if count ≤ b.left then bitsAt b.data (b.left - count) count
  else bitsAt b.data 0 b.left * 2 ^ (count - b.left)

/-- Move past `count` bits. -/
def skip (b : DownwardBits) (count : Nat) : DownwardBits :=
  { b with left := b.left - count, overrun := b.overrun + (count - b.left) }

/-- Read `count` bits. -/
def read (b : DownwardBits) (count : Nat) : Nat × DownwardBits :=
  (b.peek count, b.skip count)

/-- Was every bit read, and none past bit zero? -/
def isDone (b : DownwardBits) : Bool :=
  b.left = 0 && b.overrun = 0

end DownwardBits

end DocStore.Zstd
