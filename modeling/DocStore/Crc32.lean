import DocStore.Bytes

/-!
# CRC-32

The remainder of the bytes, read least significant bit first, by the reflected polynomial
0xEDB88320, with the register inverted before and after. A register can be fed in parts:
`feed (feed r a) b = feed r (a ++ b)`.
-/

namespace DocStore.Crc32

/-- The reflected generator polynomial. -/
def polynomial : UInt32 := 0xEDB88320

/-- The register before any byte. -/
def start : UInt32 := 0xFFFFFFFF

/-- Move the register by one bit. -/
def shift (r : UInt32) : UInt32 :=
  if r &&& 1 = 1 then (r >>> 1) ^^^ polynomial else r >>> 1

/-- Move the register by so many bits. -/
def shifts : Nat → UInt32 → UInt32
  | 0, r => r
  | n + 1, r => shifts n (shift r)

/-- Take in one byte. -/
def feedByte (r : UInt32) (b : UInt8) : UInt32 :=
  shifts 8 (r ^^^ b.toUInt32)

/-- Take in bytes in order. -/
def feed (r : UInt32) (bytes : Bytes) : UInt32 :=
  bytes.foldl feedByte r

/-- The checksum that a register stands for. -/
def finish (r : UInt32) : UInt32 :=
  r ^^^ 0xFFFFFFFF

/-- The checksum of some bytes. -/
def checksum (bytes : Bytes) : UInt32 :=
  finish (feed start bytes)

theorem feed_append (r : UInt32) (a b : Bytes) : feed r (a ++ b) = feed (feed r a) b :=
  List.foldl_append ..

end DocStore.Crc32
