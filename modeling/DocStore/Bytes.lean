/-!
# Bytes and fixed-width words

Everything the store keeps is a list of bytes. Fixed-width words are written most significant byte
first: `bigEndian` writes the low bytes of a number and `ofBigEndian` reads a number back.
-/

namespace DocStore

/-! ### Powers and sums

Powers and sums of whole numbers are those of the core library, also where other structures on these
are known. -/

@[default_instance 20000]
instance (priority := 2000) corePow {α : Type} [NatPow α] : Pow α Nat := instPowNat

instance (priority := 2000) natZero : Zero Nat := Zero.ofOfNat0

/-! ### Runs of bytes -/

/-- A run of bytes. -/
abbrev Bytes := List UInt8

/-- The low `width` bytes of `n`, most significant first. -/
def bigEndian : (width : Nat) → (n : Nat) → Bytes
  | 0, _ => []
  | width + 1, n => bigEndian width (n / 256) ++ [UInt8.ofNat n]

/-- The number whose base-256 digits are the bytes, most significant first. -/
def ofBigEndian (bytes : Bytes) : Nat :=
  bytes.foldl (fun n b => n * 256 + b.toNat) 0

/-- The number whose base-256 digits are the bytes, least significant first. -/
def ofLittleEndian : Bytes → Nat
  | [] => 0
  | b :: rest => b.toNat + 256 * ofLittleEndian rest

/-- The low `width` bytes of `n`, least significant first. -/
def littleEndian : (width : Nat) → (n : Nat) → Bytes
  | 0, _ => []
  | width + 1, n => UInt8.ofNat n :: littleEndian width (n / 256)

/-- The bytes that spell a text in UTF-8. -/
def utf8Bytes (text : String) : Bytes :=
  text.toUTF8.data.toList

/-- The residue of `i` modulo 2^64 that a signed 64-bit word can hold. -/
def toSigned64 (i : Int) : Int :=
  i.bmod (2 ^ 64)

/-- The list in parts of `size` elements, the last of which may be shorter. -/
def slices {α : Type} (size : Nat) (l : List α) : List (List α) :=
  if _h : l.isEmpty ∨ size = 0 then []
  else l.take size :: slices size (l.drop size)
termination_by l.length
decreasing_by
  simp only [List.isEmpty_iff, not_or] at _h
  have := List.length_pos_iff.2 _h.1
  simp only [List.length_drop]
  omega

/-! ### Pieces

An output is fed in pieces, one per write. How bytes are split into pieces decides when a buffering
output passes them on, so what is to be written is a list of pieces and not one run of bytes. -/

/-- Runs of bytes to be written one after another. -/
abbrev Pieces := List Bytes

/-- Each byte as a piece of its own. -/
def bytewise (bytes : Bytes) : Pieces :=
  bytes.map fun b => [b]

end DocStore
