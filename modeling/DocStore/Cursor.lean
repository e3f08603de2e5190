import DocStore.Bytes
import DocStore.Fault
import DocStore.Step

/-!
# Reading bytes in order

A source delivers bytes in order and knows where it stands. Decoders are steps on any source:
`Source.byte` and `Source.take` are the two ways to consume bytes, and every other decoder is built
from them.

A cursor is the source for bytes that are at hand. They can run out for two reasons, the end of the
file or a storage that fails before it; `Cursor.shortage` says which.
-/

namespace DocStore

/-- What delivers the bytes of a file in order. -/
class Source (σ : Type) where
  /-- Read the next byte. -/
  byte : Step σ Fault UInt8
  /-- Read the next `n` bytes. If fewer are left they are consumed all the same. -/
  take (n : Nat) : Step σ Fault Bytes
  /-- Move past `n` bytes without reading them. -/
  skip (n : Nat) : σ → σ
  /-- Offset of the next byte. -/
  position : σ → Nat
  /-- Length of the file. -/
  size : σ → Nat

namespace Source

variable {σ : Type} [Source σ]

/-- Read a word of `width` bytes, most significant first. -/
def word (width : Nat) : Step σ Fault Nat := do
  let bytes ← take width
  pure (ofBigEndian bytes)

/-- How many bytes of the file have not been read. -/
def available (s : σ) : Nat :=
  size s - position s

end Source

/-! ### Bytes at hand -/

/-- A place in a file, and what reading on from there delivers. -/
structure Cursor where
  /-- Offset of the next byte. -/
  position : Nat
  /-- Length of the file. -/
  size : Nat
  /-- The bytes that will be delivered. -/
  rest : Bytes
  /-- Does the storage fail, if it delivers fewer bytes than the file has? -/
  broken : Bool
  deriving DecidableEq, Repr

namespace Cursor

/-- The cursor at the start of bytes that are all at hand. -/
def ofBytes (bytes : Bytes) : Cursor where
  position := 0
  size := bytes.length
  rest := bytes
  broken := false

/-- Why no byte follows when `rest` is empty. -/
def shortage (c : Cursor) : Fault :=
  if c.broken && c.position < c.size then .readFailed else .endOfInput

/-- The cursor `n` bytes further on. -/
def skip (n : Nat) (c : Cursor) : Cursor :=
  { c with position := c.position + n, rest := c.rest.drop n }

/-- The next byte. -/
def byte : Step Cursor Fault UInt8 := fun c =>
  match c.rest with
  | [] => (.error c.shortage, c)
  | b :: rest => (.ok b, { c with position := c.position + 1, rest := rest })

/-- The next `n` bytes. If fewer are left they are consumed all the same. -/
def take (n : Nat) : Step Cursor Fault Bytes := fun c =>
  let taken := c.rest.take n
  let c' := c.skip taken.length
  if taken.length = n then (.ok taken, c') else (.error c'.shortage, c')

/-- All bytes that are left. -/
def takeAll : Step Cursor Fault Bytes := fun c =>
  let c' := c.skip c.rest.length
  match c'.shortage with
  | .readFailed => (.error .readFailed, c')
  | _ => (.ok c.rest, c')

instance : Source Cursor where
  byte := byte
  take := take
  skip := skip
  position := position
  size := size

end Cursor

/-- A decoder reads a value at a cursor and moves the cursor past it. -/
abbrev Decoder (ε α : Type) : Type :=
  Step Cursor ε α

/-- What a decoder reads at the start of some bytes, and the bytes it leaves. -/
def Decoder.run {ε α : Type} (d : Decoder ε α) (bytes : Bytes) : Except ε α × Bytes :=
  let (r, c) := d (.ofBytes bytes)
  (r, c.rest)

end DocStore
