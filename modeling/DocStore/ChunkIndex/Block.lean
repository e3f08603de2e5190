import DocStore.Packed.Array
import DocStore.Packed.Packer
import DocStore.VarInt

/-!
# Blocks of the chunk index

The chunk index says for every chunk which document comes first in it and where it starts in the
data file. Chunks are grouped into blocks. Both numbers grow nearly in a straight line through the
chunks of a block, so a block keeps the line and, for each chunk, the signed deviation from it.

`Block.encode` writes the chunks of a block, and a `Block` answers for each of its chunks what was
written.
-/

namespace DocStore.ChunkIndex

open Packed

/-- What the index is told about a chunk. -/
structure ChunkEntry where
  docs : Nat
  startPointer : Nat
  deriving DecidableEq, Repr

/-- For each of the numbers, the sum of `total` and those before it. -/
def runningTotals (total : Nat) : List Nat → List Nat
  | [] => []
  | n :: rest => total :: runningTotals (total + n) rest

/-- The signed deviations of numbers from the line through zero that climbs by `slope`, as
unsigned numbers of 64 bits. -/
def deviations (slope : Nat) (numbers : List Nat) : List Nat :=
  numbers.mapIdx fun i (n : Nat) => VarInt.zigzag (toSigned64 (Int.ofNat n - Int.ofNat (slope * i)))

/-- The quotient rounded to the nearest whole number, halves up. -/
def roundedQuotient (a b : Nat) : Nat :=
  (2 * a + b) / (2 * b)

/-- What is written for a list of deviations: the bits of each, and then the packed array. -/
def encodeDeviations (numbers : List Nat) : Pieces :=
  let width := widthOf numbers
  bytewise (VarInt.encode width.bits ++ pack width numbers)

/-- How many documents a chunk before the last one has on average. -/
def averageDocs (chunks : List ChunkEntry) : Nat :=
  let before := (chunks.dropLast.map (·.docs)).sum
  if chunks.length ≤ 1 then 0 else roundedQuotient before (chunks.length - 1)

/-- How far apart neighbouring chunks start on average. -/
def averageSize (first : ChunkEntry) (chunks : List ChunkEntry) : Nat :=
  let last := (chunks.getLast?.getD first).startPointer
  if chunks.length ≤ 1 then 0 else (last - first.startPointer) / (chunks.length - 1)

/-- What is written for a block whose first chunk begins with document `docBase`. -/
def encodeBlock (docBase : Nat) (chunks : List ChunkEntry) : Pieces :=
  match chunks with
  | [] => []
  | first :: _ =>
    let avgDocs := averageDocs chunks
    let avgSize := averageSize first chunks
    let docBases := runningTotals 0 (chunks.map (·.docs))
    let pointers := chunks.map fun chunk => chunk.startPointer - first.startPointer
    bytewise (VarInt.encode chunks.length ++ VarInt.encode (docBase % 2 ^ 32) ++
        VarInt.encode (avgDocs % 2 ^ 32)) ++
      encodeDeviations (deviations avgDocs docBases) ++
      bytewise (VarInt.encode first.startPointer ++ VarInt.encode avgSize) ++
      encodeDeviations (deviations avgSize pointers)

/-- A block as it is kept in memory. -/
structure Block where
  docBase : Nat
  startPointer : Nat
  averageDocs : Nat
  averageSize : Nat
  docDeviations : PackedArray
  pointerDeviations : PackedArray
  deriving DecidableEq, Repr

namespace Block

/-- How many chunks the block has. -/
def size (b : Block) : Nat :=
  b.docDeviations.size

/-- The value at `index` of the line that climbs by `slope`, corrected by the deviation kept for
it. Words of 64 bits wrap around. -/
def relative (slope index deviation : Nat) : Int :=
  toSigned64 (slope * index + VarInt.unzigzag deviation)

/-- The first document of a chunk, counted from the block's. -/
def relativeDocBase (b : Block) (chunk : Nat) : Except Violation Int := do
  let deviation ← b.docDeviations.get chunk
  pure (relative b.averageDocs chunk deviation)

/-- The start of a chunk, counted from the block's. -/
def relativeStartPointer (b : Block) (chunk : Nat) : Except Violation Int := do
  let deviation ← b.pointerDeviations.get chunk
  pure (relative b.averageSize chunk deviation)

/-- The first document of a chunk. -/
def chunkDocBase (b : Block) (chunk : Nat) : Except Violation Int := do
  let base ← b.relativeDocBase chunk
  pure (toSigned64 (b.docBase + base))

/-- The start of a chunk in the data file. -/
def chunkStartPointer (b : Block) (chunk : Nat) : Except Violation Int := do
  let start ← b.relativeStartPointer chunk
  pure (toSigned64 (b.startPointer + start))

end Block

end DocStore.ChunkIndex
