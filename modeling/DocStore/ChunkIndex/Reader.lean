import DocStore.ChunkIndex.Block
import DocStore.Error

/-!
# Reading the chunk index

An index is read whole. Reading accepts it only if its chunks come in order, both by their first
documents and by where they start, and lie before its end. A lookup searches for the block and
then for the chunk within the block.
-/

namespace DocStore

open ChunkIndex Packed

/-- A chunk index in memory. -/
structure ChunkIndex where
  /-- How many documents the chunks hold. -/
  maxDoc : Nat
  /-- The end of the last chunk in the data file. -/
  maxPointer : Nat
  numChunks : Nat
  blocks : Array Block
  deriving DecidableEq, Repr

namespace ChunkIndex

/-! ### Reading -/

/-- Read deviations of `count` chunks in a width of `bits` bits. -/
def readDeviations (resource : String) (count : Nat) (width : Width) :
    Decoder (Stop Error) PackedArray := do
  let c ← Step.get
  if Source.available c < byteCount count width.bits then
    Step.throw (.corrupt resource (.blockPastEnd count))
  else (PackedArray.read width count).io

/-- Read a width of at most `limit` bits. -/
def readWidth (resource : String) (limit : Nat) (damage : Nat → Damage) :
    Decoder (Stop Error) Width := do
  let bits ← VarInt.vint.io
  if bits = 0 ∨ limit < bits then Step.throw (.corrupt resource (damage bits))
  else Step.ofChecked (Width.check bits)

/-- Read what follows the number of chunks of a block. -/
def readBlock (resource : String) (chunks : Nat) : Decoder (Stop Error) Block := do
  let docBase ← VarInt.vint.io
  let averageDocs ← VarInt.vint.io
  let docWidth ← readWidth resource 32 .bitsPerDocBase
  let docDeviations ← readDeviations resource chunks docWidth
  let startPointer ← VarInt.vlong.io
  let averageSize ← VarInt.vlong.io
  let pointerWidth ← readWidth resource 64 .bitsPerStartPointer
  let pointerDeviations ← readDeviations resource chunks pointerWidth
  pure { docBase, startPointer, averageDocs, averageSize, docDeviations, pointerDeviations }

/-- The least first document and the least start that the next chunk may have. -/
structure Bounds where
  doc : Int
  pointer : Int
  deriving DecidableEq, Repr

/-- The largest signed word of 64 bits. -/
def maxSigned64 : Int := 2 ^ 63 - 1

/-- The bounds after the chunks of a block from `chunk` on, `count` of them, if each lies within
the bounds that those before it leave. -/
def checkChunks (resource : String) (blockIndex : Nat) (b : Block) :
    (count chunk : Nat) → Bounds → Except (Stop Error) Bounds
  | 0, _, bounds => .ok bounds
  | count + 1, chunk, bounds => do
    let doc ← (b.chunkDocBase chunk).mapError .refused
    let pointer ← (b.chunkStartPointer chunk).mapError .refused
    if doc < bounds.doc ∨ 2 ^ 32 - 1 < doc ∨ pointer < bounds.pointer then
      .error (.failed (.corrupt resource (.chunkOutOfOrder chunk blockIndex doc pointer)))
    else
      checkChunks resource blockIndex b count (chunk + 1)
        ⟨doc + 1, min (pointer + 1) maxSigned64⟩

/-- The blocks read so far, newest first, and what they leave. -/
structure Progress where
  blocks : List Block
  numChunks : Nat
  bounds : Bounds
  deriving DecidableEq, Repr

/-- Read one block of `chunks` chunks and check it against those before it. -/
def extend (resource : String) (chunks : Nat) (p : Progress) : Decoder (Stop Error) Progress := do
  let block ← readBlock resource chunks
  if p.blocks.isEmpty ∧ block.docBase ≠ 0 then
    Step.throw (.corrupt resource (.firstDocBase block.docBase))
  else
    let bounds ← Step.ofExcept
      (checkChunks resource p.blocks.length block chunks 0 p.bounds)
    pure ⟨block :: p.blocks, p.numChunks + chunks, bounds⟩

/-- Read blocks up to the empty one. A block takes more than one byte, so `fuel` need not exceed
the number of bytes. -/
def readBlocks (resource : String) : (fuel : Nat) → Progress → Decoder (Stop Error) Progress
  | 0, _ => Step.throw (.io .endOfInput)
  | fuel + 1, p => do
    let chunks ← VarInt.vint.io
    if chunks = 0 then pure p
    else
      let p' ← extend resource chunks p
      readBlocks resource fuel p'

/-- Read an index. Faults are left as they are. -/
def parse (resource : String) : Decoder (Stop Error) ChunkIndex := do
  let version ← VarInt.vint.io
  (Step.ofExcept (checkVersion resource version)).mayFail
  let c ← Step.get
  let p ← readBlocks resource (c.rest.length + 1) ⟨[], 0, ⟨0, 0⟩⟩
  let maxPointer ← VarInt.vlong.io
  let maxDoc ← VarInt.vint.io
  if (maxDoc : Int) < p.bounds.doc ∨ (p.blocks.isEmpty ∧ maxDoc ≠ 0) ∨
      maxSigned64 < maxPointer ∨ (maxPointer : Int) < p.bounds.pointer then
    Step.throw (.corrupt resource (.indexEndsEarly maxDoc maxPointer))
  else
    let c ← Step.get
    if c.rest.isEmpty then
      pure ⟨maxDoc, maxPointer, p.numChunks, p.blocks.reverse.toArray⟩
    else Step.throw (.corrupt resource (.trailingBytes c.rest.length))

/-- Read an index that is all that is left of its bytes. -/
def read (resource : String) : Decoder (Stop Error) ChunkIndex :=
  (parse resource).mapError fun
    | .failed (.io fault) => .failed (.decoding resource .chunkIndex fault)
    | stop => stop

/-! ### Lookup -/

/-- The least number from `low` up to `high` that `le` does not hold of, if `le` holds of an initial
part of the range. -/
def firstBeyond (le : Nat → Except Violation Bool) (low high : Nat) : Except Violation Nat :=
  if low < high then
    let middle := low + (high - low) / 2
    match le middle with
    | .error v => .error v
    | .ok true => firstBeyond le (middle + 1) high
    | .ok false => firstBeyond le low middle
  else .ok low
termination_by high - low
decreasing_by all_goals omega

/-- The largest number below `size` that `le` holds of, or zero. -/
def predecessor (size : Nat) (le : Nat → Except Violation Bool) : Except Violation Nat := do
  let beyond ← firstBeyond le 0 size
  pure (beyond - 1)

/-- How many blocks the index has. -/
def numBlocks (x : ChunkIndex) : Nat :=
  x.blocks.size

/-- A block of the index. -/
def block (x : ChunkIndex) (i : Nat) : Except Violation Block :=
  match x.blocks[i]? with
  | some block => .ok block
  | none => .error .sliceOutOfRange

/-- The block that a document is looked up in. -/
def blockOf (x : ChunkIndex) (doc : Nat) : Except Violation Nat :=
  predecessor x.blocks.size fun i => do
    let block ← x.block i
    pure (decide (block.docBase ≤ doc))

/-- The chunk of the block in which the document is looked up that comes `doc` documents after the
first of the block. -/
def Block.chunkOf (b : Block) (doc : Nat) : Except Violation Nat :=
  predecessor b.size fun i => do
    let base ← b.relativeDocBase i
    pure (decide (base ≤ doc))

/-- The start in the data file of the chunk that holds a document, which has to be one of the
index. -/
def startPointer (x : ChunkIndex) (doc : Nat) : Except Violation Nat :=
  if x.maxDoc ≤ doc then .error (.docOutOfRange x.maxDoc doc)
  else do
    let i ← x.blockOf doc
    let block ← x.block i
    if doc < block.docBase then .error .docBeforeBlock
    else
      let chunk ← block.chunkOf (doc - block.docBase)
      let start ← block.chunkStartPointer chunk
      pure (start % 2 ^ 64).toNat

end ChunkIndex

end DocStore
