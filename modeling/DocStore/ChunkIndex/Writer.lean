import DocStore.ChunkIndex.Block
import DocStore.Framing

/-!
# Writing the chunk index

The writer owns the index file. It collects the chunks of a block and writes the block when the
next chunk finds it full. `finish` writes the last block, an empty block to mark the end, the end of
the chunks in the data file and the number of documents, and then the footer.
-/

namespace DocStore.ChunkIndex

open Storage

/-- An index file being written. -/
structure Writer where
  output : Output
  /-- How many chunks make a block. -/
  blockSize : Nat
  /-- The documents of all chunks so far. -/
  totalDocs : Nat
  /-- The chunks of the block that is not written yet, newest first. -/
  pending : List ChunkEntry
  deriving Repr

namespace Writer

/-- The first document of the pending block. -/
def blockDocBase (w : Writer) : Nat :=
  w.totalDocs - (w.pending.map (·.docs)).sum

/-- What is written for the pending block. -/
def pendingBlock (w : Writer) : Pieces :=
  encodeBlock w.blockDocBase w.pending.reverse

/-- Use a step on the output. -/
def onOutput {ε α : Type} (x : Step Sink ε α) : Step (Writer × Directory) ε α :=
  Step.focus (fun (w, d) => ⟨w.output, d⟩)
    (fun s (w, _) => ({ w with output := s.output }, s.directory)) x

/-- The writer of an index whose file has been begun. -/
def ofOutput (output : Output) (blockSize : Nat) : Writer :=
  { output, blockSize, totalDocs := 0, pending := [] }

/-- Begin the index after the header of its file: write the version of its packed data. -/
def start (blockSize : Nat) : Step Sink (Stop Fault) Unit := do
  Step.require (1 ≤ blockSize) .blockSize
  (Sink.writeAll (bytewise (VarInt.encode Packed.newestVersion))).mayFail

/-- Write the pending block, if it is full. -/
def writeFullBlock : Step (Writer × Directory) Fault Unit := do
  let (w, _) ← Step.get
  if w.pending.length = w.blockSize then
    onOutput (Sink.writeAll w.pendingBlock)
    Step.modify fun (w, d) => ({ w with pending := [] }, d)

/-- Record a chunk of `docs` documents that starts at `startPointer` in the data file, not before
the last one recorded. -/
def record (docs startPointer : Nat) : Step (Writer × Directory) (Stop Fault) Unit := do
  writeFullBlock.mayFail
  let (w, _) ← Step.get
  let newest := (w.pending.head?.map (·.startPointer)).getD startPointer
  Step.require (newest ≤ startPointer) .pointerOrder
  Step.modify fun (w, d) =>
    ({ w with
        totalDocs := w.totalDocs + docs
        pending := ⟨docs, startPointer⟩ :: w.pending }, d)

/-- What `finish` writes before the footer. -/
def ending (w : Writer) (numDocs maxPointer : Nat) : Pieces :=
  w.pendingBlock ++
    bytewise (VarInt.encode 0 ++ VarInt.encode maxPointer ++ VarInt.encode numDocs)

/-- Complete the index of `numDocs` documents, which have to be those of the recorded chunks, and
close its file. The output is given up in any case. -/
def finish (w : Writer) (numDocs maxPointer : Nat) : Step Directory (Stop Fault) Unit := fun d =>
  if w.totalDocs ≠ numDocs then
    (.error (.refused (.docsIndexed numDocs w.totalDocs)), d.drop w.output)
  else
    let complete : Step Sink Fault Unit := do
      Sink.writeAll (w.ending numDocs maxPointer)
      Framing.writeFooter
      Sink.flush
    match complete ⟨w.output, d⟩ with
    | (.ok (), s) => (.ok (), s.directory)
    | (.error fault, s) => (.error (.failed fault), s.directory.drop s.output)

/-- Close the file without completing the index. -/
def close (w : Writer) : Step Directory Fault Unit :=
  Directory.close w.output

end Writer

end DocStore.ChunkIndex
