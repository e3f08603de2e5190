import DocStore.Buffer
import DocStore.ChunkIndex.Writer
import DocStore.Document
import DocStore.Frame
import DocStore.Packed.Ints
import DocStore.Segment.Config

/-!
# Writing a segment

Documents wait in a pending chunk. When it holds enough bytes or documents it is recorded in the
index and appended to the data file: the number of its first document, how many documents it has,
the number of fields of each, the length of each, and the documents as one frame, or as several
if they are at least twice the chunk size.

A flush that fails leaves the writer as far as it came: the index may count the chunk already, and
the ends of the documents may have been turned into lengths. The places where the ends are kept are
used again for the next chunk, and hold the lengths of the last one until they are.
-/

namespace DocStore.Segment

open Storage

/-- A document that waits to be written. -/
structure PendingDoc where
  fields : Nat
  /-- Where the document ends in the pending chunk, until a flush turns it into a length. While the
  document is open this is what its place held before. -/
  stop : Nat
  deriving DecidableEq, Repr

/-- A segment being written. -/
structure Writer where
  dataName : String
  indexName : String
  data : Output
  /-- The chunk index, until it is completed. -/
  index : Option ChunkIndex.Writer
  compressor : Compressor
  chunkSize : Nat
  /-- The documents of the pending chunk, newest first. -/
  pending : List PendingDoc
  /-- What is held by the places of the pending documents and those after them, as earlier chunks
  have left it. -/
  leftover : List Nat
  /-- The bytes of the pending chunk. -/
  buffer : ChunkBuffer
  /-- The number of the first pending document. -/
  docBase : Nat
  /-- Is the newest pending document still open? -/
  inDocument : Bool
  numChunks : Nat
  numDirtyChunks : Nat

/-- A writer together with the directory that its files are in. -/
structure Writing where
  writer : Writer
  directory : Directory

namespace Writer

/-- The documents that were started. -/
def numDocs (w : Writer) : Nat :=
  w.docBase + w.pending.length

/-- How many bytes wait. -/
def bufferedBytes (w : Writer) : Nat :=
  w.buffer.size

/-- The writer in words. -/
def describe (w : Writer) : String :=
  "ChunkedFieldWriter \x7b data_name: " ++ Text.quote w.dataName ++
    s!", chunk_size: {w.chunkSize}, doc_base: {w.docBase}, " ++
    s!"num_buffered_docs: {w.pending.length}, num_chunks: {w.numChunks}" ++ " \x7d"

/-- Change the newest pending document. -/
def updateNewest (f : PendingDoc → PendingDoc) (w : Writer) : Writer :=
  match w.pending with
  | [] => w
  | doc :: older => { w with pending := f doc :: older }

/-! ### Opening -/

/-- The two files of a segment that is being opened for writing. -/
structure Files where
  index : Output
  data : Output
  directory : Directory
  deriving Repr

namespace Files

variable {ε α : Type}

/-- Use a step on the index file. -/
def onIndex (x : Step Sink ε α) : Step Files ε α :=
  Step.focus (fun s => ⟨s.index, s.directory⟩)
    (fun t s => { s with index := t.output, directory := t.directory }) x

/-- Use a step on the data file. -/
def onData (x : Step Sink ε α) : Step Files ε α :=
  Step.focus (fun s => ⟨s.data, s.directory⟩)
    (fun t s => { s with data := t.output, directory := t.directory }) x

/-- The directory after both outputs have been given up. -/
def giveUp (s : Files) : Directory :=
  (s.directory.drop s.index).drop s.data

end Files

/-- What stands between the header of a data file and its first chunk. -/
def preamble (c : Config) : Pieces :=
  bytewise (VarInt.encode c.chunkSize ++ VarInt.encode Packed.newestVersion ++
    [UInt8.ofNat c.compression.form.tag])

/-- Write the headers of the two files and what follows them. -/
def begin (f : Format) : Step Files (Stop Error) Unit := do
  let indexHeader ← Step.ofChecked (Framing.header (indexCodec f.name) currentVersion)
  (Files.onIndex (Sink.writeAll indexHeader)).io
  let dataHeader ← Step.ofChecked (Framing.header (dataCodec f.name) currentVersion)
  (Files.onData (Sink.writeAll dataHeader)).io
  let files ← Step.get
  Step.require (files.index.written = Framing.headerLength (indexCodec f.name)) .headerLength
  Step.require (files.data.written = Framing.headerLength (dataCodec f.name)) .headerLength
  (Files.onIndex (ChunkIndex.Writer.start f.config.indexBlockSize)).mapError (Stop.map .io)
  (Files.onData (Sink.writeAll (preamble f.config))).io

/-- Create the two files of a segment and write what comes before the first chunk. If that fails,
the files that were created are deleted again. Payloads are compressed by `frame`. -/
def create (f : Format) (segment : String)
    (frame : (level : Int) → Bytes → Bytes) :
    Step Directory (Stop Error) Writer := do
  Step.ofChecked f.config.check
  let indexName := indexFile segment f.suffix
  let dataName := dataFile segment f.suffix
  let index ← (Directory.create indexName).io
  match ← (Directory.create dataName).outcome with
  | .error fault => do
    Step.modify fun d => (d.drop index).deleteAll [indexName]
    Step.throw (.io fault)
  | .ok data => do
    let d ← Step.get
    match begin f ⟨index, data, d⟩ with
    | (.ok (), files) => do
      Step.set files.directory
      pure
        { dataName, indexName
          data := files.data
          index := some (.ofOutput files.index f.config.indexBlockSize)
          compressor := ⟨f.config.compression, frame⟩
          chunkSize := f.config.chunkSize
          pending := []
          leftover := []
          buffer := .ofChunkSize f.config.chunkSize
          docBase := 0
          inDocument := false
          numChunks := 0
          numDirtyChunks := 0 }
    | (.error (.refused v), files) => do
      Step.set files.giveUp
      Step.refuse v
    | (.error (.failed e), files) => do
      Step.set (files.giveUp.deleteAll [dataName, indexName])
      Step.throw e

end Writer

/-! ### Documents -/

namespace Writing

variable {ε α : Type}

/-- Use a step on the data file. -/
def onData (x : Step Sink ε α) : Step Writing ε α :=
  Step.focus (fun s => ⟨s.writer.data, s.directory⟩)
    (fun t s => ⟨{ s.writer with data := t.output }, t.directory⟩) x

/-- Yield the writer as it is now. -/
def current : Step Writing ε Writer := do
  let s ← Step.get
  pure s.writer

/-- Change the writer. -/
def update (f : Writer → Writer) : Step Writing ε Unit :=
  Step.modify fun s => { s with writer := f s.writer }

/-- Begin a document. -/
def startDocument : Step Writing (Stop Error) Unit := do
  let w ← current
  Step.require (!w.inDocument) .documentOpen
  update fun w =>
    { w with
      pending := ⟨0, w.leftover.getD w.pending.length 0⟩ :: w.pending
      inDocument := true }

/-- Put pieces of the open document to the bytes that wait, up to the first that is not taken. -/
def collect : Pieces → Step Writing (Stop Error) Unit
  | [] => pure ()
  | piece :: pieces => do
    let w ← current
    let buffer ← Step.ofChecked (w.buffer.write piece)
    update fun w => { w with buffer }
    collect pieces

/-- Count one field more of the open document. -/
def countField : Step Writing (Stop Error) Unit := do
  let w ← current
  Step.require (w.pending.head?.all (·.fields + 1 < 2 ^ 32)) .fieldCount
  update fun w => w.updateNewest fun doc => { doc with fields := doc.fields + 1 }

/-- Add a field whose value has the type and this form to the open document. If there is no form,
the key has been collected already and stays. -/
def writeForm (info : FieldInfo) (type : FieldType) (form : Except Fault Pieces) :
    Step Writing (Stop Error) Unit := do
  let w ← current
  Step.require w.inDocument .writeOutsideDocument
  collect (bytewise (encodeKey info type))
  let pieces ← (Step.ofExcept form).io
  collect pieces
  countField

/-- Add a field to the open document. A value that is too long has no form. -/
def writeField (info : FieldInfo) (value : FieldValue) : Step Writing (Stop Error) Unit :=
  writeForm info value.type (valuePieces value)

/-! ### Chunks -/

/-- The documents, newest first, with the ends in a chunk turned into lengths. The conversion goes
from the newest document to the oldest and stops at one that would end before it begins; that
document's place is answered. -/
def lengthsOfEnds : List PendingDoc → List PendingDoc × Option Nat
  | [] => ([], none)
  | [doc] => ([doc], none)
  | doc :: previous :: older =>
    if doc.stop < previous.stop then (doc :: previous :: older, some (older.length + 1))
    else
      let (converted, bad) := lengthsOfEnds (previous :: older)
      ({ doc with stop := doc.stop - previous.stop } :: converted, bad)

/-- The payloads of a chunk. -/
def payloads (chunkSize : Nat) (raw : Bytes) : List Bytes :=
  if 2 * chunkSize ≤ raw.length then slices chunkSize raw else [raw]

/-- What is written for a chunk whose documents, oldest first, have these numbers of fields and
lengths. -/
def encodeChunk (compressor : Compressor) (chunkSize docBase : Nat) (docs : List PendingDoc)
    (raw : Bytes) : Except Violation Pieces := do
  let counts ← Packed.encodeInts (docs.map (·.fields))
  let lengths ← Packed.encodeInts (docs.map (·.stop))
  pure (bytewise (VarInt.encode docBase ++ VarInt.encode docs.length ++ counts ++ lengths) ++
    (payloads chunkSize raw).flatMap (Frame.encode compressor))

/-- Record the pending chunk in the index. -/
def recordChunk : Step Writing (Stop Error) Unit := fun s =>
  match s.writer.index with
  | none => (.error (.refused .flushAfterFinish), s)
  | some index =>
    let w := s.writer
    let x := ChunkIndex.Writer.record w.pending.length w.data.written
    match x (index, s.directory) with
    | (r, index', d) =>
      (r.mapError (Stop.map .io), ⟨{ w with index := some index' }, d⟩)

/-- Turn the ends of the pending documents into lengths. -/
def convertEnds : Step Writing (Stop Error) Unit := do
  let w ← current
  let (docs, bad) := lengthsOfEnds w.pending
  update fun w => { w with pending := docs }
  match bad with
  | none => pure ()
  | some place => Step.refuse (.negativeLength place)

/-- Write the pending chunk. -/
def flush : Step Writing (Stop Error) Unit := do
  recordChunk
  convertEnds
  let w ← current
  let chunk ← Step.ofChecked
    (encodeChunk w.compressor w.chunkSize w.docBase w.pending.reverse w.buffer.toList)
  (onData (Sink.writeAll chunk)).io
  update fun w =>
    { w with
      docBase := w.docBase + w.pending.length
      pending := []
      leftover := w.pending.reverse.map (·.stop) ++ w.leftover.drop w.pending.length
      buffer := w.buffer.clear
      numChunks := w.numChunks + 1 }

/-- Is the pending chunk full? -/
def isFull (w : Writer) : Bool :=
  w.chunkSize ≤ w.buffer.size || maxDocsPerChunk ≤ w.pending.length

/-- End the open document where the bytes of the chunk end, which a word has to hold. -/
def closeDocument : Step Writing (Stop Error) Unit := do
  let w ← current
  Step.require w.inDocument .finishOutsideDocument
  update fun w => { w with inDocument := false }
  Step.require (w.buffer.size ≤ maxChunkBytes) (.chunkTooLarge w.buffer.size)
  update fun w => w.updateNewest fun doc => { doc with stop := w.buffer.size }

/-- End the open document, and write the chunk if that fills it. -/
def finishDocument : Step Writing (Stop Error) Unit := do
  closeDocument
  let w ← current
  if isFull w then flush else pure ()

/-! ### Whole documents -/

/-- Add fields to the open document, up to the first that fails. -/
def writeFields : List (FieldInfo × FieldValue) → Step Writing (Stop Error) Unit
  | [] => pure ()
  | (info, value) :: fields => do
    writeField info value
    writeFields fields

/-- Write a document with these fields. -/
def writeDocument (fields : List (FieldInfo × FieldValue)) : Step Writing (Stop Error) Unit := do
  startDocument
  writeFields fields
  finishDocument

/-- Write documents in order, up to the first that fails. -/
def writeDocuments : List (List (FieldInfo × FieldValue)) → Step Writing (Stop Error) Unit
  | [] => pure ()
  | fields :: docs => do
    writeDocument fields
    writeDocuments docs

/-! ### The end -/

/-- Complete the index. It is given up even if that fails. -/
def finishIndex (numDocs : Nat) : Step Writing (Stop Error) Unit := fun s =>
  match s.writer.index with
  | none => (.error (.refused .finishedTwice), s)
  | some index =>
    match index.finish numDocs s.writer.data.written s.directory with
    | (r, d) => (r.mapError (Stop.map .io), ⟨{ s.writer with index := none }, d⟩)

/-- Write a chunk of the documents that still wait. It counts as one that was not full. -/
def flushRest : Step Writing (Stop Error) Unit := do
  let w ← current
  if w.pending.isEmpty then Step.require w.buffer.isEmpty .bytesWithoutDocument
  else
    update fun w => { w with numDirtyChunks := w.numDirtyChunks + 1 }
    flush

/-- Complete the data file: write how many chunks there are, and the footer. -/
def finishData : Step Writing (Stop Error) Unit := do
  let w ← current
  let stats := bytewise (VarInt.encode w.numChunks ++ VarInt.encode w.numDirtyChunks)
  (onData (do Sink.writeAll stats; Framing.writeFooter)).io

/-- Write the last chunk and complete both files. `numDocs` has to be the number of documents. -/
def finish (numDocs : Nat) : Step Writing (Stop Error) Unit := do
  let w ← current
  Step.require (!w.inDocument) .finishInsideDocument
  flushRest
  let w ← current
  Step.require (w.docBase = numDocs) (.docsWritten w.docBase numDocs)
  finishIndex numDocs
  finishData

/-- Write documents and complete both files. -/
def fill (docs : List (List (FieldInfo × FieldValue))) : Step Writing (Stop Error) Unit := do
  writeDocuments docs
  finish docs.length

end Writing

namespace Writer

/-- Close both files. What was not completed stays incomplete. -/
def close (w : Writer) : Step Directory Fault Unit := do
  let index ← (match w.index with
    | some index => index.close
    | none => pure ()).outcome
  let data ← (Directory.close w.data).outcome
  Step.ofExcept index
  Step.ofExcept data

/-- Give the segment up: close both files and delete them. -/
def abort (w : Writer) (d : Directory) : Directory :=
  (w.close d).2.deleteAll [w.dataName, w.indexName]

/-- Give both files up without closing them. -/
def drop (w : Writer) (d : Directory) : Directory :=
  (w.close d).2

end Writer

/-- Write a segment that holds the documents, and close its files. If that fails the segment is
given up. Payloads are compressed by `frame`. -/
def write (f : Format) (segment : String) (docs : List (List (FieldInfo × FieldValue)))
    (frame : (level : Int) → Bytes → Bytes) :
    Step Directory (Stop Error) Unit := do
  let w ← Writer.create f segment frame
  let d ← Step.get
  match Writing.fill docs ⟨w, d⟩ with
  | (.ok (), s) => do
    Step.set s.directory
    s.writer.close.io
  | (.error stop, s) => do
    Step.set (s.writer.abort s.directory)
    Step.fail stop

end DocStore.Segment
