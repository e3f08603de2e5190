import DocStore.ChunkIndex.Reader
import DocStore.Document
import DocStore.Frame
import DocStore.Framing
import DocStore.Packed.Ints
import DocStore.Segment.Config

/-!
# Reading a segment

Opening a segment reads the index whole and verifies its checksum; of the data file it reads what
stands before the first and after the last chunk. A document is read by looking its chunk up in the
index, reading the chunk's header again, and producing no more of the chunk's payloads than the
document needs. As the checksum of the data file is not verified at opening, everything in a chunk
is checked when it is used.

A reader keeps the lists of the chunk and the bytes that it read last: the next document is read
into the same room. What a document that could not be read has left there stays until then.
-/

namespace DocStore.Segment

open Storage

/-- Room that a reader uses again for each document. -/
structure Scratch where
  /-- How many fields the documents of a chunk have. -/
  counts : Array Nat := #[]
  /-- How long the documents of a chunk are. -/
  lengths : Array Nat := #[]
  /-- The stored bytes of a frame. -/
  stored : Bytes := []
  /-- The bytes of a document that is not large. -/
  raw : Buffer := .empty
  deriving DecidableEq, Repr

/-- A segment being read. -/
structure Reader where
  version : Nat
  fields : FieldTable
  index : ChunkIndex
  input : Input
  chunkSize : Nat
  packedVersion : Nat
  form : PayloadForm
  numDocs : Nat
  numChunks : Nat
  numDirtyChunks : Nat
  /-- How many payload bytes were produced so far. -/
  decompressed : Nat
  scratch : Scratch
  deriving Repr

namespace Reader

/-! ### Opening -/

/-- Read the content of an index file. Answers its version and the index. -/
def readIndex (resource codec : String) (bytes : Bytes) :
    Except (Stop Error) (Nat × ChunkIndex) := do
  let content ← (Framing.checkFooter resource bytes).mapError .failed
  let decoder : Decoder (Stop Error) (Nat × ChunkIndex) := do
    let version ←
      (Framing.checkHeader resource codec firstVersion currentVersion).mayFail
    let index ← ChunkIndex.read resource
    pure (version, index)
  (decoder.run content).1

/-- What stands between the header of a data file and its first chunk. -/
structure Preamble where
  chunkSize : Nat
  packedVersion : Nat
  form : PayloadForm
  deriving DecidableEq, Repr

variable {σ : Type} [Source σ]

/-- Read what stands between the header of a data file and its first chunk. -/
def readPreamble (resource : String) : Step σ (Stop Error) Preamble := do
  let chunkSize ← VarInt.vint.decoding resource .dataFileHeader
  if chunkSize = 0 ∨ maxChunkSize < chunkSize then
    Step.throw (.corrupt resource (.chunkSize chunkSize))
  else
    let packedVersion ← VarInt.vint.decoding resource .dataFileHeader
    (Step.ofExcept (Packed.checkVersion resource packedVersion)).mayFail
    let tag ← Source.byte.decoding resource .dataFileHeader
    match PayloadForm.ofTag? tag.toNat with
    | none => Step.throw (.failDecompress resource (.unknownType tag.toNat))
    | some form => pure { chunkSize, packedVersion, form }

/-- Read the number of chunks and of chunks that were not full, where a file of this version keeps
them. -/
def readStats (resource : String) (version indexed : Nat) : Step σ (Stop Error) (Nat × Nat) :=
  if version < chunkStatsVersion then pure (indexed, 0)
  else do
    let numChunks ← VarInt.vlong.decoding resource .chunkStats
    let numDirtyChunks ← VarInt.vlong.decoding resource .chunkStats
    pure (numChunks, numDirtyChunks)

/-- Read and check all of a data file but its chunks. -/
def readData (codec : String) (maxDoc version : Nat) (index : ChunkIndex) (fields : FieldTable) :
    Step Input (Stop Error) Reader := do
  let i ← Step.get
  let resource := i.name
  let dataVersion ←
    (Input.decode (Framing.checkHeader resource codec firstVersion currentVersion)).mayFail
  if dataVersion ≠ version then
    Step.throw (.corrupt resource (.versionMismatch version dataVersion))
  else
    let i ← Step.get
    Step.require (i.position = Framing.headerLength codec) .headerLength
    let preamble ← Input.decode (readPreamble resource)
    let _ ← Framing.retrieveChecksum.mayFail
    let footer := i.size - Framing.footerLength
    if footer < index.maxPointer then
      Step.throw (.corrupt resource (.maxPointerPastFooter index.maxPointer footer))
    else
      (Input.seek index.maxPointer).io
      let (numChunks, numDirtyChunks) ← Input.decode (readStats resource version index.numChunks)
      if numChunks ≠ index.numChunks ∨ numChunks < numDirtyChunks then
        Step.throw
          (.corrupt resource (.chunkCounts numChunks numDirtyChunks index.numChunks))
      else
        let i ← Step.get
        if i.position ≠ footer then
          Step.throw (.corrupt resource (.statsEnd i.position footer))
        else
          pure
            { version, fields, index, numChunks, numDirtyChunks
              input := i
              chunkSize := preamble.chunkSize
              packedVersion := preamble.packedVersion
              form := preamble.form
              numDocs := maxDoc
              decompressed := 0
              scratch := {} }

/-- Open a segment of `maxDoc` documents. -/
def openSegment (d : Directory) (f : Format) (segment : String) (maxDoc : Nat)
    (fields : FieldTable) : Except (Stop Error) Reader := do
  let indexName := indexFile segment f.suffix
  let io {α : Type} (r : Except Fault α) : Except (Stop Error) α :=
    r.mapError fun fault => .failed (.io fault)
  let indexInput ← io (d.openInput indexName)
  let bytes ← io (Input.readToEnd indexInput).1
  let (version, index) ← readIndex indexName (indexCodec f.name) bytes
  if index.maxDoc ≠ maxDoc then
    .error (.failed (.corrupt indexName (.docCount index.maxDoc maxDoc)))
  else
    let input ← io (d.openInput (dataFile segment f.suffix))
    (readData (dataCodec f.name) maxDoc version index fields input).1

/-! ### Documents -/

/-- The name of the data file. -/
def resource (r : Reader) : String :=
  r.input.name

/-- How the frames of the data file are read. -/
def frameFormat (r : Reader) : Frame.Format where
  resource := r.resource
  form := r.form
  maxRawLength := 2 * r.chunkSize

/-- A place in a chunk, and what a reader keeps from document to document. -/
structure Visit (σ : Type) where
  source : σ
  decompressed : Nat
  scratch : Scratch
  deriving DecidableEq, Repr

namespace Visit

variable {ε α : Type}

/-- Use a decoder on the chunk. -/
def onSource (d : Step σ ε α) : Step (Visit σ) ε α :=
  Step.focus Visit.source (fun source v => { v with source }) d

/-- Fill the list of field counts. -/
def onCounts (x : Step (Packed.Filling σ) ε α) : Step (Visit σ) ε α :=
  Step.focus (fun v => ⟨v.source, v.scratch.counts⟩)
    (fun s v => { v with source := s.source, scratch := { v.scratch with counts := s.values } }) x

/-- Fill the list of lengths. -/
def onLengths (x : Step (Packed.Filling σ) ε α) : Step (Visit σ) ε α :=
  Step.focus (fun v => ⟨v.source, v.scratch.lengths⟩)
    (fun s v => { v with source := s.source, scratch := { v.scratch with lengths := s.values } }) x

/-- Walk over frames, in the room for the bytes of a document. -/
def onFrames (x : Step (Frame.Walk σ) ε α) : Step (Visit σ) ε α :=
  Step.focus (fun v => ⟨v.source, v.decompressed, v.scratch.stored, v.scratch.raw⟩)
    (fun w v =>
      { source := w.source, decompressed := w.produced
        scratch := { v.scratch with stored := w.stored, raw := w.out } }) x

/-- Walk over frames, in room that is given up afterwards. -/
def onFramesApart (x : Step (Frame.Walk σ) ε α) : Step (Visit σ) ε α :=
  Step.focus (fun v => ⟨v.source, v.decompressed, v.scratch.stored, .empty⟩)
    (fun w v =>
      { source := w.source, decompressed := w.produced
        scratch := { v.scratch with stored := w.stored } }) x

end Visit

/-- Where a document lies in its chunk. -/
structure Span where
  /-- How many payload bytes come before it. -/
  offset : Nat
  length : Nat
  fields : Nat
  deriving DecidableEq, Repr

/-- The first of the pairs that are a document without bytes but with fields, or the reverse. -/
def findEmptyMismatch (lengths counts : List Nat) : Option (Nat × Nat) :=
  (lengths.zip counts).find? fun (length, fields) => decide (length = 0) != decide (fields = 0)

/-- Read the header of the chunk that starts here, which has to hold the document. Answers the place
of the document among those of the chunk. -/
def readHeader (r : Reader) (doc : Nat) : Step (Visit σ) (Stop Error) Nat := do
  let docBase ← (Visit.onSource VarInt.vint).io
  let chunkDocs ← (Visit.onSource VarInt.vint).io
  if doc < docBase ∨ chunkDocs ≤ doc - docBase ∨ maxDocsPerChunk < chunkDocs ∨
      r.numDocs < docBase + chunkDocs then
    Step.throw (.corrupt r.resource (.documentOutsideChunk doc docBase chunkDocs r.numDocs))
  else
    Visit.onCounts (Packed.readInts r.resource chunkDocs)
    Visit.onLengths (Packed.readInts r.resource chunkDocs)
    pure (doc - docBase)

/-- The document at a place of the chunk whose lists have been read. -/
def spanAt (r : Reader) (place : Nat) (s : Scratch) : Except (Stop Error) Span :=
  match findEmptyMismatch s.lengths.toList s.counts.toList with
  | some (length, fields) => .error (.failed (.corrupt r.resource (.emptyMismatch length fields)))
  | none =>
    match s.lengths[place]?, s.counts[place]? with
    | some length, some fields =>
      .ok { offset := (s.lengths.toList.take place).sum, length, fields }
    | _, _ => .error (.refused .sliceOutOfRange)

variable [Zstd.FrameDecoder]

/-- Produce the bytes of a document of the chunk whose header has been read. A large document gets
room of its own. -/
def readPayload (r : Reader) (span : Span) : Step (Visit σ) (Stop Error) Bytes := do
  let read : Step (Frame.Walk σ) (Stop Error) Bytes := do
    r.frameFormat.read span.offset span.length
    let w ← Step.get
    pure w.out.toList
  let data ←
    if span.offset + span.length ≤ 2 * r.chunkSize then Visit.onFrames read
    else Visit.onFramesApart read
  if data.length ≠ span.length then
    Step.throw (.corrupt r.resource (.decompressedLength data.length span.length))
  else pure data

/-- Read the bytes of a document from the start of its chunk, and the number of its fields. A
document without fields has no bytes. -/
def readBytes (r : Reader) (doc : Nat) : Step (Visit σ) (Stop Error) (Bytes × Nat) := do
  let place ← r.readHeader doc
  let v ← Step.get
  let span ← Step.ofExcept (r.spanAt place v.scratch)
  if span.fields = 0 then pure ([], 0)
  else
    let data ← r.readPayload span
    pure (data, span.fields)

/-- Read the bytes of a document from the start of its chunk. Answers how that ended, and what the
reader keeps then. -/
def readChunk (r : Reader) (doc : Nat) :
    Step σ Empty (Except (Stop Error) (Bytes × Nat) × Nat × Scratch) := fun source =>
  let (result, v) := r.readBytes doc ⟨source, r.decompressed, r.scratch⟩
  (.ok (result, v.decompressed, v.scratch), v.source)

/-- Read the bytes of a document from its chunk, which starts at `start`. -/
def fetch (doc start : Nat) : Step Reader (Stop Error) (Bytes × Nat) := fun r =>
  match Input.seek start r.input with
  | (.error fault, input) => (.error (.failed (.io fault)), { r with input })
  | (.ok (), input) =>
    match Input.decode (r.readChunk doc) input with
    | (.ok (result, decompressed, scratch), input) =>
      (result, { r with input, decompressed, scratch })

/-- Let a visitor read the fields of a document whose chunk starts at `start`. -/
def visitChunk {σ : Type} (visitor : Visitor σ) (doc start : Nat) :
    Step (Reader × σ) (Stop Error) Unit := fun (r, s) =>
  match fetch doc start r with
  | (.error stop, r) => (.error stop, (r, s))
  | (.ok (_, 0), r) => (.ok (), (r, s))
  | (.ok (bytes, count), r) =>
    match readDocument r.resource r.fields visitor bytes count s with
    | (result, s) => (result.mapError .failed, (r, s))

/-- Let a visitor read the fields of a document, which has to be one of the segment. -/
def visit {σ : Type} (visitor : Visitor σ) (doc : Nat) : Step (Reader × σ) (Stop Error) Unit :=
  fun (r, s) =>
    match r.index.startPointer doc with
    | .error v => (.error (.refused v), (r, s))
    | .ok start =>
      let classify : Stop Error → Stop Error
        | .failed (.io fault) => .failed (.decoding r.resource (.document doc start) fault)
        | stop => stop
      ((visitChunk visitor doc start).mapError classify) (r, s)

/-- Read the fields of a document: all of them, or those with a name in `wanted`. -/
def document (doc : Nat) (wanted : Option (List String) := none) :
    Step Reader (Stop Error) Document := fun r =>
  match visit (Visitor.collect wanted) doc (r, {}) with
  | (.ok (), (r, d)) => (.ok d, r)
  | (.error stop, (r, _)) => (.error stop, r)

/-! ### The whole file -/

/-- Verify the checksum of the data file. -/
def checkIntegrity (r : Reader) : Except Error Unit :=
  match Framing.checksumFile r.input.clone with
  | (.ok _, _) => .ok ()
  | (.error e, _) => .error e

/-- A second reader of the segment, which has produced nothing yet. -/
def clone (r : Reader) : Reader :=
  { r with input := r.input.clone, decompressed := 0, scratch := {} }

/-- The reader with its file as the directory has it now. -/
def refresh (d : Directory) (r : Reader) : Reader :=
  { r with input := d.refresh r.input }

/-- The reader in words. -/
def describe (r : Reader) : String :=
  "ChunkedFieldReader \x7b resource: " ++ Text.quote r.resource ++
    s!", version: {r.version}, chunk_size: {r.chunkSize}, num_docs: {r.numDocs}, " ++
    s!"num_chunks: {r.numChunks}" ++ " \x7d"

end Reader

end DocStore.Segment
