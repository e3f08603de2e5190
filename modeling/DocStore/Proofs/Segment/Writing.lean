import DocStore.Proofs.ChunkIndex.Writing
import DocStore.Proofs.Segment.Layout

/-!
# Writing a segment

Between two documents a writer has written some chunks, and the documents after them wait.  Each
document that is written keeps this, whether it fills the chunk or not: the documents of the chunks
and those that wait are always all documents so far, in order.  So a completed segment consists of
chunks of just the documents that were written, whatever the sizes made of them.
-/

namespace DocStore.Segment

open Storage

/-! ### Waiting documents -/

/-- How documents wait, newest first: each with its end among the bytes of those before it. -/
def waitingDocs : List StoredDoc → List PendingDoc
  | [] => []
  | doc :: older => ⟨doc.fields, (rawBytes (doc :: older)).length⟩ :: waitingDocs older

@[simp] lemma length_waitingDocs (docs : List StoredDoc) :
    (waitingDocs docs).length = docs.length := by
  induction docs with
  | nil => rfl
  | cons doc older ih => simp [waitingDocs, ih]

lemma length_rawBytes_cons (doc : StoredDoc) (older : List StoredDoc) :
    (rawBytes (doc :: older)).length = doc.bytes.length + (rawBytes older).length := by
  rw [length_rawBytes, length_rawBytes, List.map_cons, List.sum_cons]

lemma length_rawBytes_reverse (docs : List StoredDoc) :
    (rawBytes docs.reverse).length = (rawBytes docs).length := by
  rw [length_rawBytes, length_rawBytes, List.map_reverse, List.sum_reverse]

/-- The ends of waiting documents are turned into their lengths. -/
lemma lengthsOfEnds_waitingDocs (docs : List StoredDoc) :
    Writing.lengthsOfEnds (waitingDocs docs) = (docs.map StoredDoc.heading, none) := by
  induction docs with
  | nil => rfl
  | cons doc older ih =>
    cases older with
    | nil =>
      have hlength : (rawBytes [doc]).length = doc.bytes.length := length_rawBytes_cons doc []
      rw [waitingDocs, waitingDocs, hlength]
      rfl
    | cons previous older =>
      have hlength := length_rawBytes_cons doc (previous :: older)
      have horder : ¬(rawBytes (doc :: previous :: older)).length <
          (rawBytes (previous :: older)).length := by omega
      have hdifference : (rawBytes (doc :: previous :: older)).length -
          (rawBytes (previous :: older)).length = doc.bytes.length := by omega
      have hpending : waitingDocs (doc :: previous :: older) =
          ⟨doc.fields, (rawBytes (doc :: previous :: older)).length⟩ ::
            ⟨previous.fields, (rawBytes (previous :: older)).length⟩ :: waitingDocs older := rfl
      have hconverted : Writing.lengthsOfEnds
          (⟨previous.fields, (rawBytes (previous :: older)).length⟩ :: waitingDocs older) =
          ((previous :: older).map StoredDoc.heading, none) := ih
      rw [hpending, Writing.lengthsOfEnds, if_neg horder, hconverted]
      dsimp only
      rw [hdifference]
      rfl

/-! ### What has been written -/

/-- What is fixed from the start of a segment on. -/
structure Plan where
  dataName : String
  indexName : String
  /-- What stands in the data file before the first chunk. -/
  dataHead : Bytes
  /-- What stands in the index file before the index. -/
  indexHead : Bytes
  indexBlockSize : Nat
  layout : Layout

namespace Plan

/-- What stands in the data file up to the end of some chunks. -/
def dataSoFar (P : Plan) (chunks : List StoredChunk) : Bytes :=
  P.dataHead ++ P.layout.chunksBytes 0 chunks

/-- What the index is told about the chunks. -/
def entries (P : Plan) (chunks : List StoredChunk) : List ChunkIndex.ChunkEntry :=
  P.layout.entries 0 P.dataHead.length chunks

/-- The entries of chunks and one more. -/
lemma entries_concat (P : Plan) (chunks : List StoredChunk) (c : StoredChunk) :
    P.entries (chunks ++ [c]) =
      P.entries chunks ++ [⟨c.docs.length, (P.dataSoFar chunks).length⟩] := by
  unfold entries dataSoFar
  rw [Layout.entries_append, List.length_append]
  rfl

/-- One more chunk comes last in the data file. -/
lemma dataSoFar_concat (P : Plan) (chunks : List StoredChunk) (c : StoredChunk) :
    P.dataSoFar (chunks ++ [c]) =
      P.dataSoFar chunks ++ P.layout.chunkBytes (docsOf chunks).length c := by
  unfold dataSoFar
  rw [Layout.chunksBytes_append, Layout.chunksBytes, Layout.chunksBytes, List.append_nil,
    Nat.zero_add, List.append_assoc]

end Plan

/-- The writer has written the chunks, and the documents wait, newest first.  `dirty` of the chunks
were not full. -/
structure Written (P : Plan) (chunks : List StoredChunk) (waiting : List StoredDoc)
    (dirty : Nat) (s : Writing) : Prop where
  names_ne : P.indexName ≠ P.dataName
  limits : s.directory.limits = {}
  dataName : s.writer.data.name = P.dataName
  data : s.writer.data.Holds s.directory (P.dataSoFar chunks)
  index : ∃ x, s.writer.index = some x ∧ x.output.name = P.indexName ∧
    x.blockSize = P.indexBlockSize ∧
    x.Recorded s.directory (P.indexHead ++ VarInt.encode Packed.newestVersion) (P.entries chunks)
  compressor : s.writer.compressor = P.layout.compressor
  chunkSize : s.writer.chunkSize = P.layout.chunkSize
  pending : s.writer.pending = waitingDocs waiting
  buffer : s.writer.buffer.toList = rawBytes waiting.reverse
  docBase : s.writer.docBase = (docsOf chunks).length
  numChunks : s.writer.numChunks = chunks.length
  numDirtyChunks : s.writer.numDirtyChunks = dirty
  inDocument : s.writer.inDocument = false
  chunks_valid : ∀ c ∈ chunks, IsChunk c.docs
  waiting_valid : ∀ doc ∈ waiting, doc.IsValid
  waiting_le : waiting.length ≤ maxDocsPerChunk

namespace Writing

variable {s : Writing}

/-- Looking at the writer changes nothing. -/
lemma current_apply {ε : Type} (s : Writing) :
    (current : Step Writing ε Writer) s = (.ok s.writer, s) := rfl

/-- A change of the writer leaves the directory. -/
lemma update_apply {ε : Type} (f : Writer → Writer) (s : Writing) :
    (update f : Step Writing ε Unit) s = (.ok (), { s with writer := f s.writer }) := rfl

/-- Something is written to the data file. -/
lemma onData_spec {x : Step Sink Fault Unit} {held held' : Bytes}
    (hx : Sink.Appends x held held') (h : s.writer.data.Holds s.directory held) :
    ∃ o d, onData x s = (.ok (), ⟨{ s.writer with data := o }, d⟩) ∧ o.Holds d held' ∧
      Sink.SameFile ⟨s.writer.data, s.directory⟩ ⟨o, d⟩ := by
  obtain ⟨t, ht, hholds, hsame⟩ := hx ⟨s.writer.data, s.directory⟩ h
  refine ⟨t.output, t.directory, ?_, hholds, hsame⟩
  unfold onData
  exact Step.focus_of_eq ht

/-! ### Chunks -/

variable {P : Plan} {chunks : List StoredChunk} {waiting : List StoredDoc} {dirty : Nat}

/-- The pending chunk is recorded where the data file ends. -/
lemma recordChunk_spec (h : Written P chunks waiting dirty s) :
    ∃ x d, recordChunk s = (.ok (), ⟨{ s.writer with index := some x }, d⟩) ∧
      x.output.name = P.indexName ∧ x.blockSize = P.indexBlockSize ∧
      x.Recorded d (P.indexHead ++ VarInt.encode Packed.newestVersion)
        (P.entries (chunks ++ [.ofDocs waiting.reverse])) ∧
      Directory.AgreeBut P.indexName s.directory d := by
  obtain ⟨x, hx, hname, hblockSize, hrecorded⟩ := h.index
  have hwritten : s.writer.data.written = (P.dataSoFar chunks).length := h.data.written
  have hpending : s.writer.pending.length = waiting.reverse.length := by
    rw [h.pending, length_waitingDocs, List.length_reverse]
  have hbefore : ∀ entry ∈ P.entries chunks,
      entry.startPointer ≤ (P.dataSoFar chunks).length := by
    intro entry hentry
    have hbounds := Layout.startPointer_bounds
      (fun c hc => (h.chunks_valid c hc).ne_nil) hentry
    unfold Plan.dataSoFar
    rw [List.length_append]
    omega
  obtain ⟨x', d, hrecord, hrecorded', hsame⟩ :=
    ChunkIndex.Writer.record_spec hrecorded (c := ⟨waiting.reverse.length, _⟩) hbefore
  refine ⟨x', d, ?_, hsame.file.name.trans hname, hsame.blockSize.trans hblockSize, ?_, ?_⟩
  · unfold recordChunk
    rw [hx]
    dsimp only
    rw [hpending, hwritten, hrecord]
    rfl
  · rw [Plan.entries_concat]
    exact hrecorded'
  · have hothers := hsame.file.others
    have hfile : x.output.name = P.indexName := hname
    rwa [← hfile]

/-- The documents that wait keep their lengths in place of their ends. -/
lemma convertEnds_eq (h : s.writer.pending = waitingDocs waiting) :
    convertEnds s = (.ok (),
      { s with writer := { s.writer with pending := waiting.map StoredDoc.heading } }) := by
  unfold convertEnds
  rw [Step.bind_of_ok (current_apply _), h, lengthsOfEnds_waitingDocs]
  rfl

/-- The documents that wait can make a chunk. -/
lemma isChunk_waiting (h : Written P chunks waiting dirty s) (hwaiting : waiting ≠ []) :
    IsChunk waiting.reverse where
  ne_nil hnil := hwaiting (List.reverse_eq_nil_iff.1 hnil)
  length_le := by
    rw [List.length_reverse]
    exact h.waiting_le
  valid doc hdoc := h.waiting_valid doc (List.mem_reverse.1 hdoc)

/-- The writer after all that waits has become a chunk of documents with these lengths, newest
first, with its files as they are then. -/
def flushed (s : Writing) (lengths : List PendingDoc) (index : ChunkIndex.Writer) (data : Output)
    (d : Directory) : Writing :=
  { writer :=
      { s.writer with
        index := some index
        data
        docBase := s.writer.docBase + lengths.length
        pending := []
        leftover := lengths.reverse.map (·.stop) ++ s.writer.leftover.drop lengths.length
        buffer := s.writer.buffer.clear
        numChunks := s.writer.numChunks + 1 }
    directory := d }

/-- If the files have one chunk more, then so has all that was written. -/
lemma written_flushed (h : Written P chunks waiting dirty s) (hwaiting : waiting ≠ [])
    {x : ChunkIndex.Writer} {o : Output} {d d' : Directory}
    (hname : x.output.name = P.indexName) (hblockSize : x.blockSize = P.indexBlockSize)
    (hrecorded : x.Recorded d (P.indexHead ++ VarInt.encode Packed.newestVersion)
      (P.entries (chunks ++ [.ofDocs waiting.reverse])))
    (hindexFile : Directory.AgreeBut P.indexName s.directory d) (hdata : o.name = P.dataName)
    (hholds : o.Holds d' (P.dataSoFar (chunks ++ [.ofDocs waiting.reverse])))
    (hdataFile : Directory.AgreeBut P.dataName d d') :
    Written P (chunks ++ [.ofDocs waiting.reverse]) [] dirty
      (s.flushed (waiting.map StoredDoc.heading) x o d') := by
  have hdocBase : s.writer.docBase + (waiting.map StoredDoc.heading).length =
      (docsOf (chunks ++ [.ofDocs waiting.reverse])).length := by
    rw [List.length_map, h.docBase, docsOf_concat, List.length_append, StoredChunk.docs_ofDocs,
      List.length_reverse]
  have hnumChunks : s.writer.numChunks + 1 =
      (chunks ++ [StoredChunk.ofDocs waiting.reverse]).length := by
    rw [h.numChunks, List.length_append, List.length_singleton]
  have hindexName : x.output.name ≠ P.dataName := by
    rw [hname]
    exact h.names_ne
  refine
    { names_ne := h.names_ne
      limits := (hdataFile.limits.trans hindexFile.limits).trans h.limits
      dataName := hdata
      data := hholds
      index := ⟨x, rfl, hname, hblockSize, hrecorded.of_agreeBut hindexName hdataFile⟩
      compressor := h.compressor
      chunkSize := h.chunkSize
      pending := rfl
      buffer := rfl
      docBase := hdocBase
      numChunks := hnumChunks
      numDirtyChunks := h.numDirtyChunks
      inDocument := h.inDocument
      chunks_valid := ?_
      waiting_valid := fun doc hdoc => absurd hdoc List.not_mem_nil
      waiting_le := Nat.zero_le _ }
  intro c hmem
  rcases List.mem_append.1 hmem with hold | hnew
  · exact h.chunks_valid c hold
  · rw [List.mem_singleton.1 hnew]
    exact isChunk_waiting h hwaiting

/-- A flush makes a chunk of the documents that wait. -/
lemma flush_spec (h : Written P chunks waiting dirty s) (hwaiting : waiting ≠ []) :
    ∃ s', flush s = (.ok (), s') ∧ Written P (chunks ++ [.ofDocs waiting.reverse]) [] dirty s' := by
  obtain ⟨x, d, hrecord, hname, hblockSize, hrecorded, hindexFile⟩ := recordChunk_spec h
  have hchunk := isChunk_waiting h hwaiting
  obtain ⟨_, _, pieces, _, _, hencode, hpieces, _⟩ :=
    P.layout.encodeChunk_spec (docsOf chunks).length (c := .ofDocs waiting.reverse) hchunk.ne_nil
  have hdata : s.writer.data.Holds d (P.dataSoFar chunks) := by
    refine h.data.of_agreeBut ?_ hindexFile
    rw [h.dataName]
    exact h.names_ne.symm
  have hwrite := Sink.appends_writeAll (P.dataSoFar chunks) pieces
  rw [hpieces, ← Plan.dataSoFar_concat] at hwrite
  -- The state after the ends have been turned into lengths.
  let converted : Writing :=
    ⟨{ s.writer with index := some x, pending := waiting.map StoredDoc.heading }, d⟩
  have hconvert : convertEnds ⟨{ s.writer with index := some x }, d⟩ = (.ok (), converted) :=
    convertEnds_eq h.pending
  have hpieces' : encodeChunk converted.writer.compressor converted.writer.chunkSize
      converted.writer.docBase converted.writer.pending.reverse converted.writer.buffer.toList =
      .ok pieces := by
    dsimp only [converted]
    rw [h.compressor, h.chunkSize, h.docBase, h.buffer, ← List.map_reverse,
      ← StoredChunk.raw_ofDocs]
    exact hencode
  obtain ⟨o, d', hdata', hholds, hsame⟩ := onData_spec (s := converted) hwrite hdata
  have hdataFile : Directory.AgreeBut P.dataName d d' := by
    have hothers := hsame.others
    have hfile : s.writer.data.name = P.dataName := h.dataName
    rwa [← hfile]
  have hflush : flush s = (.ok (), s.flushed (waiting.map StoredDoc.heading) x o d') := by
    unfold flush
    rw [Step.bind_of_ok hrecord, Step.bind_of_ok hconvert, Step.bind_of_ok (current_apply _),
      Step.bind_of_ok (Step.ofChecked_of_ok hpieces' _), Step.bind_of_ok (Step.io_of_ok hdata'),
      update_apply]
    rfl
  exact ⟨_, hflush, written_flushed h hwaiting hname hblockSize hrecorded hindexFile
    (hsame.name.trans h.dataName) hholds hdataFile⟩

/-! ### Documents -/

section Documents

variable {fields : List (FieldInfo × FieldValue)} {bytes : Bytes} {doc : PendingDoc}
  {older : List PendingDoc}

/-- The writer with these documents, of which the bytes wait in this buffer. -/
def grown (s : Writing) (pending : List PendingDoc) (buffer : ChunkBuffer) : Writing :=
  { s with writer := { s.writer with pending, buffer } }

/-- Some of the bytes are put to those that wait, and all of them unless the buffer is full. -/
lemma collect_cases (pieces : Pieces) (s : Writing) :
    ∃ buffer more, buffer.toBuffer = s.writer.buffer.append more ∧
      (more = pieces.flatten ∧ collect pieces s = (.ok (), s.grown s.writer.pending buffer) ∨
        maxArrayLength < s.writer.buffer.size + pieces.flatten.length ∧
        collect pieces s = (.error (.refused .bufferFull), s.grown s.writer.pending buffer)) := by
  induction pieces generalizing s with
  | nil => exact ⟨s.writer.buffer, [], (Buffer.append_nil _).symm, Or.inl ⟨rfl, rfl⟩⟩
  | cons piece pieces ih =>
    rw [List.flatten_cons, List.length_append]
    rcases s.writer.buffer.write_cases piece with
      ⟨buffer, hwrite, hbuffer⟩ | ⟨hwrite, hfull⟩
    · have hstep : collect (piece :: pieces) s =
          collect pieces (s.grown s.writer.pending buffer) := by
        rw [collect, Step.bind_of_ok (current_apply _),
          Step.bind_of_ok (Step.ofChecked_of_ok hwrite _), Step.bind_of_ok (update_apply _ _)]
        rfl
      obtain ⟨buffer', more, hbuffer', hends⟩ := ih (s.grown s.writer.pending buffer)
      have hgrown : (s.grown s.writer.pending buffer).writer.buffer = buffer := rfl
      rw [hgrown, hbuffer, Buffer.append_append] at hbuffer'
      rw [hgrown, hbuffer, Buffer.size_append] at hends
      rw [hstep]
      refine ⟨buffer', piece ++ more, hbuffer', ?_⟩
      rcases hends with ⟨rfl, hrun⟩ | ⟨hfull, hrun⟩
      · exact Or.inl ⟨rfl, hrun⟩
      · exact Or.inr ⟨by omega, hrun⟩
    · refine ⟨s.writer.buffer, [], (Buffer.append_nil _).symm, Or.inr ⟨by omega, ?_⟩⟩
      rw [collect, Step.bind_of_ok (current_apply _), hwrite]
      rfl

/-- A word counts the fields of the open document. -/
lemma countField_cases (hpending : s.writer.pending = doc :: older) :
    (doc.fields + 1 < 2 ^ 32 ∧ countField s =
        (.ok (), s.grown ({ doc with fields := doc.fields + 1 } :: older) s.writer.buffer)) ∨
      (2 ^ 32 ≤ doc.fields + 1 ∧ countField s = (.error (.refused .fieldCount), s)) := by
  have hall : s.writer.pending.head?.all (fun doc => decide (doc.fields + 1 < 2 ^ 32)) =
      decide (doc.fields + 1 < 2 ^ 32) := by
    rw [hpending]
    rfl
  unfold countField
  rw [Step.bind_of_ok (current_apply _), hall]
  by_cases hword : doc.fields + 1 < 2 ^ 32
  · left
    rw [Step.bind_of_ok (Step.require_decide hword _ _), update_apply]
    unfold Writer.updateNewest grown
    rw [hpending]
    exact ⟨hword, rfl⟩
  · right
    rw [decide_eq_false hword]
    exact ⟨Nat.not_lt.1 hword, rfl⟩

/-- Without an open document no field is written. -/
lemma writeField_of_closed (hclosed : s.writer.inDocument = false) (info : FieldInfo)
    (value : FieldValue) :
    writeField info value s = (.error (.refused .writeOutsideDocument), s) := by
  unfold writeField writeForm
  rw [Step.bind_of_ok (current_apply _), hclosed]
  rfl

/-- A field is written whole, or not all of it is and something may have been collected.  Into an
open document it may be written. -/
lemma writeField_cases (hopen : s.writer.inDocument = true)
    (hpending : s.writer.pending = doc :: older) (info : FieldInfo) (value : FieldValue) :
    ∃ buffer more, buffer.toBuffer = s.writer.buffer.append more ∧
      ((encodeField info value = .ok more ∧ doc.fields + 1 < 2 ^ 32 ∧ writeField info value s =
        (.ok (), s.grown ({ doc with fields := doc.fields + 1 } :: older) buffer)) ∨
      ∃ stop, stop ≠ .refused .writeOutsideDocument ∧
        (∀ bytes, encodeField info value = .ok bytes →
          maxArrayLength < s.writer.buffer.size + bytes.length ∨ 2 ^ 32 ≤ doc.fields + 1) ∧
        writeField info value s = (.error stop, s.grown s.writer.pending buffer)) := by
  have hkeyed : (bytewise (encodeKey info value.type)).flatten = encodeKey info value.type :=
    flatten_bytewise _
  obtain ⟨keyed, key, hbuffer, hkey⟩ := collect_cases (bytewise (encodeKey info value.type)) s
  rw [hkeyed] at hkey
  have hstart : writeField info value s = (do
      collect (bytewise (encodeKey info value.type))
      let pieces ← (Step.ofExcept (valuePieces value)).io
      collect pieces
      countField : Step Writing (Stop Error) Unit) s := by
    unfold writeField writeForm
    rw [Step.bind_of_ok (current_apply _), hopen, Step.bind_of_ok (Step.require_true _ _)]
  rw [hstart]
  rcases hkey with ⟨rfl, hkey⟩ | ⟨hfull, hkey⟩
  · rw [Step.bind_of_ok hkey]
    rcases hvalue : valuePieces value with fault | pieces
    · refine ⟨keyed, _, hbuffer, Or.inr ⟨.failed (.io fault), nofun, fun bytes hbytes => ?_, rfl⟩⟩
      obtain ⟨form, hform, -⟩ := encodeField_eq_ok.1 hbytes
      rw [encodeValue, hvalue] at hform
      cases hform
    · have hfield : encodeField info value =
          .ok (encodeKey info value.type ++ pieces.flatten) := by
        refine encodeField_eq_ok.2 ⟨pieces.flatten, ?_, rfl⟩
        rw [encodeValue, hvalue]
        rfl
      rw [Step.bind_of_ok (Step.io_of_ok (Step.ofExcept_apply _ _))]
      let middle := s.grown s.writer.pending keyed
      obtain ⟨buffer, more, hbuffer', hform⟩ := collect_cases pieces middle
      have hmiddle : middle.writer.buffer = keyed := rfl
      rw [hmiddle, hbuffer, Buffer.append_append] at hbuffer'
      rw [hmiddle, hbuffer, Buffer.size_append] at hform
      refine ⟨buffer, _, hbuffer', ?_⟩
      rcases hform with ⟨rfl, hform⟩ | ⟨hfull, hform⟩
      · rw [Step.bind_of_ok hform]
        rcases countField_cases (s := middle.grown middle.writer.pending buffer) hpending with
          ⟨hword, hcount⟩ | ⟨hmany, hcount⟩
        · exact Or.inl ⟨hfield, hword, hcount⟩
        · exact Or.inr ⟨.refused .fieldCount, nofun, fun _ _ => Or.inr hmany, hcount⟩
      · refine Or.inr
          ⟨.refused .bufferFull, nofun, fun bytes hbytes => ?_, Step.bind_of_error hform⟩
        cases hfield.symm.trans hbytes
        rw [List.length_append]
        exact Or.inl (by omega)
  · refine ⟨keyed, key, hbuffer, Or.inr
      ⟨.refused .bufferFull, nofun, fun bytes hbytes => ?_, Step.bind_of_error hkey⟩⟩
    obtain ⟨form, -, rfl⟩ := encodeField_eq_ok.1 hbytes
    rw [List.length_append]
    exact Or.inl (by omega)

/-- A field is added to the open document, if there is room for it. -/
lemma writeField_eq (hopen : s.writer.inDocument = true)
    (hpending : s.writer.pending = doc :: older) {info : FieldInfo} {value : FieldValue}
    (h : encodeField info value = .ok bytes)
    (hroom : s.writer.buffer.size + bytes.length ≤ maxArrayLength)
    (hword : doc.fields + 1 < 2 ^ 32) :
    ∃ buffer : ChunkBuffer, buffer.toBuffer = s.writer.buffer.append bytes ∧
      writeField info value s =
        (.ok (), s.grown ({ doc with fields := doc.fields + 1 } :: older) buffer) := by
  obtain ⟨buffer, more, hbuffer, ⟨hmore, -, hrun⟩ | ⟨stop, -, hfull, -⟩⟩ :=
    writeField_cases hopen hpending info value
  · cases h.symm.trans hmore
    exact ⟨buffer, hbuffer, hrun⟩
  · have hnone := hfull bytes h
    omega

/-- Fields are added to the open document in order. -/
lemma writeFields_eq (hopen : s.writer.inDocument = true)
    (hpending : s.writer.pending = doc :: older)
    (h : encodeFields fields = .ok bytes)
    (hroom : s.writer.buffer.size + bytes.length ≤ maxArrayLength)
    (hword : doc.fields + fields.length < 2 ^ 32) :
    ∃ buffer : ChunkBuffer, buffer.toBuffer = s.writer.buffer.append bytes ∧
      writeFields fields s =
        (.ok (), s.grown ({ doc with fields := doc.fields + fields.length } :: older) buffer) := by
  induction fields generalizing s bytes doc with
  | nil =>
    cases h
    have hsame : s.grown ({ doc with fields := doc.fields + 0 } :: older) s.writer.buffer = s := by
      unfold grown
      rw [Nat.add_zero, ← hpending]
    exact ⟨s.writer.buffer, (Buffer.append_nil _).symm, Prod.ext rfl hsame.symm⟩
  | cons field fields ih =>
    obtain ⟨info, value⟩ := field
    obtain ⟨x, hx, y, hy, rfl⟩ := encodeFields_cons_eq_ok.1 h
    rw [List.length_append] at hroom
    rw [List.length_cons] at hword
    obtain ⟨buffer, hbuffer, hfield⟩ := writeField_eq hopen hpending hx (by omega) (by omega)
    let written := s.grown ({ doc with fields := doc.fields + 1 } :: older) buffer
    have hwritten : written.writer.buffer = buffer := rfl
    have hsize : buffer.size = s.writer.buffer.size + x.length := by
      rw [hbuffer, Buffer.size_append]
    have hnewest : written.writer.pending = { doc with fields := doc.fields + 1 } :: older := rfl
    obtain ⟨buffer', hbuffer', hmore⟩ := ih (s := written) hopen hnewest hy
      (by rw [hwritten]; omega) (by dsimp only; omega)
    rw [hwritten, hbuffer, Buffer.append_append] at hbuffer'
    have hcount : doc.fields + 1 + fields.length = doc.fields + (fields.length + 1) := by omega
    refine ⟨buffer', hbuffer', ?_⟩
    rw [writeFields, Step.bind_of_ok hfield, hmore, List.length_cons]
    dsimp only
    rw [hcount]
    rfl

/-- The open document ends where the bytes of the chunk end. -/
lemma closeDocument_eq (hopen : s.writer.inDocument = true)
    (hpending : s.writer.pending = doc :: older) (hsize : s.writer.buffer.size ≤ maxChunkBytes) :
    closeDocument s =
      (.ok (), { s with
        writer := { s.writer with
          pending := { doc with stop := s.writer.buffer.size } :: older
          inDocument := false } }) := by
  unfold closeDocument
  rw [Step.bind_of_ok (current_apply _), hopen, Step.bind_of_ok (Step.require_true _ _),
    Step.bind_of_ok (update_apply _ _), Step.bind_of_ok (Step.require_decide hsize _ _),
    update_apply]
  unfold Writer.updateNewest
  dsimp only
  rw [hpending]

/-- Where no word tells where the document ends, it is closed but not finished. -/
lemma closeDocument_of_tooLarge (hopen : s.writer.inDocument = true)
    (hsize : ¬s.writer.buffer.size ≤ maxChunkBytes) :
    closeDocument s = (.error (.refused (.chunkTooLarge s.writer.buffer.size)),
      ⟨{ s.writer with inDocument := false }, s.directory⟩) := by
  unfold closeDocument
  rw [Step.bind_of_ok (current_apply _), hopen, Step.bind_of_ok (Step.require_true _ _),
    Step.bind_of_ok (update_apply _ _), decide_eq_false hsize]
  rfl

/-- Outside of a document there is none to finish. -/
lemma finishDocument_of_closed (hclosed : s.writer.inDocument = false) :
    finishDocument s = (.error (.refused .finishOutsideDocument), s) := by
  have hclose : closeDocument s = (.error (.refused .finishOutsideDocument), s) := by
    unfold closeDocument
    rw [Step.bind_of_ok (current_apply _), hclosed]
    rfl
  exact Step.bind_of_error hclose

/-- A document that was written waits, unless it fills the chunk. -/
lemma writeDocument_eq (hclosed : s.writer.inDocument = false) (h : encodeFields fields = .ok bytes)
    (hroom : s.writer.buffer.size + bytes.length ≤ maxArrayLength) :
    ∃ buffer : ChunkBuffer, buffer.toBuffer = s.writer.buffer.append bytes ∧
      writeDocument fields s =
        (do
          let w ← current
          if isFull w then flush else pure ())
          (s.grown (⟨fields.length, s.writer.buffer.size + bytes.length⟩ :: s.writer.pending)
            buffer) := by
  let stop := s.writer.leftover.getD s.writer.pending.length 0
  let opened : Writing :=
    { s with writer :=
        { s.writer with pending := ⟨0, stop⟩ :: s.writer.pending, inDocument := true } }
  have hstart : startDocument s = (.ok (), opened) := by
    unfold startDocument
    rw [Step.bind_of_ok (current_apply _), hclosed, Bool.not_false,
      Step.bind_of_ok (Step.require_true _ _), update_apply]
  have hpending : opened.writer.pending = ⟨0, stop⟩ :: s.writer.pending := rfl
  have hcount := length_le_of_encodeFields h
  unfold maxArrayLength at hroom
  obtain ⟨buffer, hbuffer, hfields⟩ := writeFields_eq (s := opened) rfl hpending h hroom
    (by dsimp only; omega)
  let filled : Writing := opened.grown (⟨0 + fields.length, stop⟩ :: s.writer.pending) buffer
  have hfilled : filled.writer.pending = ⟨0 + fields.length, stop⟩ :: s.writer.pending := rfl
  have hsize : filled.writer.buffer.size = s.writer.buffer.size + bytes.length := by
    have hsame : filled.writer.buffer.toBuffer = s.writer.buffer.append bytes := hbuffer
    rw [hsame, Buffer.size_append]
  have hfits : filled.writer.buffer.size ≤ maxChunkBytes := by
    unfold maxChunkBytes
    omega
  have hclose : closeDocument filled = (.ok (), s.grown
      (⟨fields.length, s.writer.buffer.size + bytes.length⟩ :: s.writer.pending) buffer) := by
    rw [closeDocument_eq rfl hfilled hfits, hsize, Nat.zero_add]
    unfold grown
    rw [← hclosed]
    rfl
  refine ⟨buffer, hbuffer, ?_⟩
  unfold writeDocument finishDocument
  rw [Step.bind_of_ok hstart, Step.bind_of_ok hfields, Step.bind_of_ok hclose]

/-- A chunk is not full as long as it has neither enough bytes nor enough documents. -/
lemma isFull_eq_false {w : Writer} :
    isFull w = false ↔ w.buffer.size < w.chunkSize ∧ w.pending.length < maxDocsPerChunk := by
  unfold isFull
  rw [Bool.or_eq_false_iff, decide_eq_false_iff_not, decide_eq_false_iff_not, Nat.not_le,
    Nat.not_le]

variable {P : Plan} {chunks : List StoredChunk} {waiting : List StoredDoc} {dirty : Nat}

/-- Nothing waits in a chunk that is full. -/
lemma isFull_eq_false_of_written (h : Written P chunks [] dirty s)
    (hsize : 0 < P.layout.chunkSize) : isFull s.writer = false := by
  have hbuffer : s.writer.buffer.size = 0 := by
    rw [← Buffer.length_toList, h.buffer]
    rfl
  rw [isFull_eq_false, hbuffer, h.chunkSize, h.pending]
  exact ⟨hsize, by decide⟩

/-- One document more waits. -/
lemma written_grown (h : Written P chunks waiting dirty s)
    (hroom : waiting.length < maxDocsPerChunk) {stored : StoredDoc} (hvalid : stored.IsValid)
    {buffer : ChunkBuffer} (hbuffer : buffer.toBuffer = s.writer.buffer.append stored.bytes) :
    Written P chunks (stored :: waiting) dirty
      (s.grown (⟨stored.fields, s.writer.buffer.size + stored.bytes.length⟩ :: s.writer.pending)
        buffer) where
  names_ne := h.names_ne
  limits := h.limits
  dataName := h.dataName
  data := h.data
  index := h.index
  compressor := h.compressor
  chunkSize := h.chunkSize
  pending := by
    have hsize : s.writer.buffer.size = (rawBytes waiting).length := by
      rw [← Buffer.length_toList, h.buffer, length_rawBytes_reverse]
    rw [waitingDocs, length_rawBytes_cons, ← h.pending, ← hsize, Nat.add_comm]
    rfl
  buffer := by
    have hsame : (s.grown (⟨stored.fields, s.writer.buffer.size + stored.bytes.length⟩ ::
      s.writer.pending) buffer).writer.buffer = buffer := rfl
    rw [hsame, hbuffer, Buffer.toList_append, h.buffer, List.reverse_cons, rawBytes_append]
    simp [rawBytes]
  docBase := h.docBase
  numChunks := h.numChunks
  numDirtyChunks := h.numDirtyChunks
  inDocument := h.inDocument
  chunks_valid := h.chunks_valid
  waiting_valid := by
    intro doc hmem
    rcases List.mem_cons.1 hmem with rfl | hold
    · exact hvalid
    · exact h.waiting_valid doc hold
  waiting_le := hroom

/-- One document more has been written, in a chunk or to wait. -/
lemma writeDocument_spec (h : Written P chunks waiting dirty s) (hsize : 0 < P.layout.chunkSize)
    (hroom : isFull s.writer = false) (hfields : encodeFields fields = .ok bytes)
    (hlength : bytes.length + 8 + P.layout.chunkSize < 2 ^ 31) :
    ∃ s' chunks' waiting', writeDocument fields s = (.ok (), s') ∧
      Written P chunks' waiting' dirty s' ∧ isFull s'.writer = false ∧
      docsOf chunks' ++ waiting'.reverse =
        docsOf chunks ++ waiting.reverse ++ [StoredDoc.ofFields fields] := by
  obtain ⟨hlow, hpending⟩ := isFull_eq_false.1 hroom
  rw [h.chunkSize] at hlow
  rw [h.pending, length_waitingDocs] at hpending
  have hvalid := StoredDoc.isValid_ofFields hfields (by omega)
  have horder : docsOf chunks ++ (StoredDoc.ofFields fields :: waiting).reverse =
      docsOf chunks ++ waiting.reverse ++ [StoredDoc.ofFields fields] := by
    rw [List.reverse_cons, List.append_assoc]
  have hfits : s.writer.buffer.size + bytes.length ≤ maxArrayLength := by
    unfold maxArrayLength
    omega
  have hdoc := StoredDoc.ofFields_eq hfields
  obtain ⟨buffer, hbuffer, hwrite⟩ := writeDocument_eq h.inDocument hfields hfits
  have hstored : buffer.toBuffer = s.writer.buffer.append (StoredDoc.ofFields fields).bytes := by
    rw [hdoc, hbuffer]
  have hwritten := written_grown h hpending hvalid hstored
  rw [hwrite, Step.bind_of_ok (current_apply _)]
  have hgrown : s.grown (⟨fields.length, s.writer.buffer.size + bytes.length⟩ :: s.writer.pending)
      buffer = s.grown (⟨(StoredDoc.ofFields fields).fields, s.writer.buffer.size +
        (StoredDoc.ofFields fields).bytes.length⟩ :: s.writer.pending) buffer := by
    rw [hdoc]
  rw [hgrown]
  generalize s.grown _ _ = s' at hwritten ⊢
  cases hfull : isFull s'.writer with
  | true =>
    obtain ⟨s'', hflush, hwritten'⟩ := flush_spec hwritten (List.cons_ne_nil _ _)
    refine ⟨s'', _, [], hflush, hwritten', isFull_eq_false_of_written hwritten' hsize, ?_⟩
    rw [← horder, docsOf_concat]
    exact List.append_nil _
  | false => exact ⟨s', chunks, _, rfl, hwritten, hfull, horder⟩

/-- All documents have been written, in chunks or to wait. -/
lemma writeDocuments_spec (h : Written P chunks waiting dirty s) (hsize : 0 < P.layout.chunkSize)
    (hroom : isFull s.writer = false) {docs : List (List (FieldInfo × FieldValue))}
    (hdocs : ∀ fields ∈ docs, ∃ bytes, encodeFields fields = .ok bytes ∧
      bytes.length + 8 + P.layout.chunkSize < 2 ^ 31) :
    ∃ s' chunks' waiting', writeDocuments docs s = (.ok (), s') ∧
      Written P chunks' waiting' dirty s' ∧
      docsOf chunks' ++ waiting'.reverse =
        docsOf chunks ++ waiting.reverse ++ docs.map StoredDoc.ofFields := by
  induction docs generalizing s chunks waiting with
  | nil => exact ⟨s, chunks, waiting, rfl, h, by simp⟩
  | cons fields docs ih =>
    obtain ⟨bytes, hfields, hlength⟩ := hdocs fields List.mem_cons_self
    obtain ⟨s', chunks', waiting', hwrite, hwritten, hroom', horder⟩ :=
      writeDocument_spec h hsize hroom hfields hlength
    obtain ⟨s'', chunks'', waiting'', hmore, hwritten', horder'⟩ :=
      ih hwritten hroom' fun f hf => hdocs f (List.mem_cons_of_mem _ hf)
    refine ⟨s'', chunks'', waiting'', ?_, hwritten', ?_⟩
    · rw [writeDocuments, Step.bind_of_ok hwrite, hmore]
    · rw [horder', horder, List.map_cons, List.append_assoc, List.singleton_append]

end Documents

end Writing

end DocStore.Segment
