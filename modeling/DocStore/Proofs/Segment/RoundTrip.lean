import DocStore.Proofs.Segment.Chunks
import DocStore.Proofs.Segment.Opening

/-!
# Segments round trip

Whatever documents a segment is written with, and however the writer divides them into chunks, the
segment is opened and every document is read back: the index leads to the chunk that holds it, the
header of the chunk to its bytes, and these to its fields.
-/

namespace DocStore.Segment

open Storage

/-! ### Where a document is -/

section Parts

variable (P : Plan) (before : List StoredChunk) (c : StoredChunk) (after : List StoredChunk)

/-- Where a chunk is in the data file. -/
lemma Plan.dataSoFar_append_cons :
    P.dataSoFar (before ++ c :: after) =
      P.dataSoFar before ++ (P.layout.chunkBytes (docsOf before).length c ++
        P.layout.chunksBytes ((docsOf before).length + c.docs.length) after) := by
  unfold Plan.dataSoFar
  rw [Layout.chunksBytes_append, Layout.chunksBytes, Nat.zero_add, List.append_assoc]

/-- Which chunk holds a document, and where the index says that it starts. -/
lemma Plan.chunkOfDoc_entries {doc : Nat} (hge : (docsOf before).length ≤ doc)
    (hlt : doc < (docsOf before).length + c.docs.length) :
    ChunkIndex.chunkOfDoc (P.entries (before ++ c :: after)) doc =
      some ⟨c.docs.length, (P.dataSoFar before).length⟩ := by
  have hsum : ChunkIndex.sumDocs (P.entries before) = (docsOf before).length :=
    Layout.sumDocs_entries ..
  have hentries : P.entries (before ++ c :: after) = P.entries before ++
      ⟨c.docs.length, (P.dataSoFar before).length⟩ ::
        P.layout.entries ((docsOf before).length + c.docs.length)
          ((P.dataSoFar before).length +
            (P.layout.chunkBytes (docsOf before).length c).length) after := by
    unfold Plan.entries Plan.dataSoFar
    rw [Layout.entries_append, Layout.entries, List.length_append, Nat.zero_add]
  rw [hentries]
  refine ChunkIndex.chunkOfDoc_append _ _ _ ?_ ?_
  · rw [hsum]
    exact hge
  · rw [hsum]
    exact hlt

/-- The index leads to the chunk that holds a document. -/
lemma Plan.startPointer_written (hsize : 0 < P.indexBlockSize)
    (hchunks : ∀ c' ∈ before ++ c :: after, c'.docs ≠ [])
    (hcount : (docsOf (before ++ c :: after)).length < 2 ^ 32)
    (hend : (P.dataSoFar (before ++ c :: after)).length < 2 ^ 63) {doc : Nat}
    (hge : (docsOf before).length ≤ doc) (hlt : doc < (docsOf before).length + c.docs.length) :
    (ChunkIndex.written P.indexBlockSize (P.entries (before ++ c :: after))
        (P.dataSoFar (before ++ c :: after)).length).startPointer doc =
      .ok (P.dataSoFar before).length := by
  have hsum : ChunkIndex.sumDocs (P.entries (before ++ c :: after)) =
      (docsOf before).length + (c.docs.length + (docsOf after).length) := by
    have hsum := P.layout.sumDocs_entries 0 P.dataHead.length (before ++ c :: after)
    rwa [docsOf_append, docsOf_cons, List.length_append, List.length_append] at hsum
  have hdoc : doc < ChunkIndex.sumDocs (P.entries (before ++ c :: after)) := by omega
  obtain ⟨entry, hentry, hstart⟩ :=
    (Plan.canBeIndexed hchunks hcount hend).startPointer_written hsize hdoc
  rw [P.chunkOfDoc_entries before c after hge hlt, Option.some_inj] at hentry
  rw [← hentry] at hstart
  exact hstart

end Parts

section Opened

variable {f : Format} {segment : String} {frame : (level : Int) → Bytes → Bytes} {version : Nat}
  {chunks : List StoredChunk} {dirty doc : Nat} {table : FieldTable}

variable [Zstd.FrameDecoder]

/-- The reader of a segment knows how its chunks are laid out. -/
lemma fits_readerOf (hf : f.IsValid) (hframe : Zstd.IsCompressor frame) :
    (readerOf f segment frame version chunks dirty table).Fits
      (Plan.ofVersion f segment frame version).layout where
  chunkSize := rfl
  form := rfl
  chunkSize_pos := hf.chunkSize_bounds.1
  chunkSize_le := hf.chunkSize_bounds.2
  stores _ hpayload := Compressor.stores_of_isCompressor hframe _ hpayload

omit [Zstd.FrameDecoder] in
/-- From the start of a chunk in the data file the bytes of the chunk are read. -/
lemma cursor_dataCopy {start bytes more : Bytes}
    (h : (Plan.ofVersion f segment frame version).dataSoFar chunks = start ++ (bytes ++ more)) :
    ∃ i : MemoryInput, dataCopy f segment frame version chunks dirty start.length = .memory i ∧
      start.length ≤ i.content.length ∧ i.cursor.IsWhole ∧
      ∃ rest, i.cursor.rest = bytes ++ rest := by
  let P := Plan.ofVersion f segment frame version
  have hfile := versionContent_append version chunks dirty P
    (Framing.footer (P.versionContent version chunks dirty))
  rw [h, List.append_assoc, List.append_assoc] at hfile
  have hwithin : start.length ≤ (P.versionContent version chunks dirty ++
      Framing.footer (P.versionContent version chunks dirty)).length := by
    rw [hfile, List.length_append]
    omega
  refine ⟨_, rfl, hwithin, Input.isWhole_cursor_copy _ hwithin,
    more ++ (statsBytes version chunks.length dirty ++
      Framing.footer (P.versionContent version chunks dirty)), ?_⟩
  unfold MemoryInput.cursor
  dsimp only
  rw [hfile]
  exact List.drop_left

/-- The index leads to the chunk of a document, and the document is fetched from there, whatever the
version of the files. -/
lemma fetch_readerOf {before after : List StoredChunk} {c : StoredChunk}
    (hf : f.IsValid) (hframe : Zstd.IsCompressor frame) (hsplit : chunks = before ++ c :: after)
    (hchunks : ∀ c ∈ chunks, c.FitsHeader) (hcount : (docsOf chunks).length < 2 ^ 32)
    (hend : ((Plan.ofFormat f segment frame).dataSoFar chunks).length < 2 ^ 63)
    (hge : (docsOf before).length ≤ doc) (hlt : doc < (docsOf before).length + c.docs.length) :
    (readerOf f segment frame version chunks dirty table).index.startPointer doc =
        .ok ((Plan.ofFormat f segment frame).dataSoFar before).length ∧
      (Reader.fetch doc ((Plan.ofFormat f segment frame).dataSoFar before).length
          (readerOf f segment frame version chunks dirty table)).1 =
        Reader.fetched (dataFile segment f.suffix) (docsOf chunks).length (docsOf before).length doc
          c := by
  let P := Plan.ofVersion f segment frame version
  let r := readerOf f segment frame version chunks dirty table
  have hall : (docsOf chunks).length =
      (docsOf before).length + (c.docs.length + (docsOf after).length) := by
    rw [hsplit, docsOf_append, docsOf_cons, List.length_append, List.length_append]
  have hmem : c ∈ chunks := hsplit ▸ List.mem_append_right _ List.mem_cons_self
  rw [← Plan.length_dataSoFar_ofVersion version] at hend ⊢
  constructor
  · subst hsplit
    exact P.startPointer_written before c after hf.indexBlockSize_pos
      (fun c hc => (hchunks c hc).ne_nil) hcount hend hge hlt
  · obtain ⟨i, hi, hwithin, hwhole, rest, hrest⟩ :=
      @cursor_dataCopy f segment frame version chunks dirty _ _ _
        (hsplit ▸ P.dataSoFar_append_cons before c after)
    cases hi
    have hnum : (docsOf before).length + c.docs.length ≤ r.numDocs := by
      have hdocs : r.numDocs = (docsOf chunks).length := rfl
      omega
    have hfits : r.Fits P.layout := fits_readerOf hf hframe
    have hread := Reader.readBytes_eq_fetched (v := ⟨_, 0, {}⟩) hfits (hchunks c hmem) hge
      (by omega) hnum (by omega) hwhole hrest
    rw [Reader.fetch_memory rfl, if_neg (Nat.not_lt_of_le hwithin)]
    exact hread

/-- The index leads to where the bytes of a document are. -/
lemma fetch_openedReader (hf : f.IsValid) (hframe : Zstd.IsCompressor frame)
    (hvalid : ∀ c ∈ chunks, IsChunk c.docs) (hcount : (docsOf chunks).length ≤ 2 ^ 31)
    (hend : ((Plan.ofFormat f segment frame).dataSoFar chunks).length < 2 ^ 63)
    {stored : StoredDoc} (hdoc : (docsOf chunks)[doc]? = some stored) :
    ∃ start, (openedReader f segment frame chunks dirty table).index.startPointer doc = .ok start ∧
      (Reader.fetch doc start (openedReader f segment frame chunks dirty table)).1 =
        .ok (stored.bytes, stored.fields) := by
  obtain ⟨before, c, after, rfl, hge, hlt⟩ :=
    exists_chunk_of_doc (List.getElem?_eq_some_iff.1 hdoc).1
  have hplace : doc - (docsOf before).length < c.docs.length := by omega
  obtain ⟨hstart, hfetch⟩ := @fetch_readerOf f segment frame currentVersion _ dirty doc table _
    before after c hf hframe rfl (fun c hc => (hvalid c hc).fitsHeader) (by omega) hend hge hlt
  have hreadable := (hvalid c (List.mem_append_right _ List.mem_cons_self)).isReadable
  rw [Reader.fetched_of_isReadable hreadable _ hplace] at hfetch
  rw [docsOf_append, docsOf_cons, List.getElem?_append_right hge,
    List.getElem?_append_left hplace, List.getElem?_eq_getElem hplace, Option.some_inj] at hdoc
  rw [hdoc] at hfetch
  exact ⟨_, hstart, hfetch⟩

/-- A document is read back as its fields. -/
lemma document_openedReader (hf : f.IsValid) (hframe : Zstd.IsCompressor frame)
    (hvalid : ∀ c ∈ chunks, IsChunk c.docs) (hcount : (docsOf chunks).length ≤ 2 ^ 31)
    (hend : ((Plan.ofFormat f segment frame).dataSoFar chunks).length < 2 ^ 63)
    {fields : List (FieldInfo × FieldValue)} (htable : table.Knows fields) {bytes : Bytes}
    (hbytes : encodeFields fields = .ok bytes)
    (hdoc : (docsOf chunks)[doc]? = some (StoredDoc.ofFields fields)) :
    (Reader.document doc none (openedReader f segment frame chunks dirty table)).1 =
      .ok (Document.ofFields fields) := by
  let r := openedReader f segment frame chunks dirty table
  rw [StoredDoc.ofFields_eq hbytes] at hdoc
  obtain ⟨start, hstart, hfetch⟩ :=
    @fetch_openedReader f segment frame chunks dirty doc table _ hf hframe hvalid hcount hend _ hdoc
  have hfields : (Reader.fetch doc start r).2.fields = table :=
    congrArg Reader.fields (Reader.rewound_fetch rfl doc start)
  have hshow : Reader.showFields (Reader.fetch doc start r).2 (Visitor.collect none)
      (.ok (bytes, fields.length)) {} = (.ok (), Document.ofFields fields) := by
    cases fields with
    | nil => rfl
    | cons field fields =>
      have hread : readDocument (Reader.fetch doc start r).2.resource table (Visitor.collect none)
          bytes (field :: fields).length {} =
          (.ok (), (Visitor.collect none).acceptAll (field :: fields) {}) :=
        readDocument_spec Visitor.wantsAll_collect htable hbytes {}
      rw [Visitor.acceptAll_collect, List.length_cons] at hread
      unfold Reader.showFields
      rw [hfields, List.length_cons]
      dsimp only
      rw [hread]
      rfl
  have hvisit : Reader.visitChunk (Visitor.collect none) doc start (r, {}) =
      (.ok (), ((Reader.fetch doc start r).2, Document.ofFields fields)) := by
    rw [Reader.visitChunk_eq, hfetch, hshow]
  unfold Reader.document Reader.visit
  dsimp only
  rw [hstart]
  dsimp only
  rw [Step.mapError_of_ok hvisit]

end Opened

/-! ### The round trip -/

/-- Documents that a segment can hold: the table leads from the number of each field back to the
field, and the form of the document leaves room for a chunk before it. -/
structure CanBeStored (table : FieldTable) (chunkSize : Nat)
    (fields : List (FieldInfo × FieldValue)) : Prop where
  known : table.Knows fields
  form : ∃ bytes, encodeFields fields = .ok bytes ∧ bytes.length + 8 + chunkSize < 2 ^ 31

/-- A segment that is written to memory, into names that are free, is opened again if its data file
is shorter than `2 ^ 63` bytes.  Its checksum is confirmed, and every document has just the fields
that it was written with, in order. -/
theorem written_segment_reads_back [Zstd.FrameDecoder] {f : Format} (hf : f.IsValid)
    {frame : (level : Int) → Bytes → Bytes} (hframe : Zstd.IsCompressor frame)
    {files : Dictionary String Bytes} {segment : String}
    (hindex : files.find? (indexFile segment f.suffix) = none)
    (hdata : files.find? (dataFile segment f.suffix) = none) {table : FieldTable}
    {docs : List (List (FieldInfo × FieldValue))} (hcount : docs.length < 2 ^ 31)
    (hdocs : ∀ fields ∈ docs, CanBeStored table f.config.chunkSize fields) :
    ∃ d data, write f segment docs frame ⟨.memory files, {}⟩ = (.ok (), d) ∧
      d.content? (dataFile segment f.suffix) = some data ∧
      (data.length < 2 ^ 63 →
        ∃ r, Reader.openSegment d f segment docs.length table = .ok r ∧
          r.checkIntegrity = .ok () ∧
          ∀ i (h : i < docs.length),
            (Reader.document i none r).1 = .ok (Document.ofFields docs[i])) := by
  obtain ⟨d, chunks, dirty, hwrite, hcomplete, horder⟩ := write_spec hf
    (d := ⟨.memory files, {}⟩) ⟨files, rfl⟩ rfl hindex hdata frame
    fun fields hfields => (hdocs fields hfields).form
  have hall : (docsOf chunks).length = docs.length := by
    rw [horder, List.length_map]
  refine ⟨d, _, hwrite, (hcomplete.memory.content?_eq _).trans hcomplete.data, ?_⟩
  intro hshort
  have hend : ((Plan.ofFormat f segment frame).dataSoFar chunks).length < 2 ^ 63 := by
    unfold Plan.dataContent at hshort
    rw [List.length_append, List.length_append] at hshort
    omega
  have hfew : (docsOf chunks).length ≤ 2 ^ 31 := by omega
  refine ⟨openedReader f segment frame chunks dirty table, ?_,
    checkIntegrity_openedReader table, ?_⟩
  · rw [← hall]
    exact openSegment_spec hf hcomplete hfew hend table
  · intro i hi
    have hdoc := hdocs docs[i] (List.getElem_mem hi)
    obtain ⟨bytes, hbytes, -⟩ := hdoc.form
    refine document_openedReader hf hframe hcomplete.chunks_valid hfew hend hdoc.known hbytes ?_
    rw [horder, List.getElem?_map, List.getElem?_eq_getElem hi]
    rfl

/-- Three documents of two fields, of which the second has none. -/
def threeDocuments : List (List (FieldInfo × FieldValue)) :=
  [[(⟨"title", 0⟩, .text "ab"), (⟨"weight", 1⟩, .double 0x7FF8000000000001)], [],
    [(⟨"weight", 1⟩, .int (-1))]]

/-- The table of their fields. -/
def threeDocumentsTable : FieldTable where
  byNumber := [(0, ⟨"title", 0⟩), (1, ⟨"weight", 1⟩)]
  byName := [("title", 0), ("weight", 1)]

/-- A format with small chunks, one to a block of the index. -/
def smallChunks : Format where
  name := "F"
  config := { chunkSize := 4, indexBlockSize := 1 }

lemma isValid_smallChunks : smallChunks.IsValid := by
  refine ⟨rfl, by decide, fun c hc => ?_⟩
  rw [List.mem_singleton.1 hc]
  decide

/-- The documents are read back from several chunks. -/
theorem three_documents_read_back :
    ∃ d r, write smallChunks "s" threeDocuments Zstd.uncompressed ⟨.memory [], {}⟩ = (.ok (), d) ∧
      Reader.openSegment d smallChunks "s" 3 threeDocumentsTable = .ok r ∧
      r.checkIntegrity = .ok () ∧
      (Reader.document 0 none r).1 =
        .ok ⟨[⟨"title", .text "ab"⟩, ⟨"weight", .double 0x7FF8000000000001⟩]⟩ ∧
      (Reader.document 1 none r).1 = .ok {} ∧
      (Reader.document 2 none r).1 = .ok ⟨[⟨"weight", .int (-1)⟩]⟩ := by
  have hdocs : ∀ fields ∈ threeDocuments,
      CanBeStored threeDocumentsTable smallChunks.config.chunkSize fields := by
    intro fields hfields
    simp only [threeDocuments, List.mem_cons, List.not_mem_nil, or_false] at hfields
    rcases hfields with rfl | rfl | rfl
    · exact ⟨by unfold FieldTable.Knows; decide, _, rfl, by decide +kernel⟩
    · exact ⟨by unfold FieldTable.Knows; decide, _, rfl, by decide +kernel⟩
    · exact ⟨by unfold FieldTable.Knows; decide, _, rfl, by decide +kernel⟩
  have hvalid : smallChunks.IsValid := by
    refine ⟨rfl, by decide, fun c hc => ?_⟩
    rw [List.mem_singleton.1 hc]
    decide
  obtain ⟨d, data, hwrite, hdata, hread⟩ := @written_segment_reads_back _ smallChunks hvalid
    Zstd.uncompressed Zstd.isCompressor_uncompressed [] "s" rfl rfl threeDocumentsTable
    threeDocuments (by decide) hdocs
  have hshort : (((write smallChunks "s" threeDocuments Zstd.uncompressed
      ⟨.memory [], {}⟩).2.content? (dataFile "s" "")).getD []).length < 2 ^ 63 := by
    decide +kernel
  have hname : dataFile "s" smallChunks.suffix = dataFile "s" "" := rfl
  rw [hname] at hdata
  rw [hwrite, hdata] at hshort
  obtain ⟨r, hopen, hchecksum, hdocuments⟩ := hread hshort
  exact ⟨d, r, hwrite, hopen, hchecksum, hdocuments 0 (by decide), hdocuments 1 (by decide),
    hdocuments 2 (by decide)⟩

end DocStore.Segment
