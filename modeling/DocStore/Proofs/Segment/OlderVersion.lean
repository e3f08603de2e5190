import DocStore.Proofs.Segment.Chunking
import DocStore.Proofs.Segment.Completion

/-!
# Segments of the first version

A file of the first version names it in its header, and the data file says nothing about its chunks
between the last of them and the footer.  Nothing else is different: where the chunks are counted,
the index has counted them too.  So if the files of a completed segment are turned into such files,
the segment is opened if it was before, and all its documents are read as before.  Of a segment of
very many documents, most of them in small chunks before large ones, neither version is opened.
-/

namespace DocStore.Segment

open Storage

/-! ### Reading a document -/

namespace Reader

variable {r r' : Reader} {doc start : Nat}

/-- What a reader shows of the bytes of a document depends on its file name and its fields only. -/
lemma showFields_eq_of_fields {σ : Type} (hresource : r.resource = r'.resource)
    (hfields : r.fields = r'.fields) (visitor : Visitor σ)
    (fetched : Except (Stop Error) (Bytes × Nat)) (s : σ) :
    showFields r visitor fetched s = showFields r' visitor fetched s := by
  unfold showFields
  rw [hresource, hfields]

/-- Two readers of the same file name and fields read a document alike if they fetch the same. -/
lemma document_congr [Zstd.FrameDecoder] (hr : r.InMemory) (hr' : r'.InMemory)
    (hresource : r.resource = r'.resource) (hfields : r.fields = r'.fields)
    (hstart : r.index.startPointer doc = .ok start)
    (hstart' : r'.index.startPointer doc = .ok start)
    (hfetch : (fetch doc start r).1 = (fetch doc start r').1) (wanted : Option (List String)) :
    (document doc wanted r).1 = (document doc wanted r').1 := by
  obtain ⟨i, hi⟩ := hr
  obtain ⟨i', hi'⟩ := hr'
  have hrewound := rewound_fetch hi doc start
  have hrewound' := rewound_fetch hi' doc start
  unfold document visit
  dsimp only
  rw [hstart, hstart']
  unfold Step.mapError
  dsimp only
  rw [visitChunk_eq, visitChunk_eq, showFields_congr hrewound, showFields_congr hrewound', hfetch,
    showFields_eq_of_fields hresource hfields, hresource]
  rcases showFields r' (Visitor.collect wanted) (fetch doc start r').1 {} with ⟨_ | _, d⟩ <;> rfl

end Reader

/-! ### Uneven segments -/

section Uneven

/-- The runs of documents of which each is enough for a chunk, before as many empty ones as fill
some chunks. -/
def unevenRuns (doc : StoredDoc) (single full : Nat) : List (List StoredDoc) :=
  List.replicate single [doc] ++ List.replicate full (List.replicate maxDocsPerChunk ⟨[], 0⟩)

variable {chunkSize single full : Nat} {doc : StoredDoc} {run : List StoredDoc}

/-- A run has one long document, or as many empty ones as a chunk may have. -/
lemma mem_unevenRuns (h : run ∈ unevenRuns doc single full) :
    run = [doc] ∨ run = List.replicate maxDocsPerChunk ⟨[], 0⟩ := by
  rcases List.mem_append.1 h with hrun | hrun
  · exact Or.inl (List.eq_of_mem_replicate hrun)
  · exact Or.inr (List.eq_of_mem_replicate hrun)

/-- There are as many runs as of both kinds together. -/
lemma length_unevenRuns : (unevenRuns doc single full).length = single + full := by
  unfold unevenRuns
  rw [List.length_append, List.length_replicate, List.length_replicate]

/-- First come runs of one document, and then those of many. -/
lemma map_length_unevenRuns :
    (unevenRuns doc single full).map List.length =
      List.replicate single 1 ++ List.replicate full maxDocsPerChunk := by
  unfold unevenRuns
  rw [List.map_append, List.map_replicate, List.map_replicate, List.length_replicate,
    List.length_singleton]

/-- An empty document has no bytes, so 128 of them are a chunk, and fewer are none. -/
lemma isRun_replicate_empty (hpos : 0 < chunkSize) :
    IsRun chunkSize (List.replicate maxDocsPerChunk ⟨[], 0⟩) := by
  have hlast : List.replicate maxDocsPerChunk (⟨[], 0⟩ : StoredDoc) =
      List.replicate 127 ⟨[], 0⟩ ++ [⟨[], 0⟩] := List.replicate_succ'
  have hempty : rawBytes (List.replicate 127 ⟨[], 0⟩) = [] := by
    refine List.flatMap_eq_nil_iff.2 fun doc hdoc => ?_
    rw [List.eq_of_mem_replicate hdoc]
  rw [hlast]
  refine isRun_concat ?_ _
  rintro (hbytes | hdocs)
  · rw [hempty] at hbytes
    exact absurd hbytes (Nat.not_le_of_lt hpos)
  · rw [List.length_replicate] at hdocs
    exact absurd hdocs (by decide)

/-- This is how a writer divides the documents: a long one fills its chunk, and empty ones do by
their number. -/
lemma isGreedyDivision_unevenRuns (hpos : 0 < chunkSize) (hdoc : chunkSize ≤ doc.bytes.length)
    (single full : Nat) :
    IsGreedyDivision chunkSize
      (List.replicate single doc ++ List.replicate (maxDocsPerChunk * full) ⟨[], 0⟩)
      (unevenRuns doc single full) where
  flatten_eq := by
    unfold unevenRuns
    rw [List.flatten_append, List.flatten_replicate_singleton, List.flatten_replicate_replicate,
      Nat.mul_comm full]
  isRun := by
    intro run hrun
    rcases mem_unevenRuns hrun with rfl | rfl
    · exact isRun_concat (not_fills_nil hpos) doc
    · exact isRun_replicate_empty hpos
  fills := by
    intro run hrun
    rcases mem_unevenRuns (List.mem_of_mem_dropLast hrun) with rfl | rfl
    · refine Or.inl ?_
      unfold rawBytes
      rw [List.flatMap_singleton]
      exact hdoc
    · exact Or.inr List.length_replicate.ge

/-- Large chunks behind many small ones make the line through all of them so steep that the last of
the small ones is too far below it. -/
lemma not_docsFit_of_uneven {entries : List ChunkIndex.ChunkEntry} {size average : Nat}
    (hdocs : entries.map (·.docs) = List.replicate single 1 ++ List.replicate full size)
    (hsingle : 0 < single) (hfull : 0 < full)
    (haverage : ChunkIndex.roundedQuotient (single + (full - 1) * size) (single + full - 1) =
      average)
    (hfar : single + 2 ^ 31 < average * single) : ¬ChunkIndex.DocsFit entries := by
  have hlength : entries.length = single + full := by
    have hlength := congrArg List.length hdocs
    rwa [List.length_map, List.length_append, List.length_replicate, List.length_replicate]
      at hlength
  have hlast : List.replicate full size ≠ [] := by
    rw [← List.length_pos_iff, List.length_replicate]
    exact hfull
  have hbefore : (entries.dropLast.map (·.docs)).sum = single + (full - 1) * size := by
    rw [List.map_dropLast, hdocs, List.dropLast_append_of_ne_nil hlast, List.dropLast_replicate,
      List.sum_append, List.sum_replicate_nat, List.sum_replicate_nat, Nat.mul_one]
  have hslope : ChunkIndex.averageDocs entries = average := by
    unfold ChunkIndex.averageDocs
    dsimp only
    rw [hbefore, hlength, if_neg (by omega), haverage]
  have hsmall : ChunkIndex.sumDocs (entries.take single) = single := by
    unfold ChunkIndex.sumDocs
    rw [List.map_take, hdocs, List.take_left' List.length_replicate, List.sum_replicate_nat,
      Nat.mul_one]
  intro hfit
  obtain ⟨hlow, -⟩ := hfit single (by omega)
  rw [hsmall, hslope] at hlow
  omega

/-- A document of one field. -/
def shortDocument : List (FieldInfo × FieldValue) :=
  [(⟨"count", 0⟩, .int 0)]

/-- Such documents before as many as fill some chunks without a field. -/
def unevenDocuments (single full : Nat) : List (List (FieldInfo × FieldValue)) :=
  List.replicate single shortDocument ++ List.replicate (maxDocsPerChunk * full) []

/-- A format whose chunks are filled by one such document, with many of them to a block of the
index. -/
def largeBlocks : Format where
  name := "F"
  config := { chunkSize := 2, indexBlockSize := 2 ^ 28 }

/-- What its segments look like if nothing is compressed. -/
def largeBlocksPlan : Plan :=
  Plan.ofFormat largeBlocks "s" Zstd.uncompressed

/-- The chunks of such documents. -/
def unevenChunks (single full : Nat) : List StoredChunk :=
  (unevenRuns (.ofFields shortDocument) single full).map .ofDocs

/-- The format is one that the writer accepts. -/
lemma isValid_largeBlocks : largeBlocks.IsValid := by
  refine ⟨rfl, by decide, fun c hc => ?_⟩
  rw [List.mem_singleton.1 hc]
  decide

/-- A segment is filled with such documents, and consists of their chunks. -/
lemma exists_filled_unevenDocuments (single full : Nat) :
    ∃ w d₁ s dirty,
      Writer.create largeBlocks "s" Zstd.uncompressed ⟨.memory [], {}⟩ = (.ok w, d₁) ∧
      Writing.fill (unevenDocuments single full) ⟨w, d₁⟩ = (.ok (), s) ∧
      Writing.HasFinished largeBlocksPlan (unevenChunks single full) dirty s := by
  have hdocs : ∀ fields ∈ unevenDocuments single full, ∃ bytes, encodeFields fields = .ok bytes ∧
      bytes.length + 8 + largeBlocks.config.chunkSize < 2 ^ 31 := by
    intro fields hfields
    rcases List.mem_append.1 hfields with hshort | hnone
    · rw [List.eq_of_mem_replicate hshort]
      exact ⟨_, rfl, by decide +kernel⟩
    · rw [List.eq_of_mem_replicate hnone]
      exact ⟨_, rfl, by decide⟩
  obtain ⟨w, d₁, s, -, -, hcreate, hfill, -, -⟩ := @fill_spec largeBlocks "s" ⟨.memory [], {}⟩ _
    isValid_largeBlocks ⟨[], rfl⟩ rfl rfl rfl Zstd.uncompressed hdocs
  obtain ⟨runs, -, hdivision, -, -, hfinished⟩ := hasFinished_fill hcreate hfill
  have hforms : (unevenDocuments single full).map StoredDoc.ofFields =
      List.replicate single (.ofFields shortDocument) ++
        List.replicate (maxDocsPerChunk * full) ⟨[], 0⟩ := by
    unfold unevenDocuments
    rw [List.map_append, List.map_replicate, List.map_replicate]
    rfl
  rw [hforms] at hdivision
  have huneven := @isGreedyDivision_unevenRuns 2 (.ofFields shortDocument) (by decide)
    (by decide +kernel) single full
  obtain rfl := huneven.unique hdivision
  exact ⟨w, d₁, s, _, hcreate, hfill, hfinished⟩

/-- The chunks hold all documents of both kinds. -/
lemma length_docsOf_unevenChunks :
    (docsOf (unevenChunks single full)).length = single + maxDocsPerChunk * full := by
  have huneven := @isGreedyDivision_unevenRuns 2 (.ofFields shortDocument) (by decide)
    (by decide +kernel) single full
  unfold unevenChunks
  rw [docsOf_map_ofDocs, huneven.flatten_eq, List.length_append, List.length_replicate,
    List.length_replicate]

/-- Their index is one block, and may be written. -/
lemma canBeIndexed_unevenChunks (hblock : single + full ≤ 2 ^ 28)
    (hcount : single + maxDocsPerChunk * full < 2 ^ 32) :
    ChunkIndex.CanBeIndexed (largeBlocksPlan.entries (unevenChunks single full))
      (largeBlocksPlan.dataSoFar (unevenChunks single full)).length := by
  have hne : ∀ c ∈ unevenChunks single full, c.docs ≠ [] := by
    intro c hc
    obtain ⟨run, hrun, rfl⟩ := List.mem_map.1 hc
    rcases mem_unevenRuns hrun with rfl | rfl
    · exact List.cons_ne_nil _ _
    · exact (isRun_replicate_empty (Nat.zero_lt_succ 1)).ne_nil
  have hsizes : ∀ c ∈ unevenChunks single full,
      (largeBlocksPlan.layout.chunkBytes 0 c).length ≤ 32 := by
    intro c hc
    obtain ⟨run, hrun, rfl⟩ := List.mem_map.1 hc
    rcases mem_unevenRuns hrun with rfl | rfl <;> decide +kernel
  have hall := @length_docsOf_unevenChunks single full
  have hlength : (unevenChunks single full).length = single + full :=
    (List.length_map _).trans length_unevenRuns
  have hbytes := @Layout.length_chunksBytes_le largeBlocksPlan.layout 0 _ _ hne (by omega) hsizes
  have hhead : largeBlocksPlan.dataHead.length ≤ 64 := by decide +kernel
  refine Plan.canBeIndexed hne (by omega) ?_
  unfold Plan.dataSoFar
  rw [List.length_append]
  omega

/-- The first version of a segment that is uneven enough is rejected. -/
lemma rejected_unevenDocuments {average : Nat} (hsingle : 0 < single) (hfull : 0 < full)
    (haverage : ChunkIndex.roundedQuotient (single + (full - 1) * maxDocsPerChunk)
      (single + full - 1) = average)
    (hfar : single + 2 ^ 31 < average * single) (hblock : single + full ≤ 2 ^ 28)
    (hcount : single + maxDocsPerChunk * full < 2 ^ 32) :
    ∃ w d₁ s d₂ index data numChunks numDirtyChunks bits,
      Writer.create largeBlocks "s" Zstd.uncompressed ⟨.memory [], {}⟩ = (.ok w, d₁) ∧
      Writing.fill (unevenDocuments single full) ⟨w, d₁⟩ = (.ok (), s) ∧
      s.writer.close s.directory = (.ok (), d₂) ∧
      d₂.content? "s.fdx" = some (versionFile "FIndex" 1 index) ∧
      d₂.content? "s.fdt" = some (versionFile "FData" 1
        (data ++ (VarInt.encode numChunks ++ VarInt.encode numDirtyChunks))) ∧
      ∀ table, Reader.openSegment
          ⟨.memory [("s.fdx", versionFile "FIndex" 0 index), ("s.fdt", versionFile "FData" 0 data)],
            {}⟩ largeBlocks "s" (single + maxDocsPerChunk * full) table =
        .error (.failed (.corrupt "s.fdx" (.bitsPerDocBase bits))) := by
  let P := largeBlocksPlan
  let chunks := unevenChunks single full
  have hf := isValid_largeBlocks
  have hindexFile : indexFile "s" largeBlocks.suffix = "s.fdx" := by decide
  have hdataFile : dataFile "s" largeBlocks.suffix = "s.fdt" := by decide
  obtain ⟨w, d₁, s, dirty, hcreate, hfill, hfinished⟩ := exists_filled_unevenDocuments single full
  obtain ⟨d₂, hclose, hindex, hdata⟩ := versionFiles_close hfinished
  rw [hindexFile] at hindex
  rw [hdataFile] at hdata
  have hentries : (P.entries chunks).length = single + full :=
    (Layout.length_entries ..).trans ((List.length_map _).trans length_unevenRuns)
  have hblocks : slices largeBlocks.config.indexBlockSize (P.entries chunks) =
      [P.entries chunks] := by
    refine slices_of_le hf.indexBlockSize_pos ?_ (hentries.trans_le hblock)
    rw [← List.length_pos_iff, hentries]
    omega
  have hunfit : ¬ChunkIndex.DocsFit (P.entries chunks) := by
    refine not_docsFit_of_uneven ?_ hsingle hfull haverage hfar
    refine (Layout.map_docs_entries ..).trans ?_
    exact (List.map_map ..).trans map_length_unevenRuns
  obtain ⟨bits, hrejected⟩ := readIndex_of_not_docsFit hf.isCodecName_index
    (canBeIndexed_unevenChunks hblock hcount) hf.indexBlockSize_pos
    ⟨_, hblocks ▸ List.mem_singleton_self _, hunfit⟩ "s.fdx"
  refine ⟨w, d₁, s, d₂, P.indexRest chunks, dataRest largeBlocks P.layout chunks, _, _, bits,
    hcreate, hfill, hclose, hindex, hdata, fun table => ?_⟩
  have hversion : HasVersion largeBlocks "s" Zstd.uncompressed firstVersion chunks 0
      ⟨.memory [("s.fdx", versionFile "FIndex" 0 (P.indexRest chunks)),
        ("s.fdt", versionFile "FData" 0 (dataRest largeBlocks P.layout chunks))], {}⟩ := by
    refine hasVersion_memory rfl ?_
    have hnone : statsBytes firstVersion chunks.length 0 = [] := rfl
    rw [hnone, List.append_nil]
    rfl
  refine hversion.openSegment_of_error ?_ _ table
  rw [indexContent_ofVersion]
  exact hrejected firstVersion (Nat.zero_le _)

end Uneven

/-! ### Segments of either version -/

section Versions

variable {f : Format} {segment : String} {frame : (level : Int) → Bytes → Bytes}
  {chunks : List StoredChunk} {dirty : Nat}

/-- A reader that was opened over files in memory is over one. -/
lemma inMemory_readerOf {version : Nat} {table : FieldTable} :
    (readerOf f segment frame version chunks dirty table).InMemory :=
  ⟨_, rfl⟩

/-- A document is read alike, whatever the versions of the files. -/
lemma document_readerOf_alike [Zstd.FrameDecoder] (hf : f.IsValid)
    (hframe : Zstd.IsCompressor frame) (hchunks : ∀ c ∈ chunks, c.FitsHeader)
    (hcount : (docsOf chunks).length < 2 ^ 32)
    (hend : ((Plan.ofFormat f segment frame).dataSoFar chunks).length < 2 ^ 63)
    {doc : Nat} (hdoc : doc < (docsOf chunks).length) (version version' : Nat) (table : FieldTable)
    (wanted : Option (List String)) :
    (Reader.document doc wanted (readerOf f segment frame version chunks dirty table)).1 =
      (Reader.document doc wanted (readerOf f segment frame version' chunks dirty table)).1 := by
  obtain ⟨before, c, after, hsplit, hge, hlt⟩ := exists_chunk_of_doc hdoc
  have hfetch := fun version => @fetch_readerOf f segment frame version chunks dirty doc table _
    before after c hf hframe hsplit hchunks hcount hend hge hlt
  refine Reader.document_congr inMemory_readerOf inMemory_readerOf ?_ ?_ (hfetch version).1
    (hfetch version').1 ((hfetch version).2.trans (hfetch version').2.symm) wanted <;> rfl

/-- Whatever was called on the writer of a segment, and whatever limits its medium had: take the two
files of the completed segment, let both headers name the first version, leave out the two numbers
behind the chunks, and let both footers be those of what then stands before them.  Such files are
opened just if the segment is.  The reader has as many chunks, and reads every document just as it
is read from the segment.  Otherwise there are more than `2 ^ 31` documents, and the same width in
the index keeps both from being opened. -/
theorem first_version_reads_alike [Zstd.FrameDecoder] (hframe : Zstd.IsCompressor frame)
    {d d₁ : Directory} {w : Writer}
    (hcreate : Writer.create f segment frame d = (.ok w, d₁)) (before : List Call) {numDocs : Nat}
    (hfinish : ((Call.finish numDocs).make (Writing.after ⟨w, d₁⟩ before)).1 = .ok ())
    (hword : numDocs < 2 ^ 32) (more : List Call) :
    let s := Writing.after ⟨w, d₁⟩ (before ++ .finish numDocs :: more)
    ∃ d₂ index data numChunks numDirtyChunks, s.writer.close s.directory = (.ok (), d₂) ∧
      d₂.content? (indexFile segment f.suffix) =
        some (versionFile (indexCodec f.name) currentVersion index) ∧
      d₂.content? (dataFile segment f.suffix) =
        some (versionFile (dataCodec f.name) currentVersion
          (data ++ (VarInt.encode numChunks ++ VarInt.encode numDirtyChunks))) ∧
      ((versionFile (dataCodec f.name) currentVersion
          (data ++ (VarInt.encode numChunks ++ VarInt.encode numDirtyChunks))).length < 2 ^ 63 →
        ∀ (files files₀ : Dictionary String Bytes) (table : FieldTable),
          files.find? (indexFile segment f.suffix) =
            some (versionFile (indexCodec f.name) currentVersion index) →
          files.find? (dataFile segment f.suffix) =
            some (versionFile (dataCodec f.name) currentVersion
              (data ++ (VarInt.encode numChunks ++ VarInt.encode numDirtyChunks))) →
          files₀.find? (indexFile segment f.suffix) =
            some (versionFile (indexCodec f.name) firstVersion index) →
          files₀.find? (dataFile segment f.suffix) =
            some (versionFile (dataCodec f.name) firstVersion data) →
          (∃ r r₀, Reader.openSegment ⟨.memory files, {}⟩ f segment numDocs table = .ok r ∧
            Reader.openSegment ⟨.memory files₀, {}⟩ f segment numDocs table = .ok r₀ ∧
            r.version = currentVersion ∧ r.numChunks = numChunks ∧
            r.numDirtyChunks = numDirtyChunks ∧
            r₀.version = firstVersion ∧ r₀.numChunks = r.numChunks ∧ r₀.numDirtyChunks = 0 ∧
            ∀ doc < numDocs, ∀ wanted,
              (Reader.document doc wanted r₀).1 = (Reader.document doc wanted r).1) ∨
          2 ^ 31 < numDocs ∧
            ∃ bits,
              let stop := .failed (.corrupt (indexFile segment f.suffix) (.bitsPerDocBase bits))
              Reader.openSegment ⟨.memory files, {}⟩ f segment numDocs table = .error stop ∧
                Reader.openSegment ⟨.memory files₀, {}⟩ f segment numDocs table = .error stop) := by
  have hf := Writer.isValid_of_create hcreate
  obtain ⟨chunks, dirty, hchunks, hdirty, rfl, hfinished⟩ :=
    hasFinished_of_completed hcreate before hfinish more
  obtain ⟨d₂, hclose, hindex, hdata⟩ := versionFiles_close hfinished
  let P := Plan.ofFormat f segment frame
  refine ⟨d₂, P.indexRest chunks, dataRest f P.layout chunks, chunks.length, dirty, hclose, hindex,
    hdata, ?_⟩
  intro hshort files files₀ table hindexFile hdataFile hindexFile₀ hdataFile₀
  have hend : (P.dataSoFar chunks).length < 2 ^ 63 := length_dataSoFar_lt hshort
  have hnew : HasVersion f segment frame currentVersion chunks dirty ⟨.memory files, {}⟩ :=
    hasVersion_memory hindexFile hdataFile
  have hold : HasVersion f segment frame firstVersion chunks dirty ⟨.memory files₀, {}⟩ := by
    refine hasVersion_memory hindexFile₀ ?_
    have hnone : statsBytes firstVersion chunks.length dirty = [] := rfl
    rw [hnone, List.append_nil]
    exact hdataFile₀
  rcases openSegment_alike hnew hold hf (Nat.le_refl _) (Nat.zero_le _)
    (fun c hc => (hchunks c hc).ne_nil) hdirty hword hend table with
    ⟨hopen, hopen₀⟩ | hrejected
  · refine Or.inl ⟨_, _, hopen, hopen₀, rfl, rfl, rfl, rfl, rfl, rfl, ?_⟩
    intro doc hdoc wanted
    exact document_readerOf_alike hf hframe hchunks hword hend hdoc _ _ table wanted
  · exact Or.inr hrejected

/-- Are the two documents read back from their files? -/
def readsTwoDocuments : Bool :=
  match Writer.create smallChunks "s" Zstd.uncompressed (limitedDirectory 61 53) with
  | (.error _, _) => false
  | (.ok w, d) =>
    let s := Writing.after ⟨w, d⟩ (twoDocuments ++ [.finish 2])
    let d₂ := (s.writer.close s.directory).2
    match d₂.content? "s.fdx", d₂.content? "s.fdt" with
    | some index, some data =>
      match Reader.openSegment ⟨.memory [("s.fdx", index), ("s.fdt", data)], {}⟩ smallChunks "s" 2
          threeDocumentsTable with
      | .error _ => false
      | .ok r => data.length < 2 ^ 63 &&
          (Reader.document 0 none r).1 = .ok ⟨[⟨"title", .text "ab"⟩]⟩ &&
          (Reader.document 1 none r).1 = .ok {}
    | _, _ => false

/-- Two documents, of which each is a chunk that is not full, are read from files of the first
version. -/
theorem two_documents_in_first_version :
    ∃ w d₁, Writer.create smallChunks "s" Zstd.uncompressed (limitedDirectory 61 53) = (.ok w, d₁) ∧
      ((Call.finish 2).make (Writing.after ⟨w, d₁⟩ twoDocuments)).1 = .ok () ∧
      ∃ index data stats r r₀,
        Reader.openSegment ⟨.memory [("s.fdx", versionFile "FIndex" 1 index),
          ("s.fdt", versionFile "FData" 1 (data ++ stats))], {}⟩ smallChunks "s" 2
          threeDocumentsTable = .ok r ∧
        Reader.openSegment ⟨.memory [("s.fdx", versionFile "FIndex" 0 index),
          ("s.fdt", versionFile "FData" 0 data)], {}⟩ smallChunks "s" 2
          threeDocumentsTable = .ok r₀ ∧
        r₀.numChunks = r.numChunks ∧ r₀.numDirtyChunks = 0 ∧
        (Reader.document 0 none r₀).1 = .ok ⟨[⟨"title", .text "ab"⟩]⟩ ∧
        (Reader.document 1 none r₀).1 = .ok {} := by
  obtain ⟨w, d₁, hcreate, hfinish⟩ := exists_finished_twoDocuments
  obtain ⟨d₂, index, data, numChunks, numDirtyChunks, hclose, hindex, hdata, halike⟩ :=
    first_version_reads_alike Zstd.isCompressor_uncompressed hcreate twoDocuments hfinish
      (by decide) []
  have hreads : readsTwoDocuments = true := by decide +kernel
  have hindexName : indexFile "s" smallChunks.suffix = "s.fdx" := by decide
  have hdataName : dataFile "s" smallChunks.suffix = "s.fdt" := by decide
  rw [hindexName] at hindex
  rw [hdataName] at hdata
  unfold readsTwoDocuments at hreads
  rw [hcreate] at hreads
  dsimp only at hreads
  rw [hclose] at hreads
  dsimp only at hreads
  rw [hindex, hdata] at hreads
  dsimp only at hreads
  split at hreads
  · cases hreads
  rename_i r' hread
  simp only [Bool.and_eq_true, decide_eq_true_iff] at hreads
  obtain ⟨⟨hshort, hfirst⟩, hsecond⟩ := hreads
  rcases halike hshort
      [("s.fdx", versionFile "FIndex" 1 index), ("s.fdt", versionFile "FData" 1
        (data ++ (VarInt.encode numChunks ++ VarInt.encode numDirtyChunks)))]
      [("s.fdx", versionFile "FIndex" 0 index), ("s.fdt", versionFile "FData" 0 data)]
      threeDocumentsTable rfl rfl rfl rfl with
    ⟨r, r₀, hopen, hopen₀, -, -, -, -, hchunks, hdirty, hdocs⟩ | ⟨hmany, -⟩
  · obtain rfl : r' = r := Except.ok.inj (hread.symm.trans hopen)
    exact ⟨w, d₁, hcreate, hfinish, index, data, _, r', r₀, hopen, hopen₀, hchunks, hdirty,
      (hdocs 0 (by decide) none).trans hfirst, (hdocs 1 (by decide) none).trans hsecond⟩
  · exact absurd hmany (by decide)

/-- More than a hundred million documents are each a chunk of their own, before nearly twenty
million chunks of 128 without a field.  The first version of their segment is not opened. -/
theorem uneven_segment_not_opened :
    ∃ w d₁ s d₂ index data numChunks numDirtyChunks bits,
      Writer.create largeBlocks "s" Zstd.uncompressed ⟨.memory [], {}⟩ = (.ok w, d₁) ∧
      Writing.fill (unevenDocuments (2 ^ 27 + 1) (9 * 2 ^ 21)) ⟨w, d₁⟩ = (.ok (), s) ∧
      s.writer.close s.directory = (.ok (), d₂) ∧
      d₂.content? "s.fdx" = some (versionFile "FIndex" 1 index) ∧
      d₂.content? "s.fdt" = some (versionFile "FData" 1
        (data ++ (VarInt.encode numChunks ++ VarInt.encode numDirtyChunks))) ∧
      ∀ table, Reader.openSegment
          ⟨.memory [("s.fdx", versionFile "FIndex" 0 index), ("s.fdt", versionFile "FData" 0 data)],
            {}⟩ largeBlocks "s" (2 ^ 27 + 1 + maxDocsPerChunk * (9 * 2 ^ 21)) table =
        .error (.failed (.corrupt "s.fdx" (.bitsPerDocBase bits))) :=
  @rejected_unevenDocuments (2 ^ 27 + 1) (9 * 2 ^ 21) 17 (by decide) (by decide) (by decide)
    (by decide) (by decide) (by decide)

end Versions

end DocStore.Segment
